import Mathlib.Data.Int.Notation
import SndNet.Common

/-!
# Signatures

Packets are signed with the Ed25519 functions of an external library (`src/crypto/sign.c`). The
functions are a parameter here. Of their properties only one is assumed: a signature made with a
secret key is accepted under the public key of that secret key.

## Main definitions

* `SndNet.SnCryptoSignKey`, `SndNet.SnCryptoSignPubkey`, `SndNet.SnCryptoSign`: secret keys, public
  keys and signatures.
* `SndNet.SignScheme`: the external functions; `SndNet.SignScheme.plain` is an example.
* `SndNet.snCryptoSign`, `SndNet.snCryptoSignCheck`, `SndNet.snCryptoSignPkFromSk`: the functions of
  the source.
-/

namespace SndNet

/-- `crypto_sign_PUBLICKEYBYTES`. -/
abbrev cryptoSignPublickeybytes : ℕ := 32

/-- `crypto_sign_SECRETKEYBYTES`. -/
abbrev cryptoSignSecretkeybytes : ℕ := 64

/-- `crypto_sign_BYTES`. -/
abbrev cryptoSignBytes : ℕ := 64

/-- `sn_crypto_sign_pubkey_t`: a public key. -/
structure SnCryptoSignPubkey where
  pk : CArray UInt8 cryptoSignPublickeybytes
  deriving DecidableEq

/-- `sn_crypto_sign_key_t`: a secret key. -/
structure SnCryptoSignKey where
  sk : CArray UInt8 cryptoSignSecretkeybytes
  deriving DecidableEq

/-- `sn_crypto_sign_t`: a signature. -/
structure SnCryptoSign where
  signature : CArray UInt8 cryptoSignBytes
  deriving DecidableEq

/-- The external functions, with the law that a signature is accepted under the public key of the
secret key that made it. -/
structure SignScheme where
  /-- `crypto_sign_detached`: the signature of a message under a secret key. -/
  cryptoSignDetached : List UInt8 → SnCryptoSignKey → SnCryptoSign
  /-- `crypto_sign_verify_detached`: zero when the signature of a message is correct under a public
  key. -/
  cryptoSignVerifyDetached : SnCryptoSign → List UInt8 → SnCryptoSignPubkey → ℤ
  /-- `crypto_sign_ed25519_sk_to_pk`: the public key of a secret key. -/
  cryptoSignEd25519SkToPk : SnCryptoSignKey → SnCryptoSignPubkey
  /-- A signature is correct under the public key of its secret key. -/
  verify_sign : ∀ sk m,
    cryptoSignVerifyDetached (cryptoSignDetached m sk) m (cryptoSignEd25519SkToPk sk) = 0

/-- A scheme without secrets: the public key is the first half of the secret key, and a signature
is the public key followed by the start of the message. -/
def SignScheme.plain : SignScheme where
  cryptoSignDetached m sk := ⟨.padded _ (sk.sk.val.take cryptoSignPublickeybytes ++ m) 0⟩
  cryptoSignVerifyDetached sign m pk := if sign = ⟨.padded _ (pk.pk.val ++ m) 0⟩ then 0 else -1
  cryptoSignEd25519SkToPk sk := ⟨⟨sk.sk.val.take cryptoSignPublickeybytes, by
    rw [List.length_take, sk.sk.property]; rfl⟩⟩
  verify_sign _ _ := if_pos rfl

variable (S : SignScheme)

/-- `sn_crypto_sign` (`src/crypto/sign.c`, lines 14–20). -/
def snCryptoSign (sk : SnCryptoSignKey) (m : List UInt8) : SnCryptoSign :=
  S.cryptoSignDetached m sk

/-- `sn_crypto_sign_check` (`src/crypto/sign.c`, lines 22–28). -/
def snCryptoSignCheck (sign : SnCryptoSign) (pk : SnCryptoSignPubkey) (m : List UInt8) : ℤ :=
  S.cryptoSignVerifyDetached sign m pk

/-- `sn_crypto_sign_pk_from_sk` (`src/crypto/sign.c`, lines 30–35). -/
def snCryptoSignPkFromSk (sk : SnCryptoSignKey) : SnCryptoSignPubkey :=
  S.cryptoSignEd25519SkToPk sk

/-- A signature checks under the public key of the key that made it. -/
theorem snCryptoSignCheck_sign (sk : SnCryptoSignKey) (m : List UInt8) :
    snCryptoSignCheck S (snCryptoSign S sk m) (snCryptoSignPkFromSk S sk) m = 0 :=
  S.verify_sign sk m

end SndNet
