import SndNet.Net.Entry
import SndNet.Wire

/-!
# Serialised entries

An entry is sent as a record with its flag, its address and its network address
(`include/net/entry.h`). The network address is a tagged union (`include/io/naddr.h`): an IPv4
address with a port, or a path. This file translates the functions of `src/io/naddr.c` and
`src/net/entry.c` that write and read such a record. They write into a record and an entry that hold
something before, and leave alone what they do not write. `sn_io_naddr_ser` does not write the port
of an IPv4 address, which `sn_io_naddr_deser` reads.

## Main definitions

* `SndNet.SnIoNaddrSer`, `SndNet.SnNetEntrySer`: the records.
* `SndNet.snIoNaddrSer`, `SndNet.snIoNaddrDeser`, `SndNet.snNetEntrySer`, `SndNet.snNetEntryDeser`:
  writing and reading them.
* `SndNet.SameNaddr`: network addresses of the same node.
* `SndNet.RoundTrips`: an entry is read back as it was written.

## Main results

* `SndNet.roundTrips_iff`: the entries that are read back.
-/

namespace SndNet

open ByteLayout

/-! ### The records -/

/-- `AF_UNIX`. -/
abbrev afUnix : UInt16 := 1

/-- `AF_INET`. -/
abbrev afInet : UInt16 := 2

/-- `SN_IO_NADDR_MAX_PATH_LEN`. -/
abbrev snIoNaddrMaxPathLen : ℕ := 14

namespace SnIoNaddr

/-- `sin_port` of a `struct sockaddr_in`. -/
def sinPort (addr : SnIoNaddr) : List UInt8 := slice 0 2 addr.saData.val

/-- `sin_addr` of a `struct sockaddr_in`. -/
def sinAddr (addr : SnIoNaddr) : List UInt8 := slice 2 4 addr.saData.val

/-- The first bytes of `sun_path` of a `struct sockaddr_un`. -/
def sunPath (addr : SnIoNaddr) : List UInt8 := addr.saData.val

end SnIoNaddr

/-- `sn_io_naddr_ser_t`: a serialised network address, with the union of its longest member. -/
structure SnIoNaddrSer where
  type : UInt8
  union : CArray UInt8 snIoNaddrMaxPathLen
  deriving DecidableEq

namespace SnIoNaddrSer

/-- `inet.ipv4`. -/
def ipv4 (ser : SnIoNaddrSer) : List UInt8 := slice 0 4 ser.union.val

/-- `inet.port`. -/
def port (ser : SnIoNaddrSer) : List UInt8 := slice 4 2 ser.union.val

/-- `local_path`. -/
def localPath (ser : SnIoNaddrSer) : List UInt8 := ser.union.val

end SnIoNaddrSer

/-- `sn_net_entry_ser_t`: a serialised entry. -/
structure SnNetEntrySer where
  isSet : UInt8
  addr : SnNetAddrSer
  netAddr : SnIoNaddrSer
  deriving DecidableEq

/-- An array with the elements from the offset `off` on overwritten by `bs`. -/
def CArray.splice {α : Type*} {n : ℕ} (a : CArray α n) (off : ℕ) (bs : List α)
    (h : off + bs.length ≤ n) : CArray α n :=
  ⟨ByteLayout.splice off bs a.val, by
    rw [length_splice (a.property.symm ▸ h), a.property]⟩

namespace CArray

variable {α : Type*} {n m off i : ℕ} {bs : List α} (a : CArray α n)

theorem slice_splice_self (h : off + bs.length ≤ n) (hm : bs.length = m) :
    slice off m (a.splice off bs h).val = bs :=
  ByteLayout.slice_splice_self (by rw [a.property]; omega) hm

theorem slice_splice_before (h : off + bs.length ≤ n) (hi : i + m ≤ off) :
    slice i m (a.splice off bs h).val = slice i m a.val :=
  ByteLayout.slice_splice_before (by rw [a.property]; omega) hi

theorem slice_splice_after (h : off + bs.length ≤ n) (hi : off + bs.length ≤ i) :
    slice i m (a.splice off bs h).val = slice i m a.val :=
  ByteLayout.slice_splice_after (by rw [a.property]; omega) hi

end CArray

/-! ### The functions of the source -/

/-- `sn_io_naddr_ser` (`src/io/naddr.c`, lines 116–135): the return value and the record that held
`ser` before. -/
def snIoNaddrSer (addr : SnIoNaddr) (ser : SnIoNaddrSer) : ℤ × SnIoNaddrSer :=
  if addr.saFamily = afInet then
    (0, ⟨1, ser.union.splice 0 addr.sinAddr (by
      rw [SnIoNaddr.sinAddr, length_slice (by rw [addr.saData.property]; decide)]; decide)⟩)
  else if addr.saFamily = afUnix then (0, ⟨2, addr.saData⟩)
  else (-1, ser)

/-- `sn_io_naddr_deser` (`src/io/naddr.c`, lines 137–155): the return value and the network address
that was `addr` before. -/
def snIoNaddrDeser (addr : SnIoNaddr) (ser : SnIoNaddrSer) : ℤ × SnIoNaddr :=
  if ser.type = 1 then
    (0, ⟨afInet, (addr.saData.splice 0 ser.port (by
      rw [SnIoNaddrSer.port, length_slice (by rw [ser.union.property]; decide)]; decide)).splice
        2 ser.ipv4 (by
          rw [SnIoNaddrSer.ipv4, length_slice (by rw [ser.union.property]; decide)]; decide)⟩)
  else if ser.type = 2 then (0, ⟨afUnix, ser.union⟩)
  else (-1, addr)

/-- `sn_net_entry_ser` (`src/net/entry.c`, lines 119–132). -/
def snNetEntrySer (sne : SnNetEntry) (ser : SnNetEntrySer) : ℤ × SnNetEntrySer :=
  let r := snIoNaddrSer sne.netAddr ser.netAddr
  let ser' : SnNetEntrySer := ⟨sne.isSet, snNetAddrSer sne.addr, r.2⟩
  if r.1 < 0 then (-1, ser') else (0, ser')

/-- `sn_net_entry_deser` (`src/net/entry.c`, lines 134–147). -/
def snNetEntryDeser (sne : SnNetEntry) (ser : SnNetEntrySer) : ℤ × SnNetEntry :=
  let r := snIoNaddrDeser sne.netAddr ser.netAddr
  let sne' : SnNetEntry := ⟨ser.isSet, snNetAddrDeser ser.addr, r.2⟩
  if r.1 < 0 then (-1, sne') else (0, sne')

/-! ### Network addresses -/

/-- Network addresses of the same node: of one family, with one IPv4 address and port or one
path. -/
def SameNaddr (a b : SnIoNaddr) : Prop :=
  a.saFamily = b.saFamily ∧
    if a.saFamily = afInet then a.sinAddr = b.sinAddr ∧ a.sinPort = b.sinPort
    else a.sunPath = b.sunPath

instance (a b : SnIoNaddr) : Decidable (SameNaddr a b) :=
  inferInstanceAs (Decidable (a.saFamily = b.saFamily ∧
    if a.saFamily = afInet then a.sinAddr = b.sinAddr ∧ a.sinPort = b.sinPort
    else a.sunPath = b.sunPath))

section Naddr

variable {addr : SnIoNaddr} {ser : SnIoNaddrSer}

theorem length_sinAddr (addr : SnIoNaddr) : addr.sinAddr.length = 4 :=
  length_slice (by rw [addr.saData.property]; decide)

theorem length_port (ser : SnIoNaddrSer) : ser.port.length = 2 :=
  length_slice (by rw [ser.union.property]; decide)

/-- The record of an IPv4 address has the IPv4 address, and the port that was in the memory. -/
theorem snIoNaddrSer_inet (h : addr.saFamily = afInet) (ser : SnIoNaddrSer) :
    (snIoNaddrSer addr ser).1 = 0 ∧ (snIoNaddrSer addr ser).2.type = 1 ∧
      (snIoNaddrSer addr ser).2.ipv4 = addr.sinAddr ∧
      (snIoNaddrSer addr ser).2.port = ser.port := by
  rw [snIoNaddrSer, if_pos h]
  have hlen := length_sinAddr addr
  refine ⟨rfl, rfl, ?_, ?_⟩
  · rw [SnIoNaddrSer.ipv4, CArray.slice_splice_self _ _ hlen]
  · rw [SnIoNaddrSer.port, CArray.slice_splice_after _ _ (by rw [hlen])]
    rfl

/-- The record of a path has the path. -/
theorem snIoNaddrSer_unix (h : addr.saFamily = afUnix) :
    snIoNaddrSer addr ser = (0, ⟨2, addr.saData⟩) := by
  rw [snIoNaddrSer, if_neg (by rw [h]; decide), if_pos h]

/-- A record of an IPv4 address is read whole. -/
theorem snIoNaddrDeser_inet (h : ser.type = 1) (target : SnIoNaddr) :
    (snIoNaddrDeser target ser).1 = 0 ∧ (snIoNaddrDeser target ser).2.saFamily = afInet ∧
      (snIoNaddrDeser target ser).2.sinAddr = ser.ipv4 ∧
      (snIoNaddrDeser target ser).2.sinPort = ser.port := by
  have hipv4 : ser.ipv4.length = 4 := length_slice (by rw [ser.union.property]; decide)
  rw [snIoNaddrDeser, if_pos h]
  refine ⟨rfl, rfl, ?_, ?_⟩
  · rw [SnIoNaddr.sinAddr, CArray.slice_splice_self _ _ hipv4]
  · rw [SnIoNaddr.sinPort, CArray.slice_splice_before _ _ le_rfl,
      CArray.slice_splice_self _ _ (length_port ser)]

end Naddr

/-- An entry is written when the family of its network address can be serialised. -/
theorem snNetEntrySer_eq_zero_iff {e : SnNetEntry} (ser : SnNetEntrySer) :
    (snNetEntrySer e ser).1 = 0 ↔ e.netAddr.saFamily = afInet ∨ e.netAddr.saFamily = afUnix := by
  by_cases hinet : e.netAddr.saFamily = afInet
  · simp [snNetEntrySer, snIoNaddrSer, hinet]
  · by_cases hunix : e.netAddr.saFamily = afUnix
    · simp [snNetEntrySer, snIoNaddrSer_unix hunix, hunix]
    · simp [snNetEntrySer, snIoNaddrSer, hinet, hunix]

/-! ### The round trip -/

/-- An entry is read back as it was written: both functions return 0, and the flag, the address and
the network address are those of the entry. -/
def RoundTrips (sne : SnNetEntry) (ser : SnNetEntrySer) (target : SnNetEntry) : Prop :=
  (snNetEntrySer sne ser).1 = 0 ∧
  (snNetEntryDeser target (snNetEntrySer sne ser).2).1 = 0 ∧
  (snNetEntryDeser target (snNetEntrySer sne ser).2).2.isSet = sne.isSet ∧
  (snNetEntryDeser target (snNetEntrySer sne ser).2).2.addr = sne.addr ∧
  SameNaddr (snNetEntryDeser target (snNetEntrySer sne ser).2).2.netAddr sne.netAddr

section RoundTrip

variable {sne : SnNetEntry} (ser : SnNetEntrySer) (target : SnNetEntry)

/-- An entry with a path is read back. -/
theorem roundTrips_unix (h : sne.netAddr.saFamily = afUnix) : RoundTrips sne ser target := by
  have hser : snNetEntrySer sne ser =
      (0, ⟨sne.isSet, snNetAddrSer sne.addr, 2, sne.netAddr.saData⟩) := by
    simp [snNetEntrySer, snIoNaddrSer_unix h]
  have hdeser : snNetEntryDeser target ⟨sne.isSet, snNetAddrSer sne.addr, 2, sne.netAddr.saData⟩ =
      (0, ⟨sne.isSet, sne.addr, afUnix, sne.netAddr.saData⟩) := by
    simp [snNetEntryDeser, snIoNaddrDeser]
  rw [RoundTrips, hser, hdeser]
  exact ⟨rfl, rfl, rfl, rfl, h.symm, rfl⟩

/-- An entry with an IPv4 address is read back when its port was in the memory. -/
theorem roundTrips_inet_iff (h : sne.netAddr.saFamily = afInet) :
    RoundTrips sne ser target ↔ ser.netAddr.port = sne.netAddr.sinPort := by
  obtain ⟨hret, htype, hipv4, hport⟩ := snIoNaddrSer_inet h ser.netAddr
  have hser : snNetEntrySer sne ser =
      (0, ⟨sne.isSet, snNetAddrSer sne.addr, (snIoNaddrSer sne.netAddr ser.netAddr).2⟩) := by
    simp [snNetEntrySer, hret]
  obtain ⟨hret', hfamily, haddr, hport'⟩ := snIoNaddrDeser_inet htype target.netAddr
  have hdeser : snNetEntryDeser target (snNetEntrySer sne ser).2 = (0, ⟨sne.isSet, sne.addr,
      (snIoNaddrDeser target.netAddr (snIoNaddrSer sne.netAddr ser.netAddr).2).2⟩) := by
    simp [hser, snNetEntryDeser, hret']
  rw [RoundTrips, hdeser, hser, SameNaddr, hfamily, if_pos rfl, haddr, hipv4, hport', hport, h]
  simp

end RoundTrip

/-- **Which entries are read back.** Whatever the record and the entry held before, an entry is read
back exactly when it has a path, or has an IPv4 address and the record held its port already. -/
theorem roundTrips_iff (sne : SnNetEntry) (ser : SnNetEntrySer) (target : SnNetEntry) :
    RoundTrips sne ser target ↔ sne.netAddr.saFamily = afUnix ∨
      sne.netAddr.saFamily = afInet ∧ ser.netAddr.port = sne.netAddr.sinPort := by
  by_cases hinet : sne.netAddr.saFamily = afInet
  · have hunix : sne.netAddr.saFamily ≠ afUnix := by
      rw [hinet]
      decide
    rw [roundTrips_inet_iff ser target hinet, or_iff_right hunix, and_iff_right hinet]
  · rw [or_iff_left fun h => hinet h.1]
    refine ⟨fun h => ?_, roundTrips_unix ser target⟩
    exact ((snNetEntrySer_eq_zero_iff ser).1 h.1).resolve_left hinet

/-- The entry of the tests, on b16b002 at INET:9.8.7.6:54321. -/
def entryOnInet : SnNetEntry :=
  ⟨1, .ofBytes [0xb1, 0x6b, 0x00, 0x20], afInet, .padded _ [0xd4, 0x31, 9, 8, 7, 6] 0⟩

/-- It is not read back from a record that held zero bytes. -/
theorem not_roundTrips_entryOnInet :
    ¬ RoundTrips entryOnInet ⟨0, snNetAddrSer .zero, 0, .replicate _ 0⟩ .zero := by
  rw [roundTrips_inet_iff _ _ (by decide)]
  decide

end SndNet
