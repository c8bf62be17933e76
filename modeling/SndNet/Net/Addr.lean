import SndNet.Common
import SndNet.Library.DigitWord
import Mathlib.Order.Basic

/-!
# Addresses

An address is a key of 32 bytes (`include/net/addr.h`). The router compares addresses byte by byte,
measures their distance on the key space and finds the first hexadecimal digit on which two of them
differ. This file translates these functions of `src/net/addr.c` and proves what the router relies
on: the comparison is a linear order, equal addresses are at distance zero, and the shared leading
digits are an ultrametric.

## Main definitions

* `SndNet.SnNetAddr`: an address.
* `SndNet.snNetAddrCmp`, `SndNet.snNetAddrDist`, `SndNet.snNetAddrIndex`: the comparison, the
  distance and the table index, as the code computes them.
* `SndNet.SnNetAddr.level`, `SndNet.SnNetAddr.column`: the number of leading digits shared with
  another address and the first digit of the other address that differs.

## Main results

* `SndNet.snNetAddrCmp_neg_iff`, `SndNet.snNetAddrCmp_eq_zero_iff`: the comparison is the order of
  the keys as numbers.
* `SndNet.snNetAddrIndex_eq`: the index never fails its assertion and is the level and the column.
* `SndNet.SnNetAddr.index_eq_iff_level_lt`: addresses have one index with respect to a third
  exactly when they share more digits with each other than with it.
-/

namespace SndNet

open FallibleRun

/-- `SN_NET_ADDR_LEN`. -/
abbrev snNetAddrLen : ℕ := 32

/-- `SN_NET_ADDR_HEX_LEN`. -/
abbrev snNetAddrHexLen : ℕ := snNetAddrLen * 2

/-- `sn_net_addr_t`: an address. -/
structure SnNetAddr where
  /-- Address key. -/
  key : CArray UInt8 snNetAddrLen
  deriving DecidableEq

namespace SnNetAddr

/-- The address of zero bytes, which `memset` leaves in an entry. -/
def zero : SnNetAddr := ⟨.replicate _ 0⟩

/-- The address whose key starts with some bytes and goes on with zeros, as an address written
with few hexadecimal digits does. -/
def ofBytes (bs : List UInt8) : SnNetAddr :=
  ⟨bs.take snNetAddrLen ++ List.replicate (snNetAddrLen - bs.length) 0, by
    rw [List.length_append, List.length_take, List.length_replicate]; omega⟩

instance : Inhabited SnNetAddr := ⟨zero⟩

end SnNetAddr

/-! ### The functions of the source -/

/-- The loop of `sn_net_addr_cmp`: the difference of the first bytes that differ. -/
def cmpLoop : List UInt8 → List UInt8 → ℤ
  | a :: as, b :: bs =>
    let d : ℤ := (a.toNat : ℤ) - (b.toNat : ℤ)
    if d ≠ 0 then d else cmpLoop as bs
  | _, _ => 0

/-- `sn_net_addr_cmp` (`src/net/addr.c`, lines 60–74). -/
def snNetAddrCmp (a b : SnNetAddr) : ℤ := cmpLoop a.key.val b.key.val

/-- The loop of `sn_net_addr_dist`, which runs from the last byte to the first: the borrow out of
the bytes read so far, and their differences. The bytes `cb` and `cc` wrap around. -/
def subLoop : List UInt8 → List UInt8 → UInt8 × List UInt8
  | ca :: as, b :: bs =>
    match subLoop as bs with
    | (carry, sub) =>
      let cb := b + carry
      let cc := ca - cb
      (if cb > ca then 1 else 0, cc :: sub)
  | _, _ => (0, [])

@[simp] theorem length_subLoop : ∀ as bs : List UInt8,
    (subLoop as bs).2.length = min as.length bs.length
  | [], _ => by simp [subLoop]
  | _ :: _, [] => by simp [subLoop]
  | _ :: as, _ :: bs => by simp [subLoop, length_subLoop as bs]

/-- `bytestring_negate` (`src/net/addr.c`, lines 171–180). -/
def bytestringNegate (bytestring : List UInt8) : List UInt8 :=
  bytestring.map fun b => 255 ^^^ b

/-- `sn_net_addr_dist` (`src/net/addr.c`, lines 76–103). -/
def snNetAddrDist (a b : SnNetAddr) : SnNetAddr :=
  let sub := (subLoop a.key.val b.key.val).2
  have hsub : sub.length = snNetAddrLen := by simp [sub, a.key.property, b.key.property]
  have hpos : 0 < sub.length := hsub ▸ Nat.succ_pos 31
  if sub[0] ≥ 128 then ⟨⟨bytestringNegate sub, by rw [bytestringNegate, List.length_map, hsub]⟩⟩
  else ⟨⟨sub, hsub⟩⟩

/-- `bytestring_to_hexstring` (`src/net/addr.c`, lines 157–169): the digits of a key, two for each
byte. -/
def bytestringToHexstring : List UInt8 → List UInt8
  | [] => []
  | c :: cs => c / 16 :: c % 16 :: bytestringToHexstring cs

/-- `sn_net_addr_get_hex` (`src/net/addr.c`, lines 36–41). -/
def snNetAddrGetHex (sna : SnNetAddr) : List UInt8 := bytestringToHexstring sna.key.val

/-- The loop of `sn_net_addr_index`: the number of digits that agree, added to `l`, and the first
digit of the second word that differs, or 255. -/
def indexLoop : List UInt8 → List UInt8 → ℕ → ℕ × UInt8
  | a :: as, b :: bs, l => if a = b then indexLoop as bs (l + 1) else (l, b)
  | _, _, l => (l, 255)

/-- `sn_net_addr_index` (`src/net/addr.c`, lines 105–135), with both results. -/
def snNetAddrIndex (self addr : SnNetAddr) : Exec (ℕ × UInt8) := do
  let r := indexLoop (snNetAddrGetHex self) (snNetAddrGetHex addr) 0
  cAssert (r.1 ≤ snNetAddrLen * 2)
  return r

/-! ### The order of the keys -/

namespace SnNetAddr

/-- The key read as a big-endian number. -/
def val (a : SnNetAddr) : ℕ := DigitWord.value 256 (a.key.val.map UInt8.toNat)

theorem lt_of_mem_map_toNat {bs : List UInt8} {d : ℕ} (h : d ∈ bs.map UInt8.toNat) : d < 256 := by
  obtain ⟨b, _, rfl⟩ := List.mem_map.1 h
  exact b.toNat_lt

theorem val_injective : Function.Injective val := by
  rintro ⟨⟨as, ha⟩⟩ ⟨⟨bs, hb⟩⟩ h
  have hlen : (as.map UInt8.toNat).length = (bs.map UInt8.toNat).length := by
    rw [List.length_map, List.length_map, ha, hb]
  have hmap := DigitWord.value_inj hlen (fun d => lt_of_mem_map_toNat)
    (fun d => lt_of_mem_map_toNat) h
  have hbytes : as = bs := List.map_injective_iff.2 (fun _ _ => UInt8.toNat_inj.1) hmap
  subst hbytes
  rfl

instance : LinearOrder SnNetAddr where
  le a b := a.val ≤ b.val
  lt a b := a.val < b.val
  le_refl a := le_refl a.val
  le_trans a b c := le_trans (a := a.val) (b := b.val) (c := c.val)
  lt_iff_le_not_ge a b := lt_iff_le_not_ge (a := a.val) (b := b.val)
  le_antisymm _ _ hab hba := val_injective (le_antisymm hab hba)
  le_total a b := le_total a.val b.val
  toDecidableLE a b := inferInstanceAs (Decidable (a.val ≤ b.val))
  toDecidableEq := inferInstance
  toDecidableLT a b := inferInstanceAs (Decidable (a.val < b.val))

theorem le_def (a b : SnNetAddr) : a ≤ b ↔ a.val ≤ b.val := Iff.rfl

end SnNetAddr

/-- The first digits that differ decide the order of the numbers, in every base. -/
theorem cmpLoop_sign {B : ℕ} : ∀ {as bs : List UInt8}, as.length = bs.length →
    (∀ d ∈ as.map UInt8.toNat, d < B) → (∀ d ∈ bs.map UInt8.toNat, d < B) →
    (cmpLoop as bs < 0 ↔ DigitWord.value B (as.map UInt8.toNat) <
      DigitWord.value B (bs.map UInt8.toNat)) ∧
    (cmpLoop as bs = 0 ↔ as = bs)
  | [], [], _, _, _ => by simp [cmpLoop]
  | [], _ :: _, h, _, _ => by simp at h
  | _ :: _, [], h, _, _ => by simp at h
  | a :: as, b :: bs, h, has, hbs => by
    have hlen : as.length = bs.length := by simpa using h
    have has' : ∀ d ∈ as.map UInt8.toNat, d < B := fun d hd => has d (List.mem_cons_of_mem _ hd)
    have hbs' : ∀ d ∈ bs.map UInt8.toNat, d < B := fun d hd => hbs d (List.mem_cons_of_mem _ hd)
    obtain ⟨ihlt, iheq⟩ := cmpLoop_sign hlen has' hbs'
    rw [List.map_cons, List.map_cons, DigitWord.value_cons_lt_cons_iff (by simpa using hlen) has'
      hbs', ← ihlt, List.cons.injEq, ← iheq, ← UInt8.toNat_inj]
    simp only [cmpLoop]
    split_ifs with hd <;> omega

theorem cmpLoop_key_sign (a b : SnNetAddr) :
    (cmpLoop a.key.val b.key.val < 0 ↔ a < b) ∧
      (cmpLoop a.key.val b.key.val = 0 ↔ a.key.val = b.key.val) :=
  cmpLoop_sign (a.key.property.trans b.key.property.symm)
    (fun _ => SnNetAddr.lt_of_mem_map_toNat) fun _ => SnNetAddr.lt_of_mem_map_toNat

theorem snNetAddrCmp_neg_iff {a b : SnNetAddr} : snNetAddrCmp a b < 0 ↔ a < b :=
  (cmpLoop_key_sign a b).1

theorem snNetAddrCmp_eq_zero_iff {a b : SnNetAddr} : snNetAddrCmp a b = 0 ↔ a = b := by
  rw [snNetAddrCmp, (cmpLoop_key_sign a b).2]
  constructor
  · intro h
    obtain ⟨⟨as, ha⟩⟩ := a
    obtain ⟨⟨bs, hb⟩⟩ := b
    subst h
    rfl
  · rintro rfl
    rfl

theorem snNetAddrCmp_nonpos_iff {a b : SnNetAddr} : snNetAddrCmp a b ≤ 0 ↔ a ≤ b := by
  rw [Int.le_iff_lt_or_eq, snNetAddrCmp_neg_iff, snNetAddrCmp_eq_zero_iff, le_iff_lt_or_eq]

@[simp] theorem snNetAddrCmp_self (a : SnNetAddr) : snNetAddrCmp a a = 0 :=
  snNetAddrCmp_eq_zero_iff.2 rfl

theorem SnNetAddr.val_zero : SnNetAddr.zero.val = 0 := by decide

theorem SnNetAddr.zero_le (a : SnNetAddr) : SnNetAddr.zero ≤ a := by
  rw [SnNetAddr.le_def, SnNetAddr.val_zero]
  exact Nat.zero_le _

/-! ### The distance -/

theorem subLoop_self : ∀ as : List UInt8, subLoop as as = (0, List.replicate as.length 0)
  | [] => rfl
  | a :: as => by
    simp only [subLoop, subLoop_self as, UInt8.add_zero, gt_iff_lt, UInt8.lt_irrefl, ↓reduceIte,
      UInt8.sub_self, List.length_cons, List.replicate_succ]

/-- An address is at distance zero from itself. -/
theorem snNetAddrDist_self (a : SnNetAddr) : snNetAddrDist a a = SnNetAddr.zero := by
  have h : (subLoop a.key.val a.key.val).2 = List.replicate snNetAddrLen 0 := by
    rw [subLoop_self, a.key.property]
  simp only [snNetAddrDist, h]
  rfl

/-! ### The index -/

namespace SnNetAddr

/-- The number of leading hexadecimal digits that two addresses share. -/
def level (a b : SnNetAddr) : ℕ := DigitWord.commonPrefix (snNetAddrGetHex a) (snNetAddrGetHex b)

/-- The first hexadecimal digit of `b` that differs from `a`, or 255 when the addresses agree. -/
def column (a b : SnNetAddr) : UInt8 := (snNetAddrGetHex b)[level a b]?.getD 255

end SnNetAddr

@[simp] theorem length_bytestringToHexstring :
    ∀ cs : List UInt8, (bytestringToHexstring cs).length = cs.length * 2
  | [] => rfl
  | _ :: cs => by simp [bytestringToHexstring, length_bytestringToHexstring cs]; ring

theorem lt_of_mem_bytestringToHexstring :
    ∀ {cs : List UInt8} {d : UInt8}, d ∈ bytestringToHexstring cs → d < 16
  | [], _, h => by simp [bytestringToHexstring] at h
  | c :: cs, d, h => by
    simp only [bytestringToHexstring, List.mem_cons] at h
    rcases h with rfl | rfl | h
    · have := c.toNat_lt
      rw [UInt8.lt_iff_toNat_lt, UInt8.toNat_div]
      simp
      omega
    · rw [UInt8.lt_iff_toNat_lt, UInt8.toNat_mod]
      exact Nat.mod_lt _ (by decide)
    · exact lt_of_mem_bytestringToHexstring h

theorem bytestringToHexstring_injective : Function.Injective bytestringToHexstring
  | [], [], _ => rfl
  | [], _ :: _, h => by simp [bytestringToHexstring] at h
  | _ :: _, [], h => by simp [bytestringToHexstring] at h
  | a :: as, b :: bs, h => by
    simp only [bytestringToHexstring, List.cons.injEq] at h
    obtain ⟨hdiv, hmod, hrest⟩ := h
    have hab : a = b := by
      rw [← UInt8.toNat_inj] at hdiv hmod ⊢
      simp only [UInt8.toNat_div, UInt8.toNat_mod] at hdiv hmod
      simp at hdiv hmod
      omega
    rw [hab, bytestringToHexstring_injective hrest]

@[simp] theorem length_snNetAddrGetHex (a : SnNetAddr) :
    (snNetAddrGetHex a).length = snNetAddrHexLen := by
  rw [snNetAddrGetHex, length_bytestringToHexstring, a.key.property]

theorem snNetAddrGetHex_injective : Function.Injective snNetAddrGetHex := by
  rintro ⟨⟨as, ha⟩⟩ ⟨⟨bs, hb⟩⟩ h
  obtain rfl : as = bs := bytestringToHexstring_injective h
  rfl

theorem indexLoop_eq : ∀ (as bs : List UInt8) (l : ℕ), as.length = bs.length →
    indexLoop as bs l = (l + DigitWord.commonPrefix as bs,
      bs[DigitWord.commonPrefix as bs]?.getD 255)
  | [], [], l, _ => by simp [indexLoop, DigitWord.commonPrefix]
  | [], _ :: _, _, h => by simp at h
  | _ :: _, [], _, h => by simp at h
  | a :: as, b :: bs, l, h => by
    by_cases hab : a = b
    · have ih := indexLoop_eq as bs (l + 1) (by simpa using h)
      simp only [indexLoop, hab, ↓reduceIte, ih, DigitWord.commonPrefix, List.getElem?_cons_succ,
        Prod.mk.injEq, and_true]
      ring
    · simp [indexLoop, hab, DigitWord.commonPrefix]

namespace SnNetAddr

theorem level_le (a b : SnNetAddr) : level a b ≤ snNetAddrHexLen := by
  rw [← length_snNetAddrGetHex a]
  exact DigitWord.commonPrefix_le_left _ _

end SnNetAddr

/-- The index never fails its assertion: it is the level and the column. -/
theorem snNetAddrIndex_eq (self addr : SnNetAddr) :
    snNetAddrIndex self addr = .ok (self.level addr, self.column addr) := by
  rw [snNetAddrIndex, indexLoop_eq _ _ _ (by simp), Nat.zero_add]
  exact cAssert_of (SnNetAddr.level_le self addr) ▸ rfl

namespace SnNetAddr

variable {a b c : SnNetAddr}

theorem level_comm (a b : SnNetAddr) : level a b = level b a := DigitWord.commonPrefix_comm _ _

@[simp] theorem level_self (a : SnNetAddr) : level a a = snNetAddrHexLen := by
  rw [level, DigitWord.commonPrefix_self, length_snNetAddrGetHex]

theorem level_eq_iff : level a b = snNetAddrHexLen ↔ a = b := by
  constructor
  · intro h
    exact snNetAddrGetHex_injective (DigitWord.eq_of_commonPrefix_eq_length (by simp) (by simpa))
  · rintro rfl
    exact level_self a

theorem level_lt_iff : level a b < snNetAddrHexLen ↔ a ≠ b := by
  rw [Ne, ← level_eq_iff, lt_iff_le_and_ne, and_iff_right (level_le a b)]

/-- What two addresses share is at least the shorter of what they share with a third. -/
theorem min_level_le (a b c : SnNetAddr) : min (level a b) (level b c) ≤ level a c :=
  DigitWord.min_commonPrefix_le _ _ _

/-- The digits on which two addresses first differ. -/
theorem column_eq_getElem (h : a ≠ b) :
    ∃ hlt : level a b < (snNetAddrGetHex b).length,
      column a b = (snNetAddrGetHex b)[level a b] := by
  have hlt : level a b < (snNetAddrGetHex b).length := by
    rw [length_snNetAddrGetHex]
    exact level_lt_iff.2 h
  exact ⟨hlt, by rw [column, List.getElem?_eq_getElem hlt, Option.getD_some]⟩

theorem column_lt (h : a ≠ b) : column a b < 16 := by
  obtain ⟨hlt, hcol⟩ := column_eq_getElem h
  rw [hcol]
  exact lt_of_mem_bytestringToHexstring (List.getElem_mem hlt)

/-- Two addresses have one index with respect to `a` exactly when they share more digits with each
other than with `a`. -/
theorem index_eq_iff_level_lt (hb : a ≠ b) (hc : a ≠ c) :
    level a b = level a c ∧ column a b = column a c ↔ level a b < level b c := by
  obtain ⟨hlt, hcolb⟩ := column_eq_getElem hb
  obtain ⟨hltc, hcolc⟩ := column_eq_getElem hc
  constructor
  · rintro ⟨hlev, hcol⟩
    have hltc' : level a b < (snNetAddrGetHex c).length := hlev ▸ hltc
    refine @DigitWord.commonPrefix_lt_of_getElem_eq _ _ (snNetAddrGetHex a) _ _ _ le_rfl hlev.le
      hlt hltc' ?_
    simp only [hlev] at hcolb
    simp only [hlev]
    rw [← hcolb, ← hcolc, hcol]
  · intro h
    have hlev : level a b = level a c := by
      refine le_antisymm ?_ ?_
      · simpa [h.le] using min_level_le a b c
      · have := min_level_le a c b
        rw [level_comm c b] at this
        omega
    refine ⟨hlev, ?_⟩
    rw [hcolb, hcolc]
    simp only [← hlev]
    exact DigitWord.getElem_eq_of_lt_commonPrefix h _ _

theorem value_bytestringToHexstring : ∀ cs : List UInt8,
    DigitWord.value 16 ((bytestringToHexstring cs).map UInt8.toNat) =
      DigitWord.value 256 (cs.map UInt8.toNat)
  | [] => rfl
  | c :: cs => by
    have ih := value_bytestringToHexstring cs
    have hc : c.toNat = c.toNat / 16 * 16 + c.toNat % 16 := (Nat.div_add_mod' _ _).symm
    have hpow : (256 : ℕ) ^ cs.length = 16 ^ (cs.length * 2) := by
      rw [Nat.mul_comm, pow_mul]
      norm_num
    simp only [bytestringToHexstring, List.map_cons, DigitWord.value, ih, List.length_cons,
      List.length_map, length_bytestringToHexstring, hpow]
    have hdiv : (c / 16).toNat = c.toNat / 16 := by simp
    have hmod : (c % 16).toNat = c.toNat % 16 := by simp
    rw [hdiv, hmod]
    nth_rewrite 3 [hc]
    ring

/-- A smaller address shares at least as many digits with the address of zero bytes. -/
theorem level_zero_anti (h : a ≤ b) : level b .zero ≤ level a .zero := by
  have hlevel : ∀ c : SnNetAddr, level c .zero = DigitWord.commonPrefix
      ((snNetAddrGetHex c).map UInt8.toNat) (List.replicate snNetAddrHexLen 0) := by
    intro c
    rw [level, ← DigitWord.commonPrefix_map (fun _ _ => UInt8.toNat_inj.1)]
    rfl
  have hdigits : ∀ c : SnNetAddr, ∀ d ∈ (snNetAddrGetHex c).map UInt8.toNat, d < 16 := by
    intro c d hd
    obtain ⟨b, hb, rfl⟩ := List.mem_map.1 hd
    exact UInt8.lt_iff_toNat_lt.1 (lt_of_mem_bytestringToHexstring hb)
  rw [hlevel, hlevel]
  refine DigitWord.commonPrefix_replicate_zero_le _ (by simp) (hdigits a) (hdigits b) ?_
  rw [snNetAddrGetHex, snNetAddrGetHex, value_bytestringToHexstring, value_bytestringToHexstring]
  exact (le_def a b).1 h

end SnNetAddr

end SndNet
