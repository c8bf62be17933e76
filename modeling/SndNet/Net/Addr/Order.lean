import Mathlib.Data.List.GetD
import SndNet.Library.CString
import SndNet.Net.Addr.Hex

/-!
# Four views of an address

The leafsets are ordered by the bytes of addresses (`src/net/addr.c`, lines 60–74), the table is
indexed by their hexadecimal digits (lines 105–135), distances are numbers, and people read the
texts (lines 43–58). The first byte, digit and character in which two addresses differ tell the same
story, also where one text goes on when the other has come to its end.

## Main definitions

* `SndNet.SnNetAddr.nibble`: a hexadecimal digit of an address.

## Main results

* `SndNet.cmpLoop_eq_sub`: a comparison is the difference at the end of the common prefix.
* `SndNet.strcmp_addrText_neg_iff`: the order of the texts is the order of the addresses.
* `SndNet.addr_views_agree`: the comparison, the numbers, the texts and the index agree.
-/

namespace SndNet

open CString FallibleRun

/-! ### Digits -/

/-- The hexadecimal digit at a place, two for each byte, the high one first. -/
def SnNetAddr.nibble (a : SnNetAddr) (i : ℕ) : ℕ :=
  if i % 2 = 0 then (a.key.val.getD (i / 2) 0).toNat / 16
  else (a.key.val.getD (i / 2) 0).toNat % 16

theorem toNat_getD_bytestringToHexstring : ∀ (cs : List UInt8) (i : ℕ),
    ((bytestringToHexstring cs).getD i 0).toNat =
      if i % 2 = 0 then (cs.getD (i / 2) 0).toNat / 16 else (cs.getD (i / 2) 0).toNat % 16
  | [], i => by simp [bytestringToHexstring]
  | c :: cs, 0 => by simp [bytestringToHexstring]
  | c :: cs, 1 => by simp [bytestringToHexstring]
  | c :: cs, i + 2 => by
    have ih := toNat_getD_bytestringToHexstring cs i
    have hdiv : (i + 2) / 2 = i / 2 + 1 := by omega
    have hmod : (i + 2) % 2 = i % 2 := by omega
    rw [bytestringToHexstring, List.getD_cons_succ, List.getD_cons_succ, ih, hdiv, hmod,
      List.getD_cons_succ]

theorem toNat_getD_snNetAddrGetHex (a : SnNetAddr) (i : ℕ) :
    ((snNetAddrGetHex a).getD i 0).toNat = a.nibble i :=
  toNat_getD_bytestringToHexstring a.key.val i

theorem nibble_eq_of_lt_level {a b : SnNetAddr} {i : ℕ} (h : i < a.level b) :
    a.nibble i = b.nibble i := by
  have hlt : i < snNetAddrHexLen := Nat.lt_of_lt_of_le h (SnNetAddr.level_le a b)
  have hdigit := DigitWord.getElem_eq_of_lt_commonPrefix h (by simpa) (by simpa)
  rw [← toNat_getD_snNetAddrGetHex, ← toNat_getD_snNetAddrGetHex,
    List.getD_eq_getElem _ _ (by simpa), List.getD_eq_getElem _ _ (by simpa), hdigit]

theorem nibble_level {a b : SnNetAddr} (h : a ≠ b) : b.nibble (a.level b) = (a.column b).toNat := by
  obtain ⟨hlt, hcolumn⟩ := SnNetAddr.column_eq_getElem h
  rw [← toNat_getD_snNetAddrGetHex, List.getD_eq_getElem _ _ hlt, hcolumn]

/-! ### Comparison -/

theorem cmpLoop_cons_self (a : UInt8) (as bs : List UInt8) :
    cmpLoop (a :: as) (a :: bs) = cmpLoop as bs := if_neg (not_not.2 (sub_self _))

theorem cmpLoop_cons_of_ne {a b : UInt8} (h : a ≠ b) (as bs : List UInt8) :
    cmpLoop (a :: as) (b :: bs) = (a.toNat : ℤ) - b.toNat :=
  if_pos (sub_ne_zero.2 fun heq => h (UInt8.toNat_inj.1 (Nat.cast_inj.1 heq)))

/-- A comparison is the difference at the end of the common prefix. -/
theorem cmpLoop_eq_sub : ∀ {as bs : List UInt8}, as.length = bs.length →
    cmpLoop as bs = ((as.getD (DigitWord.commonPrefix as bs) 0).toNat : ℤ) -
      (bs.getD (DigitWord.commonPrefix as bs) 0).toNat
  | [], [], _ => by simp [cmpLoop]
  | [], _ :: _, h => by simp at h
  | _ :: _, [], h => by simp at h
  | a :: as, b :: bs, h => by
    by_cases hab : a = b
    · subst hab
      rw [DigitWord.commonPrefix, if_pos rfl, List.getD_cons_succ, List.getD_cons_succ,
        cmpLoop_cons_self, cmpLoop_eq_sub (by simpa using h)]
    · rw [DigitWord.commonPrefix, if_neg hab, List.getD_cons_zero, List.getD_cons_zero,
        cmpLoop_cons_of_ne hab]

/-- The comparison of the digits is the order of the addresses. -/
theorem cmpLoop_hex_neg_iff (a b : SnNetAddr) :
    cmpLoop (snNetAddrGetHex a) (snNetAddrGetHex b) < 0 ↔ a < b := by
  have hdigits (c : SnNetAddr) : ∀ d ∈ (snNetAddrGetHex c).map UInt8.toNat, d < 16 := by
    intro d hd
    obtain ⟨e, he, rfl⟩ := List.mem_map.1 hd
    exact UInt8.lt_iff_toNat_lt.1 (lt_of_mem_bytestringToHexstring he)
  have hlen : (snNetAddrGetHex a).length = (snNetAddrGetHex b).length := by simp
  rw [(cmpLoop_sign hlen (hdigits a) (hdigits b)).1, snNetAddrGetHex, snNetAddrGetHex,
    SnNetAddr.value_bytestringToHexstring, SnNetAddr.value_bytestringToHexstring]
  rfl

/-- The order of two addresses is decided by the digits in which they differ first. -/
theorem lt_iff_nibble_level (a b : SnNetAddr) :
    a < b ↔ a.nibble (a.level b) < b.nibble (a.level b) := by
  rw [← cmpLoop_hex_neg_iff, cmpLoop_eq_sub (by simp), ← toNat_getD_snNetAddrGetHex,
    ← toNat_getD_snNetAddrGetHex, sub_neg, Nat.cast_lt]
  rfl

/-! ### Texts -/

/-- Texts without zeros are compared as keys are. -/
theorem strcmp_eq_cmpLoop : ∀ {s t : List UInt8}, s.length = t.length → (∀ c ∈ s, c ≠ 0) →
    strcmp s t = cmpLoop s t
  | [], [], _, _ => rfl
  | [], _ :: _, h, _ => by simp at h
  | _ :: _, [], h, _ => by simp at h
  | c :: s, d :: t, h, hs => by
    have ih := strcmp_eq_cmpLoop (s := s) (t := t) (by simpa using h) fun e he =>
      hs e (List.mem_cons_of_mem _ he)
    by_cases hcd : c = d
    · subst hcd
      rw [strcmp_cons_self (hs c List.mem_cons_self), cmpLoop_cons_self, ih]
    · rw [strcmp_cons_of_ne hcd, cmpLoop_cons_of_ne hcd]

theorem toNat_printableDigit {d : UInt8} (hd : d < 16) :
    (printableDigit d).toNat = if d < 10 then 48 + d.toNat else 87 + d.toNat := by
  have hd' : d.toNat < 16 := UInt8.lt_iff_toNat_lt.1 hd
  rw [printableDigit]
  split_ifs
  · rw [UInt8.toNat_add]
    exact Nat.mod_eq_of_lt (show 48 + d.toNat < 256 by omega)
  · rw [UInt8.toNat_add]
    exact Nat.mod_eq_of_lt (show 87 + d.toNat < 256 by omega)

/-- Digits are printed in their order. -/
theorem printableDigit_lt_iff {d e : UInt8} (hd : d < 16) (he : e < 16) :
    printableDigit d < printableDigit e ↔ d < e := by
  have hten : (10 : UInt8).toNat = 10 := rfl
  rw [UInt8.lt_iff_toNat_lt, toNat_printableDigit hd, toNat_printableDigit he]
  simp only [UInt8.lt_iff_toNat_lt, hten]
  split_ifs <;> omega

/-- Printed digits are compared as the digits are. -/
theorem cmpLoop_map_printableDigit_neg_iff : ∀ {ds es : List UInt8}, ds.length = es.length →
    (∀ d ∈ ds, d < 16) → (∀ e ∈ es, e < 16) →
    (cmpLoop (ds.map printableDigit) (es.map printableDigit) < 0 ↔ cmpLoop ds es < 0)
  | [], [], _, _, _ => Iff.rfl
  | [], _ :: _, h, _, _ => by simp at h
  | _ :: _, [], h, _, _ => by simp at h
  | d :: ds, e :: es, h, hds, hes => by
    have hlen : ds.length = es.length := by simpa using h
    have ih : cmpLoop (ds.map printableDigit) (es.map printableDigit) < 0 ↔ cmpLoop ds es < 0 :=
      cmpLoop_map_printableDigit_neg_iff hlen (fun c hc => hds c (List.mem_cons_of_mem _ hc))
        fun c hc => hes c (List.mem_cons_of_mem _ hc)
    have hd := hds d List.mem_cons_self
    have he := hes e List.mem_cons_self
    rw [List.map_cons, List.map_cons]
    by_cases hde : d = e
    · subst hde
      rw [cmpLoop_cons_self, cmpLoop_cons_self]
      exact ih
    · have hprint : printableDigit d ≠ printableDigit e := fun heq =>
        hde (printableDigit_injOn hd he heq)
      rw [cmpLoop_cons_of_ne hde, cmpLoop_cons_of_ne hprint, sub_neg, sub_neg, Nat.cast_lt,
        Nat.cast_lt, ← UInt8.lt_iff_toNat_lt, ← UInt8.lt_iff_toNat_lt]
      exact printableDigit_lt_iff hd he

/-- The digit zero is printed as the smallest character. -/
theorem le_printableDigit {d : UInt8} (hd : d < 16) : 48 ≤ printableDigit d := by
  grind [printableDigit]

/-- The order of the texts is the order of the addresses. -/
theorem strcmp_addrText_neg_iff (a b : SnNetAddr) :
    strcmp (addrText a) (addrText b) < 0 ↔ a < b := by
  have hlen : ((snNetAddrGetHex a).map printableDigit).length =
      ((snNetAddrGetHex b).map printableDigit).length := by simp
  have hchars (c : SnNetAddr) : ∀ x ∈ (snNetAddrGetHex c).map printableDigit, 48 ≤ x := by
    intro x hx
    obtain ⟨d, hd, rfl⟩ := List.mem_map.1 hx
    exact le_printableDigit (lt_of_mem_getHex hd)
  have hne : ∀ x ∈ (snNetAddrGetHex a).map printableDigit, x ≠ 0 := by
    rintro x hx rfl
    exact absurd (hchars a 0 hx) (by decide)
  rw [addrText, addrText, strcmp_rdropWhile_neg_iff (by decide) hlen (hchars a) (hchars b),
    strcmp_eq_cmpLoop hlen hne, cmpLoop_map_printableDigit_neg_iff (by simp)
      (fun d => lt_of_mem_getHex) (fun d => lt_of_mem_getHex), cmpLoop_hex_neg_iff]

/-! ### Agreement -/

/-- Comparisons that order addresses alike have the sign of the difference of the numbers. -/
theorem sign_eq_sign_sub {a b : SnNetAddr} {x : ℤ} (hneg : x < 0 ↔ a < b) (hpos : 0 < x ↔ b < a) :
    x.sign = ((a.val : ℤ) - b.val).sign := by
  rcases lt_trichotomy a b with h | rfl | h
  · have hval : (a.val : ℤ) - b.val < 0 := sub_neg.2 (Nat.cast_lt.2 h)
    rw [Int.sign_eq_neg_one_of_neg (hneg.2 h), Int.sign_eq_neg_one_of_neg hval]
  · have hx : x = 0 := le_antisymm (not_lt.1 fun h => lt_irrefl a (hpos.1 h))
      (not_lt.1 fun h => lt_irrefl a (hneg.1 h))
    rw [hx, sub_self]
  · have hval : 0 < (a.val : ℤ) - b.val := sub_pos.2 (Nat.cast_lt.2 h)
    rw [Int.sign_eq_one_of_pos (hpos.2 h), Int.sign_eq_one_of_pos hval]

theorem snNetAddrCmp_pos_iff (a b : SnNetAddr) : 0 < snNetAddrCmp a b ↔ b < a := by
  rw [← not_le, snNetAddrCmp_nonpos_iff, not_le]

/-- **Ordering, indexing and printing agree.** The comparison of two addresses has the sign of the
difference of the numbers and the sign of the comparison of the texts. The index is level 64 and
column 255 exactly when this sign is zero. Otherwise it is the first place at which the digits
differ and the digit of the second address there, and the comparison is negative exactly when the
digit of the first address is the smaller one. -/
theorem addr_views_agree (a b : SnNetAddr) :
    (snNetAddrCmp a b).sign = ((a.val : ℤ) - b.val).sign ∧
    (∃ s t, snNetAddrToStr a = .ok s ∧ snNetAddrToStr b = .ok t ∧
      (strcmp s t).sign = (snNetAddrCmp a b).sign) ∧
    ∃ level column, snNetAddrIndex a b = .ok (level, column) ∧
      (level = 64 ∧ column = 255 ↔ (snNetAddrCmp a b).sign = 0) ∧
      ((snNetAddrCmp a b).sign ≠ 0 → level < 64 ∧ (∀ i < level, a.nibble i = b.nibble i) ∧
        b.nibble level = column.toNat ∧ column.toNat < 16 ∧ a.nibble level ≠ b.nibble level ∧
        (snNetAddrCmp a b < 0 ↔ a.nibble level < column.toNat)) := by
  have hsign := sign_eq_sign_sub (snNetAddrCmp_neg_iff (a := a) (b := b)) (snNetAddrCmp_pos_iff a b)
  have hzero : (snNetAddrCmp a b).sign = 0 ↔ a = b := by
    rw [Int.sign_eq_zero_iff_zero, snNetAddrCmp_eq_zero_iff]
  refine ⟨hsign, ⟨_, _, snNetAddrToStr_eq a, snNetAddrToStr_eq b, ?_⟩, _, _,
    snNetAddrIndex_eq a b, ?_, ?_⟩
  · rw [hsign]
    refine sign_eq_sign_sub (strcmp_addrText_neg_iff a b) ?_
    rw [strcmp_swap, neg_pos]
    exact strcmp_addrText_neg_iff b a
  · rw [hzero]
    constructor
    · rintro ⟨hlevel, -⟩
      exact SnNetAddr.level_eq_iff.1 hlevel
    · rintro rfl
      refine ⟨SnNetAddr.level_self a, ?_⟩
      rw [SnNetAddr.column, SnNetAddr.level_self, List.getElem?_eq_none (by simp)]
      rfl
  · intro hne
    have hab : a ≠ b := fun h => hne (hzero.2 h)
    have hcolumn := nibble_level hab
    have hlt := lt_iff_nibble_level a b
    refine ⟨SnNetAddr.level_lt_iff.2 hab, fun i => nibble_eq_of_lt_level, hcolumn,
      UInt8.lt_iff_toNat_lt.1 (SnNetAddr.column_lt hab), fun heq => ?_, ?_⟩
    · have hgt := lt_iff_nibble_level b a
      rw [SnNetAddr.level_comm b a, heq] at hgt
      rw [heq] at hlt
      rcases lt_or_gt_of_ne hab with h | h
      · exact lt_irrefl _ (hlt.1 h)
      · exact lt_irrefl _ (hgt.1 h)
    · rw [snNetAddrCmp_neg_iff, hlt, hcolumn]

end SndNet
