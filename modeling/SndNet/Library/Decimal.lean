import Mathlib.Data.Nat.Digits.Defs
import SndNet.Library.Ctype

/-!
# Decimal texts

A natural number is printed with its decimal digits, the most significant one first and without
leading zeros, and is read from any row of digits.

## Main definitions

* `Decimal.text`: the digits of a number.
* `Decimal.value`: the number that a row of digits shows.

## Main results

* `Decimal.text_mul_add`: a further digit.
* `Decimal.value_text`: a printed number is read back.
* `Decimal.length_text_le`: a number below `10 ^ k` has at most `k` digits.
-/

namespace Decimal

open Ctype

/-- The character of a digit. -/
def digitChar (d : ℕ) : UInt8 := .ofNat (48 + d)

/-- The digits of a number, the most significant one first. -/
def text (n : ℕ) : List UInt8 :=
  if n = 0 then [digitChar 0] else (Nat.digits 10 n).reverse.map digitChar

/-- The number that a row of digits shows. -/
def value (cs : List UInt8) : ℕ := cs.foldl (fun v c => 10 * v + (c.toNat - 48)) 0

theorem toNat_digitChar {d : ℕ} (h : d < 10) : (digitChar d).toNat = 48 + d := by
  rw [digitChar, UInt8.toNat_ofNat', Nat.mod_eq_of_lt (by omega)]

theorem isdigit_digitChar {d : ℕ} (h : d < 10) : isdigit (digitChar d) := by
  have hd := toNat_digitChar h
  rw [isdigit, Bool.and_eq_true, decide_eq_true_eq, decide_eq_true_eq, UInt8.le_iff_toNat_le,
    UInt8.le_iff_toNat_le, hd]
  change 48 ≤ 48 + d ∧ 48 + d ≤ 57
  omega

theorem text_of_lt {n : ℕ} (h : n < 10) : text n = [digitChar n] := by
  rw [text]
  split_ifs with h0
  · rw [h0]
  · rw [Nat.digits_of_lt 10 n h0 h]
    rfl

/-- A further digit goes to the end. -/
theorem text_mul_add {n d : ℕ} (hn : 0 < n) (hd : d < 10) :
    text (10 * n + d) = text n ++ [digitChar d] := by
  rw [text, if_neg (by omega), text, if_neg hn.ne', Nat.add_comm,
    Nat.digits_add 10 (by omega) d n hd (Or.inr hn.ne'), List.reverse_cons, List.map_append,
    List.map_singleton]

/-- Induction on the digits of a number. -/
theorem digitInduction {P : ℕ → Prop} (hlt : ∀ n < 10, P n)
    (hstep : ∀ n d, 0 < n → d < 10 → P n → P (10 * n + d)) (n : ℕ) : P n := by
  induction n using Nat.strong_induction_on with
  | _ n ih =>
    by_cases h : n < 10
    · exact hlt n h
    · have hstep' := hstep (n / 10) (n % 10) (by omega) (by omega) (ih _ (by omega))
      rwa [Nat.div_add_mod] at hstep'

theorem isdigit_of_mem_text (n : ℕ) : ∀ c ∈ text n, isdigit c := by
  induction n using digitInduction with
  | hlt n h =>
    rw [text_of_lt h]
    simpa using isdigit_digitChar h
  | hstep n d hn hd ih =>
    rw [text_mul_add hn hd]
    intro c hc
    rcases List.mem_append.1 hc with hc | hc
    · exact ih c hc
    · rw [List.mem_singleton.1 hc]
      exact isdigit_digitChar hd

theorem notMem_text {c : UInt8} (h : ¬ isdigit c) (n : ℕ) : c ∉ text n :=
  fun hc => h (isdigit_of_mem_text n c hc)

theorem text_ne_nil (n : ℕ) : text n ≠ [] := by
  rw [text]
  split_ifs with h0
  · exact List.cons_ne_nil _ _
  · simpa [Nat.digits_eq_nil_iff_eq_zero] using h0

@[simp] theorem value_append (cs : List UInt8) (c : UInt8) :
    value (cs ++ [c]) = 10 * value cs + (c.toNat - 48) := by
  rw [value, List.foldl_append]
  rfl

/-- A printed number is read back. -/
@[simp] theorem value_text (n : ℕ) : value (text n) = n := by
  induction n using digitInduction with
  | hlt n h =>
    rw [text_of_lt h]
    change 10 * 0 + ((digitChar n).toNat - 48) = n
    rw [toNat_digitChar h]
    omega
  | hstep n d hn hd ih =>
    rw [text_mul_add hn hd, value_append, ih, toNat_digitChar hd]
    omega

/-- A number below a power of ten has few digits. -/
theorem length_text_le {n k : ℕ} (hk : 0 < k) (h : n < 10 ^ k) : (text n).length ≤ k := by
  induction n using digitInduction generalizing k with
  | hlt n hn =>
    rw [text_of_lt hn]
    exact hk
  | hstep n d hn hd ih =>
    obtain ⟨k, rfl⟩ := Nat.exists_eq_add_of_le' hk
    rw [Nat.pow_succ] at h
    have hpow : 0 < k := by
      refine Nat.pos_of_ne_zero fun h0 => ?_
      rw [h0, Nat.pow_zero] at h
      omega
    rw [text_mul_add hn hd, List.length_append, List.length_singleton]
    exact Nat.succ_le_succ (ih hpow (by omega))

theorem text_injective : Function.Injective text := fun n m h => by
  rw [← value_text n, h, value_text]

/-- A number is read behind some blanks. -/
theorem leftpad_text_inj {k n m : ℕ} (h : (text n).leftpad k 32 = (text m).leftpad k 32) :
    n = m := by
  have hdrop : ∀ n, ((text n).leftpad k 32).dropWhile (· = 32) = text n := by
    intro n
    obtain ⟨c, cs, hc⟩ := List.exists_cons_of_ne_nil (text_ne_nil n)
    have hne : c ≠ 32 := by
      rintro rfl
      exact absurd (isdigit_of_mem_text n 32 (hc ▸ List.mem_cons_self)) (by decide)
    rw [List.leftpad, List.dropWhile_append_of_pos (by simp [List.mem_replicate]), hc,
      List.dropWhile_cons_of_neg (by simpa using hne)]
  refine text_injective ?_
  rw [← hdrop n, h, hdrop m]

end Decimal
