import Mathlib.Data.List.Basic
import Mathlib.Data.List.TakeDrop
import Mathlib.Tactic.Ring
import Mathlib.Tactic.Linarith

/-!
# Words of digits: common prefixes and positional value

A key of fixed length is read in two ways: as a word whose leading digits are compared one by one,
and as the number its digits spell in a base, most significant digit first. This file collects the
facts that relate the two readings.

## Main definitions

* `DigitWord.commonPrefix`: the number of leading digits on which two words agree.
* `DigitWord.value`: the number spelled by a word in base `B`.

## Main results

* `DigitWord.le_commonPrefix_iff`: two words agree on `n` leading digits exactly when their first
  `n` digits are the same list.
* `DigitWord.min_commonPrefix_le`: common prefixes are an ultrametric.
* `DigitWord.value_cons_lt_cons_iff`: the order of the numbers is decided at the first digit on
  which the words differ.
* `DigitWord.value_inj`: words of one length that spell the same number are equal.
* `DigitWord.commonPrefix_replicate_zero_le`: a smaller number starts with at least as many zeros.
-/

namespace DigitWord

/-! ### Common prefixes -/

section CommonPrefix

variable {α : Type*} [DecidableEq α]

/-- The number of leading digits on which two words agree. -/
def commonPrefix : List α → List α → ℕ
  | x :: xs, y :: ys => if x = y then commonPrefix xs ys + 1 else 0
  | _, _ => 0

theorem le_commonPrefix_iff :
    ∀ (n : ℕ) (xs ys : List α), n ≤ commonPrefix xs ys ↔
      n ≤ xs.length ∧ n ≤ ys.length ∧ xs.take n = ys.take n
  | 0, _, _ => by simp
  | n + 1, [], _ => by simp [commonPrefix]
  | n + 1, _ :: _, [] => by simp [commonPrefix]
  | n + 1, x :: xs, y :: ys => by
    have ih := le_commonPrefix_iff n xs ys
    by_cases h : x = y
    · simp only [commonPrefix, h, ↓reduceIte, Nat.add_le_add_iff_right, ih, List.length_cons,
        List.take_succ_cons, List.cons.injEq, true_and]
    · simp [commonPrefix, h]

theorem commonPrefix_le_left (xs ys : List α) : commonPrefix xs ys ≤ xs.length :=
  ((le_commonPrefix_iff _ xs ys).1 le_rfl).1

theorem commonPrefix_comm (xs ys : List α) : commonPrefix xs ys = commonPrefix ys xs := by
  refine le_antisymm ?_ ?_
  · obtain ⟨hx, hy, h⟩ := (le_commonPrefix_iff _ xs ys).1 le_rfl
    exact (le_commonPrefix_iff _ ys xs).2 ⟨hy, hx, h.symm⟩
  · obtain ⟨hy, hx, h⟩ := (le_commonPrefix_iff _ ys xs).1 le_rfl
    exact (le_commonPrefix_iff _ xs ys).2 ⟨hx, hy, h.symm⟩

theorem commonPrefix_self (xs : List α) : commonPrefix xs xs = xs.length :=
  le_antisymm (commonPrefix_le_left xs xs) ((le_commonPrefix_iff _ xs xs).2 ⟨le_rfl, le_rfl, rfl⟩)

/-- Common prefixes are an ultrametric: what `xs` and `zs` share is at least the shorter of what
each of them shares with `ys`. -/
theorem min_commonPrefix_le (xs ys zs : List α) :
    min (commonPrefix xs ys) (commonPrefix ys zs) ≤ commonPrefix xs zs := by
  obtain ⟨hx, _, hxy⟩ := (le_commonPrefix_iff _ xs ys).1 (min_le_left _ (commonPrefix ys zs))
  obtain ⟨_, hz, hyz⟩ := (le_commonPrefix_iff _ ys zs).1 (min_le_right (commonPrefix xs ys) _)
  exact (le_commonPrefix_iff _ xs zs).2 ⟨hx, hz, hxy.trans hyz⟩

theorem eq_of_commonPrefix_eq_length {xs ys : List α} (hlen : xs.length = ys.length)
    (h : commonPrefix xs ys = xs.length) : xs = ys := by
  obtain ⟨_, _, htake⟩ := (le_commonPrefix_iff xs.length xs ys).1 h.ge
  rwa [List.take_length, hlen, List.take_length] at htake

/-- Two words that agree with `xs` on the same number of digits and carry the same next digit
agree with each other on one digit more. -/
theorem commonPrefix_lt_of_getElem_eq {xs ys zs : List α} {n : ℕ}
    (hy : n ≤ commonPrefix xs ys) (hz : n ≤ commonPrefix xs zs) (hyn : n < ys.length)
    (hzn : n < zs.length) (h : ys[n] = zs[n]) : n < commonPrefix ys zs := by
  obtain ⟨_, _, hxy⟩ := (le_commonPrefix_iff _ xs ys).1 hy
  obtain ⟨_, _, hxz⟩ := (le_commonPrefix_iff _ xs zs).1 hz
  refine (le_commonPrefix_iff (n + 1) ys zs).2 ⟨hyn, hzn, ?_⟩
  rw [List.take_succ_eq_append_getElem hyn, List.take_succ_eq_append_getElem hzn, ← hxy, ← hxz, h]

theorem getElem_eq_of_lt_commonPrefix {xs ys : List α} {n : ℕ} (h : n < commonPrefix xs ys)
    (hx : n < xs.length) (hy : n < ys.length) : xs[n] = ys[n] := by
  obtain ⟨_, _, htake⟩ := (le_commonPrefix_iff (n + 1) xs ys).1 h
  rw [List.take_succ_eq_append_getElem hx, List.take_succ_eq_append_getElem hy] at htake
  simpa using List.append_inj_right' htake rfl

/-- Renaming the digits does not change what two words share. -/
theorem commonPrefix_map {β : Type*} [DecidableEq β] {f : α → β} (hf : Function.Injective f) :
    ∀ xs ys : List α, commonPrefix (xs.map f) (ys.map f) = commonPrefix xs ys
  | [], _ => by simp [commonPrefix]
  | _ :: _, [] => by simp [commonPrefix]
  | x :: xs, y :: ys => by
    simp only [List.map_cons, commonPrefix, hf.eq_iff, commonPrefix_map hf xs ys]

end CommonPrefix

/-! ### Positional value -/

/-- The number spelled by a word in base `B`, most significant digit first. -/
def value (B : ℕ) : List ℕ → ℕ
  | [] => 0
  | d :: ds => d * B ^ ds.length + value B ds

variable {B : ℕ}

theorem value_lt : ∀ {ds : List ℕ}, (∀ d ∈ ds, d < B) → value B ds < B ^ ds.length
  | [], _ => by simp [value]
  | d :: ds, h => by
    have ih : value B ds < B ^ ds.length := value_lt fun e he => h e (List.mem_cons_of_mem _ he)
    have hd : d + 1 ≤ B := h d List.mem_cons_self
    calc value B (d :: ds) < d * B ^ ds.length + B ^ ds.length := Nat.add_lt_add_left ih _
      _ = (d + 1) * B ^ ds.length := by ring
      _ ≤ B * B ^ ds.length := Nat.mul_le_mul_right _ hd
      _ = B ^ (d :: ds).length := by rw [List.length_cons, pow_succ, mul_comm]

/-- The order of the numbers is decided at the leading digit, and by the rest when the leading
digits agree. -/
theorem value_cons_lt_cons_iff {d e : ℕ} {ds es : List ℕ} (hlen : ds.length = es.length)
    (hds : ∀ x ∈ ds, x < B) (hes : ∀ x ∈ es, x < B) :
    value B (d :: ds) < value B (e :: es) ↔ d < e ∨ d = e ∧ value B ds < value B es := by
  have hv := value_lt hds
  have hw := value_lt hes
  simp only [value, hlen] at hv hw ⊢
  rcases lt_trichotomy d e with h | rfl | h
  · have : (d + 1) * B ^ es.length ≤ e * B ^ es.length := Nat.mul_le_mul_right _ h
    constructor
    · exact fun _ => Or.inl h
    · intro _
      linarith
  · constructor
    · exact fun hlt => Or.inr ⟨rfl, by linarith⟩
    · rintro (hlt | ⟨_, hlt⟩)
      · exact absurd hlt (lt_irrefl d)
      · linarith
  · have : (e + 1) * B ^ es.length ≤ d * B ^ es.length := Nat.mul_le_mul_right _ h
    constructor
    · intro hlt
      linarith
    · rintro (hlt | ⟨heq, _⟩) <;> omega

/-- Words of one length over the digits below `B` that spell the same number are equal. -/
theorem value_inj : ∀ {ds es : List ℕ}, ds.length = es.length → (∀ d ∈ ds, d < B) →
    (∀ e ∈ es, e < B) → value B ds = value B es → ds = es
  | [], [], _, _, _, _ => rfl
  | [], _ :: _, hlen, _, _, _ => by simp at hlen
  | _ :: _, [], hlen, _, _, _ => by simp at hlen
  | d :: ds, e :: es, hlen, hd, he, h => by
    have hlen' : ds.length = es.length := by simpa using hlen
    have hds : ∀ x ∈ ds, x < B := fun x hx => hd x (List.mem_cons_of_mem _ hx)
    have hes : ∀ x ∈ es, x < B := fun x hx => he x (List.mem_cons_of_mem _ hx)
    have hlt := value_cons_lt_cons_iff (d := d) (e := e) hlen' hds hes
    have hgt := value_cons_lt_cons_iff (d := e) (e := d) hlen'.symm hes hds
    have hde : d = e := by omega
    subst hde
    have hv : value B ds = value B es := by omega
    rw [value_inj hlen' hds hes hv]

/-- A smaller number starts with at least as many zeros. -/
theorem commonPrefix_replicate_zero_le : ∀ {ds es : List ℕ} (n : ℕ), ds.length = es.length →
    (∀ d ∈ ds, d < B) → (∀ e ∈ es, e < B) → value B ds ≤ value B es →
    commonPrefix es (List.replicate n 0) ≤ commonPrefix ds (List.replicate n 0)
  | [], [], _, _, _, _, _ => le_rfl
  | [], _ :: _, _, hlen, _, _, _ => by simp at hlen
  | _ :: _, [], _, hlen, _, _, _ => by simp at hlen
  | _ :: _, _ :: _, 0, _, _, _, _ => by simp [commonPrefix]
  | d :: ds, e :: es, n + 1, hlen, hd, he, h => by
    have hlen' : ds.length = es.length := by simpa using hlen
    have hds : ∀ x ∈ ds, x < B := fun x hx => hd x (List.mem_cons_of_mem _ hx)
    have hes : ∀ x ∈ es, x < B := fun x hx => he x (List.mem_cons_of_mem _ hx)
    have hgt := value_cons_lt_cons_iff (d := e) (e := d) hlen'.symm hes hds
    rw [← not_lt, hgt, not_or, not_and] at h
    simp only [List.replicate_succ, commonPrefix]
    by_cases he0 : e = 0
    · have hd0 : d = 0 := by omega
      have hle : value B ds ≤ value B es := not_lt.1 (h.2 (he0.trans hd0.symm))
      have ih := commonPrefix_replicate_zero_le n hlen' hds hes hle
      simpa [he0, hd0] using ih
    · simp [he0]

end DigitWord
