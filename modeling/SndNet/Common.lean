import Mathlib.Data.List.Basic
import SndNet.Library.FallibleRun

/-!
# Executions of the C code

The library is written in C. A call either returns or is stopped: by an assertion that does not
hold, which aborts the process, or by an access outside an array, after which the language promises
nothing. Pointers that the code asserts to be non-null are values here, so those assertions hold by
construction; every other assertion is kept.

## Main definitions

* `SndNet.CArray`: an array of known length.
* `SndNet.Fault`: what stops an execution.
* `SndNet.Exec`: an execution that returns a value or is stopped.
* `SndNet.cAssert`: the `assert` of the C library.
* `SndNet.CArray.read`, `SndNet.CArray.write`: accesses at an index.
-/

namespace SndNet

/-- An array of `n` elements. -/
abbrev CArray (α : Type*) (n : ℕ) := {l : List α // l.length = n}

/-- What stops an execution. -/
inductive Fault where
  /-- An assertion does not hold. -/
  | assertionFailed
  /-- An access outside an array. -/
  | outOfBounds
  deriving DecidableEq, Repr

/-- An execution that returns a value or is stopped by a fault. -/
abbrev Exec := Except Fault

/-- `assert(p)`. -/
def cAssert (p : Prop) [Decidable p] : Exec Unit :=
  if p then .ok () else .error .assertionFailed

@[simp] theorem cAssert_of {p : Prop} {_ : Decidable p} (h : p) : cAssert p = .ok () := if_pos h

@[simp] theorem cAssert_of_not {p : Prop} {_ : Decidable p} (h : ¬ p) :
    cAssert p = .error .assertionFailed := if_neg h

namespace CArray

variable {α : Type*} {n : ℕ}

/-- The element at the index `i`. -/
def read (a : CArray α n) (i : ℕ) : Exec α :=
  match a.val[i]? with
  | some x => .ok x
  | none => .error .outOfBounds

/-- The array with the element at the index `i` overwritten. -/
def write (a : CArray α n) (i : ℕ) (x : α) : CArray α n :=
  ⟨a.val.set i x, by rw [List.length_set, a.property]⟩

/-- The array of `n` copies of an element. -/
def replicate (n : ℕ) (x : α) : CArray α n := ⟨List.replicate n x, List.length_replicate⟩

/-- The array that starts with the elements of a list and goes on with copies of `x`. -/
def padded (n : ℕ) (l : List α) (x : α) : CArray α n :=
  ⟨l.take n ++ List.replicate (n - l.length) x, by
    rw [List.length_append, List.length_take, List.length_replicate]; omega⟩

theorem read_of_lt (a : CArray α n) {i : ℕ} (h : i < n) :
    a.read i = .ok (a.val.get ⟨i, a.property.symm ▸ h⟩) := by
  rw [read, List.getElem?_eq_getElem (a.property.symm ▸ h)]
  rfl

theorem read_of_le (a : CArray α n) {i : ℕ} (h : n ≤ i) : a.read i = .error .outOfBounds := by
  rw [read, List.getElem?_eq_none (by rw [a.property]; exact h)]

theorem getD_padded (l : List α) {i : ℕ} (h : i < n) (x : α) :
    (padded n l x).val.getD i x = l.getD i x := by
  change (l.take n ++ List.replicate (n - l.length) x).getD i x = l.getD i x
  rw [List.getD_eq_getElem?_getD, List.getD_eq_getElem?_getD]
  by_cases hi : i < l.length
  · rw [List.getElem?_append_left (by rw [List.length_take]; omega), List.getElem?_take_of_lt h]
  · rw [List.getElem?_append_right (by rw [List.length_take]; omega),
      List.getElem?_eq_none (l := l) (by omega), List.getElem?_replicate]
    split_ifs <;> rfl

/-- An array that starts with a list starts with one more element after a write behind the list. -/
theorem write_padded (l : List α) (x y : α) :
    (padded n l x).write l.length y = padded n (l ++ [y]) x := by
  refine Subtype.ext ?_
  change (l.take n ++ List.replicate (n - l.length) x).set l.length y =
    (l ++ [y]).take n ++ List.replicate (n - (l ++ [y]).length) x
  rw [List.length_append, List.length_singleton]
  by_cases h : l.length < n
  · have hrep : List.replicate (n - l.length) x =
        x :: List.replicate (n - (l.length + 1)) x := by
      rw [← List.replicate_succ]
      congr 1
      omega
    have hconcat : (l ++ [y]).length ≤ n := by simpa using Nat.succ_le_of_lt h
    rw [List.take_of_length_le (Nat.le_of_lt h), List.take_of_length_le hconcat, hrep,
      List.set_append_right _ _ (Nat.le_refl _), Nat.sub_self, List.set_cons_zero,
      List.append_assoc, List.singleton_append]
  · have hfull : (l.take n ++ List.replicate (n - l.length) x).length ≤ l.length := by
      rw [List.length_append, List.length_take, List.length_replicate]
      omega
    rw [List.set_eq_of_length_le hfull, List.take_append_of_le_length (by omega),
      Nat.sub_eq_zero_of_le (by omega), Nat.sub_eq_zero_of_le (by omega)]

end CArray

end SndNet
