import Mathlib.Data.List.Sort

/-!
# Sorting by a comparator

A library sort takes an array and a comparator that returns a negative, zero or positive number,
and promises an ordered rearrangement of the array. It promises nothing about the order of elements
that compare as equal, so a development that calls it should hold for every such sort. `Sorter`
bundles a sort with this promise.

## Main definitions

* `Sorter.IsComparator`: a comparator that orders its elements by a total preorder.
* `Sorter`: a sort together with its promise.
* `Sorter.insertion`: a sort that keeps the promise and runs.

## Main results

* `Sorter.isComparator_of_iff`: a comparator whose sign follows the order of a key is consistent.
* `Sorter.mem_sort`, `Sorter.length_sort`: the sorted array has the elements of the array.
-/

/-- A comparator that orders its elements by a total preorder. -/
structure Sorter.IsComparator {α : Type*} (cmp : α → α → ℤ) : Prop where
  total : ∀ a b, cmp a b ≤ 0 ∨ cmp b a ≤ 0
  trans : ∀ a b c, cmp a b ≤ 0 → cmp b c ≤ 0 → cmp a c ≤ 0

/-- A sort: for every consistent comparator it rearranges its argument into an ordered list. The
order of elements that compare as equal is left open. -/
structure Sorter (α : Type*) where
  /-- The sorted rearrangement of a list. -/
  sort : (α → α → ℤ) → List α → List α
  perm : ∀ {cmp : α → α → ℤ}, Sorter.IsComparator cmp → ∀ xs, (sort cmp xs).Perm xs
  pairwise : ∀ {cmp : α → α → ℤ}, Sorter.IsComparator cmp → ∀ xs,
    (sort cmp xs).Pairwise fun a b => cmp a b ≤ 0

namespace Sorter

variable {α : Type*} {cmp : α → α → ℤ}

/-- A comparator whose sign follows the order of a key is consistent. -/
theorem isComparator_of_iff {κ : Type*} [LinearOrder κ] (key : α → κ)
    (h : ∀ a b, cmp a b ≤ 0 ↔ key a ≤ key b) : IsComparator cmp where
  total a b := by simpa only [h] using le_total (key a) (key b)
  trans a b c := by simpa only [h] using le_trans

theorem mem_sort (q : Sorter α) (hc : IsComparator cmp) {xs : List α} {a : α} :
    a ∈ q.sort cmp xs ↔ a ∈ xs :=
  (q.perm hc xs).mem_iff

theorem length_sort (q : Sorter α) (hc : IsComparator cmp) (xs : List α) :
    (q.sort cmp xs).length = xs.length :=
  (q.perm hc xs).length_eq

/-- Insertion sort by the sign of the comparator. -/
def insertion (α : Type*) : Sorter α where
  sort cmp xs := xs.insertionSort fun a b => cmp a b ≤ 0
  perm _ xs := List.perm_insertionSort _ xs
  pairwise {cmp} hc xs := by
    have : Std.Total fun a b => cmp a b ≤ 0 := ⟨hc.total⟩
    have : IsTrans α fun a b => cmp a b ≤ 0 := ⟨hc.trans⟩
    exact List.pairwise_insertionSort _ xs

end Sorter
