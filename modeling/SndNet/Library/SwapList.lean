import Mathlib.Data.List.Basic

/-!
# Lists with swap-removal

The element at an index is removed by overwriting it with the last element and dropping the last
place. The other elements keep their places.

## Main definitions

* `SwapList.swapRemove`: removal of the element at an index.

## Main results

* `SwapList.length_swapRemove`, `SwapList.getElem?_swapRemove`: the length and the elements after a
  removal.
-/

namespace SwapList

variable {α : Type*} {l : List α} {i j : ℕ}

/-- The list with the element at the index `i` overwritten by the last one, and the last place
dropped. -/
def swapRemove (i : ℕ) (l : List α) : List α :=
  match l.getLast? with
  | some last => (l.set i last).dropLast
  | none => []

theorem length_swapRemove (i : ℕ) (l : List α) : (swapRemove i l).length = l.length - 1 := by
  rw [swapRemove]
  cases hlast : l.getLast? with
  | none => rw [List.getLast?_eq_none_iff.1 hlast, List.length_nil]
  | some last =>
    change (l.set i last).dropLast.length = _
    rw [List.length_dropLast, List.length_set]

/-- What a removal leaves at an index. -/
theorem getElem?_swapRemove (hi : i < l.length) (hj : j + 1 < l.length) :
    (swapRemove i l)[j]? = if j = i then l[l.length - 1]? else l[j]? := by
  have hlast : l.getLast? = some (l.get ⟨l.length - 1, by omega⟩) := by
    rw [List.getLast?_eq_getElem?]
    exact List.getElem?_eq_getElem _
  have hdrop (x : α) : (l.set i x).dropLast[j]? = (l.set i x)[j]? := by
    rw [List.dropLast_eq_take, List.length_set, List.getElem?_take_of_lt (by omega)]
  rw [swapRemove, hlast]
  change (l.set i _).dropLast[j]? = _
  rw [hdrop]
  by_cases hji : j = i
  · subst hji
    rw [if_pos rfl, List.getElem?_set_self hi, List.getElem?_eq_getElem (by omega)]
    rfl
  · rw [if_neg hji, List.getElem?_set_ne (Ne.symm hji)]

end SwapList
