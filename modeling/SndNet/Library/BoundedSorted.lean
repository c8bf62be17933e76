import Mathlib.Data.List.Induction
import Mathlib.Data.List.Sort

/-!
# Bounded sorted lists

A sorted list of at most `n` elements holds the `n` smallest of the elements inserted so far: an
insertion into a full list drops the last element. What such a list holds depends on the multiset
of the inserted elements only, since an element dropped once has `n` elements before it from then
on.

## Main definitions

* `BoundedSorted`: a sorted list of at most `n` elements.
* `BoundedSorted.insert`, `BoundedSorted.erase`: insertion, and removal of one occurrence.

## Main results

* `BoundedSorted.toList_insert_of_room`, `BoundedSorted.toList_insert_of_last_le`,
  `BoundedSorted.toList_insert_of_le_last`: insertion by the length of the list and its last
  element.
* `BoundedSorted.toList_foldl_insert`: the elements after a sequence of insertions.
-/

/-- A list sorted by `r` of at most `n` elements. -/
@[ext] structure BoundedSorted {α : Type*} (r : α → α → Prop) (n : ℕ) where
  /-- The elements in order. -/
  toList : List α
  sorted : toList.Pairwise r
  length_le : toList.length ≤ n

namespace BoundedSorted

variable {α : Type*} {r : α → α → Prop} [DecidableRel r] {n : ℕ}

/-! ### Ordered insertion -/

/-- What is cut off before an insertion would be cut off after it. -/
theorem take_orderedInsert_take (n : ℕ) (x : α) (l : List α) :
    ((l.take n).orderedInsert r x).take n = (l.orderedInsert r x).take n := by
  induction l generalizing n with
  | nil => rw [List.take_nil]
  | cons y l ih =>
    cases n with
    | zero => rw [List.take_zero, List.take_zero]
    | succ n =>
      by_cases hxy : r x y
      · rw [List.take_succ_cons, List.orderedInsert_cons_of_le r _ hxy,
          List.orderedInsert_cons_of_le r _ hxy, List.take_succ_cons, List.take_succ_cons]
        cases n with
        | zero => rfl
        | succ n =>
          rw [List.take_succ_cons, List.take_succ_cons, List.take_take, min_eq_left (Nat.le_succ n)]
      · rw [List.take_succ_cons, List.orderedInsert_of_not_le r _ hxy,
          List.orderedInsert_of_not_le r _ hxy, List.take_succ_cons, List.take_succ_cons, ih]

section Insertion

variable [Std.Total r] [IsTrans α r]

section Antisymm

variable [Std.Antisymm r]

/-- A sorted list with one element more is the one in which that element is inserted. -/
theorem eq_orderedInsert_of_perm {l s : List α} {x : α} (hs : s.Pairwise r) (hl : l.Pairwise r)
    (h : l.Perm (x :: s)) : l = s.orderedInsert r x :=
  (h.trans (List.perm_orderedInsert r x s).symm).eq_of_pairwise' hl (hs.orderedInsert x s)

/-- An element after all others is inserted at the end. -/
theorem orderedInsert_eq_concat {s : List α} {x : α} (hs : s.Pairwise r) (hx : ∀ y ∈ s, r y x) :
    s.orderedInsert r x = s ++ [x] := by
  refine (eq_orderedInsert_of_perm hs ?_ (List.perm_append_singleton x s)).symm
  rw [List.pairwise_append]
  exact ⟨hs, List.pairwise_singleton r x, by simpa using hx⟩

/-- An element before the last one leaves it last. -/
theorem orderedInsert_concat {s : List α} {x last : α} (hs : (s ++ [last]).Pairwise r)
    (hx : r x last) : (s ++ [last]).orderedInsert r x = s.orderedInsert r x ++ [last] := by
  obtain ⟨hs', -, hlast⟩ := List.pairwise_append.1 hs
  refine (eq_orderedInsert_of_perm hs ?_ ?_).symm
  · rw [List.pairwise_append]
    refine ⟨hs'.orderedInsert x s, List.pairwise_singleton r last, fun y hy z hz => ?_⟩
    rw [List.mem_singleton.1 hz]
    rcases (List.mem_orderedInsert r).1 hy with rfl | hy
    · exact hx
    · exact hlast y hy last (List.mem_singleton_self last)
  · exact (List.perm_orderedInsert r x s).append_right [last]

end Antisymm

/-! ### Insertion into a bounded list -/

/-- Insertion, after which the first `n` elements stay. -/
def insert (s : BoundedSorted r n) (x : α) : BoundedSorted r n where
  toList := (s.toList.orderedInsert r x).take n
  sorted := (s.sorted.orderedInsert x s.toList).sublist (List.take_sublist n _)
  length_le := List.length_take_le n _

variable {s : BoundedSorted r n} {x : α}

theorem toList_insert : (s.insert x).toList = (s.toList.orderedInsert r x).take n := rfl

theorem toList_insert_of_room (h : s.toList.length < n) :
    (s.insert x).toList = s.toList.orderedInsert r x := by
  refine List.take_of_length_le ?_
  rw [List.orderedInsert_length]
  exact h

/-- A full list turns away an element that may come after all its elements. -/
theorem toList_insert_of_last_le [Std.Antisymm r] {init : List α} {last : α}
    (hs : s.toList = init ++ [last])
    (hfull : s.toList.length = n) (hx : r last x) : (s.insert x).toList = s.toList := by
  have hall : ∀ y ∈ s.toList, r y x := by
    intro y hy
    have hsorted := s.sorted
    rw [hs, List.pairwise_append] at hsorted
    rw [hs, List.mem_append, List.mem_singleton] at hy
    rcases hy with hy | rfl
    · exact IsTrans.trans y last x (hsorted.2.2 y hy last (List.mem_singleton_self last)) hx
    · exact hx
  rw [toList_insert, orderedInsert_eq_concat s.sorted hall, List.take_left' hfull]

/-- An element before the last one takes its place in a full list. -/
theorem toList_insert_of_le_last [Std.Antisymm r] {init : List α} {last : α}
    (hs : s.toList = init ++ [last])
    (hfull : s.toList.length = n) (hx : r x last) :
    (s.insert x).toList = init.orderedInsert r x := by
  have hlen : (init.orderedInsert r x).length = n := by
    rw [List.orderedInsert_length, ← hfull, hs, List.length_append, List.length_singleton]
  have hsorted := s.sorted
  rw [hs] at hsorted
  rw [toList_insert, hs, orderedInsert_concat hsorted hx, List.take_left' hlen]

/-- **The elements after a sequence of insertions** are the first ones of all elements, sorted. -/
theorem toList_foldl_insert (s : BoundedSorted r n) (xs : List α) :
    (xs.foldl insert s).toList = ((xs.reverse ++ s.toList).insertionSort r).take n := by
  induction xs using List.reverseRecOn with
  | nil =>
    rw [List.foldl_nil, List.reverse_nil, List.nil_append, s.sorted.insertionSort_eq,
      List.take_of_length_le s.length_le]
  | append_singleton xs x ih =>
    rw [List.foldl_append, List.foldl_cons, List.foldl_nil, toList_insert, ih,
      take_orderedInsert_take, List.reverse_append, List.reverse_singleton, List.append_assoc,
      List.singleton_append, List.insertionSort_cons]

end Insertion

/-- The empty list. -/
def empty (r : α → α → Prop) (n : ℕ) : BoundedSorted r n := ⟨[], List.Pairwise.nil, n.zero_le⟩

/-- Removal of one occurrence of an element. -/
def erase [DecidableEq α] (s : BoundedSorted r n) (x : α) : BoundedSorted r n where
  toList := s.toList.erase x
  sorted := s.sorted.sublist List.erase_sublist
  length_le := List.erase_sublist.length_le.trans s.length_le

end BoundedSorted
