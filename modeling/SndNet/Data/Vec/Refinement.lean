import SndNet.Data.Vec
import SndNet.Library.Simulation
import SndNet.Library.SwapList

/-!
# The vector is a list with swap-removal

As long as the allocator has memory, pushes, reads and removals answer as they do for the list of
the elements: a push appends, a read yields the element at an index, and a removal overwrites the
element at an index with the last one and drops the last place (`src/data/vec.c`, lines 44–109).
The size of the block plays no part in the answers, and neither does what the allocator puts into
new memory.

## Main definitions

* `SndNet.VecCall`, `SndNet.vecCall`: a call, and its answer.
* `SndNet.listCall`: the answer of a list with swap-removal.
* `SndNet.SnDataVec.elements`: the elements of a vector.
* `SndNet.Represents`: a valid vector and the list of its elements.

## Main results

* `SndNet.elements_of_grow`, `SndNet.elements_shrink`: a change of the block keeps the elements.
* `SndNet.exists_vecCall`, `SndNet.simulates_vecCall`: what one call does and preserves.
* `SndNet.exists_respond_vecCall`: what a run of calls preserves.
-/

namespace SndNet

open ByteLayout FallibleRun HeapBlock Simulation SwapList

/-! ### The machines -/

/-- A call of a vector operation, with what the allocator puts into new memory. -/
inductive VecCall (elemSize : ℕ) where
  | push (content : ℕ → UInt8) (elem : CArray UInt8 elemSize)
  | at' (i : ℕ)
  | removeAt (content : ℕ → UInt8) (i : ℕ) (out : Bool)

/-- The answer to a call, which is the return value and the bytes copied to `out`, and the vector
after the call. -/
def vecCall {elemSize : ℕ} (vec : SnDataVec) :
    VecCall elemSize → Exec ((ℤ × Option (List UInt8)) × SnDataVec)
  | .push content elem => do
    let r ← snDataVecPush (some content) vec elem.val
    return ((r.1, none), r.2)
  | .at' i => do
    let out ← snDataVecAt vec i
    return ((if out.isSome then 0 else -1, out), vec)
  | .removeAt content i out => do
    let r ← snDataVecRemoveAt (some content) vec i out
    return ((r.1, r.2.1), r.2.2)

/-- The answer of a list with swap-removal, and the list after the call. -/
def listCall {elemSize : ℕ} (l : List (List UInt8)) :
    VecCall elemSize → (ℤ × Option (List UInt8)) × List (List UInt8)
  | .push _ elem => ((0, none), l ++ [elem.val])
  | .at' i =>
    match l[i]? with
    | some elem => ((0, some elem), l)
    | none => ((-1, none), l)
  | .removeAt _ i out =>
    match l[i]? with
    | some elem => ((0, if out then some elem else none), swapRemove i l)
    | none => ((-1, none), l)

/-! ### The elements of a vector -/

/-- The bytes at the place of an element. -/
def SnDataVec.element (vec : SnDataVec) (i : ℕ) : List UInt8 :=
  slice (i * vec.elemSize) vec.elemSize vec.vec

/-- The elements of a vector. -/
def SnDataVec.elements (vec : SnDataVec) : List (List UInt8) :=
  (List.range vec.size).map vec.element

section Elements

variable {mem : Answer UInt8} {vec vec' : SnDataVec} {elem : List UInt8} {i : ℕ}

@[simp] theorem length_elements (vec : SnDataVec) : vec.elements.length = vec.size := by
  rw [SnDataVec.elements, List.length_map, List.length_range]

theorem getElem?_elements (hi : i < vec.size) : vec.elements[i]? = some (vec.element i) := by
  rw [SnDataVec.elements, List.getElem?_map, List.getElem?_range hi, Option.map_some]

theorem getElem?_elements_of_le (hi : vec.size ≤ i) : vec.elements[i]? = none :=
  List.getElem?_eq_none (by rwa [length_elements])

/-- Vectors that agree at the place of every element have the same elements. -/
theorem elements_congr (hsize : vec'.size = vec.size)
    (h : ∀ i < vec.size, vec'.element i = vec.element i) : vec'.elements = vec.elements := by
  rw [SnDataVec.elements, SnDataVec.elements, hsize]
  exact List.map_congr_left fun i hi => h i (List.mem_range.1 hi)

/-- Elements at different places do not overlap. -/
theorem mul_add_le_mul {j n : ℕ} (h : i < j) : i * n + n ≤ j * n := by
  rw [← Nat.succ_mul]
  exact Nat.mul_le_mul_right n h

/-- A reallocated block keeps the elements that it has room for. -/
theorem elements_of_realloc {capacity : ℕ} {block : List UInt8} (h : vec.Valid)
    (hroom : vec.size ≤ capacity)
    (hblock : realloc mem vec.vec (vec.elemSize * capacity) = some block) :
    SnDataVec.elements { vec with capacity := capacity, vec := block } = vec.elements := by
  refine elements_congr rfl fun i hi => slice_of_realloc hblock ?_ ?_
  · rw [Nat.mul_comm vec.elemSize]
    exact mul_add_le_mul (Nat.lt_of_lt_of_le hi hroom)
  · exact h.offset_le (Nat.lt_of_lt_of_le hi h.size_le)

/-- Growing keeps the elements. -/
theorem elements_of_grow (h : vec.Valid) (hgrow : grow mem vec = some vec') :
    vec'.elements = vec.elements := by
  rw [grow] at hgrow
  split_ifs at hgrow with hfull
  · obtain ⟨block, hblock, rfl⟩ := Option.map_eq_some_iff.1 hgrow
    exact elements_of_realloc h (hfull ▸ Nat.le_of_lt (lt_grownCapacity _)) hblock
  · obtain rfl := Option.some.inj hgrow
    rfl

/-- Shrinking keeps the elements, whether the allocator takes memory back or not. -/
theorem elements_shrink (mem : Answer UInt8) (h : vec.Valid) :
    (shrink mem vec).elements = vec.elements := by
  rcases shrink_cases mem vec with ⟨hhalf, block, hshrink, rfl | hblock⟩ | ⟨-, hshrink⟩
  · rw [hshrink]
    rfl
  · rw [hshrink]
    exact elements_of_realloc h hhalf.2 hblock
  · rw [hshrink]

theorem capacity_of_grow (hgrow : grow mem vec = some vec') :
    vec'.capacity = if vec.size = vec.capacity then grownCapacity vec.capacity
      else vec.capacity := by
  rw [grow] at hgrow
  split_ifs at hgrow ⊢
  · obtain ⟨block, -, rfl⟩ := Option.map_eq_some_iff.1 hgrow
    rfl
  · rw [Option.some.inj hgrow]

/-- The capacity after the attempt to shrink, which does not depend on the allocator. -/
def shrunkCapacity (size capacity : ℕ) : ℕ :=
  if capacity / 2 ≥ 8 ∧ size ≤ capacity / 2 then capacity / 2 else capacity

theorem capacity_shrink (mem : Answer UInt8) (vec : SnDataVec) :
    (shrink mem vec).capacity = shrunkCapacity vec.size vec.capacity := by
  rw [shrunkCapacity]
  rcases shrink_cases mem vec with ⟨hhalf, block, hshrink, -⟩ | ⟨hhalf, hshrink⟩
  · rw [hshrink, if_pos hhalf]
  · rw [hshrink, if_neg hhalf]

/-- An element that is written behind the last one is appended. -/
theorem elements_splice (h : vec.Valid) (hroom : vec.size < vec.capacity)
    (helem : elem.length = vec.elemSize) :
    SnDataVec.elements { vec with
      size := vec.size + 1
      vec := splice (vec.size * vec.elemSize) elem vec.vec } = vec.elements ++ [elem] := by
  have hoff : vec.size * vec.elemSize ≤ vec.vec.length :=
    Nat.le_trans (Nat.le_add_right _ _) (h.offset_le hroom)
  rw [SnDataVec.elements, List.range_succ, List.map_append, List.map_singleton]
  congr 1
  · refine List.map_congr_left fun i hi => ?_
    exact slice_splice_before hoff (mul_add_le_mul (List.mem_range.1 hi))
  · exact congrArg (fun e => [e]) (slice_splice_self hoff helem)

/-- Copying the last element to a place overwrites this element and no other one. -/
theorem element_lastCopied (h : vec.Valid) (hlast : vec.size < vec.capacity) (hi : i ≤ vec.size)
    {j : ℕ} (hj : j < vec.size) :
    slice (j * vec.elemSize) vec.elemSize (lastCopied vec i) =
      if j = i then vec.element vec.size else vec.element j := by
  have hlen := length_slice (h.offset_le hlast)
  have hoff := h.offset_le (Nat.lt_of_le_of_lt hi hlast)
  rw [lastCopied]
  split_ifs with hne hji hji
  · subst hji
    exact slice_splice_self (by omega) hlen
  · rcases Nat.lt_or_gt_of_ne hji with hlt | hgt
    · exact slice_splice_before (by omega) (mul_add_le_mul hlt)
    · exact slice_splice_after (by rwa [hlen]) (by rw [hlen]; exact mul_add_le_mul hgt)
  · exact absurd (hji ▸ hj) (by omega)
  · rfl

/-- A removal swaps the last element in. -/
theorem elements_lastMoved (h : vec.Valid) (hi : i < vec.size) :
    (lastMoved vec i).elements = swapRemove i vec.elements := by
  have hsize := h.size_le
  refine List.ext_getElem? fun j => ?_
  by_cases hj : j < vec.size - 1
  · have hleft : (lastMoved vec i).element j =
        if j = i then vec.element (vec.size - 1) else vec.element j :=
      element_lastCopied h.pred (by dsimp only; omega) (Nat.le_pred_of_lt hi) hj
    rw [getElem?_elements hj, hleft, getElem?_swapRemove (by simpa) (by simpa using by omega),
      length_elements, getElem?_elements (by omega), getElem?_elements (by omega)]
    split_ifs
    · rfl
    · rfl
  · rw [getElem?_elements_of_le (Nat.not_lt.1 hj), List.getElem?_eq_none]
    rw [length_swapRemove, length_elements]
    exact Nat.not_lt.1 hj

end Elements

/-! ### Runs of calls -/

/-- A vector with elements of a given size, and the list of these elements. -/
structure Represents (elemSize : ℕ) (vec : SnDataVec) (l : List (List UInt8)) : Prop where
  valid : vec.Valid
  elemSize_eq : vec.elemSize = elemSize
  elements_eq : vec.elements = l

section Run

variable {elemSize : ℕ} {vec : SnDataVec} {content : ℕ → UInt8} {i : ℕ}

theorem Represents.size_eq {l : List (List UInt8)} (h : Represents elemSize vec l) :
    vec.size = l.length := by
  rw [← h.elements_eq, length_elements]

theorem represents_nil {capacity : ℕ}
    (hinit : snDataVecWithCapacity (some content) elemSize capacity = .ok (some vec)) :
    Represents elemSize vec [] := by
  obtain ⟨hvalid, helem, hsize⟩ := valid_of_withCapacity hinit
  exact ⟨hvalid, helem, List.eq_nil_of_length_eq_zero (by rw [length_elements, hsize])⟩

/-- A push with a willing allocator appends, and grows a full vector. -/
theorem exists_push (h : vec.Valid) (helem : vec.elemSize = elemSize)
    (elem : CArray UInt8 elemSize) :
    ∃ vec', vecCall vec (.push content elem) = .ok ((0, none), vec') ∧
      Represents elemSize vec' (vec.elements ++ [elem.val]) ∧
      vec'.capacity = if vec.size = vec.capacity then grownCapacity vec.capacity
        else vec.capacity := by
  cases hgrow : grow (some content) vec with
  | none => exact absurd (grow_eq_none_iff.1 hgrow).1 (by simp)
  | some grown =>
    obtain ⟨hvalid, hroom, -, hsize⟩ := valid_of_grow h hgrow
    have hlen : elem.val.length = grown.elemSize := by rw [elem.property, hsize, helem]
    obtain ⟨vec', hpush, hvalid', hsize'⟩ := valid_of_pushElem hvalid hroom hlen
    refine ⟨vec', ?_, ⟨hvalid', by rw [hsize', hsize, helem], ?_⟩, ?_⟩
    · rw [vecCall, snDataVecPush_eq h.size_le, hgrow]
      dsimp only
      rw [hpush]
      rfl
    · rw [pushElem_eq hvalid hroom hlen] at hpush
      cases hpush
      rw [elements_splice hvalid hroom hlen, elements_of_grow h hgrow]
    · rw [pushElem_eq hvalid hroom hlen] at hpush
      cases hpush
      rw [← capacity_of_grow hgrow]

/-- A removal at an index below the size removes with a swap, and may shrink the vector. -/
theorem exists_removeAt (content : ℕ → UInt8) (h : vec.Valid) (helem : vec.elemSize = elemSize)
    (hi : i < vec.size) (out : Bool) :
    ∃ vec', vecCall vec (.removeAt content i out : VecCall elemSize) =
        .ok ((0, if out then some (vec.element i) else none), vec') ∧
      Represents elemSize vec' (swapRemove i vec.elements) ∧
      vec'.capacity = shrunkCapacity (vec.size - 1) vec.capacity := by
  obtain ⟨hremove, hvalid⟩ := snDataVecRemoveAt_of_lt (some content) h hi out
  obtain ⟨hvalid', -, hsize⟩ := valid_shrink (some content) hvalid
  refine ⟨_, ?_, ⟨hvalid', hsize.trans helem, ?_⟩, capacity_shrink _ _⟩
  · rw [vecCall, hremove]
    rfl
  · rw [elements_shrink _ hvalid, elements_lastMoved h hi]

theorem vecCall_at'_of_lt (h : vec.Valid) (hi : i < vec.size) :
    vecCall vec (.at' i : VecCall elemSize) = .ok ((0, some (vec.element i)), vec) := by
  rw [vecCall, snDataVecAt, if_pos hi,
    load_of_le _ (h.offset_le (Nat.lt_of_lt_of_le hi h.size_le))]
  rfl

theorem vecCall_at'_of_le (hi : vec.size ≤ i) :
    vecCall vec (.at' i : VecCall elemSize) = .ok ((-1, none), vec) := by
  rw [vecCall, snDataVecAt, if_neg (Nat.not_lt.2 hi)]
  rfl

theorem vecCall_removeAt_of_le (hi : vec.size ≤ i) (out : Bool) :
    vecCall vec (.removeAt content i out : VecCall elemSize) = .ok ((-1, none), vec) := by
  rw [vecCall, snDataVecRemoveAt, if_pos hi]
  rfl

/-- The capacity after a call. -/
def capacityAfter (vec : SnDataVec) : VecCall elemSize → ℕ
  | .push _ _ => if vec.size = vec.capacity then grownCapacity vec.capacity else vec.capacity
  | .at' _ => vec.capacity
  | .removeAt _ i _ =>
    if i < vec.size then shrunkCapacity (vec.size - 1) vec.capacity else vec.capacity

/-- What a call does: it answers as it does for the list of the elements, and the vector goes on to
have the elements of the list. -/
theorem exists_vecCall (h : vec.Valid) (helem : vec.elemSize = elemSize)
    (call : VecCall elemSize) :
    ∃ vec', vecCall vec call = .ok ((listCall vec.elements call).1, vec') ∧
      Represents elemSize vec' (listCall vec.elements call).2 ∧
      vec'.capacity = capacityAfter vec call := by
  cases call with
  | push content elem => exact exists_push h helem elem
  | at' i =>
    refine ⟨vec, ?_⟩
    by_cases hi : i < vec.size
    · rw [vecCall_at'_of_lt h hi, listCall, getElem?_elements hi]
      exact ⟨rfl, ⟨h, helem, rfl⟩, rfl⟩
    · rw [vecCall_at'_of_le (Nat.not_lt.1 hi), listCall,
        getElem?_elements_of_le (Nat.not_lt.1 hi)]
      exact ⟨rfl, ⟨h, helem, rfl⟩, rfl⟩
  | removeAt content i out =>
    rw [listCall, capacityAfter]
    by_cases hi : i < vec.size
    · rw [getElem?_elements hi, if_pos hi]
      exact exists_removeAt content h helem hi out
    · rw [getElem?_elements_of_le (Nat.not_lt.1 hi), if_neg hi]
      exact ⟨vec, vecCall_removeAt_of_le (Nat.not_lt.1 hi) out, ⟨h, helem, rfl⟩, rfl⟩

/-- **What one call preserves.** The vector has the elements of the list. -/
theorem simulates_vecCall :
    Simulates (ι := VecCall elemSize) (Represents elemSize) vecCall listCall := by
  rintro vec _ call ⟨hvalid, helem, rfl⟩
  obtain ⟨vec', hcall, hrep, -⟩ := exists_vecCall hvalid helem call
  exact ⟨vec', hcall, hrep⟩

/-- A read or a removal at an index returns 0 below the size. From the size on it returns -1 and
changes nothing. -/
theorem exists_vecCall_index (h : vec.Valid) (helem : vec.elemSize = elemSize)
    {call : VecCall elemSize}
    (hcall : call = .at' i ∨ ∃ content out, call = .removeAt content i out) :
    ∃ ret out vec', vecCall vec call = .ok ((ret, out), vec') ∧
      (ret = -1 ↔ vec.size ≤ i) ∧ (vec.size ≤ i → out = none ∧ vec' = vec) := by
  by_cases hi : i < vec.size
  · have hnot : ¬ vec.size ≤ i := Nat.not_le.2 hi
    rcases hcall with rfl | ⟨content, out, rfl⟩
    · exact ⟨0, _, vec, vecCall_at'_of_lt h hi, by simpa using hi, fun h => absurd h hnot⟩
    · obtain ⟨vec', hremove, -⟩ := exists_removeAt content h helem hi out
      exact ⟨0, _, vec', hremove, by simpa using hi, fun h => absurd h hnot⟩
  · have hle : vec.size ≤ i := Nat.not_lt.1 hi
    refine ⟨-1, none, vec, ?_, iff_of_true rfl hle, fun _ => ⟨rfl, rfl⟩⟩
    rcases hcall with rfl | ⟨content, out, rfl⟩
    · exact vecCall_at'_of_le hle
    · exact vecCall_removeAt_of_le hle out

/-- **The vector refines the list.** After an initialisation with any capacity, a run of calls with
a willing allocator answers as it does for a list with swap-removal that starts empty. The elements
of the vector are then those of the list, the size has not passed the capacity, and the calls
that return -1 are the reads and removals at an index from the size on, which change nothing. -/
theorem exists_respond_vecCall {capacity : ℕ}
    (hinit : snDataVecWithCapacity (some content) elemSize capacity = .ok (some vec))
    (calls : List (VecCall elemSize)) :
    ∃ vec', respond vecCall vec calls = .ok ((answers listCall [] calls).1, vec') ∧
      vec'.elements = (answers listCall [] calls).2 ∧
      vec'.size = (answers listCall [] calls).2.length ∧
      vec'.size ≤ vec'.capacity ∧
      ∀ (call : VecCall elemSize) (i : ℕ),
        (call = .at' i ∨ ∃ content out, call = .removeAt content i out) →
          ∃ ret out vec'', vecCall vec' call = .ok ((ret, out), vec'') ∧
            (ret = -1 ↔ vec'.size ≤ i) ∧ (vec'.size ≤ i → out = none ∧ vec'' = vec') := by
  obtain ⟨vec', hrun, hrep⟩ := simulates_vecCall.respond_eq (represents_nil hinit) calls
  exact ⟨vec', hrun, hrep.elements_eq, hrep.size_eq, hrep.valid.size_le,
    fun call i hcall => exists_vecCall_index hrep.valid hrep.elemSize_eq hcall⟩

/-- A run of a vector of capacity 0 that pushes, removes and reads. -/
theorem respond_vecCall_of_zero_capacity :
    ∃ vec', respond vecCall ⟨1, 0, 0, []⟩ [VecCall.push (fun _ => 0) (oneByte 7),
        .push (fun _ => 0) (oneByte 8), .removeAt (fun _ => 0) 0 true, .at' 0] =
          .ok ([(0, none), (0, none), (0, some [7]), (0, some [8])], vec') ∧
        vec'.elements = [[8]] := by
  have hinit : snDataVecWithCapacity (some fun _ => 0) 1 0 = .ok (some ⟨1, 0, 0, []⟩) := rfl
  obtain ⟨vec', hrun, helements, -⟩ := exists_respond_vecCall hinit
    [VecCall.push (fun _ => 0) (oneByte 7), .push (fun _ => 0) (oneByte 8),
      .removeAt (fun _ => 0) 0 true, .at' 0]
  exact ⟨vec', hrun, helements⟩

end Run

end SndNet
