import Mathlib.Data.Int.Notation
import Mathlib.Data.List.Induction
import SndNet.Common
import SndNet.Library.FallibleRun
import SndNet.Library.HeapBlock

/-!
# The vector

The vector holds elements of one size in a block that grows and shrinks (`src/data/vec.c`). The
field `capacity` says how many elements the block has room for. Push and removal set it before they
know whether the block could be reallocated. Sizes are natural numbers: sizes in bytes that do not
fit into `size_t` are left out.

## Main definitions

* `SndNet.SnDataVec`: the vector.
* `SndNet.snDataVecWithCapacity`, `SndNet.snDataVecAt`, `SndNet.snDataVecPush`,
  `SndNet.snDataVecRemoveAt`: its operations, with the answer of the allocator.
* `SndNet.SnDataVec.Valid`: the block has room for the capacity.
* `SndNet.SurvivesRun`: no step of a run leaves the block, and a push that fails changes nothing.

## Main results

* `SndNet.snDataVecPush_eq`, `SndNet.snDataVecRemoveAt_of_lt`: what the operations do.
* `SndNet.exists_vecStep`: what one step preserves.
* `SndNet.survivesRun_iff`: a run is survived when no push fails to grow the block.
-/

namespace SndNet

open ByteLayout FallibleRun HeapBlock

/-! ### The functions of the source -/

/-- `SN_DATA_VEC_DEFAULT_CAPACITY`. -/
abbrev snDataVecDefaultCapacity : ℕ := 8

/-- `sn_data_vec_t`, with the block that `vec` points to. -/
structure SnDataVec where
  /-- Element size. -/
  elemSize : ℕ
  /-- Size in elements. -/
  size : ℕ
  /-- Capacity in elements. -/
  capacity : ℕ
  vec : List UInt8
  deriving DecidableEq

/-- `sn_data_vec_with_capacity` (`src/data/vec.c`, lines 14–27), unless it returns -1. -/
def snDataVecWithCapacity (mem : Answer UInt8) (elemSize capacity : ℕ) :
    Exec (Option SnDataVec) := do
  cAssert (elemSize ≠ 0)
  return (malloc mem (elemSize * capacity)).map fun vec => ⟨elemSize, 0, capacity, vec⟩

/-- `sn_data_vec_at` (`src/data/vec.c`, lines 44–54): the bytes copied to `out`, unless it
returns -1. -/
def snDataVecAt (vec : SnDataVec) (at' : ℕ) : Exec (Option (List UInt8)) :=
  if at' < vec.size then do
    let elem ← load .outOfBounds vec.vec (at' * vec.elemSize) vec.elemSize
    return some elem
  else return none

/-- The end of `sn_data_vec_push`, which copies the element behind the last one. -/
def pushElem (vec : SnDataVec) (elem : List UInt8) : Exec (ℤ × SnDataVec) := do
  let bytes ← load .outOfBounds elem 0 vec.elemSize
  let block ← store .outOfBounds vec.vec (vec.size * vec.elemSize) bytes
  return (0, { vec with size := vec.size + 1, vec := block })

/-- `sn_data_vec_push` (`src/data/vec.c`, lines 56–81), with the bytes that `elem` points to. -/
def snDataVecPush (mem : Answer UInt8) (vec : SnDataVec) (elem : List UInt8) :
    Exec (ℤ × SnDataVec) := do
  cAssert (vec.size ≤ vec.capacity)
  if vec.size = vec.capacity then
    let vec := { vec with capacity := vec.capacity * 2 }
    let vec := if vec.capacity = 0 then { vec with capacity := 1 } else vec
    match realloc mem vec.vec (vec.elemSize * vec.capacity) with
    | none => return (-1, vec)
    | some newVec => pushElem { vec with vec := newVec } elem
  else pushElem vec elem

/-- The end of `sn_data_vec_remove_at`, which gives memory back when half of it is enough. -/
def shrink (mem : Answer UInt8) (vec : SnDataVec) : SnDataVec :=
  if vec.capacity / 2 ≥ snDataVecDefaultCapacity ∧ vec.size ≤ vec.capacity / 2 then
    let vec := { vec with capacity := vec.capacity / 2 }
    match realloc mem vec.vec (vec.elemSize * vec.capacity) with
    | none => vec
    | some newVec => { vec with vec := newVec }
  else vec

/-- The copy of the element to be removed to `out`, if it is given. -/
def copyToOut (vec : SnDataVec) (at' : ℕ) (out : Bool) : Exec (Option (List UInt8)) :=
  if out then do
    let elem ← load .outOfBounds vec.vec (at' * vec.elemSize) vec.elemSize
    return some elem
  else return none

/-- The copy of the last element to the place of the removed one, after the size has changed. -/
def copyLast (vec : SnDataVec) (at' : ℕ) : Exec (List UInt8) :=
  if vec.size ≠ at' then do
    let last ← load .outOfBounds vec.vec (vec.size * vec.elemSize) vec.elemSize
    store .outOfBounds vec.vec (at' * vec.elemSize) last
  else return vec.vec

/-- `sn_data_vec_remove_at` (`src/data/vec.c`, lines 83–109): the return value, the bytes copied to
`out`, if it is given, and the vector. -/
def snDataVecRemoveAt (mem : Answer UInt8) (vec : SnDataVec) (at' : ℕ) (out : Bool) :
    Exec (ℤ × Option (List UInt8) × SnDataVec) :=
  if at' ≥ vec.size then return (-1, none, vec)
  else do
    let removed ← copyToOut vec at' out
    let vec := { vec with size := vec.size - 1 }
    let block ← copyLast vec at'
    return (0, removed, shrink mem { vec with vec := block })

/-! ### What the operations do -/

/-- The block has room for the capacity, and the elements stay below it. -/
structure SnDataVec.Valid (vec : SnDataVec) : Prop where
  elemSize_ne : vec.elemSize ≠ 0
  size_le : vec.size ≤ vec.capacity
  room : vec.elemSize * vec.capacity ≤ vec.vec.length

/-- The capacity that a full vector gets. -/
def grownCapacity (capacity : ℕ) : ℕ := if capacity * 2 = 0 then 1 else capacity * 2

/-- The vector with room for one more element, unless the allocator refuses. -/
def grow (mem : Answer UInt8) (vec : SnDataVec) : Option SnDataVec :=
  if vec.size = vec.capacity then
    (realloc mem vec.vec (vec.elemSize * grownCapacity vec.capacity)).map fun newVec =>
      { vec with capacity := grownCapacity vec.capacity, vec := newVec }
  else some vec

theorem lt_grownCapacity (capacity : ℕ) : capacity < grownCapacity capacity := by
  rw [grownCapacity]
  split_ifs
  · omega
  · omega

section Spec

variable {mem : Answer UInt8} {vec : SnDataVec} {elem : List UInt8} {at' : ℕ}

/-- An element of a vector lies in its block. -/
theorem SnDataVec.Valid.offset_le (h : vec.Valid) {i : ℕ} (hi : i < vec.capacity) :
    i * vec.elemSize + vec.elemSize ≤ vec.vec.length := by
  have hmul : vec.elemSize * (i + 1) ≤ vec.elemSize * vec.capacity := Nat.mul_le_mul_left _ hi
  have hroom := h.room
  rw [Nat.mul_add, Nat.mul_comm] at hmul
  omega

theorem valid_of_withCapacity {elemSize capacity : ℕ}
    (h : snDataVecWithCapacity mem elemSize capacity = .ok (some vec)) :
    vec.Valid ∧ vec.elemSize = elemSize ∧ vec.size = 0 := by
  obtain ⟨_, hassert, hret⟩ := bind_eq_ok.1 h
  have helem : elemSize ≠ 0 := by
    by_contra h0
    rw [cAssert_of_not (not_not.2 h0)] at hassert
    cases hassert
  obtain ⟨block, hblock, rfl⟩ := Option.map_eq_some_iff.1 (Except.ok.inj hret)
  exact ⟨⟨helem, Nat.zero_le _, Nat.le_of_eq (length_of_malloc hblock).symm⟩, rfl, rfl⟩

/-- An element is copied behind the last one when the capacity allows it. -/
theorem pushElem_eq (h : vec.Valid) (hroom : vec.size < vec.capacity)
    (helem : elem.length = vec.elemSize) : pushElem vec elem = .ok (0, { vec with
      size := vec.size + 1
      vec := splice (vec.size * vec.elemSize) elem vec.vec }) := by
  have hload : load Fault.outOfBounds elem 0 vec.elemSize = .ok elem := by
    rw [load_of_le _ (by omega), slice_of_length helem]
  rw [pushElem, hload, ok_bind, store_of_le _ (by rw [helem]; exact h.offset_le hroom)]
  rfl

/-- A push first makes room. -/
theorem snDataVecPush_eq (h : vec.size ≤ vec.capacity) : snDataVecPush mem vec elem =
    match grow mem vec with
    | none => .ok (-1, { vec with capacity := grownCapacity vec.capacity })
    | some vec' => pushElem vec' elem := by
  have hcapacity : (if vec.capacity * 2 = 0 then { vec with capacity := 1 }
      else { vec with capacity := vec.capacity * 2 }) =
        { vec with capacity := grownCapacity vec.capacity } := by
    rw [grownCapacity]
    split_ifs <;> rfl
  rw [snDataVecPush, cAssert_of h, ok_bind, grow]
  by_cases hfull : vec.size = vec.capacity
  · rw [if_pos hfull, if_pos hfull]
    simp only [hcapacity]
    cases realloc mem vec.vec (vec.elemSize * grownCapacity vec.capacity) with
    | none => rfl
    | some newVec => rfl
  · rw [if_neg hfull, if_neg hfull]

/-- Making room keeps a vector valid. -/
theorem valid_of_grow {vec' : SnDataVec} (h : vec.Valid) (hgrow : grow mem vec = some vec') :
    vec'.Valid ∧ vec'.size < vec'.capacity ∧ vec'.size = vec.size ∧
      vec'.elemSize = vec.elemSize := by
  rw [grow] at hgrow
  split_ifs at hgrow with hfull
  · obtain ⟨block, hblock, rfl⟩ := Option.map_eq_some_iff.1 hgrow
    have hlt : vec.size < grownCapacity vec.capacity := hfull ▸ lt_grownCapacity vec.size
    exact ⟨⟨h.elemSize_ne, Nat.le_of_lt hlt, Nat.le_of_eq (length_of_realloc hblock).symm⟩, hlt,
      rfl, rfl⟩
  · obtain rfl := Option.some.inj hgrow
    exact ⟨h, Nat.lt_of_le_of_ne h.size_le hfull, rfl, rfl⟩

theorem grow_eq_none_iff : grow mem vec = none ↔ mem = none ∧ vec.size = vec.capacity := by
  rw [grow]
  split_ifs with hfull
  · rw [Option.map_eq_none_iff, realloc, Option.map_eq_none_iff, and_iff_left hfull]
  · exact iff_of_false (fun h => nomatch h) fun h => hfull h.2

/-- When memory is given back: the capacity is halved, and the block is the one that the allocator
returns, or the old one if it refuses. -/
theorem shrink_cases (mem : Answer UInt8) (vec : SnDataVec) :
    (vec.capacity / 2 ≥ snDataVecDefaultCapacity ∧ vec.size ≤ vec.capacity / 2) ∧
        (∃ block, shrink mem vec = { vec with capacity := vec.capacity / 2, vec := block } ∧
          (block = vec.vec ∨
            realloc mem vec.vec (vec.elemSize * (vec.capacity / 2)) = some block)) ∨
      ¬ (vec.capacity / 2 ≥ snDataVecDefaultCapacity ∧ vec.size ≤ vec.capacity / 2) ∧
        shrink mem vec = vec := by
  rw [shrink]
  split_ifs with hhalf
  · refine Or.inl ⟨hhalf, ?_⟩
    dsimp only
    cases hblock : realloc mem vec.vec (vec.elemSize * (vec.capacity / 2)) with
    | none => exact ⟨vec.vec, rfl, Or.inl rfl⟩
    | some block => exact ⟨block, rfl, Or.inr rfl⟩
  · exact Or.inr ⟨hhalf, rfl⟩

/-- Giving memory back keeps a vector valid, whether the allocator takes it or not. -/
theorem valid_shrink (mem : Answer UInt8) (h : vec.Valid) : (shrink mem vec).Valid ∧
    (shrink mem vec).size = vec.size ∧ (shrink mem vec).elemSize = vec.elemSize := by
  rcases shrink_cases mem vec with ⟨hhalf, block, hshrink, rfl | hblock⟩ | ⟨-, hshrink⟩
  · have hle : vec.elemSize * (vec.capacity / 2) ≤ vec.elemSize * vec.capacity :=
      Nat.mul_le_mul_left _ (Nat.div_le_self _ _)
    rw [hshrink]
    exact ⟨⟨h.elemSize_ne, hhalf.2, Nat.le_trans hle h.room⟩, rfl, rfl⟩
  · rw [hshrink]
    exact ⟨⟨h.elemSize_ne, hhalf.2, Nat.le_of_eq (length_of_realloc hblock).symm⟩, rfl, rfl⟩
  · rw [hshrink]
    exact ⟨h, rfl, rfl⟩

/-- A push into a vector with room. -/
theorem valid_of_pushElem (h : vec.Valid) (hroom : vec.size < vec.capacity)
    (helem : elem.length = vec.elemSize) : ∃ vec', pushElem vec elem = .ok (0, vec') ∧
      vec'.Valid ∧ vec'.elemSize = vec.elemSize := by
  refine ⟨_, pushElem_eq h hroom helem, ⟨h.elemSize_ne, hroom, ?_⟩, rfl⟩
  rw [length_splice (by rw [helem]; exact h.offset_le hroom)]
  exact h.room

theorem copyToOut_eq (h : vec.Valid) (hat : at' < vec.size) (out : Bool) :
    copyToOut vec at' out =
      .ok (if out then some (slice (at' * vec.elemSize) vec.elemSize vec.vec) else none) := by
  have hlt : at' < vec.capacity := Nat.lt_of_lt_of_le hat h.size_le
  rw [copyToOut, load_of_le _ (h.offset_le hlt)]
  cases out <;> rfl

/-- The block after the last element has been copied. -/
def lastCopied (vec : SnDataVec) (at' : ℕ) : List UInt8 :=
  if vec.size ≠ at' then
    splice (at' * vec.elemSize) (slice (vec.size * vec.elemSize) vec.elemSize vec.vec) vec.vec
  else vec.vec

theorem copyLast_eq (h : vec.Valid) (hlast : vec.size < vec.capacity) (hat : at' ≤ vec.size) :
    copyLast vec at' = .ok (lastCopied vec at') ∧
      (lastCopied vec at').length = vec.vec.length := by
  have hlen := length_slice (h.offset_le hlast)
  have hroom := h.offset_le (Nat.lt_of_le_of_lt hat hlast)
  rw [copyLast, lastCopied, load_of_le _ (h.offset_le hlast), ok_bind,
    store_of_le _ (by rwa [hlen])]
  split_ifs
  · exact ⟨rfl, length_splice (by rwa [hlen])⟩
  · exact ⟨rfl, rfl⟩

/-- The vector after the last element has been copied, before memory is given back. -/
def lastMoved (vec : SnDataVec) (at' : ℕ) : SnDataVec :=
  { vec with
    size := vec.size - 1
    vec := lastCopied { vec with size := vec.size - 1 } at' }

/-- A valid vector stays valid when its last element is no longer counted. -/
theorem SnDataVec.Valid.pred (h : vec.Valid) : SnDataVec.Valid { vec with size := vec.size - 1 } :=
  ⟨h.elemSize_ne, Nat.le_trans (Nat.sub_le _ _) h.size_le, h.room⟩

/-- A removal takes the last element to the place of the removed one, and may give memory back. -/
theorem snDataVecRemoveAt_of_lt (mem : Answer UInt8) (h : vec.Valid) (hat : at' < vec.size)
    (out : Bool) :
    snDataVecRemoveAt mem vec at' out = .ok (0,
      if out then some (slice (at' * vec.elemSize) vec.elemSize vec.vec) else none,
      shrink mem (lastMoved vec at')) ∧ (lastMoved vec at').Valid := by
  have hsize := h.size_le
  obtain ⟨hcopy, hlen⟩ := copyLast_eq h.pred (by dsimp only; omega) (Nat.le_pred_of_lt hat)
  rw [snDataVecRemoveAt, if_neg (Nat.not_le.2 hat), copyToOut_eq h hat, ok_bind]
  dsimp only
  rw [hcopy, ok_bind]
  exact ⟨rfl, h.elemSize_ne, h.pred.size_le, hlen.symm ▸ h.room⟩

end Spec

/-! ### Runs -/

/-- A push or a removal, with the answer of the allocator. -/
inductive VecOp (elemSize : ℕ) where
  | push (mem : Answer UInt8) (elem : CArray UInt8 elemSize)
  | removeAt (mem : Answer UInt8) (at' : ℕ) (out : Bool)

/-- The return value and the vector after an operation. -/
def vecStep {elemSize : ℕ} (vec : SnDataVec) : VecOp elemSize → Exec (ℤ × SnDataVec)
  | .push mem elem => snDataVecPush mem vec elem.val
  | .removeAt mem at' out => do
    let r ← snDataVecRemoveAt mem vec at' out
    return (r.1, r.2.2)

/-- The vector after the operations of a list. -/
def vecRun {elemSize : ℕ} (vec : SnDataVec) (ops : List (VecOp elemSize)) : Exec SnDataVec :=
  run (fun vec op => do
    let r ← vecStep vec op
    return r.2) vec ops

section Run

variable {elemSize : ℕ}

/-- An operation is survived: no copy leaves the block, the block holds all elements afterwards, and
a push that returns -1 leaves the vector as it was. -/
def SurvivesStep (vec : SnDataVec) (op : VecOp elemSize) : Prop :=
  ∃ ret vec', vecStep vec op = .ok (ret, vec') ∧
    vec'.size * vec'.elemSize ≤ vec'.vec.length ∧
    ((∃ mem elem, op = .push mem elem) → ret = -1 → vec' = vec)

/-- All operations of a run are survived. -/
def SurvivesRun (vec : SnDataVec) (ops : List (VecOp elemSize)) : Prop :=
  ∀ done op rest, ops = done ++ op :: rest →
    ∃ vec', vecRun vec done = .ok vec' ∧ SurvivesStep vec' op

/-- A push into a full vector for which the allocator has no memory. -/
def FailsToGrow (vec : SnDataVec) (op : VecOp elemSize) : Prop :=
  (∃ elem, op = .push none elem) ∧ vec.size = vec.capacity

/-- In a run no push into a full vector is refused memory. -/
def AlwaysGrows (vec : SnDataVec) (ops : List (VecOp elemSize)) : Prop :=
  ∀ done op rest, ops = done ++ op :: rest →
    ∀ vec', vecRun vec done = .ok vec' → ¬ FailsToGrow vec' op

variable {vec : SnDataVec} {op : VecOp elemSize} {ops : List (VecOp elemSize)}

/-- A push that fails to grow has changed the capacity. -/
theorem not_survivesStep (h : FailsToGrow vec op) : ¬ SurvivesStep vec op := by
  obtain ⟨⟨elem, rfl⟩, hfull⟩ := h
  have hgrow : grow none vec = none := if_pos hfull
  rintro ⟨ret, vec', hstep, -, hsame⟩
  rw [vecStep, snDataVecPush_eq (Nat.le_of_eq hfull), hgrow] at hstep
  cases hstep
  have hcapacity := congrArg SnDataVec.capacity (hsame ⟨_, _, rfl⟩ rfl)
  exact absurd hcapacity (Nat.ne_of_gt (lt_grownCapacity vec.capacity))

/-- **What one step preserves.** Any other operation keeps a vector valid, and does not return -1
from a push. -/
theorem exists_vecStep (h : vec.Valid) (hsize : vec.elemSize = elemSize)
    (hgrows : ¬ FailsToGrow vec op) : ∃ ret vec', vecStep vec op = .ok (ret, vec') ∧ vec'.Valid ∧
      vec'.elemSize = elemSize ∧ ((∃ mem elem, op = .push mem elem) → ret = 0) := by
  cases op with
  | push mem elem =>
    rw [vecStep, snDataVecPush_eq h.size_le]
    cases hgrow : grow mem vec with
    | none =>
      obtain ⟨rfl, hfull⟩ := grow_eq_none_iff.1 hgrow
      exact absurd ⟨⟨elem, rfl⟩, hfull⟩ hgrows
    | some grown =>
      obtain ⟨hvalid, hroom, -, helem⟩ := valid_of_grow h hgrow
      have hlen : elem.val.length = grown.elemSize := by rw [elem.property, helem, hsize]
      obtain ⟨vec', hpush, hvalid', helem'⟩ := valid_of_pushElem hvalid hroom hlen
      exact ⟨0, vec', hpush, hvalid', by rw [helem', helem, hsize], fun _ => rfl⟩
  | removeAt mem at' out =>
    by_cases hat : at' < vec.size
    · obtain ⟨hremove, hvalid⟩ := snDataVecRemoveAt_of_lt mem h hat out
      obtain ⟨hvalid', -, helem⟩ := valid_shrink mem hvalid
      exact ⟨0, _, by rw [vecStep, hremove]; rfl, hvalid', helem.trans hsize, fun _ => rfl⟩
    · refine ⟨-1, vec, ?_, h, hsize, fun ⟨_, _, hop⟩ => nomatch hop⟩
      rw [vecStep, snDataVecRemoveAt, if_pos (Nat.not_lt.1 hat)]
      rfl

/-- What a run preserves. -/
theorem exists_vecRun (h : vec.Valid) (hsize : vec.elemSize = elemSize)
    {done rest : List (VecOp elemSize)} (hgrows : AlwaysGrows vec (done ++ rest)) :
    ∃ vec', vecRun vec done = .ok vec' ∧ vec'.Valid ∧ vec'.elemSize = elemSize := by
  induction done using List.reverseRecOn generalizing rest with
  | nil => exact ⟨vec, rfl, h, hsize⟩
  | append_singleton done op ih =>
    have hsplit : done ++ [op] ++ rest = done ++ op :: rest := by simp
    rw [hsplit] at hgrows
    obtain ⟨vec₁, hrun, hvalid, helem⟩ := ih hgrows
    obtain ⟨ret, vec₂, hstep, hvalid', helem', -⟩ :=
      exists_vecStep hvalid helem (hgrows done op rest rfl vec₁ hrun)
    refine ⟨vec₂, run_concat_eq_ok.2 ⟨vec₁, hrun, ?_⟩, hvalid', helem'⟩
    rw [hstep]
    rfl

/-- **When a run is survived.** From a vector that has been initialised, no copy leaves the block
and no failed push changes the vector exactly when no push into a full vector is refused memory.
Refusals when memory is given back do not matter. -/
theorem survivesRun_iff {mem : Answer UInt8} {capacity : ℕ}
    (hinit : snDataVecWithCapacity mem elemSize capacity = .ok (some vec)) :
    SurvivesRun vec ops ↔ AlwaysGrows vec ops := by
  obtain ⟨hvalid, helem, -⟩ := valid_of_withCapacity hinit
  constructor
  · intro h done op rest heq vec' hrun hfails
    obtain ⟨vec'', hrun', hstep⟩ := h done op rest heq
    rw [hrun] at hrun'
    obtain rfl := Except.ok.inj hrun'
    exact not_survivesStep hfails hstep
  · intro h done op rest heq
    have hprefix : AlwaysGrows vec (done ++ op :: rest) := heq ▸ h
    obtain ⟨vec', hrun, hvalid', helem'⟩ := exists_vecRun hvalid helem hprefix
    obtain ⟨ret, vec'', hstep, hvalid'', helem'', hret⟩ :=
      exists_vecStep hvalid' helem' (h done op rest heq vec' hrun)
    refine ⟨vec', hrun, ret, vec'', hstep, ?_, fun hop hneg => ?_⟩
    · rw [Nat.mul_comm]
      exact Nat.le_trans (Nat.mul_le_mul_left _ hvalid''.size_le) hvalid''.room
    · rw [hret hop] at hneg
      cases hneg

/-- An element of one byte. -/
def oneByte (b : UInt8) : CArray UInt8 1 := ⟨[b], rfl⟩

theorem survivesRun_of_granted : SurvivesRun ⟨1, 0, 1, [0]⟩ [VecOp.push none (oneByte 7),
    .push (some fun _ => 0) (oneByte 8), .removeAt none 0 true] := by
  have hinit : snDataVecWithCapacity (some fun _ => 0) 1 1 = .ok (some ⟨1, 0, 1, [0]⟩) := by decide
  refine (survivesRun_iff hinit).2 ?_
  rintro done op rest heq vec' hrun ⟨⟨elem, rfl⟩, hfull⟩
  rcases done with _ | ⟨_, _ | ⟨_, _ | ⟨_, done⟩⟩⟩
  · cases hrun
    exact absurd hfull (by decide)
  · simp at heq
  · simp at heq
  · simp at heq

/-- After a push that is refused memory, the next one writes behind the block. -/
theorem not_survivesRun_refused :
    snDataVecWithCapacity (some fun _ => 0) 1 1 = .ok (some ⟨1, 0, 1, [0]⟩) ∧
    vecRun ⟨1, 0, 1, [0]⟩ [VecOp.push none (oneByte 1), .push none (oneByte 2),
      .push none (oneByte 3)] = .error .outOfBounds ∧
    ¬ SurvivesRun ⟨1, 0, 1, [0]⟩ [VecOp.push none (oneByte 1), .push none (oneByte 2),
      .push none (oneByte 3)] := by
  refine ⟨by decide, by decide, fun h => ?_⟩
  obtain ⟨vec, hrun, hstep⟩ := h [.push none (oneByte 1)] (.push none (oneByte 2)) _ rfl
  have hfull : vec.size = vec.capacity := by
    cases hrun
    rfl
  exact not_survivesStep ⟨⟨_, rfl⟩, hfull⟩ hstep

end Run

end SndNet
