import Mathlib.Algebra.Group.Nat.Defs
import SndNet.Data.Vec.Refinement

/-!
# The capacity of a vector

The vector doubles a block that is full and halves one that is half empty, but never below eight
elements (`src/data/vec.c`, lines 61–78 and 97–106). A block that has just been doubled holds more
than half of its capacity, and one that has just been halved is full, so the two thresholds fit
together: however pushes and removals alternate, the block stays below twice the content.

## Main definitions

* `SndNet.snDataVecInit`: a vector with the default capacity.
* `SndNet.Proportional`: the capacity is eight times a power of two, and either eight or below twice
  the size.

## Main results

* `SndNet.Proportional.push`, `SndNet.Proportional.removeAt`: what growing and shrinking preserve.
* `SndNet.exists_respond_proportional`: what a run of calls preserves.
-/

namespace SndNet

open FallibleRun HeapBlock Simulation SwapList

/-- `sn_data_vec_init` (`src/data/vec.c`, lines 10–12), unless it returns -1. -/
def snDataVecInit (mem : Answer UInt8) (elemSize : ℕ) : Exec (Option SnDataVec) :=
  snDataVecWithCapacity mem elemSize snDataVecDefaultCapacity

theorem capacity_of_withCapacity {mem : Answer UInt8} {elemSize capacity : ℕ} {vec : SnDataVec}
    (h : snDataVecWithCapacity mem elemSize capacity = .ok (some vec)) :
    vec.capacity = capacity := by
  obtain ⟨_, -, hret⟩ := bind_eq_ok.1 h
  obtain ⟨block, -, rfl⟩ := Option.map_eq_some_iff.1 (Except.ok.inj hret)
  rfl

/-- The capacity is eight times a power of two, and if it is not eight, then it is below twice the
size. -/
def Proportional (size capacity : ℕ) : Prop :=
  (∃ k, capacity = 8 * 2 ^ k) ∧ (capacity = 8 ∨ capacity < 2 * size)

section Step

variable {size capacity : ℕ}

theorem Proportional.ne_zero (h : Proportional size capacity) : capacity ≠ 0 := by
  obtain ⟨⟨k, rfl⟩, -⟩ := h
  have hpos : 0 < 2 ^ k := Nat.two_pow_pos k
  omega

/-- More elements are no harm. -/
theorem Proportional.succ (h : Proportional size capacity) : Proportional (size + 1) capacity :=
  ⟨h.1, h.2.imp_right fun hlt => by omega⟩

/-- A full block is doubled, and then it holds one element more than half of its capacity. -/
theorem Proportional.push (h : Proportional size capacity) :
    Proportional (size + 1) (if size = capacity then grownCapacity capacity else capacity) := by
  split_ifs with hfull
  · have hgrown : grownCapacity capacity = capacity * 2 := by
      have hne := h.ne_zero
      rw [grownCapacity, if_neg (by omega)]
    obtain ⟨⟨k, hk⟩, -⟩ := h
    rw [hgrown]
    refine ⟨⟨k + 1, by rw [hk, Nat.pow_succ, Nat.mul_assoc]⟩, Or.inr ?_⟩
    omega
  · exact h.succ

/-- A block is halved when it has become exactly half empty, and then it is full. -/
theorem Proportional.removeAt (h : Proportional size capacity) (hsize : 0 < size) :
    Proportional (size - 1) (shrunkCapacity (size - 1) capacity) := by
  obtain ⟨⟨k, rfl⟩, hor⟩ := h
  rw [shrunkCapacity]
  cases k with
  | zero => exact ⟨⟨0, if_neg (by omega)⟩, Or.inl (if_neg (by omega))⟩
  | succ k =>
    have hhalf : 8 * 2 ^ (k + 1) / 2 = 8 * 2 ^ k := by
      rw [Nat.pow_succ]
      omega
    have hpos : 0 < 2 ^ k := Nat.two_pow_pos k
    rw [hhalf]
    rw [Nat.pow_succ] at hor
    split_ifs with hshrink
    · exact ⟨⟨k, rfl⟩, Or.inr (by omega)⟩
    · refine ⟨⟨k + 1, rfl⟩, Or.inr ?_⟩
      rw [Nat.pow_succ]
      omega

end Step

section Run

variable {elemSize : ℕ} {vec : SnDataVec} {content : ℕ → UInt8}

theorem Proportional.capacityAfter (h : Proportional vec.size vec.capacity)
    (call : VecCall elemSize) :
    Proportional (listCall vec.elements call).2.length (capacityAfter vec call) := by
  cases call with
  | push content elem =>
    rw [listCall, List.length_append, length_elements]
    exact h.push
  | at' i =>
    rw [listCall]
    by_cases hi : i < vec.size
    · rw [getElem?_elements hi]
      exact (length_elements vec).symm ▸ h
    · rw [getElem?_elements_of_le (Nat.not_lt.1 hi)]
      exact (length_elements vec).symm ▸ h
  | removeAt content i out =>
    rw [listCall, SndNet.capacityAfter]
    by_cases hi : i < vec.size
    · rw [getElem?_elements hi, if_pos hi, length_swapRemove, length_elements]
      exact h.removeAt (by omega)
    · rw [getElem?_elements_of_le (Nat.not_lt.1 hi), if_neg hi]
      exact (length_elements vec).symm ▸ h

/-- **What one call preserves.** The vector has the elements of the list, and the capacity stays
proportional to the size. -/
theorem simulates_proportional : Simulates (ι := VecCall elemSize)
    (fun vec l => Represents elemSize vec l ∧ Proportional vec.size vec.capacity)
    vecCall listCall := by
  rintro vec _ call ⟨⟨hvalid, helem, rfl⟩, hprop⟩
  obtain ⟨vec', hcall, hrep, hcapacity⟩ := exists_vecCall hvalid helem call
  refine ⟨vec', hcall, hrep, ?_⟩
  rw [hrep.size_eq, hcapacity]
  exact hprop.capacityAfter call

/-- **The memory of a vector stays proportional to its content.** After `sn_data_vec_init`, a run of
calls with a willing allocator succeeds, and leaves a capacity that is eight times a power of two
and that is eight or below twice the size. -/
theorem exists_respond_proportional
    (hinit : snDataVecInit (some content) elemSize = .ok (some vec))
    (calls : List (VecCall elemSize)) :
    ∃ ws vec', respond vecCall vec calls = .ok (ws, vec') ∧
      (∃ k, vec'.capacity = 8 * 2 ^ k) ∧ (vec'.capacity = 8 ∨ vec'.capacity < 2 * vec'.size) := by
  have hrep := represents_nil hinit
  have hcapacity : vec.capacity = snDataVecDefaultCapacity := capacity_of_withCapacity hinit
  have hprop : Proportional vec.size vec.capacity :=
    ⟨⟨0, hcapacity⟩, Or.inl hcapacity⟩
  obtain ⟨vec', hrun, -, hprop'⟩ := simulates_proportional.respond_eq ⟨hrep, hprop⟩ calls
  exact ⟨_, vec', hrun, hprop'⟩

/-- One push more than the default capacity. -/
def ninePushes : List (VecCall 1) :=
  (List.range 9).map fun i => .push (fun _ => 0) (oneByte (.ofNat i))

/-- The block of a vector of bytes is doubled by nine pushes, and halved when two of the bytes are
removed. -/
theorem respond_proportional_of_push_remove :
    ((respond vecCall ⟨1, 0, 8, List.replicate 8 0⟩ ninePushes).toOption.map
      fun r => (r.2.size, r.2.capacity)) = some (9, 16) ∧
    ∃ ws vec', respond vecCall ⟨1, 0, 8, List.replicate 8 0⟩
        (ninePushes ++ List.replicate 2 (.removeAt (fun _ => 0) 0 true)) = .ok (ws, vec') ∧
      (vec'.size, vec'.capacity) = (7, 8) ∧
      (∃ k, vec'.capacity = 8 * 2 ^ k) ∧ (vec'.capacity = 8 ∨ vec'.capacity < 2 * vec'.size) := by
  have hinit : snDataVecInit (some fun _ => 0) 1 = .ok (some ⟨1, 0, 8, List.replicate 8 0⟩) := rfl
  obtain ⟨ws, vec', hrun, hprop⟩ := exists_respond_proportional hinit
    (ninePushes ++ List.replicate 2 (.removeAt (fun _ => 0) 0 true))
  have hobs : ((respond vecCall ⟨1, 0, 8, List.replicate 8 0⟩
      (ninePushes ++ List.replicate 2 (.removeAt (fun _ => 0) 0 true))).toOption.map
        fun r => (r.2.size, r.2.capacity)) = some (7, 8) := by
    decide +kernel
  rw [hrun] at hobs
  exact ⟨by decide +kernel, ws, vec', hrun, Option.some.inj hobs, hprop⟩

end Run

end SndNet
