import Mathlib.Data.Finset.Basic
import Mathlib.Data.List.Flatten
import Mathlib.Data.List.Indexes

/-!
# Acquiring and releasing

A program acquires resources (blocks of memory, sockets, threads) and releases them. What it does
with them is a list of events, and the list is a correct use when nothing is acquired that is held
and nothing released that is not. This file computes what is held in the end, and, for a loop whose
rounds each acquire resources of their own, adds up what the rounds leave behind.

## Main definitions

* `ResourceEvent`: a resource is acquired or released.
* `Resources.held`: the resources held after some events, if they are used correctly.
* `ResourceEvent.tag`: the event of a resource of one part of a program.

## Main results

* `Resources.held_append`: what is held after two lists of events.
* `Resources.held_tag`: one part of a program does not touch the resources of the others.
* `Resources.held_rounds`: a loop leaves behind what its rounds leave behind.
-/

/-- A resource is acquired or released. -/
inductive ResourceEvent (ρ : Type*) where
  | acquire (r : ρ)
  | release (r : ρ)
  deriving DecidableEq

/-- The event of a resource of the part `k` of a program. -/
def ResourceEvent.tag {κ ρ : Type*} (k : κ) : ResourceEvent ρ → ResourceEvent (κ × ρ)
  | .acquire r => .acquire (k, r)
  | .release r => .release (k, r)

namespace Resources

variable {ρ : Type*} [DecidableEq ρ]

/-- The resources held after some events, from those held before. Nothing is held after an incorrect
use: acquiring what is held or releasing what is not. -/
def held (s : Finset ρ) : List (ResourceEvent ρ) → Option (Finset ρ)
  | [] => some s
  | .acquire r :: es => if r ∈ s then none else held (insert r s) es
  | .release r :: es => if r ∈ s then held (s.erase r) es else none

variable {s t u : Finset ρ} {es es' : List (ResourceEvent ρ)}

@[simp] theorem held_nil (s : Finset ρ) : held s [] = some s := rfl

theorem held_acquire {r : ρ} (h : r ∉ s) :
    held s (.acquire r :: es) = held (insert r s) es := if_neg h

theorem held_release {r : ρ} (h : r ∈ s) : held s (.release r :: es) = held (s.erase r) es :=
  if_pos h

theorem held_append (s : Finset ρ) (es es' : List (ResourceEvent ρ)) :
    held s (es ++ es') = (held s es).bind fun t => held t es' := by
  induction es generalizing s with
  | nil => rfl
  | cons e es ih =>
    cases e <;>
    · simp only [List.cons_append, held]
      split_ifs
      · first | rfl | exact ih _
      · first | rfl | exact ih _

theorem held_append_of (h : held s es = some t) (h' : held t es' = some u) :
    held s (es ++ es') = some u := by
  rw [held_append, h, Option.bind_some, h']

/-- A resource is not released twice. -/
theorem held_replicate_release (s : Finset ρ) (r : ρ) (n : ℕ) :
    held s (List.replicate (n + 2) (.release r)) = none := by
  rw [List.replicate_succ, List.replicate_succ, held, held, if_neg (Finset.notMem_erase r s)]
  exact ite_self _

/-- The events of one part of a program, which has resources of its own, do not touch the resources
of the other parts. -/
theorem held_tag {κ : Type*} [DecidableEq κ] {k : κ} {w : Finset (κ × ρ)}
    (hs : ∀ r, (k, r) ∈ w ↔ r ∈ s) (h : held s es = some t) :
    ∃ w', held w (es.map (.tag k)) = some w' ∧
      ∀ k' r, (k', r) ∈ w' ↔ k' = k ∧ r ∈ t ∨ k' ≠ k ∧ (k', r) ∈ w := by
  induction es generalizing s w with
  | nil =>
    obtain rfl := Option.some.inj h
    refine ⟨w, rfl, fun k' r => ?_⟩
    by_cases hk : k' = k
    · subst hk
      simp [hs]
    · simp [hk]
  | cons e es ih =>
    cases e with
    | acquire r =>
      rw [held] at h
      split_ifs at h with hr
      have hs' : ∀ r', (k, r') ∈ insert (k, r) w ↔ r' ∈ insert r s := fun r' => by
        rw [Finset.mem_insert, Finset.mem_insert, hs, Prod.mk.injEq, and_iff_right rfl]
      obtain ⟨w', hw', hmem⟩ := ih hs' h
      refine ⟨w', by rw [List.map_cons, ResourceEvent.tag, held_acquire (mt (hs r).1 hr), hw'],
        fun k' r' => (hmem k' r').trans (or_congr_right (and_congr_right fun hk => ?_))⟩
      simp [hk]
    | release r =>
      rw [held] at h
      split_ifs at h with hr
      have hs' : ∀ r', (k, r') ∈ w.erase (k, r) ↔ r' ∈ s.erase r := fun r' => by
        rw [Finset.mem_erase, Finset.mem_erase, hs, Ne, Prod.mk.injEq, and_iff_right rfl]
      obtain ⟨w', hw', hmem⟩ := ih hs' h
      refine ⟨w', by rw [List.map_cons, ResourceEvent.tag, held_release ((hs r).2 hr), hw'],
        fun k' r' => (hmem k' r').trans (or_congr_right (and_congr_right fun hk => ?_))⟩
      simp [hk]

/-- What is incorrect in one part of a program is incorrect in the program. -/
theorem held_tag_eq_none {κ : Type*} [DecidableEq κ] {k : κ} {w : Finset (κ × ρ)}
    (hs : ∀ r, (k, r) ∈ w ↔ r ∈ s) (h : held s es = none) : held w (es.map (.tag k)) = none := by
  induction es generalizing s w with
  | nil => cases h
  | cons e es ih =>
    cases e with
    | acquire r =>
      rw [held] at h
      rw [List.map_cons, ResourceEvent.tag, held]
      split_ifs at h with hr
      · exact if_pos ((hs r).2 hr)
      · rw [if_neg (mt (hs r).1 hr)]
        refine ih (fun r' => ?_) h
        rw [Finset.mem_insert, Finset.mem_insert, hs, Prod.mk.injEq, and_iff_right rfl]
    | release r =>
      rw [held] at h
      rw [List.map_cons, ResourceEvent.tag, held]
      split_ifs at h with hr
      · rw [if_pos ((hs r).2 hr)]
        refine ih (fun r' => ?_) h
        rw [Finset.mem_erase, Finset.mem_erase, hs, Ne, Prod.mk.injEq, and_iff_right rfl]
      · exact if_neg (mt (hs r).1 hr)

/-! ### Loops -/

/-- The events of a loop whose rounds begin with the index `n`. -/
def tagged (n : ℕ) (rounds : List (List (ResourceEvent ρ))) : List (ResourceEvent (ℕ × ρ)) :=
  (rounds.zipIdx n).flatMap fun p => p.1.map (.tag p.2)

theorem held_rounds_from {n : ℕ} {v : Finset (ℕ × ρ)} (hv : ∀ k r, n ≤ k → (k, r) ∉ v)
    {rounds : List (List (ResourceEvent ρ))} {left : List (Finset ρ)}
    (h : List.Forall₂ (fun es t => held ∅ es = some t) rounds left) :
    ∃ w, held v (tagged n rounds) = some w ∧ ∀ k r, (k, r) ∈ w ↔
      (k, r) ∈ v ∨ n ≤ k ∧ ∃ t, left[k - n]? = some t ∧ r ∈ t := by
  induction h generalizing n v with
  | nil => exact ⟨v, rfl, fun k r => by simp⟩
  | @cons es t rounds left hround _ ih =>
    obtain ⟨v', hv', hmem'⟩ := held_tag (k := n) (w := v)
      (fun r => iff_of_false (hv n r le_rfl) (Finset.notMem_empty r)) hround
    obtain ⟨w, hw, hmem⟩ := ih (n := n + 1) (v := v') fun k r hk hin => by
      rcases (hmem' k r).1 hin with ⟨rfl, -⟩ | ⟨-, hin⟩
      · omega
      · exact hv k r (by omega) hin
    refine ⟨w, ?_, fun k r => ?_⟩
    · rw [tagged, List.zipIdx_cons, List.flatMap_cons]
      exact held_append_of hv' hw
    · rw [hmem, hmem']
      rcases lt_trichotomy k n with hlt | rfl | hlt
      · simp [hlt.ne, Nat.not_le.2 hlt, show ¬ n + 1 ≤ k by omega]
      · simp [hv k r le_rfl]
      · obtain ⟨j, rfl⟩ : ∃ j, k = n + 1 + j := ⟨k - (n + 1), by omega⟩
        have hk : n + 1 + j - n = j + 1 := by omega
        rw [hk, List.getElem?_cons_succ, Nat.add_sub_cancel_left]
        simp [hv _ r hlt.le, hlt.ne', show n ≤ n + 1 + j by omega]

/-- **A loop leaves behind what its rounds leave behind.** -/
theorem held_rounds {rounds : List (List (ResourceEvent ρ))} {left : List (Finset ρ)}
    (h : List.Forall₂ (fun es t => held ∅ es = some t) rounds left) :
    ∃ w, held ∅ (tagged 0 rounds) = some w ∧
      ∀ k r, (k, r) ∈ w ↔ ∃ t, left[k]? = some t ∧ r ∈ t := by
  obtain ⟨w, hw, hmem⟩ := held_rounds_from (v := ∅) (n := 0)
    (fun k r _ => Finset.notMem_empty _) h
  refine ⟨w, hw, fun k r => ?_⟩
  rw [hmem]
  simp

end Resources
