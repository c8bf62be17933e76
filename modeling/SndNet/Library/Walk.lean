import Mathlib.Data.List.Nodup
import Mathlib.Order.Nat

/-!
# Walks along a next-step function that may fail

A function answers for every place with the next place, with none, or with a failure. A walk follows
the answers from a start until there is none. This file relates walks to ranks: a rank that drops at
every step makes every walk end without visiting a place twice, and a set of places in which every
answer stays has no walk at all.

## Main definitions

* `Walk`: a walk with the places it visits and its end.
* `LabelledWalk`: a walk by steps of several kinds, with their kinds.

## Main results

* `Walk.end_unique`: a start determines the end.
* `Walk.exists_of_rank`: the rank rule.
* `Walk.not_of_endless`: no walk starts in a set that is never left and has no end.
* `LabelledWalk.exists_not_of_loop`: a walk that returns takes a step that drops no rank.
-/

variable {ε α : Type*} {next : α → Except ε (Option α)}

/-- A walk from a start along `next`, with the places it visits in order and its end. -/
inductive Walk (next : α → Except ε (Option α)) : α → List α → α → Prop
  | stop {v : α} (h : next v = .ok none) : Walk next v [v] v
  | hop {v w f : α} {path : List α} (h : next v = .ok (some w)) (rest : Walk next w path f) :
      Walk next v (v :: path) f

namespace Walk

/-- A walk ends where there is no next place. -/
theorem next_end {s f : α} {path : List α} (h : Walk next s path f) : next f = .ok none := by
  induction h with
  | stop h => exact h
  | hop _ _ ih => exact ih

/-- A start determines the end. -/
theorem end_unique {s f f' : α} {path path' : List α} (h : Walk next s path f)
    (h' : Walk next s path' f') : f = f' := by
  induction h generalizing path' with
  | stop hv =>
    cases h' with
    | stop _ => rfl
    | hop hv' _ => simp [hv] at hv'
  | hop hv _ ih =>
    cases h' with
    | stop hv' => simp [hv] at hv'
    | hop hv' rest' =>
      rw [hv, Except.ok.injEq, Option.some.injEq] at hv'
      subst hv'
      exact ih rest'

/-- The first answer of a walk is not a failure. -/
theorem exists_next {s f : α} {path : List α} (h : Walk next s path f) : ∃ o, next s = .ok o := by
  cases h with
  | stop hv => exact ⟨_, hv⟩
  | hop hv _ => exact ⟨_, hv⟩

/-- A walk from a set that no answer leaves ends in the set. -/
theorem end_mem {S : α → Prop} (hS : ∀ v w, S v → next v = .ok (some w) → S w) {s f : α}
    {path : List α} (hs : S s) (h : Walk next s path f) : S f := by
  induction h with
  | stop _ => exact hs
  | hop hv _ ih => exact ih (hS _ _ hs hv)

/-- No walk starts in a set that is never left and has no end. -/
theorem not_of_endless {S : α → Prop} (hS : ∀ v, S v → ∃ w, S w ∧ next v = .ok (some w)) {s f : α}
    {path : List α} (hs : S s) : ¬ Walk next s path f := by
  intro h
  have hf : S f := h.end_mem (fun v w hv hw => by
    obtain ⟨w', hw', hnext⟩ := hS v hv
    rw [hnext, Except.ok.injEq, Option.some.injEq] at hw
    exact hw ▸ hw') hs
  obtain ⟨w, -, hw⟩ := hS f hf
  simp [h.next_end] at hw

/-- **The rank rule.** When every answer in a set stays in the set and has a lower rank, a walk
from every start of the set ends in the set without visiting a place twice. -/
theorem exists_of_rank {S : α → Prop} (rank : α → ℕ)
    (hS : ∀ v, S v → ∃ o, next v = .ok o ∧ ∀ w ∈ o, S w ∧ rank w < rank v) {s : α} (hs : S s) :
    ∃ path f, Walk next s path f ∧ path.Nodup ∧ S f ∧ ∀ v ∈ path, rank v ≤ rank s := by
  induction hn : rank s using Nat.strongRecOn generalizing s with
  | ind n ih =>
    subst hn
    obtain ⟨o, hnext, ho⟩ := hS s hs
    rcases o with _ | w
    · exact ⟨[s], s, .stop hnext, List.nodup_singleton s, hs, by simp⟩
    · obtain ⟨hw, hlt⟩ := ho w rfl
      obtain ⟨path, f, hwalk, hnodup, hf, hpath⟩ := ih (rank w) hlt hw rfl
      refine ⟨s :: path, f, .hop hnext hwalk, List.nodup_cons.2 ⟨fun hmem => ?_, hnodup⟩, hf, ?_⟩
      · exact absurd (hpath s hmem) (not_le.2 hlt)
      · intro v hv
        rcases List.mem_cons.1 hv with rfl | hv
        · exact le_rfl
        · exact (hpath v hv).trans hlt.le

end Walk

/-! ### Steps of several kinds -/

section Labelled

variable {κ : Type*} {step : κ → α → α → Prop}

/-- A walk by steps of several kinds, with their kinds in order and its end. -/
inductive LabelledWalk (step : κ → α → α → Prop) : α → List κ → α → Prop
  | nil (v : α) : LabelledWalk step v [] v
  | cons {k : κ} {ks : List κ} {v w f : α} (h : step k v w) (rest : LabelledWalk step w ks f) :
      LabelledWalk step v (k :: ks) f

namespace LabelledWalk

/-- A walk by steps that drop a rank drops it. -/
theorem rank_lt {β : Type*} [Preorder β] (rank : α → β) {v f : α} {ks : List κ}
    (hrank : ∀ k ∈ ks, ∀ v w, step k v w → rank w < rank v) (hks : ks ≠ [])
    (h : LabelledWalk step v ks f) : rank f < rank v := by
  induction h with
  | nil v => exact absurd rfl hks
  | @cons k ks v w f hstep rest ih =>
    have hlt : rank w < rank v := hrank k List.mem_cons_self v w hstep
    rcases eq_or_ne ks [] with rfl | hne
    · cases rest
      exact hlt
    · exact (ih (fun k hk => hrank k (List.mem_cons_of_mem _ hk)) hne).trans hlt

/-- **A walk that returns** to its start takes a step of a kind that does not always drop the
rank. -/
theorem exists_not_of_loop {β : Type*} [Preorder β] (rank : α → β) {v : α} {ks : List κ}
    (hks : ks ≠ []) (h : LabelledWalk step v ks v) :
    ∃ k ∈ ks, ¬ ∀ v w, step k v w → rank w < rank v := by
  by_contra hnone
  push Not at hnone
  exact lt_irrefl _ (h.rank_lt rank hnone hks)

end LabelledWalk

end Labelled
