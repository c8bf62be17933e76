import Mathlib.Data.List.Basic
import SndNet.Library.FallibleRun

/-!
# Runs with answers

A step of a machine may give an answer besides the next state. A machine whose steps may fail is
simulated by one whose steps do not when a relation between their states is kept by every step and
related states answer alike.

## Main definitions

* `Simulation.respond`: the answers to a list of operations, and the state after them.
* `Simulation.answers`: the same for a machine that does not fail.
* `Simulation.Simulates`: a relation that every step keeps, with equal answers.
* `Simulation.kept`: the operations of a run whose answers satisfy a test.

## Main results

* `Simulation.Simulates.respond_eq`: in related states a run succeeds, with the answers of the other
  machine, and ends in related states.
* `Simulation.answers_kept`: operations that are refused, and then change nothing, can be left out.
-/

namespace Simulation

open FallibleRun

universe u

variable {ε ι : Type*} {σ ω : Type u} {τ : Type*}

/-- The answers to the operations of a list, carried out from the state `s`, and the last state. -/
def respond (step : σ → ι → Except ε (ω × σ)) (s : σ) : List ι → Except ε (List ω × σ)
  | [] => .ok ([], s)
  | op :: ops => do
    let r ← step s op
    let rs ← respond step r.2 ops
    return (r.1 :: rs.1, rs.2)

/-- The answers of a machine that does not fail, and its last state. -/
def answers (astep : τ → ι → ω × τ) (t : τ) : List ι → List ω × τ
  | [] => ([], t)
  | op :: ops => ((astep t op).1 :: (answers astep (astep t op).2 ops).1,
      (answers astep (astep t op).2 ops).2)

variable {step : σ → ι → Except ε (ω × σ)} {astep : τ → ι → ω × τ} {s : σ} {t : τ}

theorem respond_cons_of_step {op : ι} {ops : List ι} {w : ω} {s' : σ}
    (hstep : step s op = .ok (w, s')) :
    respond step s (op :: ops) = (respond step s' ops).map fun rs => (w :: rs.1, rs.2) := by
  rw [respond, hstep, ok_bind]
  cases respond step s' ops with
  | error e => rfl
  | ok rs => rfl

/-- A relation between the states of two machines that every step keeps, with equal answers. -/
def Simulates (R : σ → τ → Prop) (step : σ → ι → Except ε (ω × σ)) (astep : τ → ι → ω × τ) : Prop :=
  ∀ s t op, R s t → ∃ s', step s op = .ok ((astep t op).1, s') ∧ R s' (astep t op).2

/-- **The simulation rule.** From related states a run succeeds, with the answers of the machine
that does not fail, and ends in related states. -/
theorem Simulates.respond_eq {R : σ → τ → Prop} (h : Simulates R step astep) (hst : R s t)
    (ops : List ι) : ∃ s', respond step s ops = .ok ((answers astep t ops).1, s') ∧
      R s' (answers astep t ops).2 := by
  induction ops generalizing s t with
  | nil => exact ⟨s, rfl, hst⟩
  | cons op ops ih =>
    obtain ⟨s₁, hstep, hst₁⟩ := h s t op hst
    obtain ⟨s₂, hrun, hst₂⟩ := ih hst₁
    refine ⟨s₂, ?_, hst₂⟩
    rw [respond_cons_of_step hstep, hrun]
    rfl

/-! ### Operations that are refused -/

section Kept

variable {p : ω → Bool} {op : ι} {ops : List ι} {w : ω} {ws : List ω}

/-- The operations of a run whose answers satisfy a test. -/
def kept (p : ω → Bool) : List ι → List ω → List ι
  | op :: ops, w :: ws => if p w then op :: kept p ops ws else kept p ops ws
  | _, _ => []

theorem kept_cons_of_pos (h : p w = true) :
    kept p (op :: ops) (w :: ws) = op :: kept p ops ws := if_pos h

theorem kept_cons_of_neg (h : p w = false) : kept p (op :: ops) (w :: ws) = kept p ops ws :=
  if_neg (Bool.not_eq_true _ ▸ h)

/-- **The refusal rule.** When an operation whose answer fails the test leaves the state as it was,
a run goes on as if the operations with such answers had not happened. -/
theorem answers_kept (hrefused : ∀ t op, p (astep t op).1 = false → (astep t op).2 = t) (t : τ)
    (ops : List ι) :
    (answers astep t (kept p ops (answers astep t ops).1)).2 = (answers astep t ops).2 ∧
      ∀ w ∈ (answers astep t (kept p ops (answers astep t ops).1)).1, p w = true := by
  induction ops generalizing t with
  | nil => exact ⟨rfl, fun w hw => absurd hw List.not_mem_nil⟩
  | cons op ops ih =>
    cases hw : p (astep t op).1 with
    | true =>
      rw [answers, kept_cons_of_pos hw]
      refine ⟨(ih _).1, fun w hmem => ?_⟩
      rcases List.mem_cons.1 hmem with rfl | hmem
      · exact hw
      · exact (ih _).2 w hmem
    | false =>
      rw [answers, kept_cons_of_neg hw, hrefused t op hw]
      exact ih t

end Kept

end Simulation
