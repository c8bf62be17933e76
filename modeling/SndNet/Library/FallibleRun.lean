import Mathlib.Data.List.Basic

/-!
# Runs of steps that may fail

A step of a machine either yields the next state or fails, and a run stops at the first step that
fails. This file fixes the bind rules of `Except` that step lemmas are written with, runs over
lists of operations, and the rule that an invariant of one step is an invariant of every run.

## Main definitions

* `FallibleRun.run`: the state after a list of operations.

## Main results

* `FallibleRun.bind_eq_ok`: a sequence of two computations succeeds exactly when both do.
* `FallibleRun.run_append`: a run over `ops ++ ops'` is a run over `ops` followed by one over
  `ops'`.
* `FallibleRun.run_eq_ok_foldl`: a run whose steps do not fail is a fold.
* `FallibleRun.run_invariant`: what the first state satisfies and every step preserves holds of
  the state after any run.
* `FallibleRun.exists_run_eq_ok`: a run succeeds when every step succeeds in every state of an
  invariant.
-/

namespace FallibleRun

universe u

variable {ε : Type*} {α β : Type u}

/-! ### Sequencing -/

@[simp] theorem ok_bind (a : α) (f : α → Except ε β) : (Except.ok a >>= f) = f a := rfl

@[simp] theorem error_bind (e : ε) (f : α → Except ε β) :
    (Except.error e >>= f) = Except.error e := rfl

@[simp] theorem pure_eq_ok (a : α) : (pure a : Except ε α) = Except.ok a := rfl

theorem bind_eq_ok {x : Except ε α} {f : α → Except ε β} {b : β} :
    (x >>= f) = .ok b ↔ ∃ a, x = .ok a ∧ f a = .ok b := by
  cases x with
  | error e => simp
  | ok a => simp

/-- What an observation of a result says about the computation. -/
theorem exists_ok_of_toOption_map {x : Except ε α} {γ : Type*} {f : α → γ} {c : γ}
    (h : x.toOption.map f = some c) : ∃ a, x = .ok a ∧ f a = c := by
  cases x with
  | error e => simp [Except.toOption] at h
  | ok a => exact ⟨a, rfl, by simpa [Except.toOption] using h⟩

/-- What holds of each operation of a list, with the operations before it, holds at every index. -/
theorem forall_split_iff {ι : Type*} {p : List ι → ι → Prop} {ops : List ι} :
    (∀ done op rest, ops = done ++ op :: rest → p done op) ↔
      ∀ k : Fin ops.length, p (ops.take k) ops[k] := by
  constructor
  · intro h k
    refine h _ _ (ops.drop (k + 1)) ?_
    rw [Fin.getElem_fin, List.getElem_cons_drop, List.take_append_drop]
  · rintro h done op rest rfl
    have hat := h ⟨done.length, by simp⟩
    simpa using hat

/-! ### Runs -/

variable {σ : Type u} {ι : Type*} {step : σ → ι → Except ε σ}

/-- The state after the operations of a list, carried out from the state `s`. -/
def run (step : σ → ι → Except ε σ) (s : σ) : List ι → Except ε σ
  | [] => .ok s
  | op :: ops => step s op >>= fun s' => run step s' ops

@[simp] theorem run_nil (s : σ) : run step s [] = .ok s := rfl

@[simp] theorem run_cons (s : σ) (op : ι) (ops : List ι) :
    run step s (op :: ops) = step s op >>= fun s' => run step s' ops := rfl

theorem run_append (s : σ) (ops ops' : List ι) :
    run step s (ops ++ ops') = run step s ops >>= fun s' => run step s' ops' := by
  induction ops generalizing s with
  | nil => rfl
  | cons op ops ih =>
    simp only [List.cons_append, run_cons]
    cases step s op with
    | error e => rfl
    | ok s' => exact ih s'

theorem run_append_eq_ok {s t : σ} {ops ops' : List ι} :
    run step s (ops ++ ops') = .ok t ↔
      ∃ s', run step s ops = .ok s' ∧ run step s' ops' = .ok t := by
  rw [run_append, bind_eq_ok]

theorem run_concat_eq_ok {s t : σ} {ops : List ι} {op : ι} :
    run step s (ops ++ [op]) = .ok t ↔ ∃ s', run step s ops = .ok s' ∧ step s' op = .ok t := by
  simp only [run_append_eq_ok, run_cons, run_nil, bind_eq_ok, Except.ok.injEq, exists_eq_right]

theorem run_map {κ : Type*} (f : κ → ι) (s : σ) (ops : List κ) :
    run step s (ops.map f) = run (fun s op => step s (f op)) s ops := by
  induction ops generalizing s with
  | nil => rfl
  | cons op ops ih =>
    simp only [List.map_cons, run_cons]
    cases step s (f op) with
    | error e => rfl
    | ok s' => exact ih s'

/-- A run whose steps do not fail is a fold. -/
theorem run_eq_ok_foldl {f : σ → ι → σ} {ops : List ι}
    (hstep : ∀ s, ∀ op ∈ ops, step s op = .ok (f s op)) (s : σ) :
    run step s ops = .ok (ops.foldl f s) := by
  induction ops generalizing s with
  | nil => rfl
  | cons op ops ih =>
    rw [run_cons, hstep s op List.mem_cons_self, ok_bind, List.foldl_cons]
    exact ih (fun s op' hop => hstep s op' (List.mem_cons_of_mem _ hop)) _

/-- **The invariant rule.** What holds of the first state and is preserved by every operation of
the list that succeeds holds of the state after the run. -/
theorem run_invariant (Inv : σ → Prop) {ops : List ι} {s t : σ}
    (hstep : ∀ s op s', op ∈ ops → Inv s → step s op = .ok s' → Inv s')
    (hs : Inv s) (hrun : run step s ops = .ok t) : Inv t := by
  induction ops generalizing s with
  | nil =>
    cases hrun
    exact hs
  | cons op ops ih =>
    obtain ⟨s', hs', hrest⟩ := bind_eq_ok.1 hrun
    exact ih (fun s op' s₁ hop => hstep s op' s₁ (List.mem_cons_of_mem _ hop))
      (hstep s op s' List.mem_cons_self hs hs') hrest

/-- **The progress rule.** A run succeeds when, in every state of an invariant, every operation of
the list succeeds and preserves the invariant. -/
theorem exists_run_eq_ok (Inv : σ → Prop) {ops : List ι} {s : σ}
    (hstep : ∀ s op, op ∈ ops → Inv s → ∃ s', step s op = .ok s' ∧ Inv s') (hs : Inv s) :
    ∃ t, run step s ops = .ok t ∧ Inv t := by
  induction ops generalizing s with
  | nil => exact ⟨s, rfl, hs⟩
  | cons op ops ih =>
    obtain ⟨s', hs', hinv⟩ := hstep s op List.mem_cons_self hs
    obtain ⟨t, ht, hinv'⟩ := ih (fun s op' hop => hstep s op' (List.mem_cons_of_mem _ hop)) hinv
    exact ⟨t, by rw [run_cons, hs', ok_bind, ht], hinv'⟩

end FallibleRun
