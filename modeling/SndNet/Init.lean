import Mathlib.Data.Fintype.Defs
import Mathlib.Data.Int.Notation
import Mathlib.Data.List.Induction
import Mathlib.Logic.Function.Basic
import SndNet.Library.FallibleRun

/-!
# Initialising the library

`sn_init` (`src/sndnet.c`, lines 9–28) sets a shared flag by a compare-and-swap and initialises
libsodium afterwards. Callers that find the flag set return 1, which stands for a library that is
already initialised (`include/sndnet.h`, lines 15–18). The flag is set before the work that it
announces, and is not cleared when the work fails. So a return value of 1 can be trusted only if no
call meets the flag while the one that has set it is inside libsodium, or after that has failed.

A run interleaves the atomic steps of any number of calls. The flag is a single cell that all calls
see in the same order.

## Main definitions

* `SndNet.Phase`: where a call stands.
* `SndNet.InitState`, `SndNet.initStep`, `SndNet.initRun`: the states, the steps and the runs.
* `SndNet.Announced`: a call has returned 0 or 1 only if libsodium is initialised.
* `SndNet.MeetsDone`: the next step of a call does not meet the flag too early.

## Main results

* `SndNet.initInv_initRun`: at most one call enters libsodium.
* `SndNet.announced_of_meetsDone`: which steps keep the announcement true, and that the others break
  it.
-/

namespace SndNet

/-! ### The calls and their steps -/

/-- Where a call of `sn_init` stands. -/
inductive Phase where
  /-- It is about to load the flag. -/
  | load
  /-- It is about to compare and swap the flag. -/
  | swap
  /-- It is inside `sodium_init`. -/
  | sodium
  /-- It is about to return. -/
  | ret (val : ℤ)
  | returned (val : ℤ)
  deriving DecidableEq

/-- The flag, the calls, and what the calls of `sodium_init` have returned so far, the last one
first. -/
structure InitState (ι : Type*) where
  initialized : UInt32
  phase : ι → Phase
  sodiumRets : List ℤ

variable {ι : Type*} [DecidableEq ι]

/-- `mint_compare_exchange_strong_32_relaxed`: the value found and the value left. -/
def compareExchangeStrong (object expected desired : UInt32) : UInt32 × UInt32 :=
  (object, if object = expected then desired else object)

/-- The state in which a call has reached another phase. -/
def InitState.goto (s : InitState ι) (call : ι) (phase : Phase) : InitState ι :=
  { s with phase := Function.update s.phase call phase }

@[simp] theorem goto_sodiumRets (s : InitState ι) (call : ι) (phase : Phase) :
    (s.goto call phase).sodiumRets = s.sodiumRets := rfl

@[simp] theorem goto_phase_self (s : InitState ι) (call : ι) (phase : Phase) :
    (s.goto call phase).phase call = phase := Function.update_self ..

theorem goto_phase_of_ne (s : InitState ι) {call other : ι} (h : other ≠ call) (phase : Phase) :
    (s.goto call phase).phase other = s.phase other := Function.update_of_ne h ..

@[simp] theorem goto_phase_eq (s : InitState ι) (call : ι) : s.goto call (s.phase call) = s := by
  rw [InitState.goto, Function.update_eq_self]

/-- The next step of a call of `sn_init` (`src/sndnet.c`, lines 9–28). If it is the end of
`sodium_init`, then this returns `sodiumRet`. -/
def initStep (s : InitState ι) (call : ι) (sodiumRet : ℤ) : InitState ι :=
  match s.phase call with
  | .load => if s.initialized ≠ 0 then s.goto call (.ret 1) else s.goto call .swap
  | .swap =>
    let r := compareExchangeStrong s.initialized 0 1
    let s := { s with initialized := r.2 }
    if r.1 ≠ 0 then s.goto call (.ret 1) else s.goto call .sodium
  | .sodium =>
    let s := { s with sodiumRets := sodiumRet :: s.sodiumRets }
    if sodiumRet = -1 then s.goto call (.ret (-1)) else s.goto call (.ret 0)
  | .ret val => s.goto call (.returned val)
  | .returned _ => s

/-- No call has made a step, and the flag has its initial value. -/
def initStart : InitState ι := ⟨0, fun _ => .load, []⟩

/-- The state after the steps of a list: which call makes each step, and what `sodium_init` returns
if it ends in this step. -/
def initRun (steps : List (ι × ℤ)) : InitState ι :=
  steps.foldl (fun s step => initStep s step.1 step.2) initStart

section Step

variable {s : InitState ι} {call : ι}

theorem initStep_load (h : s.phase call = .load) (ret : ℤ) : initStep s call ret =
    if s.initialized ≠ 0 then s.goto call (.ret 1) else s.goto call .swap := by
  rw [initStep, h]

/-- A call that finds the flag set at its swap leaves it as it is. -/
theorem initStep_swap_of_ne (h : s.phase call = .swap) (hflag : s.initialized ≠ 0) (ret : ℤ) :
    initStep s call ret = s.goto call (.ret 1) := by
  rw [initStep, h]
  dsimp only [compareExchangeStrong]
  rw [if_pos hflag, if_neg hflag]

theorem initStep_swap_of_eq (h : s.phase call = .swap) (hflag : s.initialized = 0) (ret : ℤ) :
    initStep s call ret = { s with initialized := 1 }.goto call .sodium := by
  rw [initStep, h]
  dsimp only [compareExchangeStrong]
  rw [if_neg (not_not.2 hflag), if_pos hflag]

theorem initStep_sodium (h : s.phase call = .sodium) (ret : ℤ) : initStep s call ret =
    { s with sodiumRets := ret :: s.sodiumRets }.goto call
      (if ret = -1 then .ret (-1) else .ret 0) := by
  rw [initStep, h]
  dsimp only
  split_ifs <;> rfl

theorem initStep_ret {val : ℤ} (h : s.phase call = .ret val) (ret : ℤ) :
    initStep s call ret = s.goto call (.returned val) := by
  rw [initStep, h]

theorem initStep_returned {val : ℤ} (h : s.phase call = .returned val) (ret : ℤ) :
    initStep s call ret = s := by
  rw [initStep, h]

end Step

theorem initRun_concat (steps : List (ι × ℤ)) (step : ι × ℤ) :
    initRun (steps ++ [step]) = initStep (initRun steps) step.1 step.2 := by
  rw [initRun, List.foldl_append]
  rfl

/-! ### What is announced -/

/-- Some call of `sodium_init` has returned without error. -/
def InitState.SodiumDone (s : InitState ι) : Prop := ∃ ret ∈ s.sodiumRets, ret ≠ -1

/-- A call has returned 0 or 1 only if some call of `sodium_init` has returned without error. -/
def Announced (s : InitState ι) : Prop :=
  ∀ call val, s.phase call = .returned val → val = 0 ∨ val = 1 → s.SodiumDone

/-- The call is inside `sodium_init`, or this has failed. -/
def Phase.Pending (phase : Phase) : Prop :=
  phase = .sodium ∨ phase = .ret (-1) ∨ phase = .returned (-1)

/-- If the next step of the call loads or swaps the flag and finds it set, then no call is inside
`sodium_init`, and it has not failed in any call. -/
def MeetsDone (s : InitState ι) (call : ι) : Prop :=
  s.phase call = .load ∨ s.phase call = .swap → s.initialized ≠ 0 →
    ∀ other, ¬ (s.phase other).Pending

instance (phase : Phase) : Decidable phase.Pending :=
  inferInstanceAs (Decidable (_ ∨ _ ∨ _))

instance [Fintype ι] (s : InitState ι) (call : ι) : Decidable (MeetsDone s call) :=
  inferInstanceAs (Decidable (_ → _ → ∀ other, ¬ (s.phase other).Pending))

/-! ### At most one call enters libsodium -/

/-- The call has not set the flag. -/
def Phase.Lost (phase : Phase) : Prop :=
  phase = .load ∨ phase = .swap ∨ phase = .ret 1 ∨ phase = .returned 1

/-- The phase of the call that has set the flag, and what its `sodium_init` has returned. -/
def Won (phase : Phase) (rets : List ℤ) : Prop :=
  (phase = .sodium ∧ rets = []) ∨
    ((phase = .ret (-1) ∨ phase = .returned (-1)) ∧ rets = [-1]) ∨
    ((phase = .ret 0 ∨ phase = .returned 0) ∧ ∃ ret, ret ≠ -1 ∧ rets = [ret])

/-- Either no call has set the flag, or exactly one has, and this one alone enters libsodium. -/
inductive InitInv (s : InitState ι) : Prop
  | unset (hflag : s.initialized = 0) (hphase : ∀ call, s.phase call = .load ∨ s.phase call = .swap)
      (hrets : s.sodiumRets = [])
  | set (winner : ι) (hflag : s.initialized = 1) (hwon : Won (s.phase winner) s.sodiumRets)
      (hlost : ∀ call, call ≠ winner → (s.phase call).Lost)

section Invariant

variable {s : InitState ι} {call winner : ι}

/-- A call that has returned stands still. -/
theorem initStep_returned_eq_goto {val : ℤ} (h : s.phase call = .returned val) (ret : ℤ) :
    initStep s call ret = s.goto call (.returned val) := by
  rw [initStep_returned h, ← h, goto_phase_eq]

/-- A step of the call that has set the flag. -/
theorem exists_initStep_of_won (hwon : Won (s.phase winner) s.sodiumRets) (ret : ℤ) :
    ∃ phase rets, initStep s winner ret = { s with sodiumRets := rets }.goto winner phase ∧
      Won phase rets := by
  rcases hwon with ⟨h, hrets⟩ | ⟨h | h, hrets⟩ | ⟨h | h, hrets⟩
  · refine ⟨_, [ret], by rw [initStep_sodium h, hrets], ?_⟩
    split_ifs with hret
    · exact Or.inr (Or.inl ⟨Or.inl rfl, by rw [hret]⟩)
    · exact Or.inr (Or.inr ⟨Or.inl rfl, ret, hret, rfl⟩)
  · exact ⟨_, _, initStep_ret h ret, Or.inr (Or.inl ⟨Or.inr rfl, hrets⟩)⟩
  · exact ⟨_, _, initStep_returned_eq_goto h ret, Or.inr (Or.inl ⟨Or.inr rfl, hrets⟩)⟩
  · exact ⟨_, _, initStep_ret h ret, Or.inr (Or.inr ⟨Or.inr rfl, hrets⟩)⟩
  · exact ⟨_, _, initStep_returned_eq_goto h ret, Or.inr (Or.inr ⟨Or.inr rfl, hrets⟩)⟩

/-- A step of another call. -/
theorem exists_initStep_of_lost (hflag : s.initialized = 1) (hlost : (s.phase call).Lost)
    (ret : ℤ) : ∃ phase, initStep s call ret = s.goto call phase ∧ phase.Lost := by
  have hne : s.initialized ≠ 0 := by
    rw [hflag]
    decide
  rcases hlost with h | h | h | h
  · exact ⟨_, by rw [initStep_load h, if_pos hne], Or.inr (Or.inr (Or.inl rfl))⟩
  · exact ⟨_, initStep_swap_of_ne h hne ret, Or.inr (Or.inr (Or.inl rfl))⟩
  · exact ⟨_, initStep_ret h ret, Or.inr (Or.inr (Or.inr rfl))⟩
  · exact ⟨_, initStep_returned_eq_goto h ret, Or.inr (Or.inr (Or.inr rfl))⟩

/-- **What one step preserves.** -/
theorem initInv_initStep (h : InitInv s) (call : ι) (ret : ℤ) : InitInv (initStep s call ret) := by
  cases h with
  | unset hflag hphase hrets =>
    rcases hphase call with h | h
    · rw [initStep_load h, if_neg (not_not.2 hflag)]
      refine .unset hflag (fun other => ?_) hrets
      by_cases hother : other = call
      · subst hother
        exact Or.inr (goto_phase_self ..)
      · rw [goto_phase_of_ne s hother]
        exact hphase other
    · rw [initStep_swap_of_eq h hflag]
      refine .set call rfl ?_ fun other hother => ?_
      · rw [goto_phase_self, goto_sodiumRets, hrets]
        exact Or.inl ⟨rfl, rfl⟩
      · rw [goto_phase_of_ne _ hother]
        exact (hphase other).imp_right Or.inl
  | set winner hflag hwon hlost =>
    by_cases hcall : call = winner
    · subst hcall
      obtain ⟨phase, rets, hstep, hwon'⟩ := exists_initStep_of_won hwon ret
      rw [hstep]
      refine .set call hflag ?_ fun other hother => ?_
      · rwa [goto_phase_self]
      · rw [goto_phase_of_ne _ hother]
        exact hlost other hother
    · obtain ⟨phase, hstep, hlost'⟩ := exists_initStep_of_lost hflag (hlost call hcall) ret
      rw [hstep]
      refine .set winner hflag ?_ fun other hother => ?_
      · rwa [goto_phase_of_ne _ (Ne.symm hcall)]
      · by_cases hother' : other = call
        · subst hother'
          rwa [goto_phase_self]
        · rw [goto_phase_of_ne _ hother']
          exact hlost other hother

/-- In every run at most one call enters libsodium. -/
theorem initInv_initRun (steps : List (ι × ℤ)) : InitInv (initRun steps) := by
  induction steps using List.reverseRecOn with
  | nil => exact .unset rfl (fun _ => Or.inl rfl) rfl
  | append_singleton steps step ih =>
    rw [initRun_concat]
    exact initInv_initStep ih step.1 step.2

theorem Phase.Lost.not_pending {phase : Phase} (h : phase.Lost) : ¬ phase.Pending := by
  rcases h with rfl | rfl | rfl | rfl
  · simp [Phase.Pending]
  · simp [Phase.Pending]
  · simp [Phase.Pending]
  · simp [Phase.Pending]

omit [DecidableEq ι] in
/-- When the flag is set and nothing is pending, libsodium is initialised. -/
theorem sodiumDone_of_not_pending (h : InitInv s) (hflag : s.initialized ≠ 0)
    (hpending : ∀ other, ¬ (s.phase other).Pending) : s.SodiumDone := by
  cases h with
  | unset hzero => exact absurd hzero hflag
  | set winner _ hwon _ =>
    rcases hwon with ⟨hphase, -⟩ | ⟨hphase, -⟩ | ⟨-, ret, hret, hrets⟩
    · exact absurd (Or.inl hphase) (hpending winner)
    · exact absurd (Or.inr hphase) (hpending winner)
    · exact ⟨ret, hrets ▸ List.mem_singleton_self ret, hret⟩

/-- While a call is pending, libsodium is not initialised. -/
theorem not_sodiumDone_of_pending (h : InitInv s) {other : ι}
    (hpending : (s.phase other).Pending) : ¬ s.SodiumDone := by
  rintro ⟨ret, hmem, hret⟩
  cases h with
  | unset _ _ hrets => exact absurd (hrets ▸ hmem) List.not_mem_nil
  | set winner _ hwon hlost =>
    obtain rfl : other = winner := by
      by_contra hne
      exact (hlost other hne).not_pending hpending
    rcases hwon with ⟨-, hrets⟩ | ⟨-, hrets⟩ | ⟨hphase, -⟩
    · exact absurd (hrets ▸ hmem) List.not_mem_nil
    · exact hret (List.mem_singleton.1 (hrets ▸ hmem))
    · rcases hphase with hphase | hphase
      · simp [Phase.Pending, hphase] at hpending
      · simp [Phase.Pending, hphase] at hpending

end Invariant

/-! ### Which steps keep the announcement true -/

section Announced

variable {s : InitState ι} {call other : ι}

/-- What a step can do: it leaves a flag, may add to what `sodium_init` has returned, and moves the
call that makes it. -/
theorem exists_initStep (s : InitState ι) (call : ι) (ret : ℤ) : ∃ flag rets phase,
    initStep s call ret =
      { s with initialized := flag, sodiumRets := rets ++ s.sodiumRets }.goto call phase := by
  cases hphase : s.phase call with
  | load =>
    rw [initStep_load hphase]
    split_ifs
    · exact ⟨_, [], _, rfl⟩
    · exact ⟨_, [], _, rfl⟩
  | swap =>
    by_cases hflag : s.initialized = 0
    · exact ⟨_, [], _, initStep_swap_of_eq hphase hflag ret⟩
    · exact ⟨_, [], _, initStep_swap_of_ne hphase hflag ret⟩
  | sodium => exact ⟨_, [ret], _, initStep_sodium hphase ret⟩
  | ret val => exact ⟨_, [], _, initStep_ret hphase ret⟩
  | returned val => exact ⟨_, [], _, initStep_returned_eq_goto hphase ret⟩

theorem initStep_phase_of_ne (h : other ≠ call) (ret : ℤ) :
    (initStep s call ret).phase other = s.phase other := by
  obtain ⟨flag, rets, phase, hstep⟩ := exists_initStep s call ret
  rw [hstep, goto_phase_of_ne _ h]

/-- Once libsodium is initialised, it stays so. -/
theorem sodiumDone_initStep (h : s.SodiumDone) (call : ι) (ret : ℤ) :
    (initStep s call ret).SodiumDone := by
  obtain ⟨ret', hmem, hret'⟩ := h
  obtain ⟨flag, rets, phase, hstep⟩ := exists_initStep s call ret
  rw [hstep]
  exact ⟨ret', List.mem_append_right rets hmem, hret'⟩

/-- The call returns 1 or has returned it. -/
def Phase.Answers1 (phase : Phase) : Prop := phase = .ret 1 ∨ phase = .returned 1

/-- How a call comes to return 1: it has met the flag. -/
theorem meets_of_answers1 {ret : ℤ} (h : ((initStep s call ret).phase call).Answers1) :
    (s.phase call).Answers1 ∨
      (s.phase call = .load ∨ s.phase call = .swap) ∧ s.initialized ≠ 0 := by
  cases hphase : s.phase call with
  | load =>
    rw [initStep_load hphase] at h
    split_ifs at h with hflag
    · exact Or.inr ⟨Or.inl rfl, hflag⟩
    · simp [Phase.Answers1] at h
  | swap =>
    by_cases hflag : s.initialized = 0
    · rw [initStep_swap_of_eq hphase hflag] at h
      simp [Phase.Answers1] at h
    · exact Or.inr ⟨Or.inr rfl, hflag⟩
  | sodium =>
    rw [initStep_sodium hphase, goto_phase_self] at h
    split_ifs at h
    · simp [Phase.Answers1] at h
    · simp [Phase.Answers1] at h
  | ret val =>
    rw [initStep_ret hphase] at h
    simp only [Phase.Answers1, goto_phase_self, Phase.returned.injEq, reduceCtorEq, false_or] at h
    exact Or.inl (Or.inl (by rw [h]))
  | returned val =>
    rw [initStep_returned hphase, hphase] at h
    exact Or.inl h

/-- A call that returns 1 can be trusted. -/
def Trusted (s : InitState ι) : Prop := ∀ call, (s.phase call).Answers1 → s.SodiumDone

/-- A step that does not meet the flag too early keeps the answer 1 trusted. -/
theorem trusted_initStep (hinv : InitInv s) (h : Trusted s) (hmeets : MeetsDone s call) (ret : ℤ) :
    Trusted (initStep s call ret) := by
  intro other hother
  refine sodiumDone_initStep ?_ call ret
  by_cases hcall : other = call
  · subst hcall
    rcases meets_of_answers1 hother with hanswers | ⟨hphase, hflag⟩
    · exact h other hanswers
    · exact sodiumDone_of_not_pending hinv hflag (hmeets hphase hflag)
  · rw [initStep_phase_of_ne hcall] at hother
    exact h other hother

/-- The answer 0 can always be trusted. -/
theorem announced_of_trusted (hinv : InitInv s) (h : Trusted s) : Announced s := by
  rintro call val hphase (rfl | rfl)
  · cases hinv with
    | unset _ hnone =>
      rcases hnone call with hload | hswap
      · simp [hphase] at hload
      · simp [hphase] at hswap
    | set winner _ hwon hlost =>
      -- Only the call that has set the flag can return 0.
      obtain rfl : call = winner := by
        by_contra hne
        have hcall := hlost call hne
        simp [Phase.Lost, hphase] at hcall
      rcases hwon with ⟨hsodium, -⟩ | ⟨hfailed, -⟩ | ⟨-, ret, hret, hrets⟩
      · simp [hphase] at hsodium
      · simp [hphase] at hfailed
      · exact ⟨ret, hrets ▸ List.mem_singleton_self ret, hret⟩
  · exact h call (Or.inr hphase)

/-- In a run in which no call meets the flag too early the answer 1 is trusted. -/
theorem trusted_initRun {steps : List (ι × ℤ)}
    (hmeets : ∀ done step rest, steps = done ++ step :: rest → MeetsDone (initRun done) step.1) :
    Trusted (initRun steps) := by
  induction steps using List.reverseRecOn with
  | nil => exact fun call h => by simp [initRun, initStart, Phase.Answers1] at h
  | append_singleton steps step ih =>
    rw [initRun_concat]
    refine trusted_initStep (initInv_initRun steps) (ih ?_) (hmeets steps step [] rfl) step.2
    rintro done step' rest rfl
    exact hmeets done step' (rest ++ [step]) (by simp)

/-- A call that meets the flag too early goes on to return 1 while libsodium is not initialised. -/
theorem not_announced_of_not_meetsDone (hinv : InitInv s) (h : ¬ MeetsDone s call) (ret ret' : ℤ) :
    ¬ Announced (initStep (initStep s call ret) call ret') := by
  simp only [MeetsDone, not_forall, not_not] at h
  obtain ⟨hphase, hflag, other, hpending⟩ := h
  have hstep : initStep s call ret = s.goto call (.ret 1) := by
    rcases hphase with hphase | hphase
    · rw [initStep_load hphase, if_pos hflag]
    · exact initStep_swap_of_ne hphase hflag ret
  rw [hstep, initStep_ret (goto_phase_self ..)]
  intro hann
  exact not_sodiumDone_of_pending hinv hpending (hann call 1 (goto_phase_self ..) (Or.inr rfl))

end Announced

/-- **When the announcement is true.** In a run in which no call meets the flag too early, every
state reached has a call that has returned 0 or 1 only if some call of `sodium_init` has returned
without error. After a run, a call whose next step meets the flag too early breaks this by its next
two steps. -/
theorem announced_of_meetsDone (steps : List (ι × ℤ)) :
    ((∀ done step rest, steps = done ++ step :: rest → MeetsDone (initRun done) step.1) →
        ∀ done rest, steps = done ++ rest → Announced (initRun done)) ∧
      ∀ call ret ret', ¬ MeetsDone (initRun steps) call →
        ¬ Announced (initRun (steps ++ [(call, ret), (call, ret')])) := by
  constructor
  · rintro hmeets done rest rfl
    refine announced_of_trusted (initInv_initRun done) (trusted_initRun ?_)
    rintro before step after rfl
    exact hmeets before step (after ++ rest) (by simp)
  · intro call ret ret' h
    have hrun : initRun (steps ++ [(call, ret), (call, ret')]) =
        initStep (initStep (initRun steps) call ret) call ret' := by
      rw [initRun, List.foldl_append]
      rfl
    rw [hrun]
    exact not_announced_of_not_meetsDone (initInv_initRun steps) h ret ret'

/-- Two calls load the flag before one of them sets it. The other one swaps after `sodium_init` has
returned, and returns 1. -/
theorem announced_of_overlapping_calls :
    Announced (initRun [(false, (0 : ℤ)), (true, 0), (false, 0), (false, 0), (true, 0), (true, 0),
      (false, 0)]) ∧
    (initRun [(false, (0 : ℤ)), (true, 0), (false, 0), (false, 0), (true, 0), (true, 0),
      (false, 0)]).phase true = .returned 1 := by
  refine ⟨(announced_of_meetsDone _).1 ?_ _ [] (List.append_nil _).symm, by decide⟩
  exact FallibleRun.forall_split_iff.2 (by decide)

/-- Two ways to announce what has not been done: a second call meets the flag while the first one is
inside `sodium_init`, or after this has failed. -/
theorem not_announced_of_two_calls :
    ¬ Announced (initRun [(false, (0 : ℤ)), (false, 0), (true, 0), (true, 0)]) ∧
      ¬ Announced (initRun [(false, (-1 : ℤ)), (false, -1), (false, -1), (false, -1), (true, 0),
        (true, 0)]) := by
  constructor
  · intro h
    obtain ⟨ret, hmem, -⟩ := h true 1 rfl (Or.inr rfl)
    exact absurd hmem List.not_mem_nil
  · intro h
    obtain ⟨ret, hmem, hret⟩ := h true 1 rfl (Or.inr rfl)
    exact hret (List.mem_singleton.1 hmem)

end SndNet
