import Mathlib.Data.Int.Notation
import SndNet.Common

/-!
# Closures

A callback is a body with some arguments given in advance (`include/util/closure.h`). The node logs
through one. This file translates `src/util/closure.c`; arguments are values of one type in place
of untyped pointers, and the part of the argument array in use is a list.

## Main definitions

* `SndNet.SnUtilClosure`: a body with the arguments given so far.
* `SndNet.snUtilClosureCurry`, `SndNet.snUtilClosureCurryOnce`: giving arguments in advance.
* `SndNet.snUtilClosureCall`: the call with the remaining arguments.
* `SndNet.CurryOp`, `SndNet.curryStep`: an operation that gives arguments, and what it does.

## Main results

* `SndNet.curryStep_of_le`, `SndNet.curryStep_of_lt`: an operation gives all of its arguments or
  none.
-/

namespace SndNet

/-- `SN_UTIL_CLOSURE_MAX_CURRYING`. -/
abbrev snUtilClosureMaxCurrying : ℕ := 8

/-- `sn_util_closure_t`: a body with the arguments given so far. -/
structure SnUtilClosure (α β : Type*) where
  /-- The first `c_argc` elements of `c_argv`. -/
  cArgv : List α
  body : List α → β
  length_le : cArgv.length ≤ snUtilClosureMaxCurrying

variable {α β : Type*}

/-- `sn_util_closure_init` (`src/util/closure.c`, lines 6–12). -/
def snUtilClosureInit (body : List α → β) : SnUtilClosure α β := ⟨[], body, Nat.zero_le _⟩

/-- `sn_util_closure_curry_once` (`src/util/closure.c`, lines 60–69), with the closure after the
call. -/
def snUtilClosureCurryOnce (closure : SnUtilClosure α β) (arg : α) : ℤ × SnUtilClosure α β :=
  if h : closure.cArgv.length ≥ snUtilClosureMaxCurrying then (-1, closure)
  else (0, ⟨closure.cArgv ++ [arg], closure.body, by
    rw [List.length_append, List.length_singleton]; omega⟩)

/-- The loop of `sn_util_closure_curry`, which stops at the first argument that does not fit. -/
def curryLoop (closure : SnUtilClosure α β) : List α → ℤ × SnUtilClosure α β
  | [] => (0, closure)
  | arg :: argv =>
    let r := snUtilClosureCurryOnce closure arg
    if r.1 = -1 then r else curryLoop r.2 argv

/-- The closure with only its first `n` arguments. -/
def SnUtilClosure.truncate (closure : SnUtilClosure α β) (n : ℕ) : SnUtilClosure α β :=
  ⟨closure.cArgv.take n, closure.body, Nat.le_trans (List.length_take_le' ..) closure.length_le⟩

/-- `sn_util_closure_curry` (`src/util/closure.c`, lines 42–58): on failure the arguments stored so
far are given up. -/
def snUtilClosureCurry (closure : SnUtilClosure α β) (argv : List α) : ℤ × SnUtilClosure α β :=
  let origArgc := closure.cArgv.length
  let r := curryLoop closure argv
  if r.1 = -1 then (-1, r.2.truncate origArgc) else r

/-- `sn_util_closure_init_curried` (`src/util/closure.c`, lines 14–17). -/
def snUtilClosureInitCurried (body : List α → β) (argv : List α) : ℤ × SnUtilClosure α β :=
  snUtilClosureCurry (snUtilClosureInit body) argv

/-- `sn_util_closure_call` (`src/util/closure.c`, lines 24–40). -/
def snUtilClosureCall (closure : SnUtilClosure α β) (argv : List α) : β :=
  closure.body (closure.cArgv ++ argv)

/-! ### All arguments or none -/

/-- The closure with more arguments, which have to fit. -/
def SnUtilClosure.append (closure : SnUtilClosure α β) (argv : List α)
    (h : closure.cArgv.length + argv.length ≤ snUtilClosureMaxCurrying) : SnUtilClosure α β :=
  ⟨closure.cArgv ++ argv, closure.body, by rwa [List.length_append]⟩

section Curry

variable {closure : SnUtilClosure α β} {arg : α} {argv : List α}

theorem snUtilClosureCurryOnce_of_lt (h : closure.cArgv.length + 1 ≤ snUtilClosureMaxCurrying) :
    snUtilClosureCurryOnce closure arg = (0, closure.append [arg] h) :=
  dif_neg (Nat.not_le.2 h)

theorem snUtilClosureCurryOnce_of_le (h : snUtilClosureMaxCurrying ≤ closure.cArgv.length) :
    snUtilClosureCurryOnce closure arg = (-1, closure) := dif_pos h

@[simp] theorem length_append_singleton
    (h : closure.cArgv.length + [arg].length ≤ snUtilClosureMaxCurrying) :
    (closure.append [arg] h).cArgv.length = closure.cArgv.length + 1 := List.length_append

/-- A round of the loop with room for the argument. -/
theorem curryLoop_cons_of_lt (h : closure.cArgv.length + 1 ≤ snUtilClosureMaxCurrying) :
    curryLoop closure (arg :: argv) = curryLoop (closure.append [arg] h) argv := by
  rw [curryLoop, snUtilClosureCurryOnce_of_lt h]
  exact if_neg (show (0 : ℤ) ≠ -1 by decide)

/-- The loop stores all arguments when they fit. -/
theorem curryLoop_of_le (h : closure.cArgv.length + argv.length ≤ snUtilClosureMaxCurrying) :
    curryLoop closure argv = (0, closure.append argv h) := by
  induction argv generalizing closure with
  | nil => simp [curryLoop, SnUtilClosure.append]
  | cons arg argv ih =>
    rw [List.length_cons] at h
    have hone : closure.cArgv.length + 1 ≤ snUtilClosureMaxCurrying := by omega
    have hrest : (closure.append [arg] hone).cArgv.length + argv.length ≤
        snUtilClosureMaxCurrying := by
      rw [length_append_singleton]
      omega
    rw [curryLoop_cons_of_lt hone, ih hrest]
    simp [SnUtilClosure.append]

/-- The loop fails when the arguments do not fit. The arguments given before stay in front of the
ones that it has stored. -/
theorem curryLoop_of_lt (h : snUtilClosureMaxCurrying < closure.cArgv.length + argv.length) :
    (curryLoop closure argv).1 = -1 ∧
      (curryLoop closure argv).2.cArgv.take closure.cArgv.length = closure.cArgv ∧
      (curryLoop closure argv).2.body = closure.body := by
  induction argv generalizing closure with
  | nil => exact absurd closure.length_le (Nat.not_le.2 h)
  | cons arg argv ih =>
    rw [List.length_cons] at h
    by_cases hone : closure.cArgv.length + 1 ≤ snUtilClosureMaxCurrying
    · have hrest : snUtilClosureMaxCurrying <
          (closure.append [arg] hone).cArgv.length + argv.length := by
        rw [length_append_singleton]
        omega
      obtain ⟨hret, htake, hbody⟩ := ih hrest
      rw [curryLoop_cons_of_lt hone]
      refine ⟨hret, ?_, hbody⟩
      -- What the longer closure starts with starts with the arguments given before.
      have hstart := congrArg (List.take closure.cArgv.length) htake
      rw [List.take_take, length_append_singleton, Nat.min_eq_left (Nat.le_succ _)] at hstart
      rw [hstart, SnUtilClosure.append, List.take_left]
    · rw [curryLoop, snUtilClosureCurryOnce_of_le (by omega)]
      exact ⟨rfl, List.take_length, rfl⟩

theorem snUtilClosureCurry_of_le
    (h : closure.cArgv.length + argv.length ≤ snUtilClosureMaxCurrying) :
    snUtilClosureCurry closure argv = (0, closure.append argv h) := by
  rw [snUtilClosureCurry, curryLoop_of_le h]
  rfl

/-- What a failed loop has stored is given up. -/
theorem snUtilClosureCurry_of_lt
    (h : snUtilClosureMaxCurrying < closure.cArgv.length + argv.length) :
    snUtilClosureCurry closure argv = (-1, closure) := by
  obtain ⟨hret, htake, hbody⟩ := curryLoop_of_lt h
  obtain ⟨args, body, hle⟩ := closure
  rw [snUtilClosureCurry]
  dsimp only
  rw [if_pos hret]
  simp only [SnUtilClosure.truncate, htake, hbody]

end Curry

/-- An operation that gives arguments in advance. -/
inductive CurryOp (α : Type*) where
  | curry (argv : List α)
  | curryOnce (arg : α)

/-- The arguments that an operation gives. -/
def CurryOp.args : CurryOp α → List α
  | .curry argv => argv
  | .curryOnce arg => [arg]

/-- The return value of an operation, and the closure after it. -/
def curryStep (closure : SnUtilClosure α β) : CurryOp α → ℤ × SnUtilClosure α β
  | .curry argv => snUtilClosureCurry closure argv
  | .curryOnce arg => snUtilClosureCurryOnce closure arg

section CurryStep

variable {closure : SnUtilClosure α β} {op : CurryOp α}

theorem curryStep_of_le (h : closure.cArgv.length + op.args.length ≤ snUtilClosureMaxCurrying) :
    curryStep closure op = (0, closure.append op.args h) := by
  cases op with
  | curry argv => exact snUtilClosureCurry_of_le h
  | curryOnce arg => exact snUtilClosureCurryOnce_of_lt h

theorem curryStep_of_lt (h : snUtilClosureMaxCurrying < closure.cArgv.length + op.args.length) :
    curryStep closure op = (-1, closure) := by
  cases op with
  | curry argv => exact snUtilClosureCurry_of_lt h
  | curryOnce arg => exact snUtilClosureCurryOnce_of_le (Nat.le_of_lt_succ h)

end CurryStep

end SndNet
