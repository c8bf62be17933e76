import SndNet.Library.ByteLayout
import SndNet.Library.Simulation
import SndNet.Util.Closure

/-!
# The slots of a closure

A closure stores its arguments in an array of eight slots and counts the ones in use
(`include/util/closure.h`, lines 26–30). A curry that runs out of slots sets the count back, but
leaves what it has written in the slots behind it (`src/util/closure.c`, lines 42–69). This file
translates the functions on the slots and shows that they do the same as those on the list of the
arguments in use. The array of a call, which has length zero when there are no arguments, holds
anything at first.

Counts are of type `int` in the source and natural numbers here. The count of a closure is at most
eight. The sum in `sn_util_closure_call` is the same in both as long as it is at most `INT_MAX`, so
a call with more than `INT_MAX - 8` arguments is left out.

## Main definitions

* `SndNet.Slots.SnUtilClosure`: a closure with its slots.
* `SndNet.Slots.snUtilClosureCurryOnce`, `SndNet.Slots.snUtilClosureCurry`,
  `SndNet.Slots.snUtilClosureCall`: the functions on the slots.
* `SndNet.Slots.Represents`: the arguments in use are those of a closure without slots.

## Main results

* `SndNet.Slots.simulates_curryStep`: what one operation preserves.
* `SndNet.Slots.toInt_callArgc`: the number of arguments of a call is computed without overflow.
* `SndNet.Slots.snUtilClosureCall_eq`: a call copies the arguments in use and then its own.
* `SndNet.Slots.exists_respond_curryStep`: after any operations, a call passes on the arguments of
  those that succeeded.
-/

namespace SndNet

namespace Slots

open ByteLayout FallibleRun Simulation

variable {α β : Type}

/-! ### The functions on the slots -/

/-- `sn_util_closure_t`. -/
structure SnUtilClosure (α β : Type) where
  cArgc : ℕ
  cArgv : CArray α snUtilClosureMaxCurrying
  body : List α → β

/-- `sn_util_closure_init` (`src/util/closure.c`, lines 6–12), in a memory whose slots hold
anything. -/
def snUtilClosureInit (memory : CArray α snUtilClosureMaxCurrying) (body : List α → β) :
    SnUtilClosure α β := ⟨0, memory, body⟩

/-- The slots after an argument has been written into one of them. -/
def writeSlot (cArgv : CArray α snUtilClosureMaxCurrying) (i : ℕ) (arg : α) :
    Exec (CArray α snUtilClosureMaxCurrying) :=
  if i < snUtilClosureMaxCurrying then .ok (cArgv.write i arg) else .error .outOfBounds

/-- `sn_util_closure_curry_once` (`src/util/closure.c`, lines 60–69). -/
def snUtilClosureCurryOnce (closure : SnUtilClosure α β) (arg : α) :
    Exec (ℤ × SnUtilClosure α β) :=
  if closure.cArgc ≥ snUtilClosureMaxCurrying then return (-1, closure)
  else do
    let cArgv ← writeSlot closure.cArgv closure.cArgc arg
    return (0, { closure with cArgc := closure.cArgc + 1, cArgv := cArgv })

/-- The loop of `sn_util_closure_curry`, which stops at the first argument that does not fit. -/
def curryLoop (closure : SnUtilClosure α β) : List α → Exec (ℤ × SnUtilClosure α β)
  | [] => return (0, closure)
  | arg :: argv => do
    let r ← snUtilClosureCurryOnce closure arg
    if r.1 = -1 then return r else curryLoop r.2 argv

/-- `sn_util_closure_curry` (`src/util/closure.c`, lines 42–58): on failure only the count is set
back. -/
def snUtilClosureCurry (closure : SnUtilClosure α β) (argv : List α) :
    Exec (ℤ × SnUtilClosure α β) := do
  let origArgc := closure.cArgc
  let r ← curryLoop closure argv
  return if r.1 = -1 then (-1, { r.2 with cArgc := origArgc }) else r

/-- The loop `for(i = 0; i < n; ++i) callArgv[i + off] = argv[i]`. -/
def copyLoop (argv : List α) (off : ℕ) (callArgv : List α) (n : ℕ) : Exec (List α) :=
  (List.range n).foldlM (fun callArgv i =>
    match argv[i]? with
    | some arg =>
      if i + off < callArgv.length then .ok (callArgv.set (i + off) arg) else .error .outOfBounds
    | none => .error .outOfBounds) callArgv

/-- `sn_util_closure_call` (`src/util/closure.c`, lines 24–40), with what the array on the stack
holds at first, for calls whose sum of the counts is at most `INT_MAX`. -/
def snUtilClosureCall (stack : ℕ → α) (closure : SnUtilClosure α β) (argv : List α) : Exec β := do
  let callArgc := closure.cArgc + argv.length
  let callArgv := (List.range callArgc).map stack
  let callArgv ← copyLoop closure.cArgv.val 0 callArgv closure.cArgc
  let callArgv ← copyLoop argv closure.cArgc callArgv argv.length
  return closure.body callArgv

/-- The return value of an operation, and the closure after it. -/
def curryStep (closure : SnUtilClosure α β) : CurryOp α → Exec (ℤ × SnUtilClosure α β)
  | .curry argv => snUtilClosureCurry closure argv
  | .curryOnce arg => snUtilClosureCurryOnce closure arg

/-! ### The arguments in use -/

/-- The slots in use hold the arguments of a closure without slots. -/
structure Represents (slots : SnUtilClosure α β) (closure : SndNet.SnUtilClosure α β) : Prop where
  cArgc_eq : slots.cArgc = closure.cArgv.length
  take_eq : slots.cArgv.val.take slots.cArgc = closure.cArgv
  body_eq : slots.body = closure.body

section Simulation

variable {slots : SnUtilClosure α β} {closure : SndNet.SnUtilClosure α β}

theorem Represents.cArgc_le (h : Represents slots closure) :
    slots.cArgc ≤ snUtilClosureMaxCurrying := h.cArgc_eq ▸ closure.length_le

theorem represents_init (memory : CArray α snUtilClosureMaxCurrying) (body : List α → β) :
    Represents (snUtilClosureInit memory body) (SndNet.snUtilClosureInit body) := ⟨rfl, rfl, rfl⟩

/-- An argument that is written behind the ones in use is the last of them when it is counted. -/
theorem take_succ_write (cArgv : CArray α snUtilClosureMaxCurrying) {n : ℕ}
    (h : n < snUtilClosureMaxCurrying) (arg : α) :
    (cArgv.write n arg).val.take (n + 1) = cArgv.val.take n ++ [arg] := by
  have hlen : n < cArgv.val.length := cArgv.property.symm ▸ h
  change (cArgv.val.set n arg).take (n + 1) = _
  rw [List.take_add_one, List.getElem?_set_self hlen, List.take_set_of_le (Nat.le_refl n)]
  rfl

theorem exists_curryOnce (h : Represents slots closure) (arg : α) :
    ∃ slots', snUtilClosureCurryOnce slots arg =
        .ok ((SndNet.snUtilClosureCurryOnce closure arg).1, slots') ∧
      Represents slots' (SndNet.snUtilClosureCurryOnce closure arg).2 := by
  by_cases hfull : snUtilClosureMaxCurrying ≤ closure.cArgv.length
  · rw [snUtilClosureCurryOnce_of_le hfull, snUtilClosureCurryOnce, if_pos (h.cArgc_eq ▸ hfull)]
    exact ⟨slots, rfl, h⟩
  · have hlt : slots.cArgc < snUtilClosureMaxCurrying := h.cArgc_eq ▸ Nat.not_le.1 hfull
    rw [snUtilClosureCurryOnce_of_lt (Nat.not_le.1 hfull), snUtilClosureCurryOnce,
      if_neg (Nat.not_le.2 hlt), writeSlot, if_pos hlt]
    refine ⟨_, rfl, ?_, ?_, h.body_eq⟩
    · rw [length_append_singleton, ← h.cArgc_eq]
    · exact (take_succ_write _ hlt arg).trans (congrArg (· ++ [arg]) h.take_eq)

theorem exists_curryLoop (h : Represents slots closure) (argv : List α) :
    ∃ slots', curryLoop slots argv = .ok ((SndNet.curryLoop closure argv).1, slots') ∧
      Represents slots' (SndNet.curryLoop closure argv).2 := by
  induction argv generalizing slots closure with
  | nil => exact ⟨slots, rfl, h⟩
  | cons arg argv ih =>
    obtain ⟨slots₁, honce, h₁⟩ := exists_curryOnce h arg
    rw [curryLoop, honce, ok_bind, SndNet.curryLoop]
    dsimp only
    split_ifs with hret
    · exact ⟨slots₁, rfl, h₁⟩
    · exact ih h₁

/-- Setting the count back takes the last arguments away, whatever their slots hold. -/
theorem Represents.truncate (h : Represents slots closure) {n : ℕ} (hn : n ≤ slots.cArgc) :
    Represents { slots with cArgc := n } (closure.truncate n) := by
  refine ⟨?_, ?_, h.body_eq⟩
  · change n = (closure.cArgv.take n).length
    rw [List.length_take, ← h.cArgc_eq, Nat.min_eq_left hn]
  · change slots.cArgv.val.take n = closure.cArgv.take n
    rw [← h.take_eq, List.take_take, Nat.min_eq_left hn]

/-- The loop of a curry takes no argument away. -/
theorem cArgc_le_of_curryLoop {argv : List α} {ret : ℤ} {slots' : SnUtilClosure α β}
    (h : curryLoop slots argv = .ok (ret, slots')) : slots.cArgc ≤ slots'.cArgc := by
  induction argv generalizing slots with
  | nil =>
    cases h
    exact Nat.le_refl _
  | cons arg argv ih =>
    obtain ⟨⟨ret₁, slots₁⟩, honce, hrest⟩ := bind_eq_ok.1 h
    have hle : slots.cArgc ≤ slots₁.cArgc := by
      rw [snUtilClosureCurryOnce] at honce
      split_ifs at honce
      · cases honce
        exact Nat.le_refl _
      · obtain ⟨cArgv, -, hret⟩ := bind_eq_ok.1 honce
        cases hret
        exact Nat.le_succ _
    dsimp only at hrest
    split_ifs at hrest
    · cases hrest
      exact hle
    · exact Nat.le_trans hle (ih hrest)

theorem exists_curry (h : Represents slots closure) (argv : List α) :
    ∃ slots', snUtilClosureCurry slots argv =
        .ok ((SndNet.snUtilClosureCurry closure argv).1, slots') ∧
      Represents slots' (SndNet.snUtilClosureCurry closure argv).2 := by
  obtain ⟨slots₁, hloop, h₁⟩ := exists_curryLoop h argv
  rw [snUtilClosureCurry, hloop, ok_bind, SndNet.snUtilClosureCurry]
  dsimp only
  split_ifs with hret
  · exact ⟨_, rfl, h.cArgc_eq ▸ h₁.truncate (cArgc_le_of_curryLoop hloop)⟩
  · exact ⟨slots₁, rfl, h₁⟩

/-- **What one operation preserves.** An operation on the slots returns what it returns without
them, and the slots in use go on to hold the arguments. -/
theorem simulates_curryStep :
    Simulates (Represents (α := α) (β := β)) curryStep SndNet.curryStep := by
  intro slots closure op h
  cases op with
  | curry argv => exact exists_curry h argv
  | curryOnce arg => exact exists_curryOnce h arg

end Simulation

/-! ### Calls -/

/-- `INT_MAX`. -/
abbrev intMax : ℕ := 2147483647

section Call

variable {callArgv argv : List α} {off n : ℕ}

/-- The loop copies the first `n` arguments to an offset. -/
theorem copyLoop_eq (hn : n ≤ argv.length) (hroom : off + n ≤ callArgv.length) :
    copyLoop argv off callArgv n = .ok (splice off (argv.take n) callArgv) := by
  induction n with
  | zero => rw [List.take_zero, splice_nil, copyLoop, List.range_zero, List.foldlM_nil, pure_eq_ok]
  | succ n ih =>
    have htake : (argv.take n).length = n := by rw [List.length_take, Nat.min_eq_left (by omega)]
    have hlen : (splice off (argv.take n) callArgv).length = callArgv.length :=
      length_splice (by omega)
    have hset : (splice off (argv.take n) callArgv).set (off + (argv.take n).length) argv[n] =
        splice off (argv.take n ++ [argv[n]]) callArgv := set_splice (by omega)
    have hprev : copyLoop argv off callArgv n = _ := ih (by omega) (by omega)
    rw [htake] at hset
    rw [copyLoop] at hprev ⊢
    rw [List.range_succ, List.foldlM_append, hprev, ok_bind, List.foldlM_cons,
      List.getElem?_eq_getElem hn]
    dsimp only
    rw [if_pos (by omega), ok_bind, List.foldlM_nil, pure_eq_ok, Nat.add_comm n off, hset,
      List.take_append_getElem]

/-- The number of arguments of a call, `c_argc + argc` in the type `int`, does not overflow when the
call has at most `INT_MAX - 8` arguments of its own. -/
theorem toInt_callArgc {slots : SnUtilClosure α β} {closure : SndNet.SnUtilClosure α β}
    (h : Represents slots closure) (hargv : argv.length + snUtilClosureMaxCurrying ≤ intMax) :
    (Int32.ofNat slots.cArgc + Int32.ofNat argv.length).toInt = slots.cArgc + argv.length := by
  have hle : slots.cArgc ≤ 8 := h.cArgc_le
  have hroom : argv.length + 8 ≤ 2147483647 := hargv
  rw [Int32.toInt_add, Int32.toInt_ofNat_of_lt (by omega), Int32.toInt_ofNat_of_lt (by omega)]
  exact Int.bmod_eq_of_le (by omega) (by omega)

/-- A call passes on the arguments in use and then its own, and nothing of what the array held. -/
theorem snUtilClosureCall_eq {slots : SnUtilClosure α β} {closure : SndNet.SnUtilClosure α β}
    (h : Represents slots closure) (stack : ℕ → α) (argv : List α) :
    snUtilClosureCall stack slots argv = .ok (SndNet.snUtilClosureCall closure argv) := by
  have hslots : closure.cArgv.length ≤ slots.cArgv.val.length :=
    slots.cArgv.property.symm ▸ closure.length_le
  have hstack : ((List.range (closure.cArgv.length + argv.length)).map stack).length =
      closure.cArgv.length + argv.length := by rw [List.length_map, List.length_range]
  have htake : slots.cArgv.val.take closure.cArgv.length = closure.cArgv := h.cArgc_eq ▸ h.take_eq
  rw [snUtilClosureCall, h.cArgc_eq, copyLoop_eq hslots (by omega), ok_bind, htake,
    copyLoop_eq (Nat.le_refl _) (by rw [length_splice (by omega)]; omega), ok_bind,
    List.take_length, splice_splice_of_length hstack.symm, h.body_eq]
  rfl

end Call

/-! ### Runs of operations -/

/-- An operation with this return value has succeeded. -/
def succeeded (ret : ℤ) : Bool := ret = 0

section Run

variable {op : CurryOp α} {closure : SndNet.SnUtilClosure α β}

/-- An operation succeeds exactly when its arguments fit, and changes nothing otherwise. -/
theorem curryStep_cases (closure : SndNet.SnUtilClosure α β) (op : CurryOp α) :
    (closure.cArgv.length + op.args.length ≤ snUtilClosureMaxCurrying ∧
        (SndNet.curryStep closure op).1 = 0 ∧
        (SndNet.curryStep closure op).2.cArgv = closure.cArgv ++ op.args ∧
        (SndNet.curryStep closure op).2.body = closure.body) ∨
      (snUtilClosureMaxCurrying < closure.cArgv.length + op.args.length ∧
        SndNet.curryStep closure op = (-1, closure)) := by
  rcases Nat.lt_or_ge snUtilClosureMaxCurrying (closure.cArgv.length + op.args.length) with h | h
  · exact Or.inr ⟨h, curryStep_of_lt h⟩
  · refine Or.inl ⟨h, ?_⟩
    rw [curryStep_of_le h]
    exact ⟨rfl, rfl, rfl⟩

theorem curryStep_refused (h : succeeded (SndNet.curryStep closure op).1 = false) :
    (SndNet.curryStep closure op).2 = closure := by
  rcases curryStep_cases closure op with ⟨-, hret, -⟩ | ⟨-, hstep⟩
  · rw [hret] at h
    cases h
  · rw [hstep]

/-- Currying is concatenation: the arguments in use are those of the operations that succeeded. -/
theorem cArgv_answers (closure : SndNet.SnUtilClosure α β) (ops : List (CurryOp α)) :
    (answers SndNet.curryStep closure ops).2.cArgv = closure.cArgv ++
        (kept succeeded ops (answers SndNet.curryStep closure ops).1).flatMap CurryOp.args ∧
      (answers SndNet.curryStep closure ops).2.body = closure.body := by
  induction ops generalizing closure with
  | nil => exact ⟨(List.append_nil _).symm, rfl⟩
  | cons op ops ih =>
    obtain ⟨hargv, hbody⟩ := ih (SndNet.curryStep closure op).2
    rw [answers]
    dsimp only
    rw [hargv, hbody]
    rcases curryStep_cases closure op with ⟨-, hret, hargs, hbody⟩ | ⟨-, hstep⟩
    · rw [hargs, hbody, kept_cons_of_pos (by rw [hret]; rfl), List.flatMap_cons, List.append_assoc]
      exact ⟨rfl, rfl⟩
    · rw [kept_cons_of_neg (by rw [hstep]; rfl), hstep]
      exact ⟨rfl, rfl⟩

/-- **Currying is concatenation and is atomic.** After any operations on a closure that has been
initialised, the count is at most the number of slots, and a further operation succeeds exactly when
its arguments fit behind the count. A call passes the body the arguments of the operations that
succeeded, in order, and then its own. It does the same when the operations that failed are left
out, and then all succeed. -/
theorem exists_respond_curryStep (memory : CArray α snUtilClosureMaxCurrying) (body : List α → β)
    (ops : List (CurryOp α)) :
    ∃ rets slots, respond curryStep (snUtilClosureInit memory body) ops = .ok (rets, slots) ∧
      slots.cArgc ≤ snUtilClosureMaxCurrying ∧
      (∀ op, ∃ ret slots', curryStep slots op = .ok (ret, slots') ∧ (ret = 0 ∨ ret = -1) ∧
        (ret = 0 ↔ slots.cArgc + op.args.length ≤ snUtilClosureMaxCurrying)) ∧
      (∀ stack argv, snUtilClosureCall stack slots argv =
        .ok (body ((kept succeeded ops rets).flatMap CurryOp.args ++ argv))) ∧
      ∃ rets' slots', respond curryStep (snUtilClosureInit memory body)
          (kept succeeded ops rets) = .ok (rets', slots') ∧ (∀ ret ∈ rets', ret = 0) ∧
        ∀ stack argv, snUtilClosureCall stack slots' argv = snUtilClosureCall stack slots argv := by
  obtain ⟨slots, hrun, hrep⟩ := simulates_curryStep.respond_eq (represents_init memory body) ops
  obtain ⟨hargv, hbody⟩ := cArgv_answers (SndNet.snUtilClosureInit body) ops
  refine ⟨_, slots, hrun, hrep.cArgc_le, fun op => ?_, fun stack argv => ?_, ?_⟩
  · obtain ⟨slots', hstep, -⟩ := simulates_curryStep slots _ op hrep
    refine ⟨_, slots', hstep, ?_⟩
    rw [hrep.cArgc_eq]
    rcases curryStep_cases _ op with ⟨hle, hret, -⟩ | ⟨hlt, hret⟩
    · rw [hret]
      exact ⟨Or.inl rfl, iff_of_true rfl hle⟩
    · rw [hret]
      exact ⟨Or.inr rfl, iff_of_false (show (-1 : ℤ) ≠ 0 by decide) (Nat.not_le.2 hlt)⟩
  · rw [snUtilClosureCall_eq hrep, SndNet.snUtilClosureCall, hargv, hbody]
    rfl
  · obtain ⟨hsame, hkept⟩ := answers_kept (fun _ _ => curryStep_refused)
      (SndNet.snUtilClosureInit body) ops
    obtain ⟨slots', hrun', hrep'⟩ :=
      simulates_curryStep.respond_eq (represents_init memory body) (kept succeeded ops _)
    refine ⟨_, slots', hrun', fun ret hret => of_decide_eq_true (hkept ret hret),
      fun stack argv => ?_⟩
    rw [snUtilClosureCall_eq hrep', snUtilClosureCall_eq hrep, hsame]

end Run

end Slots

end SndNet
