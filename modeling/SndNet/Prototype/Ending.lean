import SndNet.Prototype.Session

/-!
# The end of the prototype

When the loop is left, the node is destroyed before `main` returns (`prototype/main.c`, lines
117–119). There is one other way out of the loop: when the buffer of the command `show` cannot be
allocated, `main` returns from inside (line 107).

## Main results

* `SndNet.held_prototypeMain`: what the program has not given back when it returns.
-/

namespace SndNet

open CString Ctype Lines Resources

variable {S : SignScheme} {q : Sorter SnNetEntry} {a : LineAnswers} {ans : ℕ → LineAnswers} {k : ℕ}
  {sns : SnNode} {line : List UInt8} {lines : List (List UInt8)} {x : ConsoleM Control}

/-! ### Two views of what the program does -/

/-- What is done with the resources of the node, if something is. -/
def ConsoleEvent.nodeUse? : ConsoleEvent → Option (ResourceEvent NodeResource)
  | .node w => w.use?
  | _ => none

/-- What is done with the buffer for the text of the router, if something is. -/
def ConsoleEvent.bufferUse? : ConsoleEvent → Option (ResourceEvent Unit)
  | .buffer e => some e
  | _ => none

/-- What is done with the resources of the node. -/
def nodeUses (ws : List ConsoleEvent) : List (ResourceEvent NodeResource) :=
  ws.filterMap ConsoleEvent.nodeUse?

/-- What is done with the buffer. -/
def bufferUses (ws : List ConsoleEvent) : List (ResourceEvent Unit) :=
  ws.filterMap ConsoleEvent.bufferUse?

@[simp] theorem nodeUses_append (ws ws' : List ConsoleEvent) :
    nodeUses (ws ++ ws') = nodeUses ws ++ nodeUses ws' := List.filterMap_append

@[simp] theorem bufferUses_append (ws ws' : List ConsoleEvent) :
    bufferUses (ws ++ ws') = bufferUses ws ++ bufferUses ws' := List.filterMap_append

@[simp] theorem nodeUses_map (ws : List (UseEvent NodeResource)) :
    nodeUses (ws.map .node) = useEvents ws := by
  rw [nodeUses, List.filterMap_map]
  rfl

@[simp] theorem bufferUses_map (ws : List (UseEvent NodeResource)) :
    bufferUses (ws.map .node) = [] := by
  rw [bufferUses, List.filterMap_map]
  exact List.filterMap_eq_nil_iff.2 fun _ _ => rfl

/-! ### The loop -/

/-- The loop does nothing with the resources of the node. -/
theorem nodeUses_promptLoop :
    nodeUses (promptLoop (commandStep S q) ans k sns lines).events = [] := by
  refine List.filterMap_eq_nil_iff.2 fun w hw => ?_
  rcases w with _ | _ | w | _
  · rfl
  · rfl
  · rcases exists_round_of_mem hw with hprompt | ⟨done, line, -, sns₁, -, -, hw⟩
    · cases hprompt
    · obtain ⟨_, _, w', rfl, -⟩ := (isRound_commandStep S q _ sns₁ line).exists_send hw
      rfl
  · rfl

/-- A line frees the buffer that it allocates, unless the program fails. -/
theorem IsRound.held_bufferUses (h : IsRound S q a sns line x) :
    ∃ t, held ∅ (bufferUses x.events) = some t ∧ ∀ control, x.result = .ok control → t = ∅ := by
  cases h with
  | quit | usage | nothing | stop => exact ⟨∅, rfl, fun _ _ => rfl⟩
  | @send dst payload hpayload =>
    have hnone : bufferUses ((snNodeSend S a.env sns dst payload).events.map fun w =>
        .node (.node w)) = [] := by
      rw [bufferUses, List.filterMap_map]
      exact List.filterMap_eq_nil_iff.2 fun _ _ => rfl
    rw [perform_send]
    exact ⟨∅, by rw [hnone, held_nil], fun _ _ => rfl⟩
  | insert addr netAddr hinsert =>
    rw [perform_insert]
    exact ⟨∅, rfl, fun _ _ => rfl⟩
  | showRouter =>
    rw [perform_showRouter]
    split_ifs
    · rcases htext : shownText a sns.router with e | text
      · exact ⟨{()}, rfl, fun _ h => by cases h⟩
      · exact ⟨∅, rfl, fun _ _ => rfl⟩
    · exact ⟨∅, rfl, fun _ _ => rfl⟩

/-- The program returns from inside the loop when the buffer cannot be allocated. -/
theorem IsRound.of_ret {code : ℤ} (h : IsRound S q a sns line x)
    (hresult : x.result = .ok (.ret code)) : code = 1 ∧ ¬ a.malloc := by
  cases h with
  | quit | usage | nothing | stop => cases hresult
  | send dst hpayload =>
    rw [perform_send] at hresult
    obtain ⟨_, -, habs⟩ := exists_of_map_eq_ok hresult
    cases habs
  | insert addr netAddr hinsert =>
    rw [perform_insert] at hresult
    obtain ⟨_, -, habs⟩ := exists_of_map_eq_ok hresult
    cases habs
  | showRouter =>
    rw [perform_showRouter] at hresult
    split_ifs at hresult with hmalloc
    · rcases htext : shownText a sns.router with e | text
      · rw [htext] at hresult
        cases hresult
      · rw [htext] at hresult
        cases hresult
    · obtain rfl := Control.ret.inj (Except.ok.inj hresult)
      exact ⟨rfl, hmalloc⟩

theorem of_promptLoop_ret {code : ℤ}
    (h : (promptLoop (commandStep S q) ans k sns lines).result = .ok (.ret code)) :
    code = 1 ∧ ∃ j, ¬ (ans j).malloc := by
  induction lines generalizing k sns with
  | nil => cases h
  | cons line lines ih =>
    rcases promptLoop_cons_result h with ⟨sns₁, -, hrest⟩ | hlast
    · exact ih hrest
    · obtain ⟨rfl, hmalloc⟩ := (isRound_commandStep S q (ans k) sns line).of_ret hlast
      exact ⟨rfl, k, hmalloc⟩

/-- The loop frees the buffers that it allocates, unless the program fails. -/
theorem held_promptLoop (lines : List (List UInt8)) (k : ℕ) (sns : SnNode) :
    ∃ t, held ∅ (bufferUses (promptLoop (commandStep S q) ans k sns lines).events) = some t ∧
      ∀ control, (promptLoop (commandStep S q) ans k sns lines).result = .ok control → t = ∅ := by
  induction lines generalizing k sns with
  | nil => exact ⟨∅, rfl, fun _ _ => rfl⟩
  | cons line lines ih =>
    obtain ⟨t, ht, hempty⟩ := (isRound_commandStep S q (ans k) sns line).held_bufferUses
    rw [promptLoop, Traced.emit_bind]
    rcases hstep : commandStep S q (ans k) sns line with ⟨ws, e | control⟩
    · rw [hstep] at ht
      exact ⟨t, ht, fun _ h => by cases h⟩
    · rw [hstep] at ht hempty
      obtain rfl := hempty control rfl
      have hlast : held ∅ (bufferUses (ws ++ [])) = some ∅ := by
        rw [List.append_nil]
        exact ht
      cases control with
      | next sns₁ =>
        obtain ⟨t', ht', hempty'⟩ := ih (k + 1) sns₁
        refine ⟨t', ?_, hempty'⟩
        change held ∅ (bufferUses (ws ++ _)) = _
        rw [bufferUses_append]
        exact held_append_of ht ht'
      | quit sns₁ => exact ⟨∅, hlast, fun _ _ => rfl⟩
      | ret code => exact ⟨∅, hlast, fun _ _ => rfl⟩

/-! ### The program -/

/-- After the loop everything is given back, unless `main` returns from inside, or the socket is
given back twice. -/
theorem held_afterLoop (interrupts : List Bool) (control : Control) : ∃ code,
    (afterLoop interrupts control).result = .ok code ∧
    bufferUses (afterLoop interrupts control).events = [] ∧
    (held NodeResource.all (nodeUses (afterLoop interrupts control).events) =
        (if KeepsSocket interrupts then some ∅ else none) ∨
      held NodeResource.all (nodeUses (afterLoop interrupts control).events) =
        some NodeResource.all ∧ control = .ret code) := by
  have hdestroy : ∀ sns, held NodeResource.all (nodeUses
      ((snNodeDestroy interrupts sns).events.map .node)) =
        if KeepsSocket interrupts then some ∅ else none := fun sns => by
    rw [nodeUses_map]
    exact (held_snNodeDestroy interrupts sns).2
  cases control with
  | next sns | quit sns =>
    rw [afterLoop, Traced.bind_pure, Traced.mapEvents_events, Traced.mapEvents_result,
      (held_snNodeDestroy interrupts sns).1]
    exact ⟨0, rfl, bufferUses_map _, Or.inl (hdestroy sns)⟩
  | ret code => exact ⟨code, rfl, rfl, Or.inr ⟨rfl, rfl⟩⟩

/-- A program that returns has given back the resources of the node, or returns 1 with all of them,
since a buffer could not be allocated. -/
def LeavesAtMost (ans : MainAnswers) (left : Finset NodeResource) (code : ℤ) : Prop :=
  left = ∅ ∨ left = NodeResource.all ∧ code = 1 ∧ ∃ k, ¬ (ans.line k).malloc

/-- How a program `x` ends that begins with the resources `s` of a node, on a system that keeps the
sockets whose closing it interrupts when `keeps` holds. -/
structure Ends (ans : MainAnswers) (s : Finset NodeResource) (x : ConsoleM ℤ)
    (keeps : Prop) : Prop where
  buffers : ∃ t, held ∅ (bufferUses x.events) = some t ∧ ∀ code, x.result = .ok code → t = ∅
  kept : keeps → ∃ left, held s (nodeUses x.events) = some left
  left : ∀ left, held s (nodeUses x.events) = some left → ∀ code, x.result = .ok code →
    LeavesAtMost ans left code
  twice : x.result = .ok 0 → ¬ KeepsSocket ans.interrupts → held s (nodeUses x.events) = none

/-- The program with a node ends so. -/
theorem ends_runNode (ans : MainAnswers) (sns : SnNode) (stdin : List UInt8) :
    Ends ans NodeResource.all (runNode S q ans sns stdin) (KeepsSocket ans.interrupts) := by
  have hnode : nodeUses (commandLoop S q ans.line sns stdin).events = [] := nodeUses_promptLoop
  obtain ⟨t, ht, hempty⟩ := @held_promptLoop S q ans.line (fgetsAll 1023 stdin) 0 sns
  rw [← commandLoop] at ht hempty
  simp only [runNode, snNetAddrToStr_eq, Traced.lift_ok_bind, Traced.emit_bind]
  rcases hloop : commandLoop S q ans.line sns stdin with ⟨ws, e | control⟩
  · rw [hloop] at hnode ht
    have hall := (congrArg (held NodeResource.all) hnode).trans (held_nil _)
    refine ⟨⟨t, ht, ?_⟩, fun _ => ⟨_, hall⟩, ?_, ?_⟩
    · rintro code ⟨⟩
    · rintro left - code ⟨⟩
    · rintro ⟨⟩
  obtain ⟨code, hcode, hbuffer, hcases⟩ := held_afterLoop ans.interrupts control
  rw [hloop] at hnode ht hempty
  obtain rfl := hempty control rfl
  -- The loop does nothing with the resources of the node.
  have hafter : ∀ x, nodeUses (ws ++ x) = nodeUses x := fun x => by
    rw [nodeUses_append, hnode, List.nil_append]
  refine ⟨⟨∅, ?_, fun _ _ => rfl⟩, fun hkeeps => ?_, fun left hleft code' hcode' => ?_,
    fun hzero hnot => ?_⟩
  · change held _ (bufferUses (ws ++ _)) = _
    rw [bufferUses_append, hbuffer, List.append_nil]
    exact ht
  · change ∃ left, held _ (nodeUses (ws ++ _)) = _
    rw [hafter]
    rcases hcases with hend | ⟨hend, -⟩
    · rw [if_pos hkeeps] at hend
      exact ⟨_, hend⟩
    · exact ⟨_, hend⟩
  · change held _ (nodeUses (ws ++ _)) = _ at hleft
    rw [hafter] at hleft
    obtain rfl := Except.ok.inj (hcode.symm.trans hcode')
    rcases hcases with hend | ⟨hend, rfl⟩
    · by_cases hkeeps : KeepsSocket ans.interrupts
      · rw [if_pos hkeeps] at hend
        exact Or.inl (Option.some.inj (hleft.symm.trans hend))
      · rw [if_neg hkeeps] at hend
        cases hleft.symm.trans hend
    · exact Or.inr ⟨Option.some.inj (hleft.symm.trans hend),
        of_promptLoop_ret (congrArg Traced.result hloop)⟩
  · change held _ (nodeUses (ws ++ _)) = _
    rw [hafter]
    rcases hcases with hend | ⟨-, rfl⟩
    · rw [if_neg hnot] at hend
      exact hend
    · obtain rfl := Except.ok.inj (hcode.symm.trans hzero)
      cases (of_promptLoop_ret (congrArg Traced.result hloop)).1

/-- A program that has started no node ends so, when it has given back what it has acquired or given
back its socket twice. -/
theorem ends_of_no_node {ans : MainAnswers} {x : ConsoleM ℤ} {keeps : Prop} {code : ℤ}
    (hbuffer : bufferUses x.events = [])
    (hnode : held ∅ (nodeUses x.events) = some ∅ ∨
      ¬ keeps ∧ held ∅ (nodeUses x.events) = none) (hcode : x.result = .ok code)
    (hne : code ≠ 0) : Ends ans ∅ x keeps := by
  refine ⟨⟨∅, by rw [hbuffer, held_nil], fun _ _ => rfl⟩, fun hkeeps => ?_,
    fun left hleft _ _ => ?_, fun hzero => absurd (Except.ok.inj (hcode.symm.trans hzero)) hne⟩
  · rcases hnode with hend | ⟨hnot, -⟩
    · exact ⟨_, hend⟩
    · exact absurd hkeeps hnot
  · rcases hnode with hend | ⟨-, hend⟩
    · exact Or.inl (Option.some.inj (hleft.symm.trans hend))
    · cases hleft.symm.trans hend

/-- **What the program has not given back.** Whatever the input is and the system answers, the
buffers of the command `show` are not freed twice, and those of a `main` that returns are freed. On
a system that keeps the sockets whose closing it interrupts, nothing else is given back twice, and
when `main` returns everything has been given back, except in one case: the buffer of a command
`show` cannot be allocated, and `main` returns 1 with the whole node alive. A `main` that returns 0
has given back its socket twice when the system has released it before an interruption at the
end. -/
theorem held_prototypeMain (S : SignScheme) (q : Sorter SnNetEntry) (ans : MainAnswers)
    (argv : List (List UInt8)) (stdin : List UInt8) :
    (∃ buffers, held ∅ (bufferUses (prototypeMain S q ans argv stdin).events) = some buffers ∧
      ∀ code, (prototypeMain S q ans argv stdin).result = .ok code → buffers = ∅) ∧
    (KeepsSocket ans.port.interrupts → KeepsSocket ans.interrupts →
      ∃ left, held ∅ (nodeUses (prototypeMain S q ans argv stdin).events) = some left) ∧
    (∀ left, held ∅ (nodeUses (prototypeMain S q ans argv stdin).events) = some left →
      ∀ code, (prototypeMain S q ans argv stdin).result = .ok code →
        left = ∅ ∨ left = NodeResource.all ∧ code = 1 ∧ ∃ k, ¬ (ans.line k).malloc) ∧
    ((prototypeMain S q ans argv stdin).result = .ok 0 → ¬ KeepsSocket ans.interrupts →
      held ∅ (nodeUses (prototypeMain S q ans argv stdin).events) = none) := by
  suffices hends : Ends ans ∅ (prototypeMain S q ans argv stdin)
      (KeepsSocket ans.port.interrupts ∧ KeepsSocket ans.interrupts) from
    ⟨hends.buffers, fun hport hend => hends.kept ⟨hport, hend⟩, hends.left, hends.twice⟩
  rw [prototypeMain]
  rcases argv[1]? with _ | arg
  · exact ends_of_no_node rfl (Or.inl rfl) rfl (by decide)
  simp only
  rcases scanHu arg with _ | port
  · exact ends_of_no_node rfl (Or.inl rfl) rfl (by decide)
  simp only
  by_cases hinit : ans.init = -1
  · rw [if_pos hinit]
    exact ends_of_no_node rfl (Or.inl rfl) rfl (by decide)
  rw [if_neg hinit]
  rcases hstart : snNodeAtPort S ans.port (some ans.sk) (some ans.pk) port true with ⟨ws, r⟩
  have hcases := @snNodeAtPort_cases S ans.port (some ans.sk) (some ans.pk) port true rfl
  rw [hstart] at hcases
  rcases hcases with ⟨sns, socket, rfl, -, hheld⟩ | ⟨rfl, hheld⟩
  · obtain ⟨hbuffers, hkept, hleft, htwice⟩ := @ends_runNode S q ans sns stdin
    have hafter : held ∅ (nodeUses (ws.map .node ++ (runNode S q ans sns stdin).events)) =
        held NodeResource.all (nodeUses (runNode S q ans sns stdin).events) := by
      rw [nodeUses_append, nodeUses_map, held_append, hheld, Option.bind_some]
    rw [Traced.mapEvents_mk, Traced.mk_ok_bind]
    refine ⟨?_, fun hkeeps => ?_, ?_, ?_⟩
    · rw [bufferUses_append, bufferUses_map]
      exact hbuffers
    · rw [hafter]
      exact hkept hkeeps.2
    · rw [hafter]
      exact hleft
    · rw [hafter]
      exact htwice
  · rw [Traced.mapEvents_mk, Traced.mk_ok_bind]
    refine ends_of_no_node ?_ ?_ rfl (by decide)
    · rw [bufferUses_append, bufferUses_map]
      rfl
    · rw [nodeUses_append, nodeUses_map]
      change held ∅ (useEvents ws ++ []) = _ ∨ _ ∧ held ∅ (useEvents ws ++ []) = _
      rw [List.append_nil]
      rcases hheld with hheld | hheld
      · exact Or.inl hheld
      · by_cases hkeeps : KeepsSocket ans.port.interrupts
        · rw [if_pos hkeeps] at hheld
          exact Or.inl hheld
        · rw [if_neg hkeeps] at hheld
          exact Or.inr ⟨fun h => hkeeps h.1, hheld⟩

/-- A system that lets the program run, with these interruptions at the end. -/
def MainAnswers.ideal (interrupts : List Bool) : MainAnswers where
  init := 0
  pk := ⟨.padded _ [1] 0⟩
  sk := ⟨.padded _ [1] 0⟩
  port := .ideal
  line _ := .ideal
  interrupts := interrupts

/-- The program is told to quit. It gives back everything, or its socket twice when the system has
released it before the interruption. -/
theorem held_prototypeMain_quit :
    held ∅ (nodeUses (prototypeMain .plain (.insertion SnNetEntry) (.ideal [false])
      [ascii "prototype", ascii "1111"] (ascii "quit\n")).events) = some ∅ ∧
    held ∅ (nodeUses (prototypeMain .plain (.insertion SnNetEntry) (.ideal [true])
      [ascii "prototype", ascii "1111"] (ascii "quit\n")).events) = none := by
  constructor
  · obtain ⟨-, hkept, hleft, -⟩ := held_prototypeMain .plain (.insertion SnNetEntry)
      (.ideal [false]) [ascii "prototype", ascii "1111"] (ascii "quit\n")
    obtain ⟨left, hleft'⟩ := hkept (by decide) (by decide)
    rcases hleft left hleft' 0 rfl with rfl | ⟨-, hcode, -⟩
    · exact hleft'
    · cases hcode
  · obtain ⟨-, -, -, htwice⟩ := held_prototypeMain .plain (.insertion SnNetEntry)
      (.ideal [true]) [ascii "prototype", ascii "1111"] (ascii "quit\n")
    exact htwice rfl (by decide)

end SndNet
