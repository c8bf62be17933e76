import SndNet.Prototype

/-!
# Sessions

A session is the loop of the prototype over the lines of its input, which may be any bytes
(`prototype/main.c`, lines 45–115).

## Main definitions

* `SndNet.Inserted`: the node after some insertions.

## Main results

* `SndNet.inserted_of_promptLoop`: what a session does to the node.
* `SndNet.exists_round_of_mem`: what happens in a session happens in one of its rounds, with the
  node that the rounds before have left.
-/

namespace SndNet

open Ctype FallibleRun

variable {S : SignScheme} {q : Sorter SnNetEntry} {ans : ℕ → LineAnswers} {k n m : ℕ}
  {sns sns₁ sns' : SnNode} {line : List UInt8} {lines : List (List UInt8)}

/-! ### Insertions -/

/-- The node after at most `n` insertions, which change nothing but its router. -/
def Inserted (q : Sorter SnNetEntry) (sns : SnNode) (n : ℕ) (sns' : SnNode) : Prop :=
  ∃ order : List (SnNetAddr × Option SnIoNaddr), order.length ≤ n ∧ ∃ router,
    run (routerStep q) sns.router (order.map fun p => .add p.1 p.2) = .ok router ∧
    sns' = { sns with router := router }

theorem Inserted.refl (q : Sorter SnNetEntry) (sns : SnNode) : Inserted q sns 0 sns :=
  ⟨[], le_rfl, sns.router, rfl, rfl⟩

theorem Inserted.of_add {addr : SnNetAddr} {netAddr : Option SnIoNaddr} {router : SnNetRouter}
    (h : snNetRouterAdd q sns.router addr netAddr = .ok router) :
    Inserted q sns 1 { sns with router := router } :=
  ⟨[(addr, netAddr)], le_rfl, router, bind_eq_ok.2 ⟨router, h, rfl⟩, rfl⟩

theorem Inserted.trans (h : Inserted q sns n sns₁) (h' : Inserted q sns₁ m sns') :
    Inserted q sns (n + m) sns' := by
  obtain ⟨order, hlen, router, hrun, rfl⟩ := h
  obtain ⟨order', hlen', router', hrun', rfl⟩ := h'
  refine ⟨order ++ order', ?_, router', ?_, rfl⟩
  · rw [List.length_append]
    omega
  · rw [List.map_append, run_append_eq_ok]
    exact ⟨router, hrun, hrun'⟩

theorem Inserted.mono (h : Inserted q sns n sns') (hle : n ≤ m) : Inserted q sns m sns' := by
  obtain ⟨order, hlen, hrun⟩ := h
  exact ⟨order, hlen.trans hle, hrun⟩

/-- The node with which the program goes on. -/
def Control.node? : Control → Option SnNode
  | .next sns | .quit sns => some sns
  | .ret _ => none

/-! ### One line -/

/-- The node with which the loop goes on. -/
def Control.next? : Control → Option SnNode
  | .next sns => some sns
  | .quit _ | .ret _ => none

theorem Control.next?_eq_some_iff {control : Control} :
    control.next? = some sns ↔ control = .next sns := by
  cases control with
  | next sns' => rw [next?, Option.some.injEq, Control.next.injEq]
  | quit sns' => exact iff_of_false (fun h => nomatch h) (fun h => nomatch h)
  | ret code => exact iff_of_false (fun h => nomatch h) (fun h => nomatch h)

theorem exists_of_map_eq_ok {α β : Type} {y : Exec α} {f : α → β} {b : β}
    (h : y.map f = .ok b) : ∃ a, y = .ok a ∧ b = f a := by
  rcases y with e | a
  · cases h
  · exact ⟨a, rfl, (Except.ok.inj h).symm⟩

/-- A line inserts a node, or leaves the node as it is. -/
theorem IsRound.inserted {a : LineAnswers} {x : ConsoleM Control} {control : Control}
    (h : IsRound S q a sns line x) (hresult : x.result = .ok control)
    (hnode : control.node? = some sns') :
    Inserted q sns (if isInsert line then 1 else 0) sns' := by
  have hself : control.node? = some sns → Inserted q sns (if isInsert line then 1 else 0) sns' := by
    intro hself
    obtain rfl := Option.some.inj (hself.symm.trans hnode)
    exact (Inserted.refl q sns).mono (Nat.zero_le _)
  cases h with
  | quit | usage | nothing =>
    obtain rfl := Except.ok.inj hresult
    exact hself rfl
  | stop => cases hresult
  | send dst hpayload =>
    rw [perform_send] at hresult
    obtain ⟨-, -, rfl⟩ := exists_of_map_eq_ok hresult
    exact hself rfl
  | insert addr netAddr hinsert =>
    rw [perform_insert] at hresult
    obtain ⟨router, hadd, rfl⟩ := exists_of_map_eq_ok hresult
    obtain rfl := Option.some.inj hnode
    rw [if_pos hinsert]
    exact .of_add hadd
  | showRouter =>
    rw [perform_showRouter] at hresult
    split_ifs at hresult
    · rcases htext : shownText a sns.router with e | text
      · rw [htext] at hresult
        cases hresult
      · rw [htext] at hresult
        obtain rfl := Except.ok.inj hresult
        exact hself rfl
    · obtain rfl := Except.ok.inj hresult
      cases hnode

/-- The node acts only when it sends a message, which is a piece of the line. -/
theorem IsRound.exists_send {a : LineAnswers} {x : ConsoleM Control} {w : UseEvent NodeResource}
    (h : IsRound S q a sns line x) (hw : .node w ∈ x.events) : ∃ dst payload w', w = .node w' ∧
      payload <:+: line ∧ w' ∈ (snNodeSend S a.env sns dst payload).events := by
  cases h with
  | quit | nothing | stop => cases hw
  | usage => simp at hw
  | @send dst payload hpayload =>
    rw [perform_send] at hw
    obtain ⟨w', hw', heq⟩ := List.mem_map.1 hw
    exact ⟨dst, payload, w', (ConsoleEvent.node.inj heq).symm, hpayload, hw'⟩
  | insert addr netAddr hinsert =>
    rw [perform_insert] at hw
    cases hw
  | showRouter =>
    rw [perform_showRouter] at hw
    split_ifs at hw
    · rcases htext : shownText a sns.router with e | text
      · simp [htext] at hw
      · simp [htext] at hw
    · cases hw

/-! ### All lines -/

section Loop

variable {ι : Type} {step : LineAnswers → SnNode → ι → ConsoleM Control} {i : ι} {is : List ι}

/-- How a loop that begins with a round ends. -/
theorem promptLoop_cons_result {control : Control}
    (h : (promptLoop step ans k sns (i :: is)).result = .ok control) :
    (∃ sns₁, (step (ans k) sns i).result = .ok (.next sns₁) ∧
      (promptLoop step ans (k + 1) sns₁ is).result = .ok control) ∨
    (step (ans k) sns i).result = .ok control := by
  rw [promptLoop, Traced.emit_bind] at h
  rcases hstep : step (ans k) sns i with ⟨ws, e | control'⟩
  · rw [hstep] at h
    cases h
  · rw [hstep] at h
    cases control' with
    | next sns₁ => exact Or.inl ⟨sns₁, rfl, h⟩
    | quit sns₁ => exact Or.inr h
    | ret code => exact Or.inr h

/-- A loop goes on to its end when every round goes on. -/
theorem promptLoop_cons_next
    (h : (promptLoop step ans k sns (i :: is)).result = .ok (.next sns')) :
    ∃ sns₁, (step (ans k) sns i).result = .ok (.next sns₁) ∧
      (promptLoop step ans (k + 1) sns₁ is).result = .ok (.next sns') := by
  rcases promptLoop_cons_result h with hnext | hlast
  · exact hnext
  · rw [promptLoop, Traced.emit_bind] at h
    rcases hstep : step (ans k) sns i with ⟨ws, r⟩
    rw [hstep] at h hlast
    obtain rfl : r = .ok (.next sns') := hlast
    exact ⟨sns', rfl, h⟩

/-- What happens in a loop that begins with a round. -/
theorem mem_promptLoop_cons {w : ConsoleEvent} :
    w ∈ (promptLoop step ans k sns (i :: is)).events ↔ w = .out (ascii "> ") ∨
      w ∈ (step (ans k) sns i).events ∨ ∃ sns₁, (step (ans k) sns i).result = .ok (.next sns₁) ∧
        w ∈ (promptLoop step ans (k + 1) sns₁ is).events := by
  rw [promptLoop, Traced.emit_bind, List.mem_cons, Traced.mem_events_bind]
  refine or_congr_right (or_congr_right ⟨?_, ?_⟩)
  · rintro ⟨control, hcontrol, hw⟩
    cases control with
    | next sns₁ => exact ⟨sns₁, hcontrol, hw⟩
    | quit sns₁ => cases hw
    | ret code => cases hw
  · rintro ⟨sns₁, hnext, hw⟩
    exact ⟨.next sns₁, hnext, hw⟩

/-- A loop that begins with a round that goes on. -/
theorem promptLoop_cons_of_next (h : (step (ans k) sns i).result = .ok (.next sns₁)) :
    (promptLoop step ans k sns (i :: is)).result =
      (promptLoop step ans (k + 1) sns₁ is).result := by
  rw [promptLoop, Traced.emit_bind]
  rcases hstep : step (ans k) sns i with ⟨ws, r⟩
  rw [hstep] at h
  obtain rfl : r = .ok (.next sns₁) := h
  rfl

/-- **What happens in a loop** is a prompt or happens in a round, with the node that the rounds
before have left. -/
theorem exists_round_of_mem {w : ConsoleEvent} (h : w ∈ (promptLoop step ans k sns is).events) :
    w = .out (ascii "> ") ∨ ∃ done i rest sns₁, is = done ++ i :: rest ∧
      (promptLoop step ans k sns done).result = .ok (.next sns₁) ∧
        w ∈ (step (ans (k + done.length)) sns₁ i).events := by
  induction is generalizing k sns with
  | nil => exact Or.inl (List.mem_singleton.1 h)
  | cons i is ih =>
    rcases mem_promptLoop_cons.1 h with hprompt | hw | ⟨sns₁, hnext, hw⟩
    · exact Or.inl hprompt
    · exact Or.inr ⟨[], i, is, sns, rfl, rfl, hw⟩
    · refine (ih hw).imp_right ?_
      rintro ⟨done, i', rest, sns₂, rfl, hdone, hw⟩
      refine ⟨i :: done, i', rest, sns₂, rfl, (promptLoop_cons_of_next hnext).trans hdone, ?_⟩
      rwa [List.length_cons, Nat.add_comm done.length, ← Nat.add_assoc]

end Loop

/-- **What a session does to the node.** -/
theorem inserted_of_promptLoop {control : Control}
    (h : (promptLoop (commandStep S q) ans k sns lines).result = .ok control)
    (hnode : control.node? = some sns') : Inserted q sns (lines.countP isInsert) sns' := by
  induction lines generalizing k sns with
  | nil =>
    obtain rfl := Except.ok.inj h
    obtain rfl := Option.some.inj hnode
    exact .refl q sns
  | cons line lines ih =>
    have hround := isRound_commandStep S q (ans k) sns line
    rw [List.countP_cons, Nat.add_comm]
    rcases promptLoop_cons_result h with ⟨sns₁, hnext, hrest⟩ | hlast
    · exact (hround.inserted hnext rfl).trans (ih hrest)
    · exact (hround.inserted hlast hnode).mono (Nat.le_add_right _ _)

end SndNet
