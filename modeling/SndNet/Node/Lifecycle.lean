import SndNet.Io.NaddrText.RoundTrip
import SndNet.Node.Memory
import SndNet.Node.Start

/-!
# The life of a node

A node owns a socket, the block of its vector of reply listeners, a mutex and a thread. It gets
them one after the other when it starts (`src/node.c`, lines 45–128), gives back those it has when a
later step fails, and gives back all of them when it is destroyed (`src/node.c`, lines 130–144).
This file translates the start and the end of a node with the resources among the events, and shows
that, however the lives of any number of nodes overlap, nothing is given back twice and the nodes
that live are the only owners, as long as the system keeps the sockets whose closing it interrupts.

## Main definitions

* `SndNet.NodeResource`: what a node owns.
* `SndNet.snIoSockNamed`, `SndNet.snIoSockClose`: opening and closing a socket.
* `SndNet.snNodeAtSocketUse`, `SndNet.snNodeAtPort`, `SndNet.snNodeDestroy`: the life of a node.
* `SndNet.KeepsSocket`: an interrupted call of `close` has not released the socket.
* `SndNet.Lives`: the nodes that live after some calls, and what has been done with resources.

## Main results

* `SndNet.forget_snNodeAtSocketUse`: without the resources the start is that of the model.
* `SndNet.held_snNodeAtPort`: a start that fails leaves nothing.
* `SndNet.lives_held`: the nodes that live own everything that is held.
-/

namespace SndNet

open Resources FallibleRun Ctype DottedQuad

variable (S : SignScheme)

/-! ### The functions of the source -/

/-- What a node owns. -/
inductive NodeResource where
  /-- Listening socket. -/
  | socket
  /-- The block of the vector of reply listeners. -/
  | replyVec
  | replyMut
  /-- Background thread. -/
  | bgThrd
  deriving DecidableEq

/-- Everything that a node owns. -/
def NodeResource.all : Finset NodeResource := {.socket, .replyVec, .replyMut, .bgThrd}

@[simp] theorem NodeResource.mem_all (r : NodeResource) : r ∈ all := by cases r <;> decide

/-- A function that acquires and releases what a node owns. -/
abbrev LifeM := Traced (UseEvent NodeResource) Fault

/-- What the system answers while a node starts at a port. -/
structure PortAnswers extends StartAnswers where
  /-- The new socket for a family of addresses, or -1. -/
  socket : UInt16 → ℤ
  /-- Whether the socket can be bound to a name. -/
  bind : SnIoNaddr → Bool
  /-- The calls of `close` that are interrupted before the one that ends the loop. The system may
  have released the socket all the same (`true`) or not. -/
  interrupts : List Bool

/-- The loop of `sn_io_sock_close`. A call that is interrupted is repeated, whether the socket has
been released or not. The call that ends the loop counts as a release, whatever it returns. -/
def closeLoop : List Bool → LifeM Unit
  | [] => .emit (.use (.release .socket))
  | released :: interrupts => do
    if released then .emit (.use (.release .socket))
    closeLoop interrupts

/-- An interrupted call of `close` has not released the socket. -/
abbrev KeepsSocket (interrupts : List Bool) : Prop := true ∉ interrupts

/-- `sn_io_sock_close` (`src/io/sock.c`, lines 28–36). -/
def snIoSockClose (interrupts : List Bool) (socket : ℤ) : LifeM Unit := do
  .lift (cAssert (socket ≠ snIoSockInvalid))
  closeLoop interrupts

/-- `sn_io_sock_named` (`src/io/sock.c`, lines 10–26). -/
def snIoSockNamed (ans : PortAnswers) (name : SnIoNaddr) : LifeM ℤ := do
  let fd := ans.socket name.saFamily
  if fd = -1 then return snIoSockInvalid
  else
    .emit (.use (.acquire .socket))
    if ans.bind name then return fd
    else
      snIoSockClose ans.interrupts fd
      return snIoSockInvalid

/-- `sn_node_at_socket` (`src/node.c`, lines 45–104), with what the node acquires and releases. -/
def snNodeAtSocketUse (ans : StartAnswers) (sk : Option SnCryptoSignKey)
    (pk : Option SnCryptoSignPubkey) (socket : ℤ) (checkSign : Bool) : LifeM (Option SnNode) := do
  .lift (cAssert (sk.isSome ∨ pk.isSome))
  if hsocket : socket ≠ snIoSockInvalid then
    let self? : Option SnNetAddr :=
      match pk, sk with
      | some pk, _ => some ⟨pk.pk⟩
      | none, some sk => some ⟨(snCryptoSignPkFromSk S sk).pk⟩
      | none, none => none
    match self?, ans.sockGetName with
    | some self, some selfNet =>
      if ans.vecInit then
        .emit (.use (.acquire .replyVec))
        .emit (.use (.acquire .replyMut))
        let sns : SnNode :=
          { self := self
            sk := sk.getD ans.junk
            router := snNetRouterInit self (some selfNet)
            socket := socket
            sign := sk.isSome
            checkSign := checkSign
            upcall := none
            logClosure := defaultLogClosure
            socket_ne := hsocket
            log_ok := defaultLogClosure_ok }
        if ans.pthreadCreate then
          .emit (.use (.acquire .bgThrd))
          return some sns
        else
          (snNodeLog sns .errorWhileStartingThread).mapEvents .node
          .emit (.use (.release .replyMut))
          .emit (.use (.release .replyVec))
          return none
      else return none
    | _, _ => return none
  else .lift (.error .assertionFailed)

/-- `sn_node_at_port` (`src/node.c`, lines 106–128): the node, unless -1 is returned. -/
def snNodeAtPort (ans : PortAnswers) (sk : Option SnCryptoSignKey)
    (pk : Option SnCryptoSignPubkey) (port : UInt16) (checkSign : Bool) :
    LifeM (Option SnNode) := do
  .lift (cAssert sk.isSome)
  let netSelf ← .lift (snIoNaddrIpv4 .zero (ascii "0.0.0.0" ++ [0]) 0 port).result
  if netSelf.1 = -1 then return none
  else
    let socket ← snIoSockNamed ans netSelf.2
    if socket = snIoSockInvalid then return none
    else
      match ← snNodeAtSocketUse S ans.toStartAnswers sk pk socket checkSign with
      | some sns => return some sns
      | none =>
        snIoSockClose ans.interrupts socket
        return none

/-- `sn_node_destroy` (`src/node.c`, lines 130–144). -/
def snNodeDestroy (interrupts : List Bool) (sns : SnNode) : LifeM Unit := do
  .emit (.use (.release .bgThrd))
  .emit (.use (.release .replyMut))
  .emit (.use (.release .replyVec))
  snIoSockClose interrupts sns.socket

/-! ### What the functions do -/

variable {S} {ans : PortAnswers} {sk : Option SnCryptoSignKey} {pk : Option SnCryptoSignPubkey}
  {port : UInt16} {socket : ℤ} {checkSign : Bool}

/-- The socket is released once, and once more for each interrupted call that has released it. -/
theorem closeLoop_eq (interrupts : List Bool) : closeLoop interrupts =
    ⟨List.replicate (interrupts.count true + 1) (.use (.release .socket)), .ok ()⟩ := by
  induction interrupts with
  | nil => rfl
  | cons released interrupts ih =>
    rw [closeLoop, ih]
    cases released with
    | false => rfl
    | true => rw [List.count_cons_self]; rfl

theorem snIoSockClose_eq (interrupts : List Bool) (hsocket : socket ≠ snIoSockInvalid) :
    snIoSockClose interrupts socket =
      ⟨List.replicate (interrupts.count true + 1) (.use (.release .socket)), .ok ()⟩ := by
  rw [snIoSockClose, cAssert_of hsocket, Traced.lift_ok_bind, closeLoop_eq]

/-- A system that keeps the sockets whose closing it interrupts has the socket released once. -/
theorem held_close {s : Finset NodeResource} (h : .socket ∈ s) (interrupts : List Bool) :
    held s (useEvents (List.replicate (interrupts.count true + 1)
      (.use (.release .socket) : UseEvent NodeResource))) =
        if KeepsSocket interrupts then some (s.erase .socket) else none := by
  have hevents : ∀ n, useEvents (List.replicate n (.use (.release .socket) :
      UseEvent NodeResource)) = List.replicate n (.release .socket) := fun n => by
    rw [useEvents, List.filterMap_replicate_of_some (f := UseEvent.use?) rfl]
  rw [hevents]
  by_cases hkeeps : KeepsSocket interrupts
  · rw [if_pos hkeeps, List.count_eq_zero.2 hkeeps]
    exact held_release h
  · obtain ⟨n, hn⟩ := Nat.exists_eq_add_one_of_ne_zero (mt List.count_eq_zero.1 hkeeps)
    rw [if_neg hkeeps, hn]
    exact held_replicate_release s _ n

theorem snIoSockNamed_eq (name : SnIoNaddr) : snIoSockNamed ans name =
    if ans.socket name.saFamily = snIoSockInvalid then ⟨[], .ok snIoSockInvalid⟩
    else if ans.bind name then ⟨[.use (.acquire .socket)], .ok (ans.socket name.saFamily)⟩
    else ⟨.use (.acquire .socket) ::
      List.replicate (ans.interrupts.count true + 1) (.use (.release .socket)),
        .ok snIoSockInvalid⟩ := by
  rw [snIoSockNamed]
  split_ifs with hfd hbind
  · rfl
  · rfl
  · rw [snIoSockClose_eq _ hfd, Traced.emit_bind, Traced.mk_ok_bind]
    simp only [Traced.pure_eq, List.append_nil]

/-- The address of the listening socket is always read. -/
theorem exists_listenName (port : UInt16) : ∃ name,
    (snIoNaddrIpv4 .zero (ascii "0.0.0.0" ++ [0]) 0 port).result = .ok (0, name) := by
  have hpton : inetPton (ascii "0.0.0.0") = some [0, 0, 0, 0] := by decide
  have hread := (snIoNaddrIpv4_eq .zero (t := ascii "0.0.0.0") (by decide) [] [] port).1
  rw [hpton] at hread
  exact ⟨_, hread⟩

/-- What a start acquires and releases. -/
theorem snNodeAtSocketUse_eq {ans : StartAnswers} (hkeys : sk.isSome ∨ pk.isSome)
    (hsocket : socket ≠ snIoSockInvalid) :
    ∃ sns, Started S sk pk socket checkSign sns ∧
      snNodeAtSocketUse S ans sk pk socket checkSign =
        if ans.sockGetName.isSome ∧ ans.vecInit then
          if ans.pthreadCreate then
            ⟨[.use (.acquire .replyVec), .use (.acquire .replyMut), .use (.acquire .bgThrd)],
              .ok (some sns)⟩
          else
            ⟨[.use (.acquire .replyVec), .use (.acquire .replyMut),
              .node (.log .errorWhileStartingThread), .use (.release .replyMut),
              .use (.release .replyVec)], .ok none⟩
        else ⟨[], .ok none⟩ := by
  obtain ⟨self, hself⟩ := exists_takenAddress (S := S) hkeys
  let node (selfNet : Option SnIoNaddr) : SnNode :=
    { self := self
      sk := sk.getD ans.junk
      router := snNetRouterInit self selfNet
      socket := socket
      sign := sk.isSome
      checkSign := checkSign
      upcall := none
      logClosure := defaultLogClosure
      socket_ne := hsocket
      log_ok := defaultLogClosure_ok }
  refine ⟨node ans.sockGetName, ⟨hself, ?_, rfl, rfl, rfl, rfl, _, rfl⟩, ?_⟩
  · rintro key rfl
    rfl
  · unfold snNodeAtSocketUse
    rw [cAssert_of hkeys, Traced.lift_ok_bind, dif_pos hsocket]
    cases pk <;> cases sk <;> cases hself
    all_goals
      cases ans.sockGetName with
      | none => rfl
      | some selfNet =>
        cases ans.vecInit with
        | false => rfl
        | true => cases ans.pthreadCreate <;> rfl

/-- **Without the resources** the start is that of the model. -/
theorem forget_snNodeAtSocketUse (ans : StartAnswers) :
    forget (snNodeAtSocketUse S ans sk pk socket checkSign) =
      snNodeAtSocket S ans sk pk socket checkSign := by
  unfold snNodeAtSocketUse snNodeAtSocket
  by_cases hkeys : sk.isSome ∨ pk.isSome
  · rw [cAssert_of hkeys, Traced.lift_ok_bind, Traced.lift_ok_bind]
    by_cases hsocket : socket = snIoSockInvalid
    · rw [dif_neg (not_not.2 hsocket), dif_neg (not_not.2 hsocket)]
      rfl
    · rw [dif_pos hsocket, dif_pos hsocket]
      cases pk <;> cases sk <;> first | exact absurd hkeys (by decide) | skip
      all_goals
        cases ans.sockGetName with
        | none => rfl
        | some selfNet =>
          cases ans.vecInit with
          | false => rfl
          | true => cases ans.pthreadCreate <;> rfl
  · rw [cAssert_of_not hkeys]
    rfl

/-! ### What is held -/

/-- What a start leaves that closes its socket again: nothing, unless the closing is interrupted
when the system has released the socket. -/
theorem held_append_close {es : List (UseEvent NodeResource)}
    (h : held ∅ (useEvents es) = some {.socket}) (interrupts : List Bool) :
    held ∅ (useEvents (es ++ List.replicate (interrupts.count true + 1)
      (.use (.release .socket)))) = if KeepsSocket interrupts then some ∅ else none := by
  rw [useEvents_append, held_append, h, Option.bind_some, held_close (Finset.mem_singleton_self _)]
  rfl

/-- A start with a secret key starts a node, which owns everything that a node owns, or returns
without a node and owns nothing, or has released its socket twice. -/
theorem snNodeAtPort_cases (hsk : sk.isSome) :
    (∃ sns socket, (snNodeAtPort S ans sk pk port checkSign).result = .ok (some sns) ∧
      Started S sk pk socket checkSign sns ∧
      held ∅ (useEvents (snNodeAtPort S ans sk pk port checkSign).events) =
        some NodeResource.all) ∨
    (snNodeAtPort S ans sk pk port checkSign).result = .ok none ∧
      (held ∅ (useEvents (snNodeAtPort S ans sk pk port checkSign).events) = some ∅ ∨
        held ∅ (useEvents (snNodeAtPort S ans sk pk port checkSign).events) =
          if KeepsSocket ans.interrupts then some ∅ else none) := by
  obtain ⟨name, hname⟩ := exists_listenName port
  rw [snNodeAtPort, cAssert_of hsk, Traced.lift_ok_bind, hname, Traced.lift_ok_bind,
    if_neg (show ¬ (0 : ℤ) = -1 by decide), snIoSockNamed_eq]
  by_cases hfd : ans.socket name.saFamily = snIoSockInvalid
  · rw [if_pos hfd]
    exact Or.inr ⟨rfl, Or.inl rfl⟩
  rw [if_neg hfd]
  by_cases hbind : ans.bind name
  swap
  · rw [if_neg hbind, Traced.mk_ok_bind, if_pos rfl, Traced.pure_eq, List.append_nil]
    exact Or.inr ⟨rfl, Or.inr (@held_append_close [_] rfl _)⟩
  rw [if_pos hbind, Traced.mk_ok_bind, if_neg hfd]
  obtain ⟨sns, hstarted, hstart⟩ := @snNodeAtSocketUse_eq S sk pk _ checkSign ans.toStartAnswers
    (Or.inl hsk) hfd
  rw [hstart]
  by_cases hinit : ans.sockGetName.isSome ∧ ans.vecInit
  swap
  · rw [if_neg hinit, Traced.mk_ok_bind, snIoSockClose_eq _ hfd]
    refine Or.inr ⟨rfl, Or.inr ?_⟩
    simp only [Traced.mk_ok_bind, Traced.pure_eq, List.append_nil, List.nil_append]
    exact held_append_close rfl _
  rw [if_pos hinit]
  by_cases hthread : ans.pthreadCreate
  · rw [if_pos hthread]
    have hall : held ∅ [.acquire .socket, .acquire .replyVec, .acquire .replyMut,
        .acquire .bgThrd] = some NodeResource.all := by decide
    exact Or.inl ⟨sns, _, rfl, hstarted, hall⟩
  · rw [if_neg hthread, Traced.mk_ok_bind, snIoSockClose_eq _ hfd]
    refine Or.inr ⟨rfl, Or.inr ?_⟩
    simp only [Traced.mk_ok_bind, Traced.pure_eq, List.append_nil, ← List.append_assoc]
    exact held_append_close rfl _

/-- The node that a start with a secret key returns is a started one. -/
theorem started_of_snNodeAtPort (hsk : sk.isSome) {sns : SnNode}
    (h : (snNodeAtPort S ans sk pk port checkSign).result = .ok (some sns)) :
    ∃ socket, Started S sk pk socket checkSign sns := by
  obtain ⟨_, socket, hnode, hstarted, -⟩ | ⟨hnone, -⟩ := @snNodeAtPort_cases S ans sk pk port
    checkSign hsk
  · obtain rfl := Option.some.inj (Except.ok.inj (h.symm.trans hnode))
    exact ⟨socket, hstarted⟩
  · cases h.symm.trans hnone

/-- A start that succeeds owns everything that a node owns, and one that fails owns nothing, unless
it has released its socket twice. -/
theorem held_snNodeAtPort {node? : Option SnNode}
    (h : (snNodeAtPort S ans sk pk port checkSign).result = .ok node?) :
    (∃ t, held ∅ (useEvents (snNodeAtPort S ans sk pk port checkSign).events) = some t ∧
      ∀ r, r ∈ t ↔ node?.isSome) ∨
    ¬ KeepsSocket ans.interrupts ∧
      held ∅ (useEvents (snNodeAtPort S ans sk pk port checkSign).events) = none := by
  by_cases hsk : sk.isSome
  · rcases snNodeAtPort_cases hsk with ⟨sns, socket, hstart, -, hheld⟩ | ⟨hstart, hheld⟩
    · obtain rfl := Except.ok.inj (h.symm.trans hstart)
      exact Or.inl ⟨_, hheld, by simp⟩
    · obtain rfl := Except.ok.inj (h.symm.trans hstart)
      rcases hheld with hheld | hheld
      · exact Or.inl ⟨_, hheld, by simp⟩
      · by_cases hkeeps : KeepsSocket ans.interrupts
        · rw [if_pos hkeeps] at hheld
          exact Or.inl ⟨_, hheld, by simp⟩
        · rw [if_neg hkeeps] at hheld
          exact Or.inr ⟨hkeeps, hheld⟩
  · rw [snNodeAtPort, cAssert_of_not hsk] at h
    cases h

/-- The end of a node gives back everything, unless it releases the socket twice. -/
theorem held_snNodeDestroy (interrupts : List Bool) (sns : SnNode) :
    (snNodeDestroy interrupts sns).result = .ok () ∧
      held NodeResource.all (useEvents (snNodeDestroy interrupts sns).events) =
        if KeepsSocket interrupts then some ∅ else none := by
  have hevents : snNodeDestroy interrupts sns =
      ⟨[.use (.release .bgThrd), .use (.release .replyMut), .use (.release .replyVec)] ++
        List.replicate (interrupts.count true + 1) (.use (.release .socket)), .ok ()⟩ := by
    rw [snNodeDestroy, snIoSockClose_eq interrupts sns.socket_ne]
    rfl
  have hrest : held NodeResource.all [.release .bgThrd, .release .replyMut, .release .replyVec] =
      some {.socket} := by decide
  rw [hevents]
  refine ⟨rfl, ?_⟩
  rw [useEvents_append, held_append]
  refine (congrArg (Option.bind · _) hrest).trans ?_
  rw [Option.bind_some, held_close (Finset.mem_singleton_self _)]
  rfl

/-! ### Nodes that come and go -/

variable {ι : Type} [DecidableEq ι]

variable (S) in
/-- The nodes that live after some calls, and what has been done with their resources, on a system
that may interrupt the closing of a socket as `system` tells. The place of a node is used again only
when the node has been destroyed or has not started, and only a node that lives is destroyed. -/
inductive Lives (system : List Bool → Prop) :
    (ι → Option SnNode) → List (UseEvent (ι × NodeResource)) → Prop
  | init : Lives system (fun _ => none) []
  | start {live : ι → Option SnNode} {ws : List (UseEvent (ι × NodeResource))}
      (h : Lives system live ws) {i : ι} (hi : live i = none) (ans : PortAnswers)
      (hsystem : system ans.interrupts) (sk : Option SnCryptoSignKey)
      (pk : Option SnCryptoSignPubkey) (port : UInt16) (checkSign : Bool) {node? : Option SnNode}
      (hstart : (snNodeAtPort S ans sk pk port checkSign).result = .ok node?) :
      Lives system (Function.update live i node?)
        (ws ++ (snNodeAtPort S ans sk pk port checkSign).events.map (.tag i))
  | destroy {live : ι → Option SnNode} {ws : List (UseEvent (ι × NodeResource))}
      (h : Lives system live ws) {i : ι} {sns : SnNode} (hi : live i = some sns)
      {interrupts : List Bool} (hsystem : system interrupts) :
      Lives system (Function.update live i none)
        (ws ++ (snNodeDestroy interrupts sns).events.map (.tag i))

/-- What is held is everything that the nodes that live own. -/
def Owned (live : ι → Option SnNode) (w : Finset (ι × NodeResource)) : Prop :=
  ∀ i r, (i, r) ∈ w ↔ (live i).isSome

section Calls

variable {live : ι → Option SnNode} {ws : List (UseEvent (ι × NodeResource))}
  {w : Finset (ι × NodeResource)} {i : ι} {es : List (UseEvent NodeResource)}
  {s t : Finset NodeResource} {node? : Option SnNode}

/-- What correct calls for one node do to what is held. -/
theorem held_tag_update (hw : held ∅ (useEvents ws) = some w) (hmem : Owned live w)
    (hs : ∀ r, (live i).isSome ↔ r ∈ s) (hes : held s (useEvents es) = some t)
    (ht : ∀ r, r ∈ t ↔ node?.isSome) :
    ∃ w', held ∅ (useEvents (ws ++ es.map (.tag i))) = some w' ∧
      Owned (Function.update live i node?) w' := by
  obtain ⟨w', hw', hmem'⟩ := held_tag (k := i) (fun r => (hmem i r).trans (hs r)) hes
  refine ⟨w', ?_, fun j r => ?_⟩
  · rw [useEvents_append, useEvents_tag]
    exact held_append_of hw hw'
  · rw [hmem', ht, hmem]
    by_cases hj : j = i
    · subst hj
      simp
    · simp [hj]

/-- Incorrect calls for one node are incorrect. -/
theorem held_tag_none (hw : held ∅ (useEvents ws) = some w) (hmem : Owned live w)
    (hs : ∀ r, (live i).isSome ↔ r ∈ s) (hes : held s (useEvents es) = none) :
    held ∅ (useEvents (ws ++ es.map (.tag i))) = none := by
  rw [useEvents_append, useEvents_tag, held_append, hw, Option.bind_some]
  exact held_tag_eq_none (fun r => (hmem i r).trans (hs r)) hes

theorem held_append_of_none (hws : held ∅ (useEvents ws) = none)
    (ws' : List (UseEvent (ι × NodeResource))) : held ∅ (useEvents (ws ++ ws')) = none := by
  rw [useEvents_append, held_append, hws, Option.bind_none]

end Calls

/-- The calls so far are correct and leave what the nodes that live own, or a system that does not
always keep a socket whose closing it interrupts has made them release a socket twice. -/
theorem Lives.held_cases {system : List Bool → Prop} {live : ι → Option SnNode}
    {ws : List (UseEvent (ι × NodeResource))} (h : Lives S system live ws) :
    (∃ w, held ∅ (useEvents ws) = some w ∧ Owned live w) ∨
      (∃ interrupts, system interrupts ∧ ¬ KeepsSocket interrupts) ∧
        held ∅ (useEvents ws) = none := by
  induction h with
  | init => exact Or.inl ⟨∅, rfl, by simp [Owned]⟩
  | start h hi ans hsystem sk pk port checkSign hstart ih =>
    rcases ih with ⟨w, hw, hmem⟩ | ⟨hex, hnone⟩
    · rcases held_snNodeAtPort hstart with ⟨t, ht, hown⟩ | ⟨hkeeps, hheld⟩
      · exact Or.inl (held_tag_update hw hmem (fun r => by simp [hi]) ht hown)
      · exact Or.inr ⟨⟨_, hsystem, hkeeps⟩, held_tag_none hw hmem (fun r => by simp [hi]) hheld⟩
    · exact Or.inr ⟨hex, held_append_of_none hnone _⟩
  | @destroy _ _ _ i sns hi interrupts hsystem ih =>
    rcases ih with ⟨w, hw, hmem⟩ | ⟨hex, hnone⟩
    · have hdestroy := (held_snNodeDestroy interrupts sns).2
      by_cases hkeeps : KeepsSocket interrupts
      · rw [if_pos hkeeps] at hdestroy
        exact Or.inl (held_tag_update hw hmem (fun r => by simp [hi]) hdestroy fun r => by simp)
      · rw [if_neg hkeeps] at hdestroy
        exact Or.inr ⟨⟨_, hsystem, hkeeps⟩,
          held_tag_none hw hmem (fun r => by simp [hi]) hdestroy⟩
    · exact Or.inr ⟨hex, held_append_of_none hnone _⟩

/-- **Who owns what.** However the lives of nodes overlap, and whichever starts fail, on a system
that keeps the sockets whose closing it interrupts nothing is given back twice. On any system, as
long as nothing has been given back twice, what is held is everything that the nodes that live own,
and the end of a node gives its socket back twice when its closing is interrupted after the system
has released it. -/
theorem lives_held {system : List Bool → Prop} {live : ι → Option SnNode}
    {ws : List (UseEvent (ι × NodeResource))} (h : Lives S system live ws) :
    ((∀ interrupts, system interrupts → KeepsSocket interrupts) →
      ∃ w, held ∅ (useEvents ws) = some w) ∧
    (∀ w, held ∅ (useEvents ws) = some w → ∀ i r, (i, r) ∈ w ↔ (live i).isSome) ∧
    ∀ i sns interrupts, live i = some sns → ¬ KeepsSocket interrupts →
      held ∅ (useEvents (ws ++ (snNodeDestroy interrupts sns).events.map (.tag i))) = none := by
  rcases h.held_cases with ⟨w, hw, hmem⟩ | ⟨⟨interrupts, hsystem, hnot⟩, hnone⟩
  · refine ⟨fun _ => ⟨w, hw⟩, fun w' hw' => ?_, fun i sns interrupts hi hnot => ?_⟩
    · obtain rfl := Option.some.inj (hw.symm.trans hw')
      exact hmem
    · have hdestroy := (held_snNodeDestroy interrupts sns).2
      rw [if_neg hnot] at hdestroy
      exact held_tag_none hw hmem (fun r => by simp [hi]) hdestroy
  · refine ⟨fun hkeeps => absurd (hkeeps _ hsystem) hnot, fun w hw => ?_, fun i sns _ _ _ =>
      held_append_of_none hnone _⟩
    cases hnone.symm.trans hw

/-- A system that lets a node start, and interrupts the closing of its socket once, before it has
released it. -/
def PortAnswers.ideal : PortAnswers where
  sockGetName := some .zero
  vecInit := true
  pthreadCreate := true
  junk := ⟨.padded _ [] 0⟩
  socket _ := 3
  bind _ := true
  interrupts := [false]

theorem exists_snNodeAtPort_ideal (sk : SnCryptoSignKey) (pk : Option SnCryptoSignPubkey)
    (port : UInt16) (checkSign : Bool) : ∃ sns,
      (snNodeAtPort S .ideal (some sk) pk port checkSign).result = .ok (some sns) := by
  obtain ⟨name, hname⟩ := exists_listenName port
  obtain ⟨sns, -, hstart⟩ := @snNodeAtSocketUse_eq S (some sk) pk 3 checkSign
    PortAnswers.ideal.toStartAnswers (Or.inl rfl) (by decide)
  refine ⟨sns, ?_⟩
  rw [snNodeAtPort, cAssert_of (Option.isSome_some), Traced.lift_ok_bind, hname,
    Traced.lift_ok_bind, if_neg (show ¬ (0 : ℤ) = -1 by decide), snIoSockNamed_eq]
  change ((Traced.mk _ (.ok 3) : LifeM ℤ) >>= _).result = _
  rw [Traced.mk_ok_bind, if_neg (by decide), hstart]
  rfl

/-- Two nodes start, and the first is destroyed while the second lives, on a system that keeps what
it interrupts. The end of the second, on another system, releases its socket twice. -/
theorem lives_held_overlapping : ∃ (live : Bool → Option SnNode)
    (ws : List (UseEvent (Bool × NodeResource))) (sns : SnNode),
      Lives .plain KeepsSocket live ws ∧ live true = none ∧ live false = some sns ∧
      (∃ w, held ∅ (useEvents ws) = some w ∧ ∀ i r, (i, r) ∈ w ↔ (live i).isSome) ∧
      held ∅ (useEvents (ws ++ (snNodeDestroy [true] sns).events.map (.tag false))) = none := by
  have hstart := exists_snNodeAtPort_ideal (S := .plain) ⟨.padded _ [] 0⟩ none 0 true
  obtain ⟨sns, hsns⟩ := hstart
  have hinit : Lives .plain KeepsSocket (fun _ : Bool => none) [] := .init
  have hfirst := Lives.start hinit (i := true) rfl _
    (by decide) _ _ _ _ hsns
  have hsecond := Lives.start hfirst (i := false) (Function.update_of_ne (by decide) _ _) _
    (by decide) _ _ _ _ hsns
  have hlives := @Lives.destroy _ _ _ _ _ _ hsecond true sns (by simp) [false] (by decide)
  obtain ⟨hkept, hown, htwice⟩ := lives_held hlives
  obtain ⟨w, hw⟩ := hkept fun _ => id
  exact ⟨_, _, sns, hlives, by simp, by simp, ⟨w, hw, hown w hw⟩,
    htwice false sns [true] (by simp) (by decide)⟩

end SndNet
