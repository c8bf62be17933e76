import SndNet.Net.Router.Newest
import SndNet.Node.Delivery
import SndNet.Node.Log
import SndNet.Prototype.Commands

/-!
# A message from one console to another

A user types the address of another node with its network address and then a message for it. The
message is packed and signed, is sent to this network address, is read and checked by the other
node, and appears in its log. This file follows a message from the console on which it is typed
(`prototype/main.c`, lines 55–101) to the log of the node that it is for.

## Main definitions

* `SndNet.Command.addition?`: what a command adds to the router.
* `SndNet.arrivalText`: the line of the log with the message.
* `SndNet.messageTo`: the commands for a message to a new node.

## Main results

* `SndNet.router_of_promptLoop`: the router after a session.
* `SndNet.message_arrives`: a typed message is in the log of the other node.
-/

namespace SndNet

open Ctype CString FallibleRun Lines

variable {S : SignScheme} {q : Sorter SnNetEntry} {env : Environment} {ans : ℕ → LineAnswers}
  {k : ℕ} {sns sns' : SnNode}

/-! ### The router after a session -/

/-- What a command adds to the router. -/
def Command.addition? : Command → Option (SnNetAddr × Option SnIoNaddr)
  | .insert addr netAddr => some (addr, some netAddr)
  | _ => none

/-- The router after a command. -/
theorem router_of_perform {command : Command} {a : LineAnswers}
    (h : (command.perform S q a sns).result = .ok (.next sns')) : ∃ router,
    run (routerStep q) sns.router (command.addition?.toList.map fun p => .add p.1 p.2) =
      .ok router ∧ sns' = { sns with router := router } := by
  cases command with
  | quit => cases h
  | send dst payload =>
    rw [perform_send] at h
    obtain ⟨-, -, hnext⟩ := exists_of_map_eq_ok h
    obtain rfl := Control.next.inj hnext
    exact ⟨_, rfl, rfl⟩
  | insert addr netAddr =>
    rw [perform_insert] at h
    obtain ⟨router, hadd, hnext⟩ := exists_of_map_eq_ok h
    obtain rfl := Control.next.inj hnext
    exact ⟨router, bind_eq_ok.2 ⟨router, hadd, rfl⟩, rfl⟩
  | showRouter =>
    have hsame : sns' = sns := by
      rw [perform_showRouter] at h
      split_ifs at h
      · rcases htext : shownText a sns.router with e | text
        · rw [htext] at h
          cases h
        · rw [htext] at h
          exact (Control.next.inj (Except.ok.inj h)).symm
      · cases h
    subst hsame
    exact ⟨_, rfl, rfl⟩

/-- **The router after a session** has added the nodes that have been inserted. -/
theorem router_of_promptLoop {commands : List Command}
    (h : (promptLoop (Command.perform S q) ans k sns commands).result = .ok (.next sns')) :
    ∃ router, run (routerStep q) sns.router
      ((commands.filterMap Command.addition?).map fun p => .add p.1 p.2) = .ok router ∧
      sns' = { sns with router := router } := by
  induction commands generalizing k sns with
  | nil =>
    obtain rfl := Control.next.inj (Except.ok.inj h)
    exact ⟨sns.router, rfl, rfl⟩
  | cons command commands ih =>
    obtain ⟨sns₁, hround, hrest⟩ := promptLoop_cons_next h
    obtain ⟨router₁, hfirst, rfl⟩ := router_of_perform hround
    obtain ⟨router, hrun, rfl⟩ := ih hrest
    have hsplit : (command :: commands).filterMap Command.addition? =
        command.addition?.toList ++ commands.filterMap Command.addition? := by
      cases hadd : command.addition? with
      | none => exact List.filterMap_cons_none hadd
      | some p => exact List.filterMap_cons_some hadd
    refine ⟨router, ?_, rfl⟩
    rw [hsplit, List.map_append]
    exact run_append_eq_ok.2 ⟨router₁, hfirst, hrun⟩

/-- What happens after a session happens in a longer one. -/
theorem mem_promptLoop_append {ι : Type} {step : LineAnswers → SnNode → ι → ConsoleM Control}
    {is js : List ι} {w : ConsoleEvent}
    (h : (promptLoop step ans k sns is).result = .ok (.next sns'))
    (hw : w ∈ (promptLoop step ans (k + is.length) sns' js).events) :
    w ∈ (promptLoop step ans k sns (is ++ js)).events := by
  induction is generalizing k sns with
  | nil =>
    obtain rfl := Control.next.inj (Except.ok.inj h)
    exact hw
  | cons i is ih =>
    obtain ⟨sns₁, hround, hrest⟩ := promptLoop_cons_next h
    refine mem_promptLoop_cons.2 (Or.inr (Or.inr ⟨sns₁, hround, ih hrest ?_⟩))
    rwa [List.length_cons, Nat.add_comm is.length, ← Nat.add_assoc] at hw

/-! ### From one node to another -/

/-- The line of the log with a message that has come from the sender directly. -/
def arrivalText (src dst : SnNetAddr) (remAddr : SnIoNaddr) (msg : List UInt8) : List UInt8 :=
  front (ascii "packet deliver\n") (some remAddr)
      ⟨addrText dst, addrText src, 30, snWireNetTypeUser, .ofNat msg.length⟩ ++
    10 :: (msg ++ [10])

/-- A node is not a next hop for itself. -/
theorem not_nexthop_isSet_self {receiver : SnNode} (h : Reachable q receiver.router) :
    ¬ (receiver.nexthop env receiver.router.self.addr).IsSet := by
  have hinv := RouterInv.of_reachable h
  rw [receiver.nexthop_eq env hinv.self_isSet]
  rcases nexthopOf_cases hinv (env.onRange receiver.router receiver.router.self.addr)
    receiver.router.self.addr with hself | hprog
  · rw [hself]
    exact fun hne => hne rfl
  · exact absurd rfl hprog.dst_ne

/-- **What a node shows of a message for it.** -/
theorem logOf_arrival {receiver : SnNode} (hrecv : env.recvMalloc)
    (hreach : Reachable q receiver.router) (hsign : sns.sign)
    (hself : sns.self.key = (snCryptoSignPkFromSk S sns.sk).pk) {msg : List UInt8}
    (hmsg : ∀ c ∈ msg, c ≠ 0) (hlen : msg.length ≤ 800) (remAddr : SnIoNaddr) :
    logOf (backgroundStep S env receiver remAddr
        (copyBytes (originPacket S sns receiver.router.self.addr snWireNetTypeUser msg)
          (snNetPacketDefaultTtl - 1))).events =
      [arrivalText sns.self receiver.router.self.addr remAddr msg] := by
  have hlines := @linesOf_arrival S env sns _ msg receiver hrecv (not_nexthop_isSet_self hreach)
    hsign hself (hlen.trans (by decide)) remAddr
  have hmessage : cString msg = msg :=
    List.takeWhile_eq_self_iff.2 fun c hc => decide_eq_true (hmsg c hc)
  rw [hmessage] at hlines
  -- The text is not cut off.
  have hplain : HeaderText.Plain ⟨addrText receiver.router.self.addr, addrText sns.self, 30,
      snWireNetTypeUser, .ofNat msg.length⟩ :=
    @headerText_originPacket S sns receiver.router.self.addr snWireNetTypeUser msg ▸
      plain_headerText _
  obtain ⟨n, -, hn, htext⟩ := deliver_text hplain (some remAddr) msg
  rw [List.take_of_length_le (by rw [List.length_append, List.length_singleton]; omega)] at htext
  rw [logOf, hlines, List.map_singleton, htext, arrivalText]

/-- A node is inserted, and a message is sent to it. -/
def messageTo (dst : SnNetAddr) (naddr : SnIoNaddr) (msg : List UInt8) : List Command :=
  [.insert dst naddr, .send dst msg]

variable {start : PortAnswers} {sk : SnCryptoSignKey} {pk : SnCryptoSignPubkey} {port : UInt16}
  {sns₁ : SnNode} {dst : SnNetAddr} {naddr : SnIoNaddr} {msg : List UInt8} {commands : List Command}

/-- **A typed message is in the log of the other node.** On the console of a node with the keys of
its address, some commands are followed by an insertion of the node that a message is for, and by
the message, of at most 800 characters. Then the message is sent to the inserted network address,
and every node with this destination as its own address, wherever the datagram seems to come from
and whatever else is in its router, shows the message in its log with the address of the sender. At
most seven nodes may have been inserted before, and the sender and these must be told from the
destination by the distance. -/
theorem message_arrives (S : SignScheme) (q : Sorter SnNetEntry)
    (hstart : (snNodeAtPort S start (some sk) (some pk) port true).result = .ok (some sns))
    (hpk : pk = snCryptoSignPkFromSk S sk) (hzero : SnNetAddr.mk pk.pk ≠ .zero)
    (htypable : ∀ c ∈ commands ++ messageTo dst naddr msg, c.Typable)
    (hwilling : ∀ k, (ans k).env.Willing)
    (hsession : (commandLoop S q ans sns (commands.flatMap Command.line)).result =
      .ok (.next sns₁))
    (hroom : (commands.filterMap Command.addition?).length < snNetRouterLeafsetSize)
    (hself : snNetAddrDist ⟨pk.pk⟩ dst ≠ .zero)
    (hothers : ∀ p ∈ commands.filterMap Command.addition?, snNetAddrDist p.1 dst ≠ .zero)
    (hlen : msg.length ≤ 800) : ∃ bytes,
    .node (.node (.send ⟨naddr, bytes⟩)) ∈ (commandLoop S q ans sns
      ((commands ++ messageTo dst naddr msg).flatMap Command.line)).events ∧
    ∀ (q' : Sorter SnNetEntry) (receiver : SnNode) (env : Environment) (remAddr : SnIoNaddr),
      env.recvMalloc → Reachable q' receiver.router → receiver.router.self.addr = dst →
        logOf (backgroundStep S env receiver remAddr bytes).events =
          [arrivalText ⟨pk.pk⟩ dst remAddr msg] := by
  obtain ⟨_, hstarted⟩ := started_of_snNodeAtPort rfl hstart
  obtain ⟨selfNet, hrouter⟩ := hstarted.router_eq
  have haddr : SnNetAddr.mk pk.pk = sns.self := Option.some.inj hstarted.self_eq
  have hkey : sns.self.key = (snCryptoSignPkFromSk S sns.sk).pk := by
    rw [hstarted.sk_eq sk rfl, ← hpk, ← haddr]
  obtain ⟨htypable', hlast⟩ := List.forall_mem_append.1 htypable
  obtain ⟨⟨-, hnaddr⟩, hsend⟩ := List.forall_mem_cons.1 hlast
  obtain ⟨-, -, hmsg, -⟩ := hsend _ (List.mem_singleton_self _)
  -- The router after the commands, and after the insertion.
  rw [commandLoop, fgetsAll_flatMap_line htypable',
    promptLoop_map fun c hc a sns => commandStep_line (htypable' c hc)] at hsession
  obtain ⟨router, hrun, rfl⟩ := router_of_promptLoop hsession
  rw [hrouter] at hrun
  rw [haddr] at hzero hself
  obtain ⟨router', hadd, hselfEq, hinv, hnewest⟩ := nexthopOf_newest hrun hzero hroom hself hothers
    (some naddr)
  have hnext : ∀ env, ({ sns with router := router' } : SnNode).nexthop env dst =
      (RouterOp.add dst (some naddr)).entry := fun env => by
    rw [SnNode.nexthop_eq env _ hinv.self_isSet]
    exact hnewest _
  have hset : ∀ env, (({ sns with router := router' } : SnNode).nexthop env dst).IsSet := fun env =>
    by rw [hnext]; simp [RouterOp.entry]
  have horigin : originPacket S { sns with router := router' } dst snWireNetTypeUser msg =
      originPacket S sns dst snWireNetTypeUser msg := rfl
  refine ⟨copyBytes (originPacket S sns dst snWireNetTypeUser msg) (snNetPacketDefaultTtl - 1),
    ?_, fun q' receiver env remAddr hrecv hreach hown => ?_⟩
  · rw [commandLoop, fgetsAll_flatMap_line htypable,
      promptLoop_map fun c hc a sns => commandStep_line (htypable c hc)]
    refine mem_promptLoop_append hsession (mem_promptLoop_cons.2 (Or.inr (Or.inr
      ⟨{ sns with router := router' }, ?_, mem_promptLoop_cons.2 (Or.inr (Or.inl ?_))⟩)))
    · rw [perform_insert, hadd]
      rfl
    · rw [perform_send]
      have henv := hwilling (0 + commands.length + 1)
      have hevents := snNodeSend_of_nexthop S _ _ (henv.packMalloc _) (hset _)
        (fun _ => henv.sendto _ _) msg
      rw [hnext, horigin] at hevents
      exact List.mem_map_of_mem (hevents ▸ List.mem_cons_self)
  · subst hown
    rw [haddr]
    exact logOf_arrival hrecv hreach hstarted.sign_eq hkey (fun c hc => (hmsg c hc).1) hlen remAddr

/-- The message of the node with the key 1 is in the log of the node on 888888. -/
theorem message_arrives_hello : ∃ sns bytes,
    (snNodeAtPort .plain .ideal (some ⟨.padded _ [1] 0⟩)
      (some (snCryptoSignPkFromSk .plain ⟨.padded _ [1] 0⟩)) 0 true).result = .ok (some sns) ∧
    .node (.node (.send ⟨inetNaddr 1111 [1, 1, 1, 1], bytes⟩)) ∈
      (commandLoop .plain (.insertion SnNetEntry) (fun _ => .ideal) sns
        ((messageTo receiverAddr (inetNaddr 1111 [1, 1, 1, 1]) (ascii "hello")).flatMap
          Command.line)).events ∧
    logOf (backgroundStep .plain .ideal receiverNode .zero bytes).events =
      [arrivalText ⟨(snCryptoSignPkFromSk .plain ⟨.padded _ [1] 0⟩).pk⟩ receiverAddr .zero
        (ascii "hello")] := by
  obtain ⟨sns, hsns⟩ := @exists_snNodeAtPort_ideal .plain ⟨.padded _ [1] 0⟩
    (some (snCryptoSignPkFromSk .plain ⟨.padded _ [1] 0⟩)) 0 true
  have htypable : ∀ c ∈ [] ++
      messageTo receiverAddr (inetNaddr 1111 [1, 1, 1, 1]) (ascii "hello"), c.Typable := by
    refine List.forall_mem_cons.2 ⟨⟨by decide, .inet rfl 1111⟩, List.forall_mem_cons.2
      ⟨⟨by decide, by decide, by decide, by decide⟩, fun _ h => absurd h List.not_mem_nil⟩⟩
  have hwilling : ∀ k : ℕ, ((fun _ => .ideal : ℕ → LineAnswers) k).env.Willing := fun _ => .ideal
  obtain ⟨bytes, hsent, hlog⟩ := message_arrives .plain (.insertion SnNetEntry) hsns rfl
    (by decide) htypable hwilling rfl (by decide) (by decide +kernel)
    (fun _ h => absurd h List.not_mem_nil) (by decide)
  exact ⟨sns, bytes, hsns, hsent, hlog (.insertion SnNetEntry) receiverNode .ideal .zero rfl
    (.init _ receiverAddr none) rfl⟩

end SndNet
