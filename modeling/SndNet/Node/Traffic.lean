import Mathlib.Algebra.Order.Monoid.Prod
import Mathlib.Data.Multiset.OrderedMonoid
import SndNet.Library.Ledger
import SndNet.Node.Abort
import SndNet.Node.Network
import SndNet.Node.Send

/-!
# Traffic

Any number of nodes send packets of any type at any time, over a network that loses and reorders
datagrams and into which others put datagrams of their own. This file keeps a ledger of such
traffic. A datagram is worth the message that it may still bring to an upcall and the number of
datagrams that it may still cause: at most as many as its time to live, and, for a ping, which is
answered by a reply with a new time to live, 32 more. What a node makes of a datagram is never worth
more than the datagram.

## Main definitions

* `SndNet.packetOf`: the packet that a datagram is received as.
* `SndNet.SnNetPacket.worth`, `SndNet.Datagram.worth`: what a packet may still bring about.
* `SndNet.SendCall`, `SndNet.Traffic`: a call of `sn_node_send_typed`, and a network with its calls.
* `SndNet.TrafficStep`: a call, a datagram from outside, or a step of the network.

## Main results

* `SndNet.worthOf_forward_le`: `forward` makes no more of a packet than it is worth.
* `SndNet.traffic_covered`: no message is delivered more often than it has been sent.
-/

namespace SndNet

open FallibleRun SnWireNetHeader

variable {ι : Type*} {S : SignScheme} {env : Environment} {sns : SnNode} {packet : SnNetPacket}
  {remAddr : Option SnIoNaddr}

/-! ### What a packet is worth -/

/-- The packet that a datagram is received as, if any. -/
def packetOf (bytes : List UInt8) : Option SnNetPacket :=
  match snNetPacketRecv true 0 bytes with
  | .ok (.packet packet) => some packet
  | _ => none

/-- Every node receives a datagram as the same packet. -/
theorem packetOf_of_recv {malloc : Bool} {socket : ℤ} {bytes : List UInt8}
    (h : snNetPacketRecv malloc socket bytes = .ok (.packet packet)) :
    packetOf bytes = some packet := by
  have hsocket : socket ≠ snIoSockInvalid := by
    rintro rfl
    cases h
  rw [snNetPacketRecv_eq hsocket] at h
  rw [packetOf, snNetPacketRecv_eq (by decide)]
  split_ifs at h with hbad hmalloc hle
  · cases h
  · obtain rfl := RecvOutcome.packet.inj (Except.ok.inj h)
    rw [if_neg hbad, if_pos rfl, dif_pos hle]
  · cases h
  · cases h

/-- The datagram of a packet is received as that packet, unless it is too long. -/
theorem packetOf_datagram : packetOf packet.datagram =
    if packet.header.len.toNat ≤ snNetPacketMaxLen then some packet.trim else none := by
  by_cases hlen : packet.header.len.toNat ≤ snNetPacketMaxLen
  · rw [packetOf, snNetPacketRecv_datagram (by decide) hlen, if_pos rfl, if_pos hlen]
  · rw [packetOf, snNetPacketRecv_eq (by decide), if_neg hlen,
      if_pos (Or.inr (by rw [packet.lenOfMem_datagram]; omega))]

theorem trim_message : packet.trim.message = packet.message :=
  List.take_left' packet.length_message

theorem trim_signedPart : packet.trim.signedPart = packet.signedPart := by
  rw [SnNetPacket.signedPart_eq, SnNetPacket.signedPart_eq, trim_message]
  rfl

theorem decTtl_signedPart : packet.decTtl.signedPart = packet.signedPart :=
  packet.setTtl_signedPart _

namespace SnNetPacket

/-- The messages that a packet may bring to an upcall. -/
def messages (packet : SnNetPacket) : List (List UInt8) :=
  if packet.header.type = snWireNetTypeUser then [packet.message] else []

/-- The number of datagrams that a packet may cause. A ping may be answered. -/
def datagrams (packet : SnNetPacket) : ℕ :=
  packet.header.ttl.toNat +
    if packet.header.type = snWireNetTypePing then snNetPacketDefaultTtl.toNat else 0

/-- What a packet may still bring about. -/
def worth (packet : SnNetPacket) : Multiset (List UInt8) × ℕ :=
  ((packet.messages : Multiset (List UInt8)), packet.datagrams)

end SnNetPacket

namespace Datagram

/-- The messages that a datagram may bring to an upcall. -/
def messages (d : Datagram) : List (List UInt8) :=
  ((packetOf d.bytes).map SnNetPacket.messages).getD []

/-- The number of datagrams that a datagram may cause. -/
def datagrams (d : Datagram) : ℕ := ((packetOf d.bytes).map SnNetPacket.datagrams).getD 0

/-- What a datagram may still bring about. -/
def worth (d : Datagram) : Multiset (List UInt8) × ℕ :=
  ((d.messages : Multiset (List UInt8)), d.datagrams)

end Datagram

/-- What the events of a node bring about. -/
def spentOf (ws : List NodeEvent) : Multiset (List UInt8) × ℕ :=
  ((upcallsOf ws : Multiset (List UInt8)), (sentOf ws).length)

/-- What the events of a node bring about, with what their datagrams may still bring about. -/
def worthOf (ws : List NodeEvent) : Multiset (List UInt8) × ℕ :=
  spentOf ws + Ledger.total Datagram.worth (sentOf ws : Multiset Datagram)

theorem trim_worth : packet.trim.worth = packet.worth := by
  rw [SnNetPacket.worth, SnNetPacket.messages, trim_message]
  rfl

theorem worth_datagram_le (naddr : SnIoNaddr) :
    Datagram.worth ⟨naddr, packet.datagram⟩ ≤ packet.worth := by
  rw [Datagram.worth, Datagram.messages, Datagram.datagrams, packetOf_datagram]
  split_ifs
  · exact trim_worth.le
  · exact zero_le

/-- One datagram is spent by a hop. -/
theorem worth_decTtl (httl : packet.header.ttl ≠ 0) :
    (0, 1) + packet.decTtl.worth = packet.worth := by
  have hdec := toNat_sub_one_add_one httl
  have hdatagrams : 1 + packet.decTtl.datagrams = packet.datagrams := by
    rw [SnNetPacket.datagrams, SnNetPacket.datagrams, ← hdec, add_right_comm, add_comm]
    rfl
  rw [SnNetPacket.worth, SnNetPacket.worth, Prod.mk_add_mk, zero_add, hdatagrams]
  rfl

@[simp] theorem worthOf_nil : worthOf [] = 0 := rfl

@[simp] theorem worthOf_log_cons (line : LogLine) (ws : List NodeEvent) :
    worthOf (.log line :: ws) = worthOf ws := rfl

theorem worthOf_send (d : Datagram) : worthOf [.send d] = (0, 1) + d.worth := by
  change (0, 1) + Ledger.total Datagram.worth {d} = _
  rw [Ledger.total_singleton]

/-! ### What a node makes of a packet -/

/-- Forwarding makes no more of a packet than it is worth, when the handlers do. -/
theorem worthOf_forward_le_of_handle
    (hhandle : worthOf (handle S env sns packet.decTtl).events ≤ packet.decTtl.worth) :
    worthOf (forward S env sns packet remAddr).events ≤ packet.worth := by
  rw [forward_eq]
  by_cases httl : packet.header.ttl = 0
  · rw [if_pos httl]
    exact zero_le
  rw [if_neg httl, ← worth_decTtl httl]
  by_cases hset : (sns.nexthop env (snNetPacketGetDst packet)).IsSet
  · rw [if_pos hset, sendOn]
    split_ifs
    · exact zero_le
    · change worthOf [.send _] ≤ _
      rw [worthOf_send]
      exact add_le_add_right (worth_datagram_le _) _
    · exact zero_le
  · rw [if_neg hset, deliver_eq, worthOf_log_cons]
    exact hhandle.trans le_add_self

/-- The answer to a ping is worth a new time to live. -/
theorem worthOf_deliverPingHandler_le :
    worthOf (deliverPingHandler S env sns packet).events ≤ (0, snNetPacketDefaultTtl.toNat) := by
  rw [deliverPingHandler_eq]
  split_ifs
  · have hworth : (replyPacket S env sns packet).worth = (0, snNetPacketDefaultTtl.toNat) := by
      rw [SnNetPacket.worth, SnNetPacket.messages, SnNetPacket.datagrams, replyPacket,
        originPacket_type, originPacket_ttl]
      rfl
    rw [← hworth]
    refine worthOf_forward_le_of_handle ?_
    rw [handle_replyPacket]
    exact zero_le
  · exact zero_le

theorem worthOf_handle_le : worthOf (handle S env sns packet).events ≤ packet.worth := by
  rw [handle]
  split_ifs with hlarge huser hreply
  · exact zero_le
  · rw [deliverUserHandler, snNodeUpcall, SnNetPacket.worth, SnNetPacket.messages, if_pos huser]
    cases sns.upcall with
    | none => exact zero_le
    | some up => exact ⟨le_rfl, Nat.zero_le _⟩
  · exact zero_le
  · refine worthOf_deliverPingHandler_le.trans ?_
    rw [SnNetPacket.worth, SnNetPacket.datagrams, if_pos (eq_ping_of_ne hlarge huser hreply)]
    exact ⟨zero_le, Nat.le_add_left _ _⟩

/-- **`forward` makes no more of a packet than it is worth.** -/
theorem worthOf_forward_le : worthOf (forward S env sns packet remAddr).events ≤ packet.worth :=
  worthOf_forward_le_of_handle worthOf_handle_le

/-- So does a round of the background loop of the datagram that it reads. -/
theorem worthOf_backgroundStep_le (env : Environment) (sns : SnNode) (remAddr : SnIoNaddr)
    (d : Datagram) : worthOf (backgroundStep S env sns remAddr d.bytes).events +
      Ledger.total Datagram.worth (leftInSocket env sns d : Multiset Datagram) ≤ d.worth := by
  rw [backgroundStep_eq, leftInSocket]
  cases hrecv : snNetPacketRecv env.recvMalloc sns.socket d.bytes with
  | error f => exact zero_le
  | ok outcome =>
    cases outcome with
    | kept =>
      change 0 + Ledger.total Datagram.worth {d} ≤ _
      rw [zero_add, Ledger.total_singleton]
    | dropped => exact zero_le
    | packet packet =>
      have hworth : d.worth = packet.worth := by
        rw [Datagram.worth, Datagram.messages, Datagram.datagrams, packetOf_of_recv hrecv]
        rfl
      change worthOf (ite _ _ _ : NodeM Unit).events + 0 ≤ _
      rw [add_zero, hworth]
      split_ifs
      · exact zero_le
      · exact worthOf_forward_le

/-! ### Calls -/

/-- A call of `sn_node_send_typed`, or of `sn_node_send` when the type is that of users. -/
structure SendCall (ι : Type*) where
  node : ι
  dst : SnNetAddr
  type : UInt8
  payload : List UInt8

namespace SendCall

/-- The message of the packet of a call. Its length is cut to sixteen bits. -/
def message (call : SendCall ι) : List UInt8 := call.payload.take (call.payload.length % 65536)

/-- The messages that a call may bring to an upcall. -/
def messages (call : SendCall ι) : List (List UInt8) :=
  if call.type = snWireNetTypeUser then [call.message] else []

/-- The number of datagrams that a call may cause. -/
def datagrams (call : SendCall ι) : ℕ :=
  snNetPacketDefaultTtl.toNat +
    if call.type = snWireNetTypePing then snNetPacketDefaultTtl.toNat else 0

/-- What a call may bring about. -/
def worth (call : SendCall ι) : Multiset (List UInt8) × ℕ :=
  ((call.messages : Multiset (List UInt8)), call.datagrams)

end SendCall

theorem message_originPacket (call : SendCall ι) :
    (originPacket S sns call.dst call.type call.payload).message = call.message :=
  sentPacket_message S sns call.dst call.type call.payload

variable (S sns) in
theorem worth_originPacket (call : SendCall ι) :
    (originPacket S sns call.dst call.type call.payload).worth = call.worth := by
  rw [SnNetPacket.worth, SnNetPacket.messages, SnNetPacket.datagrams, originPacket_type,
    originPacket_ttl, message_originPacket]
  rfl

theorem worthOf_snNodeSendTyped_le (env : Environment) (sns : SnNode) (call : SendCall ι) :
    worthOf (snNodeSendTyped S env sns call.dst call.type call.payload).events ≤ call.worth := by
  by_cases htype : call.type < snWireNetTypes
  · rw [snNodeSendTyped_eq _ _ _ _ htype]
    split_ifs
    · rw [← worth_originPacket S sns]
      exact worthOf_forward_le
    · exact zero_le
  · rw [snNodeSendTyped, cAssert_of_not htype]
    exact zero_le

/-! ### Runs -/

/-- A network with the calls that have been made in it. -/
structure Traffic (ι : Type*) where
  net : Network ι
  calls : List (SendCall ι)
  /-- The datagrams that others have put into the network. -/
  injected : List Datagram

/-- A network in which nothing has happened. -/
def Traffic.idle (nodes : ι → SnNode) : Traffic ι := ⟨⟨nodes, [], [], []⟩, [], []⟩

variable (S) in
/-- A step of the traffic. -/
inductive TrafficStep : Traffic ι → Traffic ι → Prop
  /-- A node is asked to send a packet. -/
  | send (t : Traffic ι) (call : SendCall ι) (env : Environment) :
      TrafficStep t ⟨t.net.act (snNodeSendTyped S env (t.net.nodes call.node) call.dst call.type
        call.payload).events, t.calls ++ [call], t.injected⟩
  /-- Another program sends a datagram into the network. -/
  | inject (t : Traffic ι) (d : Datagram) :
      TrafficStep t ⟨{ t.net with inflight := t.net.inflight ++ [d] }, t.calls, t.injected ++ [d]⟩
  | network (t : Traffic ι) {net : Network ι} (h : NetworkStep S t.net net) :
      TrafficStep t ⟨net, t.calls, t.injected⟩

namespace Traffic

/-- The ledger of the traffic. -/
def ledger (t : Traffic ι) : Ledger Datagram (Multiset (List UInt8) × ℕ) where
  held := t.net.inflight
  spent := ((t.net.upcalls : Multiset (List UInt8)), t.net.transmitted.length)
  granted := (t.calls.map SendCall.worth).sum + (t.injected.map Datagram.worth).sum

/-- What the events of a node do to the ledger. -/
theorem ledger_act (net : Network ι) (calls : List (SendCall ι)) (injected : List Datagram)
    (ws : List NodeEvent) :
    (ledger ⟨net.act ws, calls, injected⟩).held =
        (sentOf ws : Multiset Datagram) + (ledger ⟨net, calls, injected⟩).held ∧
      (ledger ⟨net.act ws, calls, injected⟩).spent =
        (ledger ⟨net, calls, injected⟩).spent + spentOf ws := by
  refine ⟨?_, Prod.ext ?_ ?_⟩
  · rw [add_comm]
    exact (Multiset.coe_add _ _).symm
  · exact (Multiset.coe_add _ _).symm
  · exact List.length_append

/-- A datagram in flight is held. -/
theorem held_eq {t : Traffic ι} {before after : List Datagram} {d : Datagram}
    (h : t.net.inflight = before ++ d :: after) : t.ledger.held = d ::ₘ ↑(before ++ after) := by
  rw [ledger, h, Multiset.cons_coe]
  exact Multiset.coe_eq_coe.2 List.perm_middle

/-- **A step of the traffic is a step of its ledger.** -/
theorem ledger_step {t t' : Traffic ι} (h : TrafficStep S t t') :
    t'.ledger = t.ledger ∨ Ledger.Step (· ≤ ·) Datagram.worth t.ledger t'.ledger := by
  cases h with
  | send call env =>
    obtain ⟨hheld, hspent⟩ := ledger_act t.net (t.calls ++ [call]) t.injected
      (snNodeSendTyped S env (t.net.nodes call.node) call.dst call.type call.payload).events
    refine Or.inr (.grant _ _ call.worth hheld hspent ?_ (worthOf_snNodeSendTyped_le env _ call))
    rw [ledger, List.map_append, List.sum_append, List.map_singleton, List.sum_singleton,
      add_right_comm]
    rfl
  | inject d =>
    refine Or.inr (.grant {d} 0 d.worth ?_ (add_zero _).symm ?_ ?_)
    · rw [add_comm]
      exact (Multiset.coe_add _ _).symm
    · rw [ledger, List.map_append, List.sum_append, List.map_singleton, List.sum_singleton,
        ← add_assoc]
      rfl
    · rw [zero_add, Ledger.total_singleton]
  | network hnet =>
    cases hnet with
    | receive before after d i env remAddr h =>
      obtain ⟨hheld, hspent⟩ := ledger_act
        { t.net with inflight := before ++ (leftInSocket env (t.net.nodes i) d ++ after) } t.calls
        t.injected (backgroundStep S env (t.net.nodes i) remAddr d.bytes).events
      refine Or.inr (.turn d ↑(before ++ after)
        (sentOf (backgroundStep S env (t.net.nodes i) remAddr d.bytes).events +
          leftInSocket env (t.net.nodes i) d) (spentOf _) (held_eq h) ?_ hspent rfl ?_)
      · rw [hheld, add_assoc, Multiset.coe_add]
        exact congrArg _ (Multiset.coe_eq_coe.2 (List.perm_append_comm_assoc _ _ _))
      · rw [Ledger.total_add, ← add_assoc]
        exact worthOf_backgroundStep_le env _ remAddr d
    | lose before after d h =>
      exact Or.inr (.turn d ↑(before ++ after) 0 0 (held_eq h) (zero_add _).symm (add_zero _).symm
        rfl (by rw [zero_add]; exact zero_le))
    | update nodes => exact Or.inl rfl

/-- The ledger of every run is covered. -/
theorem covered {nodes : ι → SnNode} {t : Traffic ι}
    (hrun : Relation.ReflTransGen (TrafficStep S) (.idle nodes) t) :
    Ledger.Covered (· ≤ ·) Datagram.worth t.ledger :=
  (Ledger.Covered.simulation Ledger.IsFair.le (fun _ => True) (fun _ _ _ _ => trivial)
    (fun s s' _ (h : TrafficStep S s s') => ledger_step h) trivial
    (Ledger.Covered.empty Ledger.IsFair.le) hrun).2

end Traffic

/-- The messages and the numbers of datagrams of some calls or datagrams. -/
theorem sum_map_worth {α : Type*} (messages : α → List (List UInt8)) (datagrams : α → ℕ)
    (xs : List α) :
    (xs.map fun x => ((messages x : Multiset (List UInt8)), datagrams x)).sum =
      ((xs.flatMap messages : Multiset (List UInt8)), (xs.map datagrams).sum) := by
  induction xs with
  | nil => rfl
  | cons x xs ih =>
    rw [List.map_cons, List.sum_cons, ih, List.flatMap_cons, List.map_cons, List.sum_cons]
    rfl

/-- **No message is delivered more often than it has been sent.** In every run of a network in which
any nodes send packets of any type at any time and others put datagrams into the network, the
upcalls are made with messages of calls of the user type and of datagrams from outside, each used at
most once. A call causes at most 32 datagrams, a ping 64, and a datagram from outside as many as its
time to live, or 32 more for a ping. -/
theorem traffic_covered (S : SignScheme) (nodes : ι → SnNode) {t : Traffic ι}
    (hrun : Relation.ReflTransGen (TrafficStep S) (.idle nodes) t) :
    t.net.upcalls.Subperm
        (t.calls.flatMap SendCall.messages ++ t.injected.flatMap Datagram.messages) ∧
      t.net.transmitted.length ≤
        (t.calls.map SendCall.datagrams).sum + (t.injected.map Datagram.datagrams).sum := by
  have hcovered := Traffic.covered hrun
  rw [Ledger.Covered] at hcovered
  have hspent : t.ledger.spent ≤ t.ledger.granted := le_self_add.trans hcovered
  have hgranted : t.ledger.granted =
      ((t.calls.flatMap SendCall.messages : Multiset (List UInt8)) +
          (t.injected.flatMap Datagram.messages : Multiset (List UInt8)),
        (t.calls.map SendCall.datagrams).sum + (t.injected.map Datagram.datagrams).sum) :=
    congrArg₂ (· + ·) (sum_map_worth SendCall.messages SendCall.datagrams t.calls)
      (sum_map_worth Datagram.messages Datagram.datagrams t.injected)
  rw [hgranted, Multiset.coe_add] at hspent
  exact ⟨Multiset.coe_le.1 hspent.1, hspent.2⟩

/-- The two nodes of the examples. -/
def twoNodes (second : Bool) : SnNode := if second then receiverNode else senderNode

/-- The traffic of two nodes after the first has been asked to send a message to the second. -/
def twoNodesSent (payload : List UInt8) : Traffic Bool :=
  ⟨⟨twoNodes, [sampleDatagram payload], [sampleDatagram payload], []⟩,
    [⟨false, receiverAddr, snWireNetTypeUser, payload⟩], []⟩

theorem trafficStep_twoNodesSent (payload : List UInt8) :
    TrafficStep .plain (.idle twoNodes) (twoNodesSent payload) := by
  obtain ⟨line, hsent⟩ := senderNode_events payload
  have hsend := TrafficStep.send (S := .plain) (.idle twoNodes)
    ⟨false, receiverAddr, snWireNetTypeUser, payload⟩ .ideal
  change TrafficStep .plain _ ⟨Network.act _ (snNodeSend .plain .ideal senderNode receiverAddr
    payload).events, _, _⟩ at hsend
  rw [hsent] at hsend
  exact hsend

/-- The first of two nodes is asked to send a message, which the second hands to its upcall. -/
theorem traffic_covered_two_nodes : ∃ t : Traffic Bool,
    Relation.ReflTransGen (TrafficStep .plain) (.idle twoNodes) t ∧
    t.net.upcalls = [[1, 2, 3]] ∧ t.calls.flatMap SendCall.messages = [[1, 2, 3]] ∧
    t.net.upcalls.Subperm
      (t.calls.flatMap SendCall.messages ++ t.injected.flatMap Datagram.messages) := by
  obtain ⟨line, hreceived⟩ := @receiverNode_events [1, 2, 3] (by decide) .zero
  have hreceive := TrafficStep.network (S := .plain) (twoNodesSent [1, 2, 3])
    (.receive [] [] (sampleDatagram [1, 2, 3]) true .ideal .zero rfl)
  have hrun := (Relation.ReflTransGen.single (trafficStep_twoNodesSent [1, 2, 3])).tail hreceive
  refine ⟨_, hrun, ?_, rfl, (traffic_covered .plain twoNodes hrun).1⟩
  change [] ++ upcallsOf (backgroundStep .plain .ideal receiverNode .zero
    (sampleDatagram [1, 2, 3]).bytes).events = _
  rw [hreceived]
  rfl

end SndNet
