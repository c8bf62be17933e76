import Mathlib.Logic.Relation
import SndNet.Node.Authenticity

/-!
# One packet in a network

Any number of nodes exchange datagrams over a network that may lose and reorder them but neither
duplicates nor alters them. This file follows one `sn_node_send` of the user type through all runs
of such a network, whatever the routers contain and however they change meanwhile: a node that
takes the packet from the network sends at most one copy on, with a smaller time to live, or makes
at most one upcall, so that a single copy is passed around a bounded number of times.

## Main definitions

* `SndNet.Network`: the nodes, the datagrams in flight, and what has happened.
* `SndNet.Network.start`: the network after one `sn_node_send`.
* `SndNet.NetworkStep`: a node reads a datagram, the network loses one, or the nodes change.
* `SndNet.CopyInv`: there is one copy of a packet, in flight or with the upcall.

## Main results

* `SndNet.CopyInv.act_forward`: forwarding the copy keeps it single.
* `SndNet.CopyInv.step`: every step of the network keeps the copy single.
* `SndNet.network_at_most_once`: a packet is delivered at most once, after at most 32 datagrams.
-/

namespace SndNet

open FallibleRun SnWireNetHeader

variable {ι : Type*} (S : SignScheme)

/-- The nodes and the network between them. -/
structure Network (ι : Type*) where
  nodes : ι → SnNode
  /-- The datagrams that are neither read nor lost. -/
  inflight : List Datagram
  /-- All datagrams that have been sent, the earliest first. -/
  transmitted : List Datagram
  /-- All messages that have been handed to an upcall. -/
  upcalls : List (List UInt8)

namespace Network

/-- The network after the events of a node. -/
def act (net : Network ι) (ws : List NodeEvent) : Network ι :=
  { net with
    inflight := net.inflight ++ sentOf ws
    transmitted := net.transmitted ++ sentOf ws
    upcalls := net.upcalls ++ upcallsOf ws }

/-- The network after one `sn_node_send` of the node `i`, with nothing else in flight. -/
def start (nodes : ι → SnNode) (env : Environment) (i : ι) (dst : SnNetAddr)
    (payload : List UInt8) : Network ι :=
  act ⟨nodes, [], [], []⟩ (snNodeSend S env (nodes i) dst payload).events

end Network

/-- What a round of the background loop leaves of a datagram in the socket. -/
def leftInSocket (env : Environment) (sns : SnNode) (d : Datagram) : List Datagram :=
  match snNetPacketRecv env.recvMalloc sns.socket d.bytes with
  | .ok .kept => [d]
  | _ => []

/-- A step of the network. Any node may read any of the datagrams in flight. -/
inductive NetworkStep : Network ι → Network ι → Prop
  /-- The node `i` reads a datagram. -/
  | receive {net : Network ι} (before after : List Datagram) (d : Datagram) (i : ι)
      (env : Environment) (remAddr : SnIoNaddr) (h : net.inflight = before ++ d :: after) :
      NetworkStep net
        (({ net with inflight := before ++ (leftInSocket env (net.nodes i) d ++ after) } :
          Network ι).act (backgroundStep S env (net.nodes i) remAddr d.bytes).events)
  /-- The network loses a datagram. -/
  | lose {net : Network ι} (before after : List Datagram) (d : Datagram)
      (h : net.inflight = before ++ d :: after) :
      NetworkStep net { net with inflight := before ++ after }
  /-- The nodes learn or forget addresses, or change their upcalls. -/
  | update {net : Network ι} (nodes : ι → SnNode) : NetworkStep net { net with nodes := nodes }

/-! ### The single copy -/

/-- There is at most one copy of a packet, in flight or with the upcall, and the time to live of
the copies that have been sent counts down from 31. -/
structure CopyInv (packet : SnNetPacket) (net : Network ι) : Prop where
  single : net.inflight.length + net.upcalls.length ≤ 1
  inflight : ∀ d ∈ net.inflight, ∃ ttl, d.bytes = copyBytes packet ttl ∧
    ttl.toNat + net.transmitted.length = 32
  transmitted : ∀ k d, net.transmitted[k]? = some d → ∃ ttl, d.bytes = copyBytes packet ttl ∧
    ttl.toNat + (k + 1) = 32
  upcalls : ∀ msg ∈ net.upcalls, msg = packet.message

namespace CopyInv

variable {S} {packet : SnNetPacket} {net net' : Network ι} {env : Environment} {sns : SnNode}
  {remAddr : Option SnIoNaddr} {ttl : UInt8}

/-- **Forwarding keeps the copy single.** -/
theorem act_forward (htype : packet.header.type = snWireNetTypeUser)
    (hinflight : net.inflight = []) (hupcalls : net.upcalls = [])
    (htransmitted : ∀ k d, net.transmitted[k]? = some d →
      ∃ ttl, d.bytes = copyBytes packet ttl ∧ ttl.toNat + (k + 1) = 32)
    (httl : ttl.toNat + net.transmitted.length = 32) :
    CopyInv packet (net.act (forward S env sns (packet.setTtl ttl) remAddr).events) := by
  have hact := forward_user S env sns (packet.setTtl ttl) remAddr htype
  generalize (forward S env sns (packet.setTtl ttl) remAddr).events = ws at hact
  rcases hact with ⟨hsent, hup⟩ | ⟨hne, ⟨naddr, hsent⟩, hup⟩ | ⟨-, hsent, hup⟩
  · refine ⟨?_, ?_, ?_, ?_⟩ <;> simp [Network.act, hinflight, hupcalls, hsent, hup]
    exact htransmitted
  · have hdec := toNat_sub_one_add_one (show ttl ≠ 0 from hne)
    have hcopy := datagram_decTtl_setTtl packet ttl
    refine ⟨?_, ?_, ?_, ?_⟩
    · simp [Network.act, hinflight, hupcalls, hsent, hup]
    · intro d hd
      obtain rfl : d = ⟨naddr, copyBytes packet (ttl - 1)⟩ := by
        simpa [Network.act, hinflight, hsent, hcopy] using hd
      refine ⟨ttl - 1, rfl, ?_⟩
      rw [Network.act, hsent, List.length_append, List.length_singleton]
      omega
    · intro k d hd
      rw [Network.act, hsent, List.getElem?_append] at hd
      by_cases hk : k < net.transmitted.length
      · exact htransmitted k d ((if_pos hk).symm.trans hd)
      · rw [if_neg hk, List.getElem?_singleton] at hd
        split_ifs at hd with hlast
        obtain rfl := Option.some.inj hd
        exact ⟨ttl - 1, hcopy, by omega⟩
    · simp [Network.act, hupcalls, hup]
  · refine ⟨?_, ?_, ?_, ?_⟩ <;> simp [Network.act, hinflight, hupcalls, hsent, hup]
    exact htransmitted

/-- Without anything in flight no time to live is left to keep. -/
theorem of_inflight_nil (hinv : CopyInv packet net) {nodes : ι → SnNode} :
    CopyInv packet ⟨nodes, [], net.transmitted, net.upcalls⟩ where
  single := by
    rw [List.length_nil, Nat.zero_add]
    exact (Nat.le_add_left _ _).trans hinv.single
  inflight := by simp
  transmitted := hinv.transmitted
  upcalls := hinv.upcalls

/-- The only datagram in flight. -/
theorem inflight_eq (hinv : CopyInv packet net) {before after : List Datagram} {d : Datagram}
    (h : net.inflight = before ++ d :: after) : before = [] ∧ after = [] ∧ net.upcalls = [] := by
  have hsingle := hinv.single
  rw [h, List.length_append, List.length_cons] at hsingle
  exact ⟨List.length_eq_zero_iff.1 (by omega), List.length_eq_zero_iff.1 (by omega),
    List.length_eq_zero_iff.1 (by omega)⟩

/-- **Every step keeps the copy single.** -/
theorem step (htype : packet.header.type = snWireNetTypeUser)
    (hlen : packet.header.len.toNat ≤ snNetPacketMaxLen) (htrim : packet.trim = packet)
    (hinv : CopyInv packet net) (hstep : NetworkStep S net net') : CopyInv packet net' := by
  cases hstep with
  | update nodes => exact ⟨hinv.single, hinv.inflight, hinv.transmitted, hinv.upcalls⟩
  | lose before after d h =>
    obtain ⟨rfl, rfl, -⟩ := hinv.inflight_eq h
    exact hinv.of_inflight_nil
  | receive before after d i env remAddr h =>
    obtain ⟨rfl, rfl, hupcalls⟩ := hinv.inflight_eq h
    obtain ⟨ttl, hbytes, httl⟩ := hinv.inflight d (by rw [h]; exact List.mem_cons_self)
    rw [hbytes, backgroundStep_copyBytes _ _ _ _ hlen htrim, leftInSocket, hbytes,
      snNetPacketRecv_copyBytes packet _ (net.nodes i).socket_ne hlen htrim]
    by_cases hmalloc : env.recvMalloc
    · rw [if_pos hmalloc, if_pos hmalloc]
      by_cases hbad : (net.nodes i).checkSign ∧ snNetPacketCheckSign S (packet.setTtl ttl) ≠ 0
      · simp only [if_pos hbad]
        simpa [Network.act, sentOf, upcallsOf] using hinv.of_inflight_nil
      · simp only [if_neg hbad]
        exact act_forward htype rfl hupcalls hinv.transmitted httl
    · rw [if_neg hmalloc, if_neg hmalloc]
      simpa [Network.act, sentOf, upcallsOf, ← h] using hinv

end CopyInv

/-- The time to live stands at its offset in the bytes of a copy. -/
theorem getD_copyBytes (packet : SnNetPacket) (ttl : UInt8) :
    (copyBytes packet ttl).getD offsetofTtl 0 = ttl := by
  rw [copyBytes, SnNetPacket.datagram_eq]
  rfl

/-- **A packet is delivered at most once.** After one `sn_node_send` of a short payload, in every
state of every run of the network, at most one copy is in flight, at most 32 datagrams have been
sent, with a time to live that counts down from 31, and at most one upcall has been made, with the
payload as its message. -/
theorem network_at_most_once (nodes : ι → SnNode) (env : Environment) (i : ι) (dst : SnNetAddr)
    {payload : List UInt8} (hpayload : payload.length ≤ snNetPacketMaxLen) {net : Network ι}
    (hrun : Relation.ReflTransGen (NetworkStep S) (.start S nodes env i dst payload) net) :
    net.inflight.length ≤ 1 ∧ net.transmitted.length ≤ 32 ∧
      (∀ k d, net.transmitted[k]? = some d →
        (d.bytes.getD offsetofTtl 0).toNat + (k + 1) = 32) ∧
      net.upcalls.length ≤ 1 ∧ ∀ msg ∈ net.upcalls, msg = payload := by
  obtain ⟨hlen, htrim, hmessage⟩ := originPacket_spec S (nodes i) dst snWireNetTypeUser hpayload
  obtain ⟨sign, hsign⟩ := originPacket_eq_setSign S (nodes i) dst snWireNetTypeUser payload
  have htype : (originPacket S (nodes i) dst snWireNetTypeUser payload).header.type =
      snWireNetTypeUser := by
    rw [hsign]
    rfl
  have hstart : CopyInv (originPacket S (nodes i) dst snWireNetTypeUser payload)
      (.start S nodes env i dst payload) := by
    rw [Network.start, snNodeSend, snNodeSendTyped_eq _ _ _ _ (by decide)]
    by_cases hmalloc : env.packMalloc snWireNetTypeUser
    · rw [if_pos hmalloc, ← originPacket_setTtl]
      exact CopyInv.act_forward htype rfl rfl (by simp) rfl
    · rw [if_neg hmalloc]
      refine ⟨?_, ?_, ?_, ?_⟩ <;> simp [Network.act, sentOf, upcallsOf]
  have hinv : CopyInv (originPacket S (nodes i) dst snWireNetTypeUser payload) net := by
    induction hrun with
    | refl => exact hstart
    | tail _ hstep ih => exact ih.step htype hlen htrim hstep
  have hcount : ∀ k d, net.transmitted[k]? = some d →
      (d.bytes.getD offsetofTtl 0).toNat + (k + 1) = 32 := by
    intro k d hd
    obtain ⟨ttl, hbytes, httl⟩ := hinv.transmitted k d hd
    rw [hbytes, getD_copyBytes]
    exact httl
  refine ⟨(Nat.le_add_right _ _).trans hinv.single, ?_, hcount,
    (Nat.le_add_left _ _).trans hinv.single, fun msg hmsg => (hinv.upcalls msg hmsg).trans hmessage⟩
  by_contra hlong
  have hlast : 32 < net.transmitted.length := by omega
  have := hcount 32 _ (List.getElem?_eq_getElem hlast)
  omega

/-- A run in which the second of two nodes delivers what the first has sent. -/
theorem network_at_most_once_two_nodes : ∃ net : Network Bool,
    Relation.ReflTransGen (NetworkStep .plain) (.start .plain
      (fun i => if i then receiverNode else senderNode) .ideal false receiverAddr [1, 2, 3]) net ∧
    net.transmitted.length = 1 ∧ net.upcalls = [[1, 2, 3]] ∧ net.inflight.length ≤ 1 := by
  obtain ⟨line, hsent⟩ := senderNode_events [1, 2, 3]
  obtain ⟨line', hreceived⟩ := @receiverNode_events [1, 2, 3] (by decide) .zero
  have hstart : Network.start .plain (fun i => if i then receiverNode else senderNode) .ideal false
      receiverAddr [1, 2, 3] = ⟨fun i => if i then receiverNode else senderNode,
        [sampleDatagram [1, 2, 3]], [sampleDatagram [1, 2, 3]], []⟩ := by
    change Network.act _ (snNodeSend .plain .ideal senderNode receiverAddr [1, 2, 3]).events = _
    rw [hsent]
    rfl
  obtain ⟨net, hstep, htransmitted, hupcalls⟩ : ∃ net, NetworkStep .plain
      (.start .plain (fun i => if i then receiverNode else senderNode) .ideal false receiverAddr
        [1, 2, 3]) net ∧ net.transmitted.length = 1 ∧ net.upcalls = [[1, 2, 3]] := by
    rw [hstart]
    refine ⟨_, .receive [] [] (sampleDatagram [1, 2, 3]) true .ideal .zero rfl, ?_, ?_⟩
    · change ([sampleDatagram [1, 2, 3]] ++ sentOf (backgroundStep .plain .ideal receiverNode .zero
        (sampleDatagram [1, 2, 3]).bytes).events).length = 1
      rw [hreceived]
      rfl
    · change [] ++ upcallsOf (backgroundStep .plain .ideal receiverNode .zero
        (sampleDatagram [1, 2, 3]).bytes).events = _
      rw [hreceived]
      rfl
  exact ⟨net, .single hstep, htransmitted, hupcalls,
    (network_at_most_once .plain _ .ideal false receiverAddr (by decide) (.single hstep)).1⟩

end SndNet
