import SndNet.Node.Authenticity

/-!
# Datagrams that abort a node

The handler of replies consists of a failing assertion (`src/handler.c`, lines 49–58), while the
other handlers process their packets. This file determines which accepted datagrams reach it: those
that bring a reply to a node that has no next hop for its destination, and those that bring a ping
to a node that has a next hop neither for the destination nor for the source, since the reply to
such a ping is delivered to the node itself. Every other datagram is processed without a failing
assertion.

## Main definitions

* `SndNet.ReachesReplyHandler`: the packets that reach the handler of replies.

## Main results

* `SndNet.forward_result_eq_error_iff`: `forward` fails an assertion exactly when the handler does.
* `SndNet.background_assertion_iff`: the datagrams that a node survives.
-/

namespace SndNet

open FallibleRun

variable {S : SignScheme} {env : Environment} {sns : SnNode} {packet : SnNetPacket}

/-- A packet that is delivered on the node and is a reply, or a ping whose reply is again delivered
on the node. -/
def ReachesReplyHandler (env : Environment) (sns : SnNode) (packet : SnNetPacket) : Prop :=
  packet.header.ttl ≠ 0 ∧ ¬ (sns.nexthop env (snNetPacketGetDst packet)).IsSet ∧
    (packet.header.type = snWireNetTypeReply ∨
      packet.header.type = snWireNetTypePing ∧ env.packMalloc snWireNetTypeReply ∧
        ¬ (sns.nexthop env (snNetPacketGetSrc packet)).IsSet)

/-- Renaming the value of a computation renames no error. -/
theorem map_eq_error_iff {ε α β : Type*} {f : α → β} {x : Except ε α} {e : ε} :
    x.map f = .error e ↔ x = .error e := by
  cases x <;> simp [Except.map]

/-- **Forwarding fails an assertion exactly when the handler does.** -/
theorem forward_result_eq_error_iff {remAddr : Option SnIoNaddr} {f : Fault} :
    (forward S env sns packet remAddr).result = .error f ↔
      packet.header.ttl ≠ 0 ∧ ¬ (sns.nexthop env (snNetPacketGetDst packet)).IsSet ∧
        (handle S env sns packet.decTtl).result = .error f := by
  rw [forward_eq]
  by_cases httl : packet.header.ttl = 0
  · simp [httl]
  rw [if_neg httl]
  by_cases hset : (sns.nexthop env (snNetPacketGetDst packet)).IsSet
  · rw [if_pos hset, sendOn]
    split_ifs <;> simp [hset]
  · rw [if_neg hset, deliver_eq]
    simp [httl, hset]

/-- A type below the number of types that is neither of the first two is that of a ping. -/
theorem eq_ping_of_ne {type : UInt8} (hlt : ¬ type ≥ snWireNetTypes)
    (huser : type ≠ snWireNetTypeUser) (hreply : type ≠ snWireNetTypeReply) :
    type = snWireNetTypePing := by
  rw [ge_iff_le, UInt8.le_iff_toNat_le] at hlt
  rw [Ne, ← UInt8.toNat_inj] at huser hreply
  rw [← UInt8.toNat_inj]
  have htypes : snWireNetTypeUser.toNat = 0 ∧ snWireNetTypeReply.toNat = 1 ∧
      snWireNetTypePing.toNat = 2 ∧ snWireNetTypes.toNat = 3 := ⟨rfl, rfl, rfl, rfl⟩
  omega

/-- The reply to a ping is delivered on the node exactly when its source has no next hop. -/
theorem ping_result_eq_error_iff {f : Fault} :
    (deliverPingHandler S env sns packet).result = .error f ↔ f = .assertionFailed ∧
      env.packMalloc snWireNetTypeReply ∧ ¬ (sns.nexthop env (snNetPacketGetSrc packet)).IsSet := by
  rw [deliverPingHandler_eq]
  by_cases hmalloc : env.packMalloc snWireNetTypeReply
  · have httl : (replyPacket S env sns packet).header.ttl ≠ 0 := originPacket_ttl_ne _ _ _ _ _
    have hdst : snNetPacketGetDst (replyPacket S env sns packet) = snNetPacketGetSrc packet :=
      snNetPacketGetDst_originPacket ..
    rw [if_pos hmalloc, map_eq_error_iff, forward_result_eq_error_iff, hdst, handle_replyPacket]
    simp only [ne_eq, httl, not_false_eq_true, true_and, hmalloc, Except.error.injEq]
    exact ⟨fun ⟨hset, hf⟩ => ⟨hf.symm, hset⟩, fun ⟨hf, hset⟩ => ⟨hset, hf.symm⟩⟩
  · simp [hmalloc]

/-- The handlers that fail are that of replies and that of pings whose reply is delivered. -/
theorem handle_result_eq_error_iff {f : Fault} :
    (handle S env sns packet).result = .error f ↔ f = .assertionFailed ∧
      (packet.header.type = snWireNetTypeReply ∨
        packet.header.type = snWireNetTypePing ∧ env.packMalloc snWireNetTypeReply ∧
          ¬ (sns.nexthop env (snNetPacketGetSrc packet)).IsSet) := by
  by_cases hreply : packet.header.type = snWireNetTypeReply
  · rw [handle_of_reply hreply, Except.error.injEq]
    exact ⟨fun h => ⟨h.symm, Or.inl hreply⟩, fun h => h.1.symm⟩
  by_cases hping : packet.header.type = snWireNetTypePing
  · rw [handle, hping, if_neg (by decide), if_neg (by decide), if_neg (by decide),
      ping_result_eq_error_iff]
    have hne : snWireNetTypePing ≠ snWireNetTypeReply := by decide
    simp only [hne, true_and, false_or]
  have hother : (handle S env sns packet).result ≠ .error f := by
    rw [handle]
    split_ifs with hlarge huser
    · simp
    · rw [deliverUserHandler, snNodeUpcall]
      cases sns.upcall <;> simp
    · exact absurd (eq_ping_of_ne hlarge huser hreply) hping
  simp [hother, hreply, hping]

/-- A round of the background loop on an accepted datagram fails exactly when the packet reaches the
handler of replies. -/
theorem background_result_eq_error_iff {remAddr : SnIoNaddr} {d : List UInt8} {f : Fault}
    (hrecv : snNetPacketRecv env.recvMalloc sns.socket d = .ok (.packet packet))
    (haccept : sns.checkSign → snNetPacketCheckSign S packet = 0) :
    (backgroundStep S env sns remAddr d).result = .error f ↔
      f = .assertionFailed ∧ ReachesReplyHandler env sns packet := by
  have hchecked : ¬ (sns.checkSign ∧ snNetPacketCheckSign S packet ≠ 0) := fun ⟨hcheck, hne⟩ =>
    hne (haccept hcheck)
  have hsrc : snNetPacketGetSrc packet.decTtl = snNetPacketGetSrc packet := rfl
  have hstep : (backgroundStep S env sns remAddr d).result =
      (forward S env sns packet (some remAddr)).result.map fun _ => () := by
    rw [backgroundStep_eq, hrecv]
    simp only [if_neg hchecked]
  rw [hstep, map_eq_error_iff, forward_result_eq_error_iff, handle_result_eq_error_iff, hsrc,
    ReachesReplyHandler, SnNetPacket.decTtl_header]
  exact ⟨fun ⟨httl, hset, hf, h⟩ => ⟨hf, httl, hset, h⟩,
    fun ⟨hf, httl, hset, h⟩ => ⟨httl, hset, hf, h⟩⟩

/-- **The datagrams that a node survives.** A datagram that the background loop accepts is processed
without a failing assertion exactly when its packet does not reach the handler of replies. -/
theorem background_assertion_iff {remAddr : SnIoNaddr} {d : List UInt8}
    (hrecv : snNetPacketRecv env.recvMalloc sns.socket d = .ok (.packet packet))
    (haccept : sns.checkSign → snNetPacketCheckSign S packet = 0) :
    (backgroundStep S env sns remAddr d).result ≠ .error .assertionFailed ↔
      ¬ ReachesReplyHandler env sns packet := by
  rw [Ne, background_result_eq_error_iff hrecv haccept]
  exact not_congr (and_iff_right rfl)

/-- The second node survives a message of the first. -/
theorem background_assertion_message :
    (backgroundStep .plain .ideal receiverNode .zero (sampleDatagram [1, 2, 3]).bytes).result ≠
      .error .assertionFailed := by
  obtain ⟨hlen, htrim, -⟩ := originPacket_spec .plain senderNode receiverAddr snWireNetTypeUser
    (show [1, 2, 3].length ≤ snNetPacketMaxLen by decide)
  have hrecv : snNetPacketRecv Environment.ideal.recvMalloc receiverNode.socket
      (sampleDatagram [1, 2, 3]).bytes =
        .ok (.packet ((samplePacket [1, 2, 3]).setTtl (snNetPacketDefaultTtl - 1))) :=
    snNetPacketRecv_copyBytes _ true receiverNode.socket_ne hlen htrim _
  have huser : (samplePacket [1, 2, 3]).header.type = snWireNetTypeUser := originPacket_type ..
  refine (background_assertion_iff hrecv fun _ =>
    snNetPacketCheckSign_originPacket rfl (self_key_plain _ _) ..).2 ?_
  rintro ⟨-, -, htype | ⟨htype, -⟩⟩
  · exact absurd (huser.symm.trans htype) (by decide)
  · exact absurd (huser.symm.trans htype) (by decide)

/-- A reply of the first node to the second. -/
def sampleReply : SnNetPacket :=
  originPacket .plain senderNode receiverAddr snWireNetTypeReply []

/-- A signed reply of the first node aborts the second. -/
theorem background_aborts_on_reply : ¬ ∀ (S : SignScheme) (q : Sorter SnNetEntry)
    (env : Environment) (sns : SnNode) (remAddr : SnIoNaddr) (d : List UInt8)
    (packet : SnNetPacket), Reachable q sns.router →
    snNetPacketRecv env.recvMalloc sns.socket d = .ok (.packet packet) →
    (sns.checkSign → snNetPacketCheckSign S packet = 0) →
    (backgroundStep S env sns remAddr d).result ≠ .error .assertionFailed := by
  intro h
  obtain ⟨hlen, htrim, -⟩ := originPacket_spec .plain senderNode receiverAddr snWireNetTypeReply
    (show [].length ≤ snNetPacketMaxLen by decide)
  rw [← sampleReply] at hlen htrim
  have hrecv : snNetPacketRecv Environment.ideal.recvMalloc receiverNode.socket
      (copyBytes sampleReply 31) = .ok (.packet (sampleReply.setTtl 31)) :=
    snNetPacketRecv_copyBytes _ true receiverNode.socket_ne hlen htrim _
  have haccept : receiverNode.checkSign → snNetPacketCheckSign .plain (sampleReply.setTtl 31) = 0 :=
    fun _ => snNetPacketCheckSign_originPacket rfl (self_key_plain _ _) ..
  have hdst : snNetPacketGetDst sampleReply = receiverAddr := snNetPacketGetDst_originPacket ..
  have htype : sampleReply.header.type = snWireNetTypeReply := originPacket_type ..
  refine h .plain (.insertion _) .ideal receiverNode .zero _ _ (.init _ _ _) hrecv haccept ?_
  refine (background_result_eq_error_iff hrecv haccept).2 ⟨rfl, by decide, ?_, Or.inl htype⟩
  change ¬ (receiverNode.nexthop .ideal (snNetPacketGetDst sampleReply)).IsSet
  rw [hdst]
  exact receiverNode_nexthop

end SndNet
