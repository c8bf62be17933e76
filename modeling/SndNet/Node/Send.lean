import SndNet.Node.Authenticity

/-!
# What a successful send promises

A length goes through three representations on its way: the argument of `sn_node_send_typed`, the
sixteen bits of the header that `sn_net_packet_pack` fills in, and the limit
`SN_NET_PACKET_MAX_LEN` that `sn_net_packet_recv` checks (`src/net/packet.c`). The sender checks
nothing, so a payload longer than the limit is sent with success and never received, or, when its
length does not fit into the header, possibly received cut.

## Main definitions

* `SndNet.Receivable`: a datagram is received as a packet with given contents.
* `SndNet.SendPromise`: a send that returns 0 is receivable, and every other returns -1.
* `SndNet.LocalFailure`: what makes the delivery on the node itself fail.

## Main results

* `SndNet.receivable_iff`: the datagrams of a node are receivable exactly up to the limit.
* `SndNet.sendPromise_iff`: when the promise is kept.
-/

namespace SndNet

open FallibleRun SnWireNetHeader

variable (S : SignScheme) (env : Environment) (sns : SnNode) (dst : SnNetAddr) (type : UInt8)
  (payload : List UInt8)

/-! ### Receivable datagrams -/

/-- `sn_net_packet_recv` returns for the datagram `d` a packet from `src` to `dst` of the given type
with the given payload. -/
def Receivable (socket : ℤ) (d : List UInt8) (dst src : SnNetAddr) (type : UInt8)
    (payload : List UInt8) : Prop :=
  ∃ packet, snNetPacketRecv true socket d = .ok (.packet packet) ∧
    snNetPacketGetDst packet = dst ∧ snNetPacketGetSrc packet = src ∧ packet.header.type = type ∧
    packet.header.len.toNat = payload.length ∧ packet.message = payload

/-- The packet that `sn_node_send_typed` hands to `sn_net_packet_send` when it has a next hop. -/
def sentPacket : SnNetPacket := (originPacket S sns dst type payload).decTtl

theorem sentPacket_len :
    (sentPacket S sns dst type payload).header.len.toNat = payload.length % 65536 := by
  obtain ⟨sign, hsign⟩ := originPacket_eq_setSign S sns dst type payload
  rw [sentPacket, hsign]
  exact UInt16.toNat_ofNat'

theorem sentPacket_message :
    (sentPacket S sns dst type payload).message = payload.take (payload.length % 65536) := by
  have hlen := sentPacket_len S sns dst type payload
  obtain ⟨sign, hsign⟩ := originPacket_eq_setSign S sns dst type payload
  have hpayload : (sentPacket S sns dst type payload).payload = payload ++ [0] := by
    rw [sentPacket, hsign]
    rfl
  rw [SnNetPacket.message, hlen, hpayload, List.take_append_of_le_length (Nat.mod_le _ _)]

/-- **What is receivable.** The datagram of a node is received as what was sent exactly when the
payload is within the limit of the receiver. -/
theorem receivable_iff {socket : ℤ} (hsocket : socket ≠ snIoSockInvalid) :
    Receivable socket (sentPacket S sns dst type payload).datagram dst sns.self type payload ↔
      payload.length ≤ snNetPacketMaxLen := by
  have hmax : snNetPacketMaxLen = 1000 := rfl
  have hlen := sentPacket_len S sns dst type payload
  obtain ⟨sign, hsign⟩ := originPacket_eq_setSign S sns dst type payload
  by_cases hshort : (sentPacket S sns dst type payload).header.len.toNat ≤ snNetPacketMaxLen
  · have hrecv : snNetPacketRecv true socket (sentPacket S sns dst type payload).datagram =
        .ok (.packet (sentPacket S sns dst type payload).trim) :=
      snNetPacketRecv_datagram hsocket hshort
    constructor
    · rintro ⟨packet, hpacket, -, -, -, hpayload, -⟩
      rw [hrecv, Except.ok.injEq, RecvOutcome.packet.injEq] at hpacket
      rw [← hpayload, ← hpacket]
      exact hshort
    · intro hpayload
      have hmessage : (sentPacket S sns dst type payload).trim.message = payload := by
        have htrim : (sentPacket S sns dst type payload).trim.message =
            (sentPacket S sns dst type payload).message :=
          List.take_left' (SnNetPacket.length_message _)
        rw [htrim, sentPacket_message, Nat.mod_eq_of_lt (by omega), List.take_length]
      have hlength :
          (sentPacket S sns dst type payload).trim.header.len.toNat = payload.length := by
        rw [SnNetPacket.trim_header, hlen, Nat.mod_eq_of_lt (by omega)]
      refine ⟨_, hrecv, ?_, ?_, ?_, hlength, hmessage⟩ <;>
      · rw [sentPacket, hsign]
        rfl
  · -- The receiver throws away a datagram that announces too much.
    have hlong : lenOfMem (sentPacket S sns dst type payload).datagram > snNetPacketMaxLen := by
      rw [SnNetPacket.lenOfMem_datagram]
      omega
    have hrecv : snNetPacketRecv true socket (sentPacket S sns dst type payload).datagram =
        .ok .dropped := by
      rw [snNetPacketRecv_eq hsocket, if_pos (Or.inr hlong)]
    constructor
    · rintro ⟨packet, hpacket, -⟩
      rw [hrecv] at hpacket
      cases hpacket
    · intro hpayload
      rw [hlen, Nat.mod_eq_of_lt (by omega)] at hshort
      exact absurd hpayload hshort

/-! ### The return value -/

/-- What a successful send promises: when `sn_node_send_typed` returns 0 after the datagram of the
packet has been handed to the network, the datagram is receivable, and otherwise -1 is returned. -/
def SendPromise (socket : ℤ) : Prop :=
  ((snNodeSendTyped S env sns dst type payload).result = .ok 0 ∧
      (∃ naddr, NodeEvent.send ⟨naddr, (sentPacket S sns dst type payload).datagram⟩ ∈
        (snNodeSendTyped S env sns dst type payload).events) →
    Receivable socket (sentPacket S sns dst type payload).datagram dst sns.self type payload) ∧
  (¬ ((snNodeSendTyped S env sns dst type payload).result = .ok 0 ∧
      ∃ naddr, NodeEvent.send ⟨naddr, (sentPacket S sns dst type payload).datagram⟩ ∈
        (snNodeSendTyped S env sns dst type payload).events) →
    (snNodeSendTyped S env sns dst type payload).result = .ok (-1))

/-- The answers that make the handler of a packet without a next hop return -1: there is no upcall
or it returns -1, or the reply to a ping cannot be allocated or is refused. The handler of a reply
does not return. -/
def LocalFailure : Prop :=
  if type = snWireNetTypeUser then
    ∀ up ∈ sns.upcall, up (payload.take (payload.length % 65536)) = -1
  else type ≠ snWireNetTypeReply ∧ (env.packMalloc snWireNetTypeReply →
    (sns.nexthop env sns.self).IsSet ∧ ¬ env.sendto (sns.nexthop env sns.self).netAddr
      (replyPacket S env sns (sentPacket S sns dst type payload)).decTtl.datagram)

variable {S env sns dst type payload}

/-- The datagram of a packet shows its type. -/
theorem type_eq_of_datagram_eq {packet packet' : SnNetPacket}
    (h : packet.datagram = packet'.datagram) : packet.header.type = packet'.header.type := by
  rw [SnNetPacket.datagram_eq, SnNetPacket.datagram_eq] at h
  have hmem := (List.append_inj h (packet.header.length_mem.trans
    packet'.header.length_mem.symm)).1
  rw [← packet.header.getD_type, hmem, packet'.header.getD_type]

theorem sentPacket_type : (sentPacket S sns dst type payload).header.type = type :=
  originPacket_type ..

theorem getSrc_sentPacket : snNetPacketGetSrc (sentPacket S sns dst type payload) = sns.self := by
  obtain ⟨sign, hsign⟩ := originPacket_eq_setSign S sns dst type payload
  rw [sentPacket, hsign]
  rfl

/-- The reply to a ping is sent on, or reaches the handler that does not return. -/
theorem forward_replyPacket (packet : SnNetPacket) :
    forward S env sns (replyPacket S env sns packet) none =
      if (sns.nexthop env (snNetPacketGetSrc packet)).IsSet then
        sendOn env none (replyPacket S env sns packet).decTtl
          (sns.nexthop env (snNetPacketGetSrc packet))
      else ⟨[.log (.packetDeliver none (headerText (replyPacket S env sns packet).decTtl)
        (cString (replyPacket S env sns packet).decTtl.payload))], .error .assertionFailed⟩ := by
  have hdst : snNetPacketGetDst (replyPacket S env sns packet) = snNetPacketGetSrc packet :=
    snNetPacketGetDst_originPacket ..
  have httl : (replyPacket S env sns packet).header.ttl ≠ 0 := originPacket_ttl_ne _ _ _ _ _
  rw [forward_eq, if_neg httl, hdst, deliver_eq, handle_replyPacket]

/-- The return value of `sn_node_send_typed` for a value of `forward`. -/
def sendResult (ret : ℤ) : ℤ := if ret = -1 then -1 else 0

theorem sendResult_eq_neg_one {ret : ℤ} : sendResult ret = -1 ↔ ret = -1 := by
  rw [sendResult]
  split_ifs <;> simp_all

/-- A reply to a ping fails when it is not allocated or refused. -/
theorem map_deliverPingHandler_iff (packet : SnNetPacket) :
    (deliverPingHandler S env sns packet).result = .ok (-1) ↔
      (env.packMalloc snWireNetTypeReply →
        (sns.nexthop env (snNetPacketGetSrc packet)).IsSet ∧
          ¬ env.sendto (sns.nexthop env (snNetPacketGetSrc packet)).netAddr
            (replyPacket S env sns packet).decTtl.datagram) := by
  rw [deliverPingHandler_eq]
  by_cases hmalloc : env.packMalloc snWireNetTypeReply
  · rw [if_pos hmalloc, forward_replyPacket]
    by_cases hset : (sns.nexthop env (snNetPacketGetSrc packet)).IsSet
    · have htype : ¬ (replyPacket S env sns packet).decTtl.header.type ≥ snWireNetTypes := by
        have hreply : (replyPacket S env sns packet).decTtl.header.type = snWireNetTypeReply :=
          originPacket_type ..
        rw [hreply]
        decide
      rw [if_pos hset, sendOn, if_neg htype]
      by_cases hsend : env.sendto (sns.nexthop env (snNetPacketGetSrc packet)).netAddr
          (replyPacket S env sns packet).decTtl.datagram
      · rw [if_pos hsend]
        simp [hmalloc, hsend, Except.map]
      · rw [if_neg hsend]
        simp [hset, hsend, Except.map]
    · rw [if_neg hset]
      simp [hmalloc, hset, Except.map]
  · rw [if_neg hmalloc]
    simp [hmalloc]

/-- **Delivery on the node itself** makes the send return -1 exactly when the handler fails. -/
theorem map_handle_sentPacket_iff (htype : type < snWireNetTypes) :
    (handle S env sns (sentPacket S sns dst type payload)).result.map sendResult = .ok (-1) ↔
      LocalFailure S env sns dst type payload := by
  have hlt : ¬ type ≥ snWireNetTypes := UInt8.not_le.2 htype
  rw [handle, sentPacket_type, if_neg hlt, LocalFailure]
  by_cases huser : type = snWireNetTypeUser
  · rw [if_pos huser, if_pos huser, deliverUserHandler, snNodeUpcall, sentPacket_message]
    cases sns.upcall with
    | none => simp [Except.map, sendResult]
    | some up => simp [Except.map, sendResult_eq_neg_one]
  rw [if_neg huser, if_neg huser]
  by_cases hreply : type = snWireNetTypeReply
  · rw [if_pos hreply]
    simp [hreply, Except.map]
  rw [if_neg hreply, and_iff_right hreply]
  have hping : (deliverPingHandler S env sns (sentPacket S sns dst type payload)).result =
      .ok (-1) ↔ _ := map_deliverPingHandler_iff _
  rw [getSrc_sentPacket] at hping
  rw [← hping]
  cases (deliverPingHandler S env sns (sentPacket S sns dst type payload)).result with
  | error e => simp [Except.map]
  | ok ret => simp [Except.map, sendResult_eq_neg_one]

/-- A packet without a next hop is not handed to the network. -/
theorem send_not_mem_handle (htype : type < snWireNetTypes) (naddr : SnIoNaddr) :
    NodeEvent.send ⟨naddr, (sentPacket S sns dst type payload).datagram⟩ ∉
      (handle S env sns (sentPacket S sns dst type payload)).events := by
  have hlt : ¬ type ≥ snWireNetTypes := UInt8.not_le.2 htype
  rw [handle, sentPacket_type, if_neg hlt]
  split_ifs with huser hreply
  · rw [deliverUserHandler, snNodeUpcall]
    cases sns.upcall <;> simp
  · simp
  · -- The reply that answers a ping is another packet.
    have hne : (sentPacket S sns dst type payload).datagram ≠
        (replyPacket S env sns (sentPacket S sns dst type payload)).decTtl.datagram := by
      intro h
      have htypes := type_eq_of_datagram_eq h
      rw [sentPacket_type] at htypes
      exact hreply (htypes.trans (originPacket_type ..))
    rw [deliverPingHandler_eq]
    split_ifs
    · rw [forward_replyPacket]
      split_ifs
      · rw [sendOn]
        split_ifs <;> simp [hne]
      · simp
    · simp

/-- What `sn_node_send_typed` does with a packet that is allocated. -/
theorem snNodeSendTyped_of_malloc (htype : type < snWireNetTypes) (hmalloc : env.packMalloc type) :
    snNodeSendTyped S env sns dst type payload =
      if (sns.nexthop env dst).IsSet then
        ⟨(sendOn env none (sentPacket S sns dst type payload) (sns.nexthop env dst)).events,
          (sendOn env none (sentPacket S sns dst type payload) (sns.nexthop env dst)).result.map
            sendResult⟩
      else ⟨(deliver S env sns (sentPacket S sns dst type payload) none).events,
        (deliver S env sns (sentPacket S sns dst type payload) none).result.map sendResult⟩ := by
  rw [snNodeSendTyped_eq S env sns dst htype, if_pos hmalloc, forward_eq,
    if_neg (originPacket_ttl_ne _ _ _ _ _), snNetPacketGetDst_originPacket, ← sentPacket]
  split_ifs <;> rfl

/-- The promise of a packet that is sent on. -/
theorem sendPromise_of_nexthop (htype : type < snWireNetTypes) (hmalloc : env.packMalloc type)
    (hset : (sns.nexthop env dst).IsSet) {socket : ℤ} (hsocket : socket ≠ snIoSockInvalid) :
    SendPromise S env sns dst type payload socket ↔
      (env.sendto (sns.nexthop env dst).netAddr (sentPacket S sns dst type payload).datagram →
        payload.length ≤ snNetPacketMaxLen) := by
  have hlt : ¬ (sentPacket S sns dst type payload).header.type ≥ snWireNetTypes := by
    rw [sentPacket_type]
    exact UInt8.not_le.2 htype
  rw [SendPromise, snNodeSendTyped_of_malloc htype hmalloc, if_pos hset, sendOn, if_neg hlt,
    receivable_iff S sns dst type payload hsocket]
  by_cases hsend : env.sendto (sns.nexthop env dst).netAddr
      (sentPacket S sns dst type payload).datagram
  · rw [if_pos hsend]
    simp [hsend, Except.map, sendResult]
  · rw [if_neg hsend]
    simp [hsend, Except.map, sendResult]

/-- The promise of a packet that is delivered on the node itself. -/
theorem sendPromise_of_no_nexthop (htype : type < snWireNetTypes) (hmalloc : env.packMalloc type)
    (hset : ¬ (sns.nexthop env dst).IsSet) (socket : ℤ) :
    SendPromise S env sns dst type payload socket ↔ LocalFailure S env sns dst type payload := by
  have hsent : ¬ ∃ naddr, NodeEvent.send ⟨naddr, (sentPacket S sns dst type payload).datagram⟩ ∈
      (snNodeSendTyped S env sns dst type payload).events := by
    rintro ⟨naddr, hmem⟩
    rw [snNodeSendTyped_of_malloc htype hmalloc, if_neg hset, deliver_eq] at hmem
    exact send_not_mem_handle htype naddr (by simpa using hmem)
  have hresult : (snNodeSendTyped S env sns dst type payload).result =
      (handle S env sns (sentPacket S sns dst type payload)).result.map sendResult := by
    rw [snNodeSendTyped_of_malloc htype hmalloc, if_neg hset, deliver_eq]
  rw [SendPromise, ← map_handle_sentPacket_iff htype, ← hresult]
  exact ⟨fun h => h.2 fun h' => hsent h'.2, fun h => ⟨fun h' => absurd h'.2 hsent, fun _ => h⟩⟩

/-- **When the promise is kept.** A send of a valid type keeps its promise when the packet cannot be
allocated. When it can and has a next hop, it does exactly when the system refuses the datagram or
the payload is within the limit of the receiver. When there is no next hop, nothing is handed to the
network, and it does exactly when the delivery on the node itself fails. -/
theorem sendPromise_iff (htype : type < snWireNetTypes) {socket : ℤ}
    (hsocket : socket ≠ snIoSockInvalid) : SendPromise S env sns dst type payload socket ↔
      (env.packMalloc type →
        if (sns.nexthop env dst).IsSet then
          env.sendto (sns.nexthop env dst).netAddr (sentPacket S sns dst type payload).datagram →
            payload.length ≤ snNetPacketMaxLen
        else LocalFailure S env sns dst type payload) := by
  by_cases hmalloc : env.packMalloc type
  · rw [imp_iff_right hmalloc]
    by_cases hset : (sns.nexthop env dst).IsSet
    · rw [if_pos hset]
      exact sendPromise_of_nexthop htype hmalloc hset hsocket
    · rw [if_neg hset]
      exact sendPromise_of_no_nexthop htype hmalloc hset socket
  · rw [SendPromise, snNodeSendTyped_eq S env sns dst htype, if_neg hmalloc]
    simp [hmalloc]

/-- The promise is kept for a payload of the length of the limit. -/
theorem sendPromise_1000 : SendPromise .plain .ideal senderNode receiverAddr snWireNetTypeUser
    (List.replicate 1000 7) receiverNode.socket := by
  refine (sendPromise_iff (by decide) (by decide)).2 fun _ => ?_
  rw [if_pos senderNode_nexthop]
  intro _
  rw [List.length_replicate]

/-- The promise is not kept for a payload one byte longer: the node returns 0 and the receiver
throws the datagram away. -/
theorem not_sendPromise_1001 : ¬ SendPromise .plain .ideal senderNode receiverAddr snWireNetTypeUser
    (List.replicate 1001 7) receiverNode.socket := by
  rw [sendPromise_of_nexthop (by decide) rfl senderNode_nexthop receiverNode.socket_ne,
    List.length_replicate]
  exact fun h => absurd (h rfl) (by decide)

end SndNet
