import SndNet.Node.Forward

/-!
# Authenticity from end to end

A node signs what it sends with its secret key, its address being the public key, and a node that
checks signatures looks at nothing else of a packet before it forwards or delivers it. The part of
a packet that is signed holds its destination, its type and its message, and leaves out the time to
live, which every hop changes. This file proves that a signed packet passes the check at every node
it is carried to, and that what reaches an upcall has passed the check.

## Main definitions

* `SndNet.Carried`: the datagrams that carry a packet from one node to the next.

## Main results

* `SndNet.Carried.exists_copy`: a carried datagram is a copy of the packet sent.
* `SndNet.snNetPacketCheckSign_originPacket`: the packet that a node sends passes the check.
* `SndNet.packet_authenticity`: carried packets pass the check, and upcalls get checked messages.
-/

namespace SndNet

open FallibleRun

variable {S : SignScheme}

/-- The datagrams that carry the packet sent by `sn_node_send_typed`, with the number of nodes that
have passed it on. Every one of these nodes checks signatures and has a next hop for the packet. -/
inductive Carried (S : SignScheme) (sns : SnNode) (dst : SnNetAddr) (type : UInt8)
    (payload : List UInt8) : ℕ → Datagram → Prop
  | origin (env : Environment) (hnext : (sns.nexthop env dst).IsSet) {d : Datagram}
      (h : NodeEvent.send d ∈ (snNodeSendTyped S env sns dst type payload).events) :
      Carried S sns dst type payload 0 d
  | hop {k : ℕ} {d : Datagram} (h : Carried S sns dst type payload k d) (node : SnNode)
      (hcheck : node.checkSign) (env : Environment) (remAddr : SnIoNaddr)
      (hnext : (node.nexthop env dst).IsSet) {d' : Datagram}
      (h' : NodeEvent.send d' ∈ (backgroundStep S env node remAddr d.bytes).events) :
      Carried S sns dst type payload (k + 1) d'

variable {sns : SnNode} {dst : SnNetAddr} {type : UInt8} {payload : List UInt8} {k : ℕ}
  {d : Datagram}

/-- **A carried datagram is a copy** of the packet sent, with a smaller time to live. -/
theorem Carried.exists_copy (htype : type < snWireNetTypes)
    (hpayload : payload.length ≤ snNetPacketMaxLen) (h : Carried S sns dst type payload k d) :
    ∃ ttl, d.bytes = copyBytes (originPacket S sns dst type payload) ttl ∧
      ttl.toNat + (k + 1) = 32 := by
  obtain ⟨sign, hsign⟩ := originPacket_eq_setSign S sns dst type payload
  obtain ⟨hlen, htrim, -⟩ := originPacket_spec S sns dst type hpayload
  induction h with
  | origin env hnext h =>
    rw [snNodeSendTyped_eq S env sns dst htype] at h
    split_ifs at h
    · obtain ⟨-, hbytes⟩ := send_mem_forward (by rw [hsign]; exact hnext) h
      refine ⟨snNetPacketDefaultTtl - 1, ?_, rfl⟩
      rw [hbytes, ← datagram_decTtl_setTtl, originPacket_setTtl]
    · simp at h
  | hop h node hcheck env remAddr hnext h' ih =>
    obtain ⟨ttl, hbytes, httl⟩ := ih
    rw [hbytes, backgroundStep_copyBytes _ _ _ _ hlen htrim] at h'
    split_ifs at h' with hmalloc hbad
    · simp at h'
    · obtain ⟨hne, hbytes'⟩ := send_mem_forward (by rw [hsign]; exact hnext) h'
      refine ⟨ttl - 1, hbytes', ?_⟩
      have hdec := toNat_sub_one_add_one (show ttl ≠ 0 from hne)
      omega
    · simp at h'

/-- The packet that a signing node sends passes the check. -/
theorem snNetPacketCheckSign_originPacket (hsign : sns.sign)
    (hself : sns.self.key = (snCryptoSignPkFromSk S sns.sk).pk) (dst : SnNetAddr) (type : UInt8)
    (payload : List UInt8) (ttl : UInt8) :
    snNetPacketCheckSign S ((originPacket S sns dst type payload).setTtl ttl) = 0 := by
  have horigin : originPacket S sns dst type payload =
      snNetPacketSign S (packedPacket dst sns.self type payload) sns.sk := if_pos hsign
  have hkey : SnCryptoSignPubkey.mk sns.self.key = snCryptoSignPkFromSk S sns.sk := by rw [hself]
  rw [snNetPacketCheckSign, SnNetPacket.setTtl_signedPart, horigin, snNetPacketSign,
    SnNetPacket.setSign_signedPart]
  exact hkey ▸ snCryptoSignCheck_sign S sns.sk _

/-- **Upcalls get checked messages.** -/
theorem upcall_checked {rounds : List Round} (hcheck : ∀ r ∈ rounds, r.sns.checkSign)
    {msg : List UInt8} (h : NodeEvent.upcall msg ∈ (background S rounds).events) :
    ∃ r ∈ rounds, ∃ packet,
      snNetPacketRecv r.env.recvMalloc r.sns.socket r.datagram = .ok (.packet packet) ∧
      snNetPacketCheckSign S packet = 0 ∧ msg = packet.message := by
  obtain ⟨r, hr, h⟩ := Traced.exists_mem_of_mem_forM h
  refine ⟨r, hr, ?_⟩
  rw [backgroundStep_eq] at h
  split at h
  next packet hpacket =>
    refine ⟨packet, hpacket, ?_⟩
    split_ifs at h with hbad
    · simp at h
    · refine ⟨?_, upcall_mem_forward h⟩
      by_contra hne
      exact hbad ⟨hcheck r hr, hne⟩
  next => simp at h

/-- **Authenticity from end to end.** What is signed and what is checked are the destination, the
type and the message of a packet, which these bytes determine. A packet sent under the secret key
of the sender's address passes the check at every node that a chain of checking nodes carries it
to. Every upcall of a checking node is given the message of a datagram whose signature verifies
under the key that is its source address. -/
theorem packet_authenticity (S : SignScheme) :
    (∀ (packet : SnNetPacket) (key : SnCryptoSignKey),
      snNetPacketSign S packet key = packet.setSign (S.cryptoSignDetached
        (signedBytes (snNetPacketGetDst packet) packet.header.type packet.message) key) ∧
      snNetPacketCheckSign S packet = S.cryptoSignVerifyDetached packet.header.sign
        (signedBytes (snNetPacketGetDst packet) packet.header.type packet.message)
        ⟨packet.header.src.key⟩) ∧
    (∀ packet packet' : SnNetPacket,
      signedBytes (snNetPacketGetDst packet) packet.header.type packet.message =
        signedBytes (snNetPacketGetDst packet') packet'.header.type packet'.message →
      snNetPacketGetDst packet = snNetPacketGetDst packet' ∧
        packet.header.type = packet'.header.type ∧ packet.header.len = packet'.header.len ∧
        packet.message = packet'.message) ∧
    (∀ (sns : SnNode) (dst : SnNetAddr) (type : UInt8) (payload : List UInt8) (k : ℕ)
      (d : Datagram), sns.sign → sns.self.key = (snCryptoSignPkFromSk S sns.sk).pk →
      type < snWireNetTypes → payload.length ≤ snNetPacketMaxLen →
      Carried S sns dst type payload k d → ∀ node : SnNode, ∃ packet,
        snNetPacketRecv true node.socket d.bytes = .ok (.packet packet) ∧
        snNetPacketCheckSign S packet = 0 ∧ snNetPacketGetDst packet = dst ∧
        packet.header.type = type ∧ packet.message = payload ∧
        packet.header.ttl.toNat + (k + 1) = 32) ∧
    (∀ rounds : List Round, (∀ r ∈ rounds, r.sns.checkSign) → ∀ msg : List UInt8,
      NodeEvent.upcall msg ∈ (background S rounds).events →
      ∃ r ∈ rounds, ∃ packet,
        snNetPacketRecv r.env.recvMalloc r.sns.socket r.datagram = .ok (.packet packet) ∧
        msg = packet.message ∧
        S.cryptoSignVerifyDetached packet.header.sign
          (signedBytes (snNetPacketGetDst packet) packet.header.type msg)
          ⟨packet.header.src.key⟩ = 0) := by
  refine ⟨fun packet key => ?_, fun packet packet' h => ?_, ?_, fun rounds hcheck msg h => ?_⟩
  · rw [snNetPacketSign, snNetPacketCheckSign, SnNetPacket.signedPart_eq]
    exact ⟨rfl, rfl⟩
  · rw [← SnNetPacket.signedPart_eq, ← SnNetPacket.signedPart_eq] at h
    exact SnNetPacket.signedPart_inj.1 h
  · intro sns dst type payload k d hsign hself htype hpayload hcarried node
    obtain ⟨ttl, hbytes, httl⟩ := hcarried.exists_copy htype hpayload
    obtain ⟨hlen, htrim, hmessage⟩ := originPacket_spec S sns dst type hpayload
    obtain ⟨sign, horigin⟩ := originPacket_eq_setSign S sns dst type payload
    refine ⟨(originPacket S sns dst type payload).setTtl ttl, ?_,
      snNetPacketCheckSign_originPacket hsign hself dst type payload ttl, ?_, ?_, hmessage, httl⟩
    · rw [hbytes, snNetPacketRecv_copyBytes _ _ node.socket_ne hlen htrim, if_pos rfl]
    · rw [horigin]
      rfl
    · rw [horigin]
      rfl
  · obtain ⟨r, hr, packet, hrecv, hsigned, rfl⟩ := upcall_checked hcheck h
    refine ⟨r, hr, packet, hrecv, rfl, ?_⟩
    rw [← SnNetPacket.signedPart_eq]
    exact hsigned

/-! ### Two nodes -/

/-- The address of a node of the scheme `SignScheme.plain` is its public key. -/
theorem self_key_plain (router : SnNetRouter) (upcall : Option (List UInt8 → ℤ)) :
    (SnNode.plain router upcall).self.key =
      (snCryptoSignPkFromSk .plain (SnNode.plain router upcall).sk).pk := by
  refine Subtype.ext ?_
  have hlen : router.self.addr.key.val.length = 32 := router.self.addr.key.property
  have htake : router.self.addr.key.val.take 64 = router.self.addr.key.val :=
    List.take_of_length_le (by omega)
  change router.self.addr.key.val = (router.self.addr.key.val.take 64 ++ _).take 32
  rw [htake, List.take_left' hlen]

/-- The address of the second node. -/
def receiverAddr : SnNetAddr := .ofBytes [0x88, 0x88, 0x88]

/-- The node on 4f5e22, which knows the second node. -/
def senderNode : SnNode :=
  .plain ((routerOn4f5e22 [.add receiverAddr none]).toOption.getD (snNetRouterInit .zero none)) none

/-- The node on 888888, which knows no other node. -/
def receiverNode : SnNode := .plain (snNetRouterInit receiverAddr none) (some fun _ => 0)

theorem senderNode_nexthop : (senderNode.nexthop .ideal receiverAddr).IsSet := by decide +kernel

theorem receiverNode_nexthop : ¬ (receiverNode.nexthop .ideal receiverAddr).IsSet := by
  decide +kernel

/-- The packet that the first node sends to the second. -/
def samplePacket (payload : List UInt8) : SnNetPacket :=
  originPacket .plain senderNode receiverAddr snWireNetTypeUser payload

/-- The datagram that the first node sends to the second. -/
def sampleDatagram (payload : List UInt8) : Datagram :=
  ⟨(senderNode.nexthop .ideal receiverAddr).netAddr,
    copyBytes (samplePacket payload) (snNetPacketDefaultTtl - 1)⟩

/-- The first node sends one datagram. -/
theorem senderNode_events (payload : List UInt8) : ∃ line,
    (snNodeSend .plain .ideal senderNode receiverAddr payload).events =
      [.send (sampleDatagram payload), .log line] :=
  ⟨_, snNodeSend_of_nexthop .plain .ideal senderNode rfl senderNode_nexthop (fun _ => rfl) payload⟩

/-- The second node hands the message of the datagram to its upcall. -/
theorem receiverNode_events {payload : List UInt8} (hpayload : payload.length ≤ snNetPacketMaxLen)
    (remAddr : SnIoNaddr) : ∃ line,
    (backgroundStep .plain .ideal receiverNode remAddr (sampleDatagram payload).bytes).events =
      [.log line, .upcall payload] := by
  obtain ⟨hlen, htrim, hmessage⟩ := originPacket_spec .plain senderNode receiverAddr
    snWireNetTypeUser hpayload
  rw [← samplePacket] at hlen htrim hmessage
  have hdst : snNetPacketGetDst ((samplePacket payload).setTtl (snNetPacketDefaultTtl - 1)) =
      receiverAddr := snNetPacketGetDst_originPacket ..
  have htype : ((samplePacket payload).setTtl (snNetPacketDefaultTtl - 1)).decTtl.header.type =
      snWireNetTypeUser := originPacket_type ..
  have hcheck : snNetPacketCheckSign .plain
      ((samplePacket payload).setTtl (snNetPacketDefaultTtl - 1)) = 0 :=
    snNetPacketCheckSign_originPacket rfl (self_key_plain _ _) ..
  have hforward := forward_of_no_nexthop .plain .ideal receiverNode
    ((samplePacket payload).setTtl (snNetPacketDefaultTtl - 1)) (some remAddr)
    (show snNetPacketDefaultTtl - 1 ≠ 0 by decide) (by rw [hdst]; exact receiverNode_nexthop)
  rw [sampleDatagram, backgroundStep_copyBytes _ _ _ _ hlen htrim,
    if_pos (show Environment.ideal.recvMalloc from rfl), if_neg fun h => h.2 hcheck, hforward,
    deliver_eq, handle, htype, if_neg (by decide), if_pos rfl, deliverUserHandler]
  exact ⟨_, congrArg (fun msg => [_, NodeEvent.upcall msg]) hmessage⟩

/-- The second node checks the datagram of the first and hands its message to the upcall. -/
theorem packet_authenticity_two_nodes :
    (∃ d packet, Carried .plain senderNode receiverAddr snWireNetTypeUser [1, 2, 3] 0 d ∧
      snNetPacketRecv true receiverNode.socket d.bytes = .ok (.packet packet) ∧
      snNetPacketCheckSign .plain packet = 0 ∧ packet.message = [1, 2, 3]) ∧
    ∃ rounds : List Round, NodeEvent.upcall [1, 2, 3] ∈ (background .plain rounds).events ∧
      ∃ r ∈ rounds, ∃ packet,
        snNetPacketRecv r.env.recvMalloc r.sns.socket r.datagram = .ok (.packet packet) ∧
        [1, 2, 3] = packet.message ∧
        SignScheme.plain.cryptoSignVerifyDetached packet.header.sign
          (signedBytes (snNetPacketGetDst packet) packet.header.type [1, 2, 3])
          ⟨packet.header.src.key⟩ = 0 := by
  obtain ⟨-, -, hcarried, hupcall⟩ := packet_authenticity .plain
  obtain ⟨line, hsent⟩ := senderNode_events [1, 2, 3]
  obtain ⟨line', hreceived⟩ := @receiverNode_events [1, 2, 3] (by decide) .zero
  have hfirst : Carried .plain senderNode receiverAddr snWireNetTypeUser [1, 2, 3] 0
      (sampleDatagram [1, 2, 3]) := by
    refine .origin .ideal senderNode_nexthop ?_
    rw [← snNodeSend, hsent]
    exact List.mem_cons_self
  have hlast : NodeEvent.upcall [1, 2, 3] ∈ (background .plain
      [⟨receiverNode, .ideal, .zero, (sampleDatagram [1, 2, 3]).bytes⟩]).events := by
    refine Traced.mem_forM_cons ?_
    rw [hreceived]
    exact List.mem_cons_of_mem _ List.mem_cons_self
  refine ⟨?_, _, hlast, hupcall _ ?_ _ hlast⟩
  · obtain ⟨packet, hrecv, hcheck, -, -, hmessage, -⟩ := hcarried _ _ _ _ _ _ rfl
      (self_key_plain _ _) (by decide) (by decide) hfirst receiverNode
    exact ⟨_, packet, hfirst, hrecv, hcheck, hmessage⟩
  · intro r hr
    rw [List.mem_singleton.1 hr]
    rfl

end SndNet
