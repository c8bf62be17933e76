import SndNet.Net.Router.Nexthop
import SndNet.Node

/-!
# The way of a packet

Every packet of a node goes through `forward` (`src/node.c`, lines 283–356). This file reduces the
functions on its way to what they do in each case (`forward_eq`, `deliver_eq`,
`snNodeSendTyped_eq`): the conversions to text fail no assertion and the log accepts every line, so
that only the time to live, the next hop, the type and the answers of the system decide.

## Main definitions

* `SndNet.SnNode.nexthop`: the entry that the router answers with.
* `SndNet.originPacket`, `SndNet.replyPacket`: the packets that a node builds.
* `SndNet.sentOf`, `SndNet.upcallsOf`: the datagrams and the upcalls among the events of a node.

## Main results

* `SndNet.forward_eq`, `SndNet.deliver_eq`, `SndNet.snNodeSendTyped_eq`: what the functions do.
-/

namespace SndNet

open FallibleRun

variable (S : SignScheme) (env : Environment) (sns : SnNode) (packet : SnNetPacket)
  (remAddr : Option SnIoNaddr)

/-! ### What does not fail -/

@[simp] theorem snNodeLog_eq (line : LogLine) : snNodeLog sns line = ⟨[.log line], .ok ()⟩ := by
  rw [snNodeLog, sns.log_ok line]
  rfl

/-- What the text of the header of a packet shows. -/
def headerText (packet : SnNetPacket) : HeaderText :=
  ⟨addrText (snNetPacketGetDst packet), addrText (snNetPacketGetSrc packet), packet.header.ttl,
    packet.header.type, packet.header.len⟩

theorem snNetPacketHeaderToStr_eq : snNetPacketHeaderToStr packet = .ok (headerText packet) := by
  rw [snNetPacketHeaderToStr, snNetAddrToStr_eq, ok_bind, snNetAddrToStr_eq, ok_bind]
  rfl

/-- The choice of the next hop fails on no router. -/
theorem exists_snNetRouterNexthopFrom (onRange : Bool) (snr : SnNetRouter) (dst : SnNetAddr) :
    ∃ e, snNetRouterNexthopFrom onRange snr dst = .ok e := by
  by_cases h : onRange
  · rw [snNetRouterNexthopFrom, if_pos h, closest_entries, ok_bind, closest_entries, ok_bind,
      snNetEntryClosest_eq dst (by simp), ok_bind]
    exact ⟨_, rfl⟩
  · simp only [snNetRouterNexthopFrom, if_neg h, snNetAddrIndex_eq, ok_bind]
    split_ifs with hin hset
    · exact ⟨_, rfl⟩
    · rw [snNetEntryClosest_eq dst (by simp), ok_bind, closest_leafsetFrom, ok_bind,
        closest_leafsetFrom, ok_bind, snNetEntryClosest_eq dst (by simp), ok_bind]
      exact ⟨_, rfl⟩
    · exact ⟨_, rfl⟩

/-- The entry that the router of a node answers with, unset when there is no next hop. -/
def SnNode.nexthop (sns : SnNode) (env : Environment) (dst : SnNetAddr) : SnNetEntry :=
  (nodeNexthop env sns dst).toOption.getD .zero

theorem nodeNexthop_eq (dst : SnNetAddr) : nodeNexthop env sns dst = .ok (sns.nexthop env dst) := by
  obtain ⟨e, he⟩ := exists_snNetRouterNexthopFrom (env.onRange sns.router dst) sns.router dst
  rw [← nodeNexthop] at he
  rw [SnNode.nexthop, he]
  rfl

/-- As long as the range test stays inside the leafsets, the next hop of a node is the answer of
`sn_net_router_nexthop`. -/
theorem nodeNexthop_eq_snNetRouterNexthop {dst : SnNetAddr} {onRange : Bool}
    (h : leafsetIsOnRange sns.router dst = .ok onRange) :
    nodeNexthop env sns dst = snNetRouterNexthop sns.router dst := by
  rw [nodeNexthop, env.onRange_eq _ _ _ h, snNetRouterNexthop, h, ok_bind]

/-- The next hop of a node is the choice of its router. -/
theorem SnNode.nexthop_eq (hself : sns.router.self.IsSet) (dst : SnNetAddr) :
    sns.nexthop env dst = nexthopOf (env.onRange sns.router dst) sns.router dst := by
  rw [SnNode.nexthop, nodeNexthop, snNetRouterNexthopFrom_eq hself]
  rfl

/-! ### The functions on the way -/

/-- What `forward` does with a packet that has a next hop. -/
def sendOn (packet : SnNetPacket) (nexthop : SnNetEntry) : NodeM ℤ :=
  if packet.header.type ≥ snWireNetTypes then ⟨[], .ok (-1)⟩
  else if env.sendto nexthop.netAddr packet.datagram then
    ⟨[.send ⟨nexthop.netAddr, packet.datagram⟩,
      .log (.packetForward remAddr (headerText packet) (entryText nexthop))], .ok 0⟩
  else ⟨[.log (.errorSendingPacket remAddr)], .ok (-1)⟩

theorem forward_eq : forward S env sns packet remAddr =
    if packet.header.ttl = 0 then
      ⟨[.log (.packetWithoutTtl remAddr (addrText (snNetPacketGetSrc packet))
        (addrText (snNetPacketGetDst packet)))], .ok (-1)⟩
    else if (sns.nexthop env (snNetPacketGetDst packet)).IsSet then
      sendOn env remAddr packet.decTtl (sns.nexthop env (snNetPacketGetDst packet))
    else deliver S env sns packet.decTtl remAddr := by
  simp only [forward, snNetAddrToStr_eq, snNetEntryToStr_eq, snNetPacketHeaderToStr_eq,
    nodeNexthop_eq, snNodeLog_eq, snNetPacketSend_eq _ sns.socket_ne, Traced.lift_ok_bind,
    Traced.mk_ok_bind, Traced.pure_eq, List.append_nil]
  by_cases httl : packet.header.ttl = 0
  · rw [if_pos httl, if_pos httl]
  rw [if_neg httl, if_neg httl]
  by_cases hset : (sns.nexthop env (snNetPacketGetDst packet)).IsSet
  · rw [if_pos hset, if_pos hset, sendOn]
    by_cases htype : packet.decTtl.header.type ≥ snWireNetTypes
    · rw [if_pos htype, if_pos htype]
    rw [if_neg htype, if_neg htype]
    by_cases hsend : env.sendto (sns.nexthop env (snNetPacketGetDst packet)).netAddr
        packet.decTtl.datagram
    · simp only [if_pos hsend, Traced.mapEvents_mk, Traced.mk_ok_bind]
      rfl
    · simp only [if_neg hsend, Traced.mapEvents_mk, Traced.mk_ok_bind]
      rfl
  · rw [if_neg hset, if_neg hset]

/-- The handler that `deliver` calls, if any. -/
def handle (packet : SnNetPacket) : NodeM ℤ :=
  if packet.header.type ≥ snWireNetTypes then ⟨[], .ok (-1)⟩
  else if packet.header.type = snWireNetTypeUser then deliverUserHandler sns packet
  else if packet.header.type = snWireNetTypeReply then ⟨[], .error .assertionFailed⟩
  else deliverPingHandler S env sns packet

theorem deliver_eq : deliver S env sns packet remAddr =
    ⟨.log (.packetDeliver remAddr (headerText packet) (cString packet.payload)) ::
      (handle S env sns packet).events, (handle S env sns packet).result⟩ := by
  rw [deliver, snNetPacketHeaderToStr_eq, Traced.lift_ok_bind, snNodeLog_eq, Traced.mk_ok_bind]
  rfl

/-- The packet that `sn_node_send_typed` hands to `forward`. -/
def originPacket (dst : SnNetAddr) (type : UInt8) (payload : List UInt8) : SnNetPacket :=
  signIfActive S sns (packedPacket dst sns.self type payload)

theorem snNodeSendTyped_eq (dst : SnNetAddr) {type : UInt8} (htype : type < snWireNetTypes)
    (payload : List UInt8) : snNodeSendTyped S env sns dst type payload =
      if env.packMalloc type then
        ⟨(forward S env sns (originPacket S sns dst type payload) none).events,
          (forward S env sns (originPacket S sns dst type payload) none).result.map fun ret =>
            if ret = -1 then -1 else 0⟩
      else ⟨[], .ok (-1)⟩ := by
  rw [snNodeSendTyped, cAssert_of htype, Traced.lift_ok_bind]
  by_cases hmalloc : env.packMalloc type
  · have hpack : snNetPacketPack (env.packMalloc type) dst sns.self type payload =
        some (packedPacket dst sns.self type payload) := if_pos hmalloc
    have hret : ∀ ret : ℤ, (if ret = -1 then pure (-1) else pure 0 : NodeM ℤ) =
        pure (if ret = -1 then -1 else 0) := fun ret => by split_ifs <;> rfl
    rw [if_pos hmalloc]
    split
    next h => rw [hpack] at h; cases h
    next packet h =>
      rw [hpack] at h
      obtain rfl := Option.some.inj h
      simp only [hret, Traced.bind_pure]
      rfl
  · have hpack : snNetPacketPack (env.packMalloc type) dst sns.self type payload = none :=
      if_neg hmalloc
    rw [if_neg hmalloc]
    split
    next h => rfl
    next packet h => rw [hpack] at h; cases h

/-- One round of the background loop. -/
theorem backgroundStep_eq (remAddr : SnIoNaddr) (d : List UInt8) :
    backgroundStep S env sns remAddr d =
      match snNetPacketRecv env.recvMalloc sns.socket d with
      | .ok (.packet packet) =>
        if sns.checkSign ∧ snNetPacketCheckSign S packet ≠ 0 then
          ⟨[.log (.badSignedMsg remAddr (headerText packet))], .ok ()⟩
        else ⟨(forward S env sns packet (some remAddr)).events,
          (forward S env sns packet (some remAddr)).result.map fun _ => ()⟩
      | _ => ⟨[], .ok ()⟩ := by
  rw [backgroundStep, snNetPacketRecv_eq sns.socket_ne, Traced.lift_ok_bind]
  split
  next packet h =>
    simp only [h, snNetPacketHeaderToStr_eq, Traced.lift_ok_bind, snNodeLog_eq]
    split_ifs
    · rfl
    · exact Traced.bind_pure _ _
  next h =>
    simp only [h]
    rfl
  next h =>
    simp only [h]
    rfl

/-- A packet with a next hop is sent on when the system accepts its datagram. -/
theorem forward_of_nexthop (httl : packet.header.ttl ≠ 0)
    (hset : (sns.nexthop env (snNetPacketGetDst packet)).IsSet)
    (htype : ¬ packet.header.type ≥ snWireNetTypes)
    (hsend : env.sendto (sns.nexthop env (snNetPacketGetDst packet)).netAddr
      packet.decTtl.datagram) : (forward S env sns packet remAddr).events =
        [.send ⟨(sns.nexthop env (snNetPacketGetDst packet)).netAddr, packet.decTtl.datagram⟩,
          .log (.packetForward remAddr (headerText packet.decTtl)
            (entryText (sns.nexthop env (snNetPacketGetDst packet))))] := by
  rw [forward_eq, if_neg httl, if_pos hset, sendOn, if_neg (by exact htype), if_pos hsend]

/-- A packet without a next hop is delivered. -/
theorem forward_of_no_nexthop (httl : packet.header.ttl ≠ 0)
    (hset : ¬ (sns.nexthop env (snNetPacketGetDst packet)).IsSet) :
    forward S env sns packet remAddr = deliver S env sns packet.decTtl remAddr := by
  rw [forward_eq, if_neg httl, if_neg hset]

/-! ### What leaves a node -/

variable {S env sns packet remAddr}

/-- A packet with a next hop leaves the node with its time to live decreased. -/
theorem send_mem_forward {d : Datagram}
    (hset : (sns.nexthop env (snNetPacketGetDst packet)).IsSet)
    (h : NodeEvent.send d ∈ (forward S env sns packet remAddr).events) :
    packet.header.ttl ≠ 0 ∧ d.bytes = packet.decTtl.datagram := by
  rw [forward_eq] at h
  by_cases httl : packet.header.ttl = 0
  · simp [httl] at h
  rw [if_neg httl, if_pos hset, sendOn] at h
  split_ifs at h with htype hsend
  · simp at h
  · obtain rfl : d = ⟨_, packet.decTtl.datagram⟩ := by simpa using h
    exact ⟨httl, rfl⟩
  · simp at h

/-- An upcall is made by the handler. -/
theorem upcall_mem_handle {msg : List UInt8}
    (h : NodeEvent.upcall msg ∈ (forward S env sns packet remAddr).events) :
    NodeEvent.upcall msg ∈ (handle S env sns packet.decTtl).events := by
  rw [forward_eq] at h
  split_ifs at h with httl hset
  · simp at h
  · rw [sendOn] at h
    split_ifs at h <;> simp at h
  · rw [deliver_eq] at h
    simpa using h

theorem handle_of_reply (htype : packet.header.type = snWireNetTypeReply) :
    handle S env sns packet = ⟨[], .error .assertionFailed⟩ := by
  rw [handle, htype, if_neg (by decide), if_neg (by decide), if_pos rfl]

theorem originPacket_type (dst : SnNetAddr) (type : UInt8) (payload : List UInt8) :
    (originPacket S sns dst type payload).header.type = type := signIfActive_type ..

variable (S env sns packet) in
/-- The reply to a ping. -/
def replyPacket : SnNetPacket :=
  originPacket S sns (snNetPacketGetSrc packet) snWireNetTypeReply (pingBytes env packet)

/-- The reply to a ping goes through `forward` as a packet of the node itself. -/
theorem deliverPingHandler_eq : deliverPingHandler S env sns packet =
    if env.packMalloc snWireNetTypeReply then
      ⟨(forward S env sns (replyPacket S env sns packet) none).events,
        (forward S env sns (replyPacket S env sns packet) none).result.map fun ret =>
          if ret = -1 then -1 else 0⟩
    else ⟨[], .ok (-1)⟩ := by
  rw [deliverPingHandler, snNodeSendTyped_eq _ _ _ _ (by decide), replyPacket]

/-- A reply that is delivered on the node that sends it reaches the failing handler. -/
theorem handle_replyPacket : handle S env sns (replyPacket S env sns packet).decTtl =
    ⟨[], .error .assertionFailed⟩ :=
  handle_of_reply (originPacket_type ..)

/-- **An upcall is given the message of the packet.** -/
theorem upcall_mem_forward {msg : List UInt8}
    (h : NodeEvent.upcall msg ∈ (forward S env sns packet remAddr).events) :
    msg = packet.message := by
  have hhandle := upcall_mem_handle h
  rw [handle] at hhandle
  split_ifs at hhandle with hlarge huser hreply
  · simp at hhandle
  · rw [deliverUserHandler, snNodeUpcall] at hhandle
    cases hup : sns.upcall with
    | none => simp [hup] at hhandle
    | some up => simpa [hup] using hhandle
  · simp at hhandle
  · -- The reply that answers a ping is delivered to no upcall.
    rw [deliverPingHandler_eq] at hhandle
    split_ifs at hhandle
    · have hanswer := upcall_mem_handle hhandle
      rw [handle_replyPacket] at hanswer
      simp at hanswer
    · simp at hhandle

variable (S env sns packet remAddr)

/-! ### Datagrams and upcalls -/

/-- The datagrams that a node has handed to the network. -/
def sentOf (ws : List NodeEvent) : List Datagram :=
  ws.filterMap fun w => match w with
    | .send d => some d
    | _ => none

/-- The messages that a node has handed to its upcall. -/
def upcallsOf (ws : List NodeEvent) : List (List UInt8) :=
  ws.filterMap fun w => match w with
    | .upcall msg => some msg
    | _ => none

@[simp] theorem sentOf_log_cons (line : LogLine) (ws : List NodeEvent) :
    sentOf (.log line :: ws) = sentOf ws := rfl

@[simp] theorem upcallsOf_log_cons (line : LogLine) (ws : List NodeEvent) :
    upcallsOf (.log line :: ws) = upcallsOf ws := rfl

/-- What `forward` does with a packet of the user type: it sends the packet on, hands the message
to the upcall, or does nothing that others can see. -/
theorem forward_user (htype : packet.header.type = snWireNetTypeUser) :
    (sentOf (forward S env sns packet remAddr).events = [] ∧
      upcallsOf (forward S env sns packet remAddr).events = []) ∨
    (packet.header.ttl ≠ 0 ∧
      (∃ naddr, sentOf (forward S env sns packet remAddr).events =
        [⟨naddr, packet.decTtl.datagram⟩]) ∧
      upcallsOf (forward S env sns packet remAddr).events = []) ∨
    (packet.header.ttl ≠ 0 ∧ sentOf (forward S env sns packet remAddr).events = [] ∧
      upcallsOf (forward S env sns packet remAddr).events = [packet.message]) := by
  rw [forward_eq]
  by_cases httl : packet.header.ttl = 0
  · rw [if_pos httl]
    exact Or.inl ⟨rfl, rfl⟩
  have htype' : packet.decTtl.header.type = snWireNetTypeUser := htype
  have hlt : ¬ packet.decTtl.header.type ≥ snWireNetTypes := by rw [htype']; decide
  rw [if_neg httl]
  by_cases hset : (sns.nexthop env (snNetPacketGetDst packet)).IsSet
  · rw [if_pos hset, sendOn, if_neg hlt]
    by_cases hsend : env.sendto (sns.nexthop env (snNetPacketGetDst packet)).netAddr
        packet.decTtl.datagram
    · rw [if_pos hsend]
      exact Or.inr (Or.inl ⟨httl, ⟨_, rfl⟩, rfl⟩)
    · rw [if_neg hsend]
      exact Or.inl ⟨rfl, rfl⟩
  · rw [if_neg hset, deliver_eq, sentOf_log_cons, upcallsOf_log_cons, handle, if_neg hlt,
      if_pos htype', deliverUserHandler, snNodeUpcall]
    cases sns.upcall with
    | none => exact Or.inl ⟨rfl, rfl⟩
    | some up => exact Or.inr (Or.inr ⟨httl, rfl, rfl⟩)

/-! ### The copies of a packet -/

section Copies

variable {dst : SnNetAddr} {type : UInt8} {payload : List UInt8}

/-- Apart from its signature the packet is what has been packed. -/
theorem originPacket_eq_setSign (dst : SnNetAddr) (type : UInt8) (payload : List UInt8) :
    ∃ sign, originPacket S sns dst type payload =
      (packedPacket dst sns.self type payload).setSign sign := by
  rw [originPacket, signIfActive]
  split_ifs
  · exact ⟨_, rfl⟩
  · exact ⟨⟨.replicate _ 0⟩, rfl⟩

/-- The bytes of a copy of a packet, which differs from it in the time to live alone. -/
def copyBytes (packet : SnNetPacket) (ttl : UInt8) : List UInt8 := (packet.setTtl ttl).datagram

theorem snNetPacketGetDst_originPacket (dst : SnNetAddr) (type : UInt8) (payload : List UInt8) :
    snNetPacketGetDst (originPacket S sns dst type payload) = dst := by
  obtain ⟨sign, hsign⟩ := originPacket_eq_setSign S sns dst type payload
  rw [hsign]
  rfl

theorem originPacket_ttl (dst : SnNetAddr) (type : UInt8) (payload : List UInt8) :
    (originPacket S sns dst type payload).header.ttl = snNetPacketDefaultTtl := by
  obtain ⟨sign, hsign⟩ := originPacket_eq_setSign S sns dst type payload
  rw [hsign]
  rfl

theorem originPacket_ttl_ne (dst : SnNetAddr) (type : UInt8) (payload : List UInt8) :
    (originPacket S sns dst type payload).header.ttl ≠ 0 := by
  rw [originPacket_ttl]
  decide

/-- A copy of a short packet is received as the packet with the time to live of the copy. -/
theorem snNetPacketRecv_copyBytes (malloc : Bool) {socket : ℤ} (hsocket : socket ≠ snIoSockInvalid)
    (hlen : packet.header.len.toNat ≤ snNetPacketMaxLen) (htrim : packet.trim = packet)
    (ttl : UInt8) : snNetPacketRecv malloc socket (copyBytes packet ttl) =
      .ok (if malloc then .packet (packet.setTtl ttl) else .kept) := by
  have hcopy : (packet.setTtl ttl).trim = packet.setTtl ttl := by
    nth_rewrite 2 [← htrim]
    rfl
  have hlen' : (packet.setTtl ttl).header.len.toNat ≤ snNetPacketMaxLen := hlen
  rw [copyBytes, snNetPacketRecv_datagram hsocket hlen', hcopy]

/-- One round of the background loop on a copy of a short packet. -/
theorem backgroundStep_copyBytes (hlen : packet.header.len.toNat ≤ snNetPacketMaxLen)
    (htrim : packet.trim = packet) (remAddr : SnIoNaddr) (ttl : UInt8) :
    backgroundStep S env sns remAddr (copyBytes packet ttl) =
      if env.recvMalloc then
        if sns.checkSign ∧ snNetPacketCheckSign S (packet.setTtl ttl) ≠ 0 then
          ⟨[.log (.badSignedMsg remAddr (headerText (packet.setTtl ttl)))], .ok ()⟩
        else ⟨(forward S env sns (packet.setTtl ttl) (some remAddr)).events,
          (forward S env sns (packet.setTtl ttl) (some remAddr)).result.map fun _ => ()⟩
      else ⟨[], .ok ()⟩ := by
  rw [backgroundStep_eq, snNetPacketRecv_copyBytes packet _ sns.socket_ne hlen htrim]
  by_cases hmalloc : env.recvMalloc
  · rw [if_pos hmalloc, if_pos hmalloc]
  · rw [if_neg hmalloc, if_neg hmalloc]

/-- A copy that is forwarded is the copy with the next smaller time to live. -/
theorem datagram_decTtl_setTtl (ttl : UInt8) :
    (packet.setTtl ttl).decTtl.datagram = copyBytes packet (ttl - 1) := rfl

theorem toNat_sub_one_add_one {ttl : UInt8} (h : ttl ≠ 0) : (ttl - 1).toNat + 1 = ttl.toNat := by
  have hpos : ttl.toNat ≠ 0 := fun h' => h (UInt8.toNat_inj.1 h')
  have hlt : ttl.toNat < 256 := ttl.toNat_lt
  rw [UInt8.toNat_sub]
  simp only [UInt8.reduceToNat]
  omega

/-- The packet that a node sends starts with the default time to live. -/
theorem originPacket_setTtl (dst : SnNetAddr) (type : UInt8) (payload : List UInt8) :
    (originPacket S sns dst type payload).setTtl snNetPacketDefaultTtl =
      originPacket S sns dst type payload := by
  obtain ⟨sign, hsign⟩ := originPacket_eq_setSign S sns dst type payload
  rw [hsign]
  rfl

/-- The packet that a node sends is short, and nothing but the terminator is behind its message. -/
theorem originPacket_spec (dst : SnNetAddr) (type : UInt8)
    (hpayload : payload.length ≤ snNetPacketMaxLen) :
    (originPacket S sns dst type payload).header.len.toNat ≤ snNetPacketMaxLen ∧
      (originPacket S sns dst type payload).trim = originPacket S sns dst type payload ∧
      (originPacket S sns dst type payload).message = payload := by
  obtain ⟨sign, hsign⟩ := originPacket_eq_setSign S sns dst type payload
  obtain ⟨hlen, hmessage⟩ := message_packedPacket dst sns.self type hpayload
  rw [hsign]
  refine ⟨hlen.trans_le hpayload, ?_, hmessage⟩
  rw [SnNetPacket.trim, SnNetPacket.setSign, SnNetPacket.mk.injEq]
  exact ⟨rfl, congrArg (· ++ [0]) hmessage⟩

end Copies

/-- **A message with a next hop** is sent there, and the log shows its header. -/
theorem snNodeSend_of_nexthop {dst : SnNetAddr} (hpack : env.packMalloc snWireNetTypeUser)
    (hset : (sns.nexthop env dst).IsSet)
    (hsend : ∀ bytes, env.sendto (sns.nexthop env dst).netAddr bytes) (payload : List UInt8) :
    (snNodeSend S env sns dst payload).events =
      [.send ⟨(sns.nexthop env dst).netAddr,
          copyBytes (originPacket S sns dst snWireNetTypeUser payload)
            (snNetPacketDefaultTtl - 1)⟩,
        .log (.packetForward none
          (headerText (originPacket S sns dst snWireNetTypeUser payload).decTtl)
          (entryText (sns.nexthop env dst)))] := by
  have hdst : snNetPacketGetDst (originPacket S sns dst snWireNetTypeUser payload) = dst :=
    snNetPacketGetDst_originPacket ..
  have htype : (originPacket S sns dst snWireNetTypeUser payload).header.type =
      snWireNetTypeUser := originPacket_type ..
  have hevents := forward_of_nexthop S env sns (originPacket S sns dst snWireNetTypeUser payload)
    none (originPacket_ttl_ne _ _ _ _ _) (by rwa [hdst]) (by rw [htype]; decide)
    (by rw [hdst]; exact hsend _)
  rw [snNodeSend, snNodeSendTyped_eq _ _ _ _ (by decide), if_pos hpack, hevents, hdst,
    ← datagram_decTtl_setTtl, originPacket_setTtl]

end SndNet
