import SndNet.Library.Resources
import SndNet.Node.Abort

/-!
# The memory of packets

Packets live in blocks that `sn_net_packet_recv` and `sn_net_packet_pack` allocate
(`src/net/packet.c`, lines 32 and 66), and that the functions of the node free again
(`src/node.c`, lines 224 and 389). Not every way through these functions comes to a `free`. This
file translates them once more with the allocations among the events, and determines which blocks
are left allocated after any sequence of rounds of the background loop and calls of users.

## Main definitions

* `SndNet.PacketBlock`, `SndNet.UseEvent`: the blocks, and the events with the allocations.
* `SndNet.forwardMem`, `SndNet.snNodeSendTypedMem`, `SndNet.backgroundStepMem`: the functions.
* `SndNet.Turn`: a round of the background loop or a call of a user.
* `SndNet.Turn.Leaves`: the blocks that a turn leaves allocated.

## Main results

* `SndNet.forget_runMem`: without the allocations the functions are those of the node.
* `SndNet.blocks_left`: no block is freed twice, and which blocks are never freed.
-/

namespace SndNet

open SnWireNetHeader Resources

variable (S : SignScheme) (env : Environment)

/-! ### The functions with their allocations -/

/-- The blocks that one round of the background loop or one call of a user allocates. -/
inductive PacketBlock where
  /-- The block of a received packet. -/
  | received
  /-- The block of a packed packet of some type. -/
  | packed (type : UInt8)
  deriving DecidableEq

/-- An event of a node, or what it does with a resource such as a block. -/
inductive UseEvent (β : Type*) where
  | node (w : NodeEvent)
  | use (e : ResourceEvent β)

/-- A function of the node with its allocations. -/
abbrev MemM := Traced (UseEvent PacketBlock) Fault

/-- `sn_net_packet_recv` (`src/net/packet.c`, lines 11–57) with its allocation. The second call of
the socket may fail, which `recvOk` tells. -/
def snNetPacketRecvMem (malloc recvOk : Bool) (socket : ℤ) (datagram : List UInt8) :
    MemM RecvOutcome := do
  let peeked ← .lift (snIoSockRecv socket datagram 2)
  if peeked.length < 2 then return .dropped
  else
    let payloadLen := lenOfMem peeked
    if payloadLen > snNetPacketMaxLen then return .dropped
    else if malloc then
      .emit (.use (.acquire .received))
      if recvOk then
        let packetSize := size + payloadLen + 1
        let received ← .lift (snIoSockRecv socket datagram packetSize)
        if h : size + lenOfMem received ≤ received.length then
          return .packet (packetOfMem received h)
        else
          .emit (.use (.release .received))
          return .dropped
      else return .kept
    else return .kept

mutual

/-- `forward` (`src/node.c`, lines 283–356). -/
def forwardMem (sns : SnNode) (packet : SnNetPacket) (remAddr : Option SnIoNaddr) : MemM ℤ := do
  let src := snNetPacketGetSrc packet
  let srcStr ← .lift (snNetAddrToStr src)
  let dst := snNetPacketGetDst packet
  let dstStr ← .lift (snNetAddrToStr dst)
  if packet.header.ttl = 0 then
    (snNodeLog sns (.packetWithoutTtl remAddr srcStr dstStr)).mapEvents .node
    return -1
  else
    let packet' := packet.decTtl
    let nexthop ← .lift (nodeNexthop env sns dst)
    let nhStr ← .lift (snNetEntryToStr nexthop snNetAddrHexLen)
    if nexthop.IsSet then
      if packet'.header.type ≥ snWireNetTypes then return -1
      else
        let sent ← (snNetPacketSend env.sendto packet' sns.socket nexthop.netAddr).mapEvents
          fun d => .node (.send d)
        if sent = -1 then
          (snNodeLog sns (.errorSendingPacket remAddr)).mapEvents .node
          return -1
        else
          let packetStr ← .lift (snNetPacketHeaderToStr packet')
          (snNodeLog sns (.packetForward remAddr packetStr nhStr)).mapEvents .node
          return 0
    else deliverMem sns packet' remAddr
termination_by (answersLeft packet.header.type, 3)

/-- `deliver` (`src/node.c`, lines 248–281). -/
def deliverMem (sns : SnNode) (packet : SnNetPacket) (remAddr : Option SnIoNaddr) : MemM ℤ := do
  let packetStr ← .lift (snNetPacketHeaderToStr packet)
  (snNodeLog sns (.packetDeliver remAddr packetStr (cString packet.payload))).mapEvents .node
  if packet.header.type ≥ snWireNetTypes then return -1
  else if packet.header.type = snWireNetTypeUser then
    (deliverUserHandler sns packet).mapEvents .node
  else if packet.header.type = snWireNetTypeReply then deliverReplyHandler.mapEvents .node
  else deliverPingHandlerMem sns packet
termination_by (answersLeft packet.header.type, 2)
decreasing_by
  rw [answersLeft, if_neg (by assumption)]
  exact Prod.Lex.right _ Nat.one_lt_two

/-- `deliver_ping_handler` (`src/handler.c`, lines 60–72). -/
def deliverPingHandlerMem (sns : SnNode) (packet : SnNetPacket) : MemM ℤ :=
  snNodeSendTypedMem sns (snNetPacketGetSrc packet) snWireNetTypeReply (pingBytes env packet)
termination_by (1, 1)
decreasing_by exact Prod.Lex.left _ _ (by decide)

/-- `sn_node_send_typed` (`src/node.c`, lines 205–227). The packet is freed when `forward` has not
returned -1. -/
def snNodeSendTypedMem (sns : SnNode) (dst : SnNetAddr) (type : UInt8) (payload : List UInt8) :
    MemM ℤ := do
  .lift (cAssert (type < snWireNetTypes))
  match h : snNetPacketPack (env.packMalloc type) dst sns.self type payload with
  | none => return -1
  | some packet =>
    .emit (.use (.acquire (.packed type)))
    let ret ← forwardMem sns (signIfActive S sns packet) none
    if ret = -1 then return -1
    else
      .emit (.use (.release (.packed type)))
      return 0
termination_by (answersLeft type, 4)
decreasing_by
  rw [signIfActive_type, type_of_snNetPacketPack h]
  exact Prod.Lex.right _ (by decide)

end

/-- One round of the loop of `background` (`src/node.c`, lines 366–390). The packet is freed when it
has been forwarded. -/
def backgroundStepMem (recvOk : Bool) (sns : SnNode) (remAddr : SnIoNaddr)
    (datagram : List UInt8) : MemM Unit := do
  match ← snNetPacketRecvMem env.recvMalloc recvOk sns.socket datagram with
  | .packet packet =>
    if sns.checkSign ∧ snNetPacketCheckSign S packet ≠ 0 then
      let packetStr ← .lift (snNetPacketHeaderToStr packet)
      (snNodeLog sns (.badSignedMsg remAddr packetStr)).mapEvents .node
    else
      let _ ← forwardMem S env sns packet (some remAddr)
      .emit (.use (.release .received))
  | .kept => return
  | .dropped => return

/-- A round of the background loop or a call of a user. -/
inductive Turn where
  | round (round : Round) (recvOk : Bool)
  | call (sns : SnNode) (env : Environment) (dst : SnNetAddr) (type : UInt8)
    (payload : List UInt8)

/-- What a node does in a turn, with its allocations. -/
def Turn.stepMem : Turn → MemM Unit
  | .round r recvOk => backgroundStepMem S r.env recvOk r.sns r.remAddr r.datagram
  | .call sns env dst type payload => do
    let _ ← snNodeSendTypedMem S env sns dst type payload

/-- The event of a part of a program, such as a turn, with the part at its resources. -/
def UseEvent.tag {κ β : Type*} (k : κ) : UseEvent β → UseEvent (κ × β)
  | .node w => .node w
  | .use e => .use (e.tag k)

/-- What a node does in some turns, with its allocations. -/
def runMem (turns : List Turn) : Traced (UseEvent (ℕ × PacketBlock)) Fault Unit :=
  turns.zipIdx.forM fun p => (p.1.stepMem S).mapEvents (.tag p.2)

/-- What a node does in a turn. A datagram that cannot be read stays in the socket, as one for which
there is no memory does. -/
def Turn.step : Turn → NodeM Unit
  | .round r recvOk =>
    backgroundStep S { r.env with recvMalloc := r.env.recvMalloc && recvOk } r.sns r.remAddr
      r.datagram
  | .call sns env dst type payload => do
    let _ ← snNodeSendTyped S env sns dst type payload

/-! ### Two views of the events -/

section Views

variable {β : Type}

/-- The event of the node, if it is one. -/
def UseEvent.node? : UseEvent β → Option NodeEvent
  | .node w => some w
  | .use _ => none

/-- What is done with a resource, if something is. -/
def UseEvent.use? : UseEvent β → Option (ResourceEvent β)
  | .node _ => none
  | .use e => some e

/-- The events of a node without the resources. -/
def nodeEvents (ws : List (UseEvent β)) : List NodeEvent := ws.filterMap UseEvent.node?

/-- What is done with resources among some events. -/
def useEvents (ws : List (UseEvent β)) : List (ResourceEvent β) := ws.filterMap UseEvent.use?

/-- A function of the node without the resources. -/
def forget {α : Type} (x : Traced (UseEvent β) Fault α) : NodeM α := x.filterEvents UseEvent.node?

variable (w : NodeEvent) (e : ResourceEvent β) (ws ws' : List (UseEvent β)) (ns : List NodeEvent)

@[simp] theorem nodeEvents_nil : nodeEvents ([] : List (UseEvent β)) = [] := rfl

@[simp] theorem nodeEvents_use : nodeEvents (.use e :: ws) = nodeEvents ws := rfl

@[simp] theorem nodeEvents_append : nodeEvents (ws ++ ws') = nodeEvents ws ++ nodeEvents ws' :=
  List.filterMap_append

@[simp] theorem nodeEvents_map : nodeEvents (ns.map (.node : NodeEvent → UseEvent β)) = ns := by
  rw [nodeEvents, List.filterMap_map]
  exact List.filterMap_some

@[simp] theorem useEvents_nil : useEvents ([] : List (UseEvent β)) = [] := rfl

@[simp] theorem useEvents_node : useEvents (.node w :: ws) = useEvents ws := rfl

@[simp] theorem useEvents_use : useEvents (.use e :: ws) = e :: useEvents ws := rfl

@[simp] theorem useEvents_append : useEvents (ws ++ ws') = useEvents ws ++ useEvents ws' :=
  List.filterMap_append

@[simp] theorem useEvents_map : useEvents (ns.map (.node : NodeEvent → UseEvent β)) = [] := by
  rw [useEvents, List.filterMap_map]
  exact List.filterMap_eq_nil_iff.2 fun _ _ => rfl

theorem nodeEvents_tag {κ : Type} (k : κ) : nodeEvents (ws.map (.tag k)) = nodeEvents ws := by
  rw [nodeEvents, nodeEvents, List.filterMap_map]
  refine congrArg (List.filterMap · ws) (funext fun w => ?_)
  rcases w with w | e <;> rfl

theorem useEvents_tag {κ : Type} (k : κ) :
    useEvents (ws.map (.tag k)) = (useEvents ws).map (.tag k) := by
  rw [useEvents, useEvents, List.filterMap_map, List.map_filterMap]
  refine congrArg (List.filterMap · ws) (funext fun w => ?_)
  rcases w with w | e <;> rfl

@[simp] theorem forget_mk {α : Type} (r : Except Fault α) :
    forget ⟨ws, r⟩ = ⟨nodeEvents ws, r⟩ := rfl

end Views

/-! ### The way of a packet -/

variable {S env} {sns : SnNode} {packet : SnNetPacket} {remAddr : Option SnIoNaddr}

theorem deliverMem_of_ping (htype : packet.header.type = snWireNetTypePing) :
    deliverMem S env sns packet remAddr =
      ⟨.node (.log (.packetDeliver remAddr (headerText packet) (cString packet.payload))) ::
        (deliverPingHandlerMem S env sns packet).events,
        (deliverPingHandlerMem S env sns packet).result⟩ := by
  rw [deliverMem, snNetPacketHeaderToStr_eq, Traced.lift_ok_bind, snNodeLog_eq,
    Traced.mapEvents_mk, Traced.mk_ok_bind, htype, if_neg (by decide), if_neg (by decide),
    if_neg (by decide)]
  rfl

theorem deliverMem_of_ne (htype : packet.header.type ≠ snWireNetTypePing) :
    deliverMem S env sns packet remAddr =
      (deliver S env sns packet remAddr).mapEvents .node := by
  rw [deliverMem, deliver_eq, snNetPacketHeaderToStr_eq, Traced.lift_ok_bind, snNodeLog_eq,
    Traced.mapEvents_mk, Traced.mk_ok_bind, handle]
  by_cases hlarge : packet.header.type ≥ snWireNetTypes
  · rw [if_pos hlarge, if_pos hlarge]
    rfl
  by_cases huser : packet.header.type = snWireNetTypeUser
  · rw [if_neg hlarge, if_neg hlarge, if_pos huser, if_pos huser]
    rfl
  by_cases hreply : packet.header.type = snWireNetTypeReply
  · rw [if_neg hlarge, if_neg hlarge, if_neg huser, if_neg huser, if_pos hreply, if_pos hreply]
    rfl
  · exact absurd (eq_ping_of_ne hlarge huser hreply) htype

theorem forwardMem_eq : forwardMem S env sns packet remAddr =
    if packet.header.ttl = 0 ∨ (sns.nexthop env (snNetPacketGetDst packet)).IsSet then
      (forward S env sns packet remAddr).mapEvents .node
    else deliverMem S env sns packet.decTtl remAddr := by
  rw [forward_eq]
  simp only [forwardMem, snNetAddrToStr_eq, snNetEntryToStr_eq, snNetPacketHeaderToStr_eq,
    nodeNexthop_eq, snNodeLog_eq, snNetPacketSend_eq _ sns.socket_ne, Traced.lift_ok_bind,
    Traced.mapEvents_mk, Traced.mk_ok_bind, Traced.pure_eq, List.append_nil]
  by_cases httl : packet.header.ttl = 0
  · rw [if_pos httl, if_pos (Or.inl httl), if_pos httl]
    rfl
  rw [if_neg httl, if_neg httl]
  by_cases hset : (sns.nexthop env (snNetPacketGetDst packet)).IsSet
  · rw [if_pos hset, if_pos (Or.inr hset), if_pos hset, sendOn]
    by_cases htype : packet.decTtl.header.type ≥ snWireNetTypes
    · rw [if_pos htype, if_pos htype]
      rfl
    rw [if_neg htype, if_neg htype]
    by_cases hsend : env.sendto (sns.nexthop env (snNetPacketGetDst packet)).netAddr
        packet.decTtl.datagram
    · simp only [if_pos hsend, Traced.mapEvents_mk, Traced.mk_ok_bind]
      rfl
    · simp only [if_neg hsend, Traced.mapEvents_mk, Traced.mk_ok_bind]
      rfl
  · rw [if_neg hset, if_neg (not_or.2 ⟨httl, hset⟩)]

/-- A ping that is delivered on the node. -/
def PingHere (env : Environment) (sns : SnNode) (packet : SnNetPacket) : Prop :=
  packet.header.ttl ≠ 0 ∧ ¬ (sns.nexthop env (snNetPacketGetDst packet)).IsSet ∧
    packet.header.type = snWireNetTypePing

/-- Only a ping makes a node allocate a packet of its own. -/
theorem forwardMem_of_not (h : ¬ PingHere env sns packet) :
    forwardMem S env sns packet remAddr =
      (forward S env sns packet remAddr).mapEvents .node := by
  rw [forwardMem_eq]
  split_ifs with hset
  · rfl
  · obtain ⟨httl, hset⟩ := not_or.1 hset
    have htype : packet.decTtl.header.type ≠ snWireNetTypePing := fun htype =>
      h ⟨httl, hset, htype⟩
    rw [deliverMem_of_ne htype, forward_eq, if_neg httl, if_neg hset]

theorem forwardMem_of_ping (h : PingHere env sns packet) :
    forwardMem S env sns packet remAddr =
      ⟨.node (.log (.packetDeliver remAddr (headerText packet.decTtl) (cString packet.payload))) ::
        (deliverPingHandlerMem S env sns packet.decTtl).events,
        (deliverPingHandlerMem S env sns packet.decTtl).result⟩ := by
  obtain ⟨httl, hset, htype⟩ := h
  rw [forwardMem_eq, if_neg (not_or.2 ⟨httl, hset⟩), deliverMem_of_ping (by exact htype)]
  rfl

/-- The packet of a call is freed unless `forward` has returned -1 or failed. -/
def freed (type : UInt8) : Except Fault ℤ → List (UseEvent PacketBlock)
  | .ok ret => if ret = -1 then [] else [.use (.release (.packed type))]
  | .error _ => []

theorem snNodeSendTypedMem_eq (dst : SnNetAddr) {type : UInt8} (htype : type < snWireNetTypes)
    (payload : List UInt8) : snNodeSendTypedMem S env sns dst type payload =
      if env.packMalloc type then
        ⟨.use (.acquire (.packed type)) ::
          ((forwardMem S env sns (originPacket S sns dst type payload) none).events ++
            freed type (forwardMem S env sns (originPacket S sns dst type payload) none).result),
          (forwardMem S env sns (originPacket S sns dst type payload) none).result.map fun ret =>
            if ret = -1 then -1 else 0⟩
      else ⟨[], .ok (-1)⟩ := by
  rw [snNodeSendTypedMem, cAssert_of htype, Traced.lift_ok_bind]
  by_cases hmalloc : env.packMalloc type
  · have hpack : snNetPacketPack (env.packMalloc type) dst sns.self type payload =
        some (packedPacket dst sns.self type payload) := if_pos hmalloc
    rw [if_pos hmalloc]
    split
    next h => rw [hpack] at h; cases h
    next packet h =>
      rw [hpack] at h
      obtain rfl := Option.some.inj h
      rw [Traced.emit_bind, originPacket]
      obtain ⟨ws, e | ret⟩ :=
        forwardMem S env sns (signIfActive S sns (packedPacket dst sns.self type payload)) none
      · simp [freed, Except.map]
      · by_cases hret : ret = -1
        · simp [freed, Except.map, hret]
        · simp [freed, Except.map, hret]
  · have hpack : snNetPacketPack (env.packMalloc type) dst sns.self type payload = none :=
      if_neg hmalloc
    rw [if_neg hmalloc]
    split
    next h => rfl
    next packet h => rw [hpack] at h; cases h

/-- The reply to a ping makes the node allocate no other packet. -/
theorem deliverPingHandlerMem_eq : deliverPingHandlerMem S env sns packet =
    if env.packMalloc snWireNetTypeReply then
      ⟨.use (.acquire (.packed snWireNetTypeReply)) ::
        ((forward S env sns (replyPacket S env sns packet) none).events.map .node ++
          freed snWireNetTypeReply (forward S env sns (replyPacket S env sns packet) none).result),
        (forward S env sns (replyPacket S env sns packet) none).result.map fun ret =>
          if ret = -1 then -1 else 0⟩
    else ⟨[], .ok (-1)⟩ := by
  have hnot : ¬ PingHere env sns (replyPacket S env sns packet) := fun h =>
    absurd ((originPacket_type ..).symm.trans h.2.2) (by decide)
  rw [deliverPingHandlerMem, snNodeSendTypedMem_eq _ (by decide), ← replyPacket,
    forwardMem_of_not hnot]
  rfl

@[simp] theorem nodeEvents_freed (type : UInt8) (x : Except Fault ℤ) :
    nodeEvents (freed type x) = [] := by
  rcases x with e | ret
  · rfl
  · rw [freed]
    split_ifs <;> rfl

/-! ### Without the allocations -/

theorem forget_deliverPingHandlerMem :
    forget (deliverPingHandlerMem S env sns packet) = deliverPingHandler S env sns packet := by
  rw [deliverPingHandlerMem_eq, deliverPingHandler_eq]
  split_ifs <;> simp

theorem handle_of_ping (htype : packet.header.type = snWireNetTypePing) :
    handle S env sns packet = deliverPingHandler S env sns packet := by
  rw [handle, htype, if_neg (by decide), if_neg (by decide), if_neg (by decide)]

theorem forget_forwardMem :
    forget (forwardMem S env sns packet remAddr) = forward S env sns packet remAddr := by
  by_cases h : PingHere env sns packet
  · obtain ⟨httl, hset, htype⟩ := id h
    have htype' : packet.decTtl.header.type = snWireNetTypePing := htype
    rw [forwardMem_of_ping h, forward_eq, if_neg httl, if_neg hset, deliver_eq,
      handle_of_ping htype', ← forget_deliverPingHandlerMem]
    rfl
  · rw [forwardMem_of_not h]
    simp [Traced.mapEvents]

theorem nodeEvents_forwardMem : nodeEvents (forwardMem S env sns packet remAddr).events =
    (forward S env sns packet remAddr).events :=
  congrArg Traced.events forget_forwardMem

theorem forwardMem_result : (forwardMem S env sns packet remAddr).result =
    (forward S env sns packet remAddr).result :=
  congrArg Traced.result forget_forwardMem

theorem forget_snNodeSendTypedMem (dst : SnNetAddr) {type : UInt8} (payload : List UInt8) :
    forget (snNodeSendTypedMem S env sns dst type payload) =
      snNodeSendTyped S env sns dst type payload := by
  by_cases htype : type < snWireNetTypes
  · rw [snNodeSendTypedMem_eq dst htype, snNodeSendTyped_eq _ _ _ _ htype, forwardMem_result]
    split_ifs
    · rw [forget_mk, nodeEvents_use, nodeEvents_append, nodeEvents_freed, List.append_nil,
        nodeEvents_forwardMem]
    · rfl
  · rw [snNodeSendTypedMem, snNodeSendTyped, cAssert, if_neg htype]
    rfl

/-- What becomes of a datagram and of the block for its packet. -/
theorem snNetPacketRecvMem_eq {malloc recvOk : Bool} {socket : ℤ}
    (hsocket : socket ≠ snIoSockInvalid) (d : List UInt8) :
    snNetPacketRecvMem malloc recvOk socket d =
      if d.length < 2 ∨ lenOfMem d > snNetPacketMaxLen then ⟨[], .ok .dropped⟩
      else if malloc then
        if recvOk then
          if h : size + lenOfMem d ≤ d.length then
            ⟨[.use (.acquire .received)], .ok (.packet (packetOfMem d h))⟩
          else ⟨[.use (.acquire .received), .use (.release .received)], .ok .dropped⟩
        else ⟨[.use (.acquire .received)], .ok .kept⟩
      else ⟨[], .ok .kept⟩ := by
  have hsize : size = 132 := rfl
  rw [snNetPacketRecvMem, snIoSockRecv_eq hsocket, Traced.lift_ok_bind]
  by_cases hshort : d.length < 2
  · rw [if_pos (by rw [List.length_take]; omega), if_pos (Or.inl hshort)]
    rfl
  rw [if_neg (by rw [List.length_take]; omega), lenOfMem_take le_rfl]
  by_cases hlong : lenOfMem d > snNetPacketMaxLen
  · rw [if_pos hlong, if_pos (Or.inr hlong)]
    rfl
  rw [if_neg hlong, if_neg (not_or.2 ⟨hshort, hlong⟩)]
  by_cases hmalloc : malloc
  swap
  · rw [if_neg hmalloc, if_neg hmalloc]
    rfl
  rw [if_pos hmalloc, if_pos hmalloc, Traced.emit_bind]
  by_cases hok : recvOk
  swap
  · rw [if_neg hok, if_neg hok]
    rfl
  have hlen : lenOfMem (d.take (size + lenOfMem d + 1)) = lenOfMem d := lenOfMem_take (by omega)
  have hiff : size + lenOfMem (d.take (size + lenOfMem d + 1)) ≤
      (d.take (size + lenOfMem d + 1)).length ↔ size + lenOfMem d ≤ d.length := by
    rw [hlen, List.length_take]
    omega
  simp only [if_pos hok, snIoSockRecv_eq hsocket, Traced.lift_ok_bind]
  by_cases h : size + lenOfMem d ≤ d.length
  · rw [dif_pos (hiff.2 h), dif_pos h, packetOfMem_take (Nat.le_succ _) _ h]
    rfl
  · rw [dif_neg (mt hiff.1 h), dif_neg h]
    rfl

/-- A datagram that cannot be read stays in the socket, as one for which there is no memory does. -/
theorem forget_snNetPacketRecvMem {malloc recvOk : Bool} {socket : ℤ}
    (hsocket : socket ≠ snIoSockInvalid) (d : List UInt8) :
    forget (snNetPacketRecvMem malloc recvOk socket d) =
      .lift (snNetPacketRecv (malloc && recvOk) socket d) := by
  rw [snNetPacketRecvMem_eq hsocket, snNetPacketRecv_eq hsocket]
  by_cases hbad : d.length < 2 ∨ lenOfMem d > snNetPacketMaxLen
  · rw [if_pos hbad, if_pos hbad]
    rfl
  rw [if_neg hbad, if_neg hbad]
  -- The block is kept when it cannot be filled, and there is none when it cannot be allocated.
  rcases malloc with _ | _
  · rfl
  rcases recvOk with _ | _
  · rfl
  by_cases hle : size + lenOfMem d ≤ d.length
  · rw [dif_pos hle, dif_pos hle]
    rfl
  · rw [dif_neg hle, dif_neg hle]
    rfl

/-- The way of a reply does not depend on the memory for received packets. -/
theorem forward_recvMalloc_of_reply (b : Bool)
    (htype : packet.header.type = snWireNetTypeReply) :
    forward S { env with recvMalloc := b } sns packet remAddr =
      forward S env sns packet remAddr := by
  have htype' : packet.decTtl.header.type = snWireNetTypeReply := htype
  rw [forward_eq, forward_eq, deliver_eq, deliver_eq, handle_of_reply htype',
    handle_of_reply htype']
  rfl

/-- The way of a packet does not depend on the memory for received packets. -/
theorem forward_recvMalloc (b : Bool) : forward S { env with recvMalloc := b } sns packet remAddr =
    forward S env sns packet remAddr := by
  have hreply : ∀ p, forward S { env with recvMalloc := b } sns (replyPacket S env sns p) none =
      forward S env sns (replyPacket S env sns p) none := fun p =>
    forward_recvMalloc_of_reply b (originPacket_type ..)
  have hping : ∀ p, deliverPingHandler S { env with recvMalloc := b } sns p =
      deliverPingHandler S env sns p := by
    intro p
    rw [deliverPingHandler_eq, deliverPingHandler_eq, ← hreply]
    rfl
  rw [forward_eq, forward_eq, deliver_eq, deliver_eq, handle, handle, hping]
  rfl

variable (S)

theorem forget_backgroundStepMem (recvOk : Bool) (remAddr : SnIoNaddr) (d : List UInt8) :
    forget (backgroundStepMem S env recvOk sns remAddr d) =
      backgroundStep S { env with recvMalloc := env.recvMalloc && recvOk } sns remAddr d := by
  rw [backgroundStepMem, backgroundStep, forget, Traced.filterEvents_bind, ← forget,
    forget_snNetPacketRecvMem sns.socket_ne]
  refine congrArg _ (funext fun outcome => ?_)
  rcases outcome with _ | _ | packet
  · rfl
  · rfl
  · by_cases hbad : sns.checkSign ∧ snNetPacketCheckSign S packet ≠ 0
    · simp only [if_pos hbad, snNetPacketHeaderToStr_eq, snNodeLog_eq]
      rfl
    · simp only [if_neg hbad, forward_recvMalloc]
      rw [Traced.filterEvents_bind, ← forget, forget_forwardMem]
      rfl

theorem forget_stepMem (turn : Turn) : forget (turn.stepMem S) = turn.step S := by
  rcases turn with ⟨r, recvOk⟩ | ⟨sns, env, dst, type, payload⟩
  · exact forget_backgroundStepMem S recvOk r.remAddr r.datagram
  · rw [Turn.stepMem, Turn.step, forget, Traced.filterEvents_bind, ← forget,
      forget_snNodeSendTypedMem]
    rfl

/-- **Without the allocations** a run is one of the functions of the node. -/
theorem forget_runMem (turns : List Turn) : forget (runMem S turns) = turns.forM (·.step S) := by
  have hturn : ∀ p : Turn × ℕ,
      ((p.1.stepMem S).mapEvents (.tag p.2)).filterEvents UseEvent.node? = p.1.step S := by
    intro p
    rw [← forget_stepMem]
    exact congrArg (Traced.mk · (p.1.stepMem S).result) (nodeEvents_tag _ p.2)
  rw [runMem, forget, Traced.filterEvents_forM]
  simp only [hturn]
  conv_rhs => rw [← List.zipIdx_map_fst 0 turns]
  exact List.forM_map.symm

/-! ### The blocks that are left -/

/-- The system does not take the packet to its next hop. -/
def Refused (env : Environment) (sns : SnNode) (packet : SnNetPacket) : Prop :=
  (sns.nexthop env (snNetPacketGetDst packet)).IsSet ∧
    ¬ env.sendto (sns.nexthop env (snNetPacketGetDst packet)).netAddr packet.decTtl.datagram

instance : Decidable (Refused env sns packet) := inferInstanceAs (Decidable (_ ∧ _))

/-- The packet is a ping that is delivered on the node, and the system does not take the reply to
its next hop. -/
def ReplyRefused (env : Environment) (sns : SnNode) (packet : SnNetPacket) : Prop :=
  PingHere env sns packet ∧ env.packMalloc snWireNetTypeReply ∧
    Refused env sns (replyPacket S env sns packet)

variable {S}

/-- The reply to a ping is sent on, or it aborts the node. -/
theorem forward_replyPacket_result :
    (forward S env sns (replyPacket S env sns packet) none).result =
      if (sns.nexthop env (snNetPacketGetDst (replyPacket S env sns packet))).IsSet then
        .ok (if Refused env sns (replyPacket S env sns packet) then -1 else 0)
      else .error .assertionFailed := by
  have httl : (replyPacket S env sns packet).header.ttl ≠ 0 := originPacket_ttl_ne _ _ _ _ _
  have htype : ¬ (replyPacket S env sns packet).decTtl.header.type ≥ snWireNetTypes := by
    have hreply : (replyPacket S env sns packet).decTtl.header.type = snWireNetTypeReply :=
      originPacket_type ..
    rw [hreply]
    decide
  rw [forward_eq, if_neg httl]
  split_ifs with hset hrefused
  · rw [sendOn, if_neg htype, if_neg hrefused.2]
  · rw [sendOn, if_neg htype, if_pos (not_not.1 fun hsend => hrefused ⟨hset, hsend⟩)]
  · rw [deliver_eq, handle_replyPacket]

/-- What the handler of pings leaves allocated. -/
theorem held_deliverPingHandlerMem {s : Finset PacketBlock}
    (hs : .packed snWireNetTypeReply ∉ s) :
    ∃ t, held s (useEvents (deliverPingHandlerMem S env sns packet).events) = some t ∧
      ∀ a, (deliverPingHandlerMem S env sns packet).result = .ok a → ∀ b, b ∈ t ↔
        b ∈ s ∨ b = .packed snWireNetTypeReply ∧ env.packMalloc snWireNetTypeReply ∧
          Refused env sns (replyPacket S env sns packet) := by
  rw [deliverPingHandlerMem_eq]
  by_cases hmalloc : env.packMalloc snWireNetTypeReply
  swap
  · rw [if_neg hmalloc]
    exact ⟨s, rfl, fun _ _ b => by simp [hmalloc]⟩
  rw [if_pos hmalloc]
  simp only [useEvents_use, useEvents_append, useEvents_map, List.nil_append, held_acquire hs,
    forward_replyPacket_result]
  split_ifs with hset hrefused
  · exact ⟨_, rfl, fun _ _ b => by simp [hmalloc, hrefused, or_comm]⟩
  · refine ⟨s, ?_, fun _ _ b => by simp [hrefused]⟩
    rw [freed, if_neg (by decide), useEvents_use, useEvents_nil,
      held_release (Finset.mem_insert_self _ _), Finset.erase_insert hs, held_nil]
  · exact ⟨_, rfl, fun _ h => by cases h⟩

/-- What `forward` leaves allocated. -/
theorem held_forwardMem {s : Finset PacketBlock}
    (hs : PingHere env sns packet → .packed snWireNetTypeReply ∉ s) :
    ∃ t, held s (useEvents (forwardMem S env sns packet remAddr).events) = some t ∧
      ∀ a, (forwardMem S env sns packet remAddr).result = .ok a → ∀ b, b ∈ t ↔
        b ∈ s ∨ b = .packed snWireNetTypeReply ∧ ReplyRefused S env sns packet := by
  by_cases h : PingHere env sns packet
  · rw [forwardMem_of_ping h, useEvents_node]
    obtain ⟨t, ht, hmem⟩ := @held_deliverPingHandlerMem S env sns packet.decTtl s (hs h)
    exact ⟨t, ht, fun a ha b => (hmem a ha b).trans (by rw [ReplyRefused, and_iff_right h]; rfl)⟩
  · rw [forwardMem_of_not h]
    refine ⟨s, ?_, fun _ _ b => ?_⟩
    · rw [Traced.mapEvents_events, useEvents_map, held_nil]
    · rw [ReplyRefused]
      simp [h]

/-- Forwarding a received packet and freeing its block leaves the block of the reply, if the system
does not take it. -/
theorem held_forwardMem_free :
    ∃ t, held {.received} (useEvents (forwardMem S env sns packet remAddr >>= fun _ =>
        .emit (.use (.release .received))).events) = some t ∧
      ((forwardMem S env sns packet remAddr >>= fun _ =>
          .emit (.use (.release .received))).result = .ok () →
        ∀ b, b ∈ t ↔ b = .packed snWireNetTypeReply ∧ ReplyRefused S env sns packet) := by
  obtain ⟨t, ht, hmem⟩ := @held_forwardMem S env sns packet remAddr {.received} fun _ => by simp
  rcases hforward : forwardMem S env sns packet remAddr with ⟨ws, e | ret⟩
  · rw [hforward] at ht
    exact ⟨t, ht, fun h => by cases h⟩
  · rw [hforward] at ht hmem
    have hmem := hmem ret rfl
    have hin : .received ∈ t := (hmem _).2 (Or.inl (Finset.mem_singleton_self _))
    refine ⟨t.erase .received, ?_, fun _ b => ?_⟩
    · rw [Traced.mk_ok_bind, useEvents_append, held_append]
      exact (congrArg (Option.bind · _) ht).trans (held_release hin)
    · rw [Finset.mem_erase, hmem, Finset.mem_singleton]
      constructor
      · rintro ⟨hb, hb' | hreply⟩
        · exact absurd hb' hb
        · exact hreply
      · rintro ⟨rfl, hrefused⟩
        exact ⟨by simp, Or.inr ⟨rfl, hrefused⟩⟩

/-- What a call of `sn_node_send_typed` leaves allocated. -/
theorem held_snNodeSendTypedMem (dst : SnNetAddr) {type : UInt8} (payload : List UInt8) :
    ∃ t, held ∅ (useEvents (snNodeSendTypedMem S env sns dst type payload).events) = some t ∧
      ∀ a, (snNodeSendTypedMem S env sns dst type payload).result = .ok a → ∀ b, b ∈ t ↔
        env.packMalloc type ∧ (b = .packed type ∧ a = -1 ∨ b = .packed snWireNetTypeReply ∧
          ReplyRefused S env sns (originPacket S sns dst type payload)) := by
  by_cases htype : type < snWireNetTypes
  swap
  · rw [snNodeSendTypedMem, cAssert_of_not htype]
    exact ⟨∅, rfl, fun _ h => by cases h⟩
  rw [snNodeSendTypedMem_eq dst htype]
  by_cases hmalloc : env.packMalloc type
  swap
  · rw [if_neg hmalloc]
    exact ⟨∅, rfl, fun _ _ b => by simp [hmalloc]⟩
  -- A reply to the packet is a block of another type.
  have hne : PingHere env sns (originPacket S sns dst type payload) →
      (.packed snWireNetTypeReply : PacketBlock) ∉ ({.packed type} : Finset PacketBlock) := by
    rintro ⟨-, -, hping⟩ hmem
    rw [originPacket_type] at hping
    rw [hping, Finset.mem_singleton, PacketBlock.packed.injEq] at hmem
    exact absurd hmem (by decide)
  obtain ⟨t, ht, hmem⟩ := @held_forwardMem S env sns _ none _ hne
  rw [if_pos hmalloc]
  simp only [useEvents_use, useEvents_append]
  rw [held_acquire (Finset.notMem_empty _), insert_empty_eq, held_append, ht, Option.bind_some]
  rcases hret : (forwardMem S env sns (originPacket S sns dst type payload) none).result with
    e | ret
  · exact ⟨t, rfl, fun _ h => by cases h⟩
  have hmem := hmem ret hret
  by_cases hfailed : ret = -1
  · refine ⟨t, by rw [freed, if_pos hfailed, useEvents_nil, held_nil], fun a ha b => ?_⟩
    obtain rfl : -1 = a := by simpa [Except.map, hfailed] using ha
    rw [hmem, Finset.mem_singleton]
    simp [hmalloc]
  · have hin : .packed type ∈ t := (hmem _).2 (Or.inl (Finset.mem_singleton_self _))
    refine ⟨t.erase (.packed type), ?_, fun a ha b => ?_⟩
    · rw [freed, if_neg hfailed, useEvents_use, useEvents_nil, held_release hin, held_nil]
    · obtain rfl : 0 = a := by simpa [Except.map, hfailed] using ha
      rw [Finset.mem_erase, hmem, Finset.mem_singleton]
      constructor
      · rintro ⟨hb, hb' | hb'⟩
        · exact absurd hb' hb
        · exact ⟨hmalloc, Or.inr hb'⟩
      · rintro ⟨-, ⟨-, habs⟩ | ⟨rfl, hrefused⟩⟩
        · exact absurd habs (by decide)
        · refine ⟨fun heq => hne hrefused.1 (Finset.mem_singleton.2 heq), Or.inr ⟨rfl, hrefused⟩⟩

variable (S)

/-- The blocks that a turn leaves allocated when it fails no assertion. A received block is left
when the datagram cannot be read any more after it has been announced, and when the signature is
rejected. A packed block is left when `sn_node_send_typed` returns -1. -/
def Turn.Leaves : Turn → PacketBlock → Prop
  | .round r recvOk, .received => r.env.recvMalloc ∧ (¬ recvOk ∧ 2 ≤ r.datagram.length ∧
        lenOfMem r.datagram ≤ snNetPacketMaxLen ∨ recvOk ∧ r.sns.checkSign ∧
      ∃ packet, snNetPacketRecv true r.sns.socket r.datagram = .ok (.packet packet) ∧
        snNetPacketCheckSign S packet ≠ 0)
  | .round r recvOk, .packed type => r.env.recvMalloc ∧ recvOk ∧ type = snWireNetTypeReply ∧
      ∃ packet, snNetPacketRecv true r.sns.socket r.datagram = .ok (.packet packet) ∧
        (r.sns.checkSign → snNetPacketCheckSign S packet = 0) ∧ ReplyRefused S r.env r.sns packet
  | .call .., .received => False
  | .call sns env dst type payload, .packed type' => env.packMalloc type ∧
      (type' = type ∧ (snNodeSendTyped S env sns dst type payload).result = .ok (-1) ∨
        type' = snWireNetTypeReply ∧
          ReplyRefused S env sns (originPacket S sns dst type payload))

variable {S}

theorem Turn.Leaves.malloc {r : Round} {recvOk : Bool} {b : PacketBlock}
    (h : (Turn.round r recvOk).Leaves S b) : r.env.recvMalloc := by
  rcases b with _ | type
  · exact h.1
  · exact h.1

/-- A round without a packet leaves the block of a datagram that could not be read. -/
theorem leaves_of_no_packet {r : Round} {recvOk : Bool}
    (h : recvOk → ∀ packet, snNetPacketRecv true r.sns.socket r.datagram ≠ .ok (.packet packet))
    (b : PacketBlock) : (Turn.round r recvOk).Leaves S b ↔ b = .received ∧ r.env.recvMalloc ∧
      ¬ recvOk ∧ 2 ≤ r.datagram.length ∧ lenOfMem r.datagram ≤ snNetPacketMaxLen := by
  rcases b with _ | type
  · refine ⟨?_, fun ⟨_, hmalloc, hunread⟩ => ⟨hmalloc, Or.inl hunread⟩⟩
    rintro ⟨hmalloc, hunread | ⟨hok, -, packet, hpacket, -⟩⟩
    · exact ⟨rfl, hmalloc, hunread⟩
    · exact absurd hpacket (h hok packet)
  · refine iff_of_false ?_ fun hb => by cases hb.1
    rintro ⟨-, hok, -, packet, hpacket, -⟩
    exact h hok packet hpacket

/-- A round with a packet leaves its block when the signature is rejected, and the block of the
reply otherwise, if the system does not take it. -/
theorem leaves_of_packet {r : Round} {recvOk : Bool} {packet : SnNetPacket}
    (hmalloc : r.env.recvMalloc) (hok : recvOk)
    (h : snNetPacketRecv true r.sns.socket r.datagram = .ok (.packet packet)) (b : PacketBlock) :
    (Turn.round r recvOk).Leaves S b ↔
      b = .received ∧ (r.sns.checkSign ∧ snNetPacketCheckSign S packet ≠ 0) ∨
        b = .packed snWireNetTypeReply ∧
          (¬ (r.sns.checkSign ∧ snNetPacketCheckSign S packet ≠ 0) ∧
            ReplyRefused S r.env r.sns packet) := by
  have huniq : ∀ packet', snNetPacketRecv true r.sns.socket r.datagram = .ok (.packet packet') →
      packet' = packet := fun packet' h' =>
    (RecvOutcome.packet.inj (Except.ok.inj (h.symm.trans h'))).symm
  rcases b with _ | type
  · constructor
    · rintro ⟨-, ⟨hno, -⟩ | ⟨-, hcheck, packet', hpacket, hne⟩⟩
      · exact absurd hok hno
      · exact Or.inl ⟨rfl, hcheck, huniq _ hpacket ▸ hne⟩
    · rintro (⟨-, hcheck, hne⟩ | ⟨habs, -⟩)
      · exact ⟨hmalloc, Or.inr ⟨hok, hcheck, packet, h, hne⟩⟩
      · cases habs
  · constructor
    · rintro ⟨-, -, rfl, packet', hpacket, haccept, hrefused⟩
      obtain rfl := huniq _ hpacket
      exact Or.inr ⟨rfl, fun ⟨hcheck, hne⟩ => hne (haccept hcheck), hrefused⟩
    · rintro (⟨habs, -⟩ | ⟨htype, haccept, hrefused⟩)
      · cases habs
      · exact ⟨hmalloc, hok, PacketBlock.packed.inj htype, packet, h,
          fun hcheck => not_not.1 fun hne => haccept ⟨hcheck, hne⟩, hrefused⟩

/-- What a round of the background loop leaves allocated. -/
theorem held_backgroundStepMem (r : Round) (recvOk : Bool) :
    ∃ t, held ∅ (useEvents ((Turn.round r recvOk).stepMem S).events) = some t ∧
      (((Turn.round r recvOk).stepMem S).result = .ok () →
        ∀ b, b ∈ t ↔ (Turn.round r recvOk).Leaves S b) := by
  have hrecv := @snNetPacketRecv_eq true _ r.datagram r.sns.socket_ne
  rw [if_pos rfl] at hrecv
  rw [Turn.stepMem, backgroundStepMem, snNetPacketRecvMem_eq r.sns.socket_ne]
  by_cases hbad : r.datagram.length < 2 ∨ lenOfMem r.datagram > snNetPacketMaxLen
  · rw [if_pos hbad] at hrecv ⊢
    refine ⟨∅, rfl, fun _ b => iff_of_false (Finset.notMem_empty b) fun hleaves => ?_⟩
    rw [leaves_of_no_packet fun _ packet h => by cases hrecv.symm.trans h] at hleaves
    omega
  rw [if_neg hbad] at hrecv ⊢
  by_cases hmalloc : r.env.recvMalloc
  swap
  · rw [if_neg hmalloc]
    exact ⟨∅, rfl, fun _ b => iff_of_false (Finset.notMem_empty b) fun h => hmalloc h.malloc⟩
  rw [if_pos hmalloc]
  by_cases hok : recvOk
  swap
  · rw [if_neg hok]
    refine ⟨{.received}, rfl, fun _ b => ?_⟩
    rw [leaves_of_no_packet fun hok' => absurd hok' hok, Finset.mem_singleton]
    exact ⟨fun hb => ⟨hb, hmalloc, hok, by omega⟩, fun h => h.1⟩
  rw [if_pos hok]
  by_cases hle : size + lenOfMem r.datagram ≤ r.datagram.length
  swap
  · rw [dif_neg hle] at hrecv ⊢
    refine ⟨∅, rfl, fun _ b => iff_of_false (Finset.notMem_empty b) fun hleaves => ?_⟩
    rw [leaves_of_no_packet fun _ packet h => by cases hrecv.symm.trans h] at hleaves
    exact hleaves.2.2.1 hok
  rw [dif_pos hle] at hrecv ⊢
  rw [Traced.mk_ok_bind]
  by_cases hcheck : r.sns.checkSign ∧ snNetPacketCheckSign S (packetOfMem r.datagram hle) ≠ 0
  · simp only [if_pos hcheck, snNetPacketHeaderToStr_eq, snNodeLog_eq, Traced.lift_ok_bind,
      Traced.mapEvents_mk]
    refine ⟨{.received}, rfl, fun _ b => ?_⟩
    rw [leaves_of_packet hmalloc hok hrecv, Finset.mem_singleton]
    simp [hcheck]
  · simp only [if_neg hcheck]
    obtain ⟨t, ht, hmem⟩ := @held_forwardMem_free S r.env r.sns
      (packetOfMem r.datagram hle) (some r.remAddr)
    refine ⟨t, ?_, fun hresult b => ?_⟩
    · rw [List.singleton_append, useEvents_use, held_acquire (Finset.notMem_empty _)]
      exact ht
    · rw [leaves_of_packet hmalloc hok hrecv, hmem hresult]
      simp [hcheck]

/-- What a turn leaves allocated. -/
theorem held_stepMem (turn : Turn) :
    ∃ t, held ∅ (useEvents (turn.stepMem S).events) = some t ∧
      ((turn.stepMem S).result = .ok () → ∀ b, b ∈ t ↔ turn.Leaves S b) := by
  rcases turn with ⟨r, recvOk⟩ | ⟨sns, env, dst, type, payload⟩
  · exact held_backgroundStepMem r recvOk
  · obtain ⟨t, ht, hmem⟩ := @held_snNodeSendTypedMem S env sns dst type payload
    have hresult : (snNodeSendTypedMem S env sns dst type payload).result =
        (snNodeSendTyped S env sns dst type payload).result :=
      congrArg Traced.result (forget_snNodeSendTypedMem dst payload)
    rw [Turn.stepMem, Traced.bind_pure]
    refine ⟨t, ht, fun h b => ?_⟩
    rcases hret : (snNodeSendTypedMem S env sns dst type payload).result with e | ret
    · rw [hret] at h
      cases h
    · rw [hmem ret hret]
      rw [hresult] at hret
      rcases b with _ | type'
      · simp [Turn.Leaves]
      · simp [Turn.Leaves, hret]

/-- The allocations of a run are those of its first turns, of all turns when the run returns. -/
theorem exists_useEvents_runMem (turns : List Turn) :
    ∃ n, useEvents (runMem S turns).events =
        tagged 0 ((turns.take n).map fun turn => useEvents (turn.stepMem S).events) ∧
      ((runMem S turns).result = .ok () →
        turns.take n = turns ∧ ∀ turn ∈ turns, (turn.stepMem S).result = .ok ()) := by
  obtain ⟨n, hn, hall⟩ := Traced.exists_events_forM_eq
    (fun p : Turn × ℕ => (p.1.stepMem S).mapEvents (UseEvent.tag p.2)) turns.zipIdx
  have htake : turns.zipIdx.take n = (turns.take n).zipIdx := by
    refine List.ext_getElem? fun i => ?_
    simp only [List.getElem?_take, List.getElem?_zipIdx]
    split_ifs <;> rfl
  refine ⟨n, ?_, fun hok => ?_⟩
  · rw [runMem, hn, htake, tagged, List.zipIdx_map, List.flatMap_map, useEvents,
      List.filterMap_flatMap]
    exact congrArg (List.flatMap · _) (funext fun p => useEvents_tag _ p.2)
  · obtain ⟨hlen, hrest⟩ := hall () hok
    rw [List.length_zipIdx] at hlen
    refine ⟨by rw [hlen, List.take_length], fun turn hturn => ?_⟩
    rw [← List.zipIdx_map_fst 0 turns] at hturn
    obtain ⟨p, hp, rfl⟩ := List.mem_map.1 hturn
    exact hrest p hp

variable (S)

/-- **The blocks that are left.** Whatever a node receives and sends, no block is freed twice, and
when it has not failed an assertion the blocks still allocated are those that its turns leave. -/
theorem blocks_left (turns : List Turn) :
    ∃ left, held ∅ (useEvents (runMem S turns).events) = some left ∧
      ((runMem S turns).result = .ok () → ∀ k b, (k, b) ∈ left ↔
        ∃ turn, turns[k]? = some turn ∧ turn.Leaves S b) := by
  obtain ⟨n, hn, hall⟩ := exists_useEvents_runMem (S := S) turns
  choose leftBy hheld hleaves using held_stepMem (S := S)
  obtain ⟨left, hleft, hmem⟩ := held_rounds (List.forall₂_map_left_iff.2
    (List.forall₂_map_right_iff.2 (List.forall₂_same.2 fun turn (_ : turn ∈ turns.take n) =>
      hheld turn)))
  refine ⟨left, by rw [hn, hleft], fun hok k b => ?_⟩
  obtain ⟨htake, hok⟩ := hall hok
  rw [hmem, htake]
  constructor
  · rintro ⟨t, ht, hb⟩
    obtain ⟨turn, hturn, rfl⟩ := List.getElem?_map .. ▸ ht |> Option.map_eq_some_iff.1
    exact ⟨turn, hturn, (hleaves turn (hok turn (List.mem_of_getElem? hturn)) b).1 hb⟩
  · rintro ⟨turn, hturn, hb⟩
    refine ⟨leftBy turn, by rw [List.getElem?_map, hturn]; rfl, ?_⟩
    exact (hleaves turn (hok turn (List.mem_of_getElem? hturn)) b).2 hb

end SndNet
