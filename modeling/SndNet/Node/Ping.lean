import SndNet.Node.Forward

/-!
# The answer to a ping

A ping is answered with a reply that carries the ping message back. The handler copies a whole
message of `sizeof(sn_wire_ping_msg_t)` bytes from the payload on (`src/handler.c`, lines 60–72),
while the payload is as long as the sender has announced and the block of memory was allocated for
that length (`src/net/packet.c`, lines 11–57). This file determines which pings are answered from
their own bytes.

## Main definitions

* `SndNet.memcpy`: a copy, with the offsets of the bytes that it reads.
* `SndNet.pingReply`: the packing of a reply, with the offsets in the payload of the ping.
* `SndNet.AnsweredFromMessage`: a ping is answered from its own bytes.

## Main results

* `SndNet.deliverPingHandler_eq_pingReply`: the handler packs this reply and forwards it.
* `SndNet.answeredFromMessage_iff`: the pings that are answered from their own bytes are those of
  twenty bytes or more, and those for whose reply no memory is found.
-/

namespace SndNet

variable {S : SignScheme} (env : Environment) (sns : SnNode) (packet : SnNetPacket)

/-! ### Copying -/

/-- `memcpy` of `len` bytes from a place in memory. An event is the offset of a byte that is
read. -/
def memcpy (mem : ℕ → UInt8) (len : ℕ) : Traced ℕ Fault (List UInt8) :=
  ⟨List.range len, .ok ((List.range len).map mem)⟩

/-- The memory from the payload of a packet on. -/
def payloadMem (i : ℕ) : UInt8 := packet.payload.getD i (env.heap (i - packet.payload.length))

/-- `sn_net_packet_pack` (`src/net/packet.c`, lines 59–84) with `len` bytes of memory as the
payload. -/
def snNetPacketPackMem (malloc : Bool) (dst src : SnNetAddr) (type : UInt8) (mem : ℕ → UInt8)
    (len : ℕ) : Traced ℕ Fault (Option SnNetPacket) :=
  if malloc then do
    let payload ← memcpy mem len
    return some (packedPacket dst src type payload)
  else return none

/-- The reply that the handler of pings has packed, with the offsets of the bytes of the payload
that went into it (`src/handler.c`, lines 60–72). -/
def pingReply : Traced ℕ Fault (Option SnNetPacket) :=
  snNetPacketPackMem (env.packMalloc snWireNetTypeReply) (snNetPacketGetSrc packet) sns.self
    snWireNetTypeReply (payloadMem env packet) snWirePingMsgSize

/-- The reply is packed from the bytes of the ping message. -/
theorem pingReply_result : (pingReply env sns packet).result =
    .ok (snNetPacketPack (env.packMalloc snWireNetTypeReply) (snNetPacketGetSrc packet) sns.self
      snWireNetTypeReply (pingBytes env packet)) := by
  rw [pingReply, snNetPacketPackMem, snNetPacketPack]
  split_ifs <;> rfl

/-- A whole message is read, unless there is no memory for the reply. -/
theorem pingReply_events : (pingReply env sns packet).events =
    if env.packMalloc snWireNetTypeReply then List.range snWirePingMsgSize else [] := by
  rw [pingReply, snNetPacketPackMem]
  split_ifs
  · exact List.append_nil _
  · rfl

/-- **What the handler does.** It packs the reply, signs it and forwards it. -/
theorem deliverPingHandler_eq_pingReply : deliverPingHandler S env sns packet =
    .lift (pingReply env sns packet).result >>= fun reply =>
      match reply with
      | none => return -1
      | some reply => do
        let ret ← forward S env sns (signIfActive S sns reply) none
        if ret = -1 then return -1 else return 0 := by
  rw [pingReply_result, Traced.lift_ok_bind, deliverPingHandler, snNodeSendTyped,
    cAssert_of (by decide), Traced.lift_ok_bind]
  cases snNetPacketPack (env.packMalloc snWireNetTypeReply) (snNetPacketGetSrc packet) sns.self
    snWireNetTypeReply (pingBytes env packet) <;> rfl

/-! ### The memory behind a packet -/

variable {env sns packet}

/-- The way of a reply does not depend on the memory behind it. -/
theorem forward_heap (htype : packet.header.type = snWireNetTypeReply) (heap : ℕ → UInt8)
    (remAddr : Option SnIoNaddr) :
    forward S { env with heap := heap } sns packet remAddr = forward S env sns packet remAddr := by
  have htype' : packet.decTtl.header.type = snWireNetTypeReply := htype
  rw [forward_eq, forward_eq, deliver_eq, deliver_eq, handle_of_reply htype',
    handle_of_reply htype']
  rfl

/-- The answer depends on the source and the message bytes of a ping only. -/
theorem deliverPingHandler_congr {packet' : SnNetPacket} {heap : ℕ → UInt8}
    (hsrc : snNetPacketGetSrc packet' = snNetPacketGetSrc packet)
    (hbytes : env.packMalloc snWireNetTypeReply →
      pingBytes { env with heap := heap } packet' = pingBytes env packet) :
    deliverPingHandler S { env with heap := heap } sns packet' =
      deliverPingHandler S env sns packet := by
  rw [deliverPingHandler_eq, deliverPingHandler_eq]
  by_cases hmalloc : env.packMalloc snWireNetTypeReply
  · have hreply : replyPacket S { env with heap := heap } sns packet' =
        replyPacket S env sns packet := by
      rw [replyPacket, replyPacket, hsrc, hbytes hmalloc]
    have htype : (replyPacket S env sns packet).header.type = snWireNetTypeReply :=
      originPacket_type ..
    rw [if_pos hmalloc, if_pos hmalloc, hreply, forward_heap htype]
  · rw [if_neg hmalloc, if_neg hmalloc]

/-- Inside the message the payload of a packet is its message. -/
theorem payloadMem_of_lt {i : ℕ} (h : i < packet.header.len.toNat) :
    payloadMem env packet i = packet.message.getD i 0 := by
  have hlen : i < packet.payload.length := h.trans packet.len_lt
  rw [payloadMem, SnNetPacket.message, List.getD_eq_getElem?_getD, List.getD_eq_getElem?_getD,
    List.getElem?_take_of_lt h, List.getElem?_eq_getElem hlen]
  rfl

/-- The bytes of a long ping are those of its message. -/
theorem pingBytes_of_le (h : snWirePingMsgSize ≤ packet.header.len.toNat) :
    pingBytes env packet = packet.message.take snWirePingMsgSize := by
  have hmap : pingBytes env packet = (List.range snWirePingMsgSize).map (payloadMem env packet) :=
    rfl
  refine List.ext_getElem ?_ fun i hi hi' => ?_
  · rw [hmap, List.length_map, List.length_range, List.length_take, packet.length_message,
      Nat.min_eq_left h]
  · have hlt : i < packet.header.len.toNat := by
      rw [List.length_take, packet.length_message] at hi'
      omega
    have hmessage : i < packet.message.length := by rwa [packet.length_message]
    simp only [hmap, List.getElem_map, List.getElem_range, List.getElem_take,
      payloadMem_of_lt hlt, List.getD_eq_getElem?_getD, List.getElem?_eq_getElem hmessage,
      Option.getD_some]

/-! ### Answers -/

variable (S env sns packet)

/-- A ping is answered from its own bytes: every byte of the payload that is copied into the reply
is one of those that the header announces, and the answer is the same whatever lies behind them. -/
structure AnsweredFromMessage : Prop where
  lt_len : ∀ i ∈ (pingReply env sns packet).events, i < packet.header.len.toNat
  eq_of_message : ∀ heap packet', packet'.header = packet.header →
    packet'.message = packet.message →
      deliverPingHandler S { env with heap := heap } sns packet' =
        deliverPingHandler S env sns packet

/-- **Which pings are answered from their own bytes.** Those whose payload is at least as long as a
ping message, and those for whose reply no memory is found. -/
theorem answeredFromMessage_iff : AnsweredFromMessage S env sns packet ↔
    snWirePingMsgSize ≤ packet.header.len.toNat ∨ ¬ env.packMalloc snWireNetTypeReply := by
  constructor
  · intro h
    by_cases hmalloc : env.packMalloc snWireNetTypeReply
    · have hlast := h.lt_len (snWirePingMsgSize - 1) (by
        rw [pingReply_events, if_pos hmalloc, List.mem_range]
        decide)
      exact Or.inl (Nat.le_of_pred_lt hlast)
    · exact Or.inr hmalloc
  · intro h
    constructor
    · intro i hi
      rw [pingReply_events] at hi
      split_ifs at hi with hmalloc
      · exact (List.mem_range.1 hi).trans_le (h.resolve_right fun hno => hno hmalloc)
      · exact absurd hi List.not_mem_nil
    · intro heap packet' hheader hmessage
      refine deliverPingHandler_congr ?_ fun hmalloc => ?_
      · rw [snNetPacketGetSrc, hheader, snNetPacketGetSrc]
      · have hle := h.resolve_right fun hno => hno hmalloc
        rw [pingBytes_of_le (by rwa [hheader]), pingBytes_of_le hle, hmessage]

/-- A ping without a payload. -/
def emptyPing : SnNetPacket := packedPacket .zero .zero snWireNetTypePing []

/-- It is accepted, and answered with the memory behind it. -/
theorem not_answeredFromMessage_emptyPing :
    snNetPacketRecv true 3 emptyPing.datagram = .ok (.packet emptyPing) ∧
      emptyPing.header.type = snWireNetTypePing ∧
      ¬ AnsweredFromMessage .plain .ideal (.plain (snNetRouterInit .zero none) none) emptyPing := by
  refine ⟨?_, rfl, fun h => ?_⟩
  · exact snNetPacketRecv_datagram (by decide) (by decide)
  · exact absurd (h.lt_len 0 (by rw [pingReply_events]; decide)) (by decide)

end SndNet
