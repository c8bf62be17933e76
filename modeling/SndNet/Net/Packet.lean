import SndNet.Io.Sock
import SndNet.Net.Text
import SndNet.Wire

/-!
# Packets

A packet is one block of memory: the header, the payload and a terminating zero
(`src/net/packet.c`). It is built from an address and a payload or read from a datagram, and it is
sent as the part of its memory without the terminator. What is signed and checked is the part of
the memory from the destination on, as long as the length in the header says; this length, the
time to live and the source lie before that part.

## Main definitions

* `SndNet.SnNetPacket`: a packet, whose memory holds what its header announces.
* `SndNet.snNetPacketRecv`, `SndNet.snNetPacketPack`: reading a packet and building one.
* `SndNet.snNetPacketSign`, `SndNet.snNetPacketCheckSign`: signing a packet and checking it.
* `SndNet.snNetPacketSend`: sending a packet.
* `SndNet.SnNetPacket.message`: the payload that the header announces.
* `SndNet.signedBytes`: a destination, a type and a message as bytes.

## Main results

* `SndNet.SnNetPacket.signedPart_eq`: what is signed is the destination, the type and the message.
* `SndNet.SnNetPacket.signedPart_inj`: it determines all three.
* `SndNet.snNetPacketRecv_datagram`: the datagram of a short packet is received as that packet.
-/

namespace SndNet

open ByteLayout FallibleRun SnWireNetHeader

/-- `SN_NET_PACKET_DEFAULT_TTL`. -/
abbrev snNetPacketDefaultTtl : UInt8 := 32

/-- `SN_NET_PACKET_MAX_LEN`. -/
abbrev snNetPacketMaxLen : ℕ := 1000

/-- `sn_net_packet_t`: a packet. -/
structure SnNetPacket where
  header : SnWireNetHeader
  /-- The memory after the header. -/
  payload : List UInt8
  /-- The announced payload and the terminator are inside the block. -/
  len_lt : header.len.toNat < payload.length
  deriving DecidableEq

namespace SnNetPacket

/-- The memory of a packet. -/
def mem (packet : SnNetPacket) : List UInt8 := packet.header.mem ++ packet.payload

/-- The payload that the header announces. -/
def message (packet : SnNetPacket) : List UInt8 := packet.payload.take packet.header.len.toNat

/-- The packet with another time to live. -/
def setTtl (packet : SnNetPacket) (ttl : UInt8) : SnNetPacket :=
  ⟨{ packet.header with ttl := ttl }, packet.payload, packet.len_lt⟩

/-- The packet after `--packet->header.ttl`. -/
def decTtl (packet : SnNetPacket) : SnNetPacket := packet.setTtl (packet.header.ttl - 1)

/-- The packet with another signature. -/
def setSign (packet : SnNetPacket) (sign : SnCryptoSign) : SnNetPacket :=
  ⟨{ packet.header with sign := sign }, packet.payload, packet.len_lt⟩

/-- The pointer and the length handed to the signature functions
(`src/net/packet.c`, lines 92–93 and 103–104). -/
def signedPart (packet : SnNetPacket) : List UInt8 :=
  slice offsetofDst (packet.header.len.toNat + size - offsetofSign - sizeofSign) packet.mem

end SnNetPacket

/-! ### The functions of the source -/

/-- What becomes of the next datagram of a socket. -/
inductive RecvOutcome where
  /-- The packet could not be allocated: the datagram stays in the socket. -/
  | kept
  /-- The datagram is not a packet and is thrown away. -/
  | dropped
  | packet (packet : SnNetPacket)
  deriving DecidableEq

/-- The length in the first two bytes of a memory. -/
def lenOfMem (m : List UInt8) : ℕ := (ofLe16 (m.getD 0 0) (m.getD 1 0)).toNat

theorem lenOfMem_take {m : List UInt8} {n : ℕ} (h : 2 ≤ n) : lenOfMem (m.take n) = lenOfMem m := by
  rw [lenOfMem, lenOfMem, getD_take (by omega), getD_take (by omega)]

/-- The packet in a received memory, with the terminator written behind the payload. -/
def packetOfMem (m : List UInt8) (h : size + lenOfMem m ≤ m.length) : SnNetPacket where
  header := ofMem ⟨m.take size, by rw [List.length_take]; omega⟩
  payload := slice size (lenOfMem m) m ++ [0]
  len_lt := by
    have hlen : (slice size (lenOfMem m) m ++ [0]).length = lenOfMem m + 1 := by
      rw [List.length_append, length_slice h, List.length_singleton]
    rw [hlen, Nat.lt_succ_iff]
    exact le_of_eq (lenOfMem_take (show 2 ≤ size by decide))

/-- `sn_net_packet_recv` (`src/net/packet.c`, lines 11–57) on a socket whose next datagram is
`datagram`; `malloc` says whether the allocation succeeds. The length that is peeked at is read
again with the packet. -/
def snNetPacketRecv (malloc : Bool) (socket : ℤ) (datagram : List UInt8) : Exec RecvOutcome := do
  let peeked ← snIoSockRecv socket datagram 2
  if peeked.length < 2 then return .dropped
  else
    let payloadLen := lenOfMem peeked
    if payloadLen > snNetPacketMaxLen then return .dropped
    else if malloc then
      let packetSize := size + payloadLen + 1
      let received ← snIoSockRecv socket datagram packetSize
      if h : size + lenOfMem received ≤ received.length then return .packet (packetOfMem received h)
      else return .dropped
    else return .kept

/-- The packet that `sn_net_packet_pack` fills in. The length is cut to sixteen bits. -/
def packedPacket (dst src : SnNetAddr) (type : UInt8) (payload : List UInt8) : SnNetPacket where
  header :=
    { len := .ofNat payload.length
      ttl := snNetPacketDefaultTtl
      src := snNetAddrSer src
      sign := ⟨.replicate _ 0⟩
      dst := snNetAddrSer dst
      type := type }
  payload := payload ++ [0]
  len_lt := by
    rw [UInt16.toNat_ofNat', List.length_append, List.length_singleton, Nat.lt_succ_iff]
    exact Nat.mod_le _ _

/-- `sn_net_packet_pack` (`src/net/packet.c`, lines 59–84). -/
def snNetPacketPack (malloc : Bool) (dst src : SnNetAddr) (type : UInt8) (payload : List UInt8) :
    Option SnNetPacket :=
  if malloc then some (packedPacket dst src type payload) else none

variable (S : SignScheme)

/-- `sn_net_packet_sign` (`src/net/packet.c`, lines 86–95). -/
def snNetPacketSign (packet : SnNetPacket) (key : SnCryptoSignKey) : SnNetPacket :=
  packet.setSign (snCryptoSign S key packet.signedPart)

/-- `sn_net_packet_check_sign` (`src/net/packet.c`, lines 97–106): the source address is the public
key. -/
def snNetPacketCheckSign (packet : SnNetPacket) : ℤ :=
  snCryptoSignCheck S packet.header.sign ⟨packet.header.src.key⟩ packet.signedPart

/-- `sn_net_packet_send` (`src/net/packet.c`, lines 108–124). -/
def snNetPacketSend (accepts : SnIoNaddr → List UInt8 → Bool) (packet : SnNetPacket) (socket : ℤ)
    (dstAddr : SnIoNaddr) : Traced Datagram Fault ℤ := do
  let packetSize := size + packet.header.len.toNat
  let sent ← snIoSockSend accepts socket (packet.mem.take packetSize) dstAddr
  if sent < packetSize then return -1 else return 0

/-- `sn_net_packet_get_dst` (`src/net/packet.c`, lines 126–131). -/
def snNetPacketGetDst (packet : SnNetPacket) : SnNetAddr := snNetAddrDeser packet.header.dst

/-- `sn_net_packet_get_src` (`src/net/packet.c`, lines 133–138). -/
def snNetPacketGetSrc (packet : SnNetPacket) : SnNetAddr := snNetAddrDeser packet.header.src

/-- What the text of a header shows. -/
structure HeaderText where
  dst : List UInt8
  src : List UInt8
  ttl : UInt8
  type : UInt8
  len : UInt16
  deriving DecidableEq

/-- `sn_net_packet_header_to_str` (`src/net/packet.c`, lines 140–157). -/
def snNetPacketHeaderToStr (packet : SnNetPacket) : Exec HeaderText := do
  let dstStr ← snNetAddrToStr (snNetPacketGetDst packet)
  let srcStr ← snNetAddrToStr (snNetPacketGetSrc packet)
  return ⟨dstStr, srcStr, packet.header.ttl, packet.header.type, packet.header.len⟩

/-! ### What is signed -/

/-- The destination, the type and the message of a packet as bytes. -/
def signedBytes (dst : SnNetAddr) (type : UInt8) (message : List UInt8) : List UInt8 :=
  dst.key.val ++ (type :: message)

/-- Different destinations, types or messages give different bytes. -/
theorem signedBytes_inj {dst dst' : SnNetAddr} {type type' : UInt8}
    {message message' : List UInt8} :
    signedBytes dst type message = signedBytes dst' type' message' ↔
      dst = dst' ∧ type = type' ∧ message = message' := by
  refine ⟨fun h => ?_, fun ⟨hdst, htype, hmessage⟩ => by rw [hdst, htype, hmessage]⟩
  obtain ⟨hdst, hrest⟩ := List.append_inj h (dst.key.property.trans dst'.key.property.symm)
  obtain ⟨htype, hmessage⟩ := List.cons.inj hrest
  exact ⟨congrArg SnNetAddr.mk (Subtype.ext hdst), htype, hmessage⟩

namespace SnNetPacket

variable (packet : SnNetPacket) {packet' : SnNetPacket} (ttl : UInt8) (sign : SnCryptoSign)

@[simp] theorem setTtl_message : (packet.setTtl ttl).message = packet.message := rfl

@[simp] theorem decTtl_header :
    packet.decTtl.header = { packet.header with ttl := packet.header.ttl - 1 } := rfl

@[simp] theorem decTtl_message : packet.decTtl.message = packet.message := rfl

@[simp] theorem length_message : packet.message.length = packet.header.len.toNat := by
  rw [message, List.length_take, Nat.min_eq_left packet.len_lt.le]

/-- **What is signed** is the destination, the type and the message. -/
theorem signedPart_eq : packet.signedPart =
    signedBytes (snNetPacketGetDst packet) packet.header.type packet.message := by
  have hregion : packet.header.len.toNat + size - offsetofSign - sizeofSign =
      snNetAddrLen + (1 + packet.header.len.toNat) := by
    have hsizes : size = offsetofSign + sizeofSign + snNetAddrLen + 1 := rfl
    omega
  have hdst : slice offsetofDst snNetAddrLen packet.mem = packet.header.dst.key.val := by
    rw [mem, mem_eq, List.append_assoc, slice_append_right (length_before_dst _).le,
      length_before_dst, Nat.sub_self, List.append_assoc]
    exact slice_append_of_length packet.header.length_dst
  have htype : slice offsetofType 1 packet.mem = [packet.header.type] := by
    have hlt : offsetofType < packet.mem.length := by
      rw [mem, List.length_append, length_mem]
      exact Nat.lt_of_lt_of_le (by decide) (Nat.le_add_right _ _)
    rw [slice_one hlt, List.getD_eq_getElem?_getD, mem, List.getElem?_append_left
      (packet.header.length_mem.symm ▸ by decide), ← List.getD_eq_getElem?_getD, getD_type]
  have hmessage : slice (offsetofType + 1) packet.header.len.toNat packet.mem = packet.message := by
    rw [mem, slice_append_right (show packet.header.mem.length ≤ offsetofType + 1 from
      packet.header.length_mem.le), length_mem]
    rfl
  rw [signedPart, hregion, ← slice_append_slice, hdst, ← slice_append_slice]
  exact congrArg _ ((congrArg₂ _ htype hmessage).trans (List.singleton_append))

/-- What is signed determines the destination, the type and the message with its length. -/
theorem signedPart_inj {packet : SnNetPacket} : packet.signedPart = packet'.signedPart ↔
    snNetPacketGetDst packet = snNetPacketGetDst packet' ∧
      packet.header.type = packet'.header.type ∧ packet.header.len = packet'.header.len ∧
      packet.message = packet'.message := by
  rw [signedPart_eq, signedPart_eq, signedBytes_inj]
  refine ⟨fun ⟨hdst, htype, hmessage⟩ => ⟨hdst, htype, ?_, hmessage⟩,
    fun ⟨hdst, htype, _, hmessage⟩ => ⟨hdst, htype, hmessage⟩⟩
  rw [← UInt16.toNat_inj, ← length_message, ← length_message, hmessage]

@[simp] theorem setTtl_signedPart : (packet.setTtl ttl).signedPart = packet.signedPart := by
  rw [signedPart_eq, signedPart_eq]
  rfl

@[simp] theorem setSign_signedPart : (packet.setSign sign).signedPart = packet.signedPart := by
  rw [signedPart_eq, signedPart_eq]
  rfl

end SnNetPacket

/-! ### Datagrams -/

namespace SnNetPacket

/-- The bytes that are sent for a packet. -/
def datagram (packet : SnNetPacket) : List UInt8 :=
  packet.mem.take (size + packet.header.len.toNat)

/-- The packet with nothing behind the message but the terminator. -/
def trim (packet : SnNetPacket) : SnNetPacket :=
  ⟨packet.header, packet.message ++ [0], by
    rw [List.length_append, length_message, List.length_singleton]; exact Nat.lt_succ_self _⟩

variable (packet : SnNetPacket)

theorem datagram_eq : packet.datagram = packet.header.mem ++ packet.message := by
  rw [datagram, mem, List.take_append, length_mem, Nat.add_sub_cancel_left,
    List.take_of_length_le (by rw [length_mem]; exact Nat.le_add_right _ _), message]

theorem length_datagram : packet.datagram.length = size + packet.header.len.toNat := by
  rw [datagram_eq, List.length_append, length_mem, length_message]

theorem lenOfMem_datagram : lenOfMem packet.datagram = packet.header.len.toNat := by
  rw [datagram_eq]
  exact congrArg UInt16.toNat (ofLe16_le16 packet.header.len)

@[simp] theorem trim_header : packet.trim.header = packet.header := rfl

end SnNetPacket

/-- The message of a packet is what it was packed with, unless the length was cut. -/
theorem message_packedPacket (dst src : SnNetAddr) (type : UInt8) {payload : List UInt8}
    (h : payload.length ≤ snNetPacketMaxLen) :
    (packedPacket dst src type payload).header.len.toNat = payload.length ∧
      (packedPacket dst src type payload).message = payload := by
  have hlen : (packedPacket dst src type payload).header.len.toNat = payload.length := by
    have hmax : snNetPacketMaxLen = 1000 := rfl
    rw [packedPacket, UInt16.toNat_ofNat', Nat.mod_eq_of_lt (by omega)]
  refine ⟨hlen, ?_⟩
  rw [SnNetPacket.message, hlen]
  exact List.take_left' rfl

/-- A packet is sent when the system accepts its datagram. -/
theorem snNetPacketSend_eq {accepts : SnIoNaddr → List UInt8 → Bool} {socket : ℤ}
    (packet : SnNetPacket) (hsocket : socket ≠ snIoSockInvalid) (dstAddr : SnIoNaddr) :
    snNetPacketSend accepts packet socket dstAddr =
      if accepts dstAddr packet.datagram then ⟨[⟨dstAddr, packet.datagram⟩], .ok 0⟩
      else ⟨[], .ok (-1)⟩ := by
  rw [snNetPacketSend, snIoSockSend, cAssert_of hsocket, Traced.lift_ok_bind]
  change (ite (accepts dstAddr packet.datagram) _ _ >>= _) = _
  have hlen : (packet.mem.take (size + packet.header.len.toNat)).length =
      size + packet.header.len.toNat := packet.length_datagram
  by_cases h : accepts dstAddr packet.datagram
  · rw [if_pos h, if_pos h, Traced.emit_bind, Traced.pure_eq, Traced.mk_ok_bind, hlen,
      if_neg (lt_irrefl _)]
    rfl
  · rw [if_neg h, if_neg h, Traced.pure_eq, Traced.mk_ok_bind, if_pos (by omega)]
    rfl

/-! ### Receiving -/

section Recv

variable {malloc : Bool} {socket : ℤ} {d : List UInt8}

theorem snIoSockRecv_eq {len : ℕ} (hsocket : socket ≠ snIoSockInvalid) :
    snIoSockRecv socket d len = .ok (d.take len) := by
  rw [snIoSockRecv, cAssert_of hsocket]
  rfl

/-- A buffer that holds the header and the payload holds the packet. -/
theorem packetOfMem_take {n : ℕ} (hn : size + lenOfMem d ≤ n)
    (htake : size + lenOfMem (d.take n) ≤ (d.take n).length) (h : size + lenOfMem d ≤ d.length) :
    packetOfMem (d.take n) htake = packetOfMem d h := by
  have hsize : size = 132 := rfl
  have hlen : lenOfMem (d.take n) = lenOfMem d := lenOfMem_take (by omega)
  have hheader : (d.take n).take size = d.take size := by
    rw [List.take_take, Nat.min_eq_left (by omega)]
  simp only [packetOfMem, hheader, hlen, slice_take hn]

/-- **Receiving.** A datagram is a packet when it holds a header and the payload that the header
announces, which is at most `SN_NET_PACKET_MAX_LEN` bytes long. -/
theorem snNetPacketRecv_eq (hsocket : socket ≠ snIoSockInvalid) :
    snNetPacketRecv malloc socket d = .ok (
      if d.length < 2 ∨ lenOfMem d > snNetPacketMaxLen then .dropped
      else if malloc then
        if h : size + lenOfMem d ≤ d.length then .packet (packetOfMem d h) else .dropped
      else .kept) := by
  have hsize : size = 132 := rfl
  rw [snNetPacketRecv, snIoSockRecv_eq hsocket, ok_bind]
  by_cases hshort : d.length < 2
  · rw [if_pos (by rw [List.length_take]; omega), if_pos (Or.inl hshort)]
    rfl
  rw [if_neg (by rw [List.length_take]; omega), lenOfMem_take le_rfl]
  by_cases hlong : lenOfMem d > snNetPacketMaxLen
  · rw [if_pos hlong, if_pos (Or.inr hlong)]
    rfl
  rw [if_neg hlong, if_neg (not_or.2 ⟨hshort, hlong⟩)]
  by_cases hmalloc : malloc
  · have hlen : lenOfMem (d.take (size + lenOfMem d + 1)) = lenOfMem d := lenOfMem_take (by omega)
    have hiff : size + lenOfMem (d.take (size + lenOfMem d + 1)) ≤
        (d.take (size + lenOfMem d + 1)).length ↔ size + lenOfMem d ≤ d.length := by
      rw [hlen, List.length_take]
      omega
    rw [if_pos hmalloc, if_pos hmalloc]
    change (snIoSockRecv socket d (size + lenOfMem d + 1) >>= _) = _
    rw [snIoSockRecv_eq hsocket, ok_bind]
    by_cases h : size + lenOfMem d ≤ d.length
    · rw [dif_pos (hiff.2 h), dif_pos h, packetOfMem_take (Nat.le_succ _) _ h]
      rfl
    · rw [dif_neg (mt hiff.1 h), dif_neg h]
      rfl
  · rw [if_neg hmalloc, if_neg hmalloc]
    rfl

/-- The datagram of a packet with a short payload is received as that packet. -/
theorem snNetPacketRecv_datagram (hsocket : socket ≠ snIoSockInvalid) {packet : SnNetPacket}
    (hlen : packet.header.len.toNat ≤ snNetPacketMaxLen) :
    snNetPacketRecv malloc socket packet.datagram =
      .ok (if malloc then .packet packet.trim else .kept) := by
  have hsize : size = 132 := rfl
  have hlength := packet.length_datagram
  have hlenOf := packet.lenOfMem_datagram
  have hle : size + lenOfMem packet.datagram ≤ packet.datagram.length := by omega
  have hpacket : packetOfMem packet.datagram hle = packet.trim := by
    have hheader : packet.datagram.take size = packet.header.mem := by
      rw [packet.datagram_eq]
      exact List.take_left' packet.header.length_mem
    have hpayload : slice size packet.header.len.toNat packet.datagram = packet.message := by
      rw [packet.datagram_eq, slice_append_right packet.header.length_mem.le, length_mem,
        Nat.sub_self]
      exact slice_of_length packet.length_message
    simp only [packetOfMem, SnNetPacket.trim, hheader, hlenOf, hpayload, ofMem_mem]
  rw [snNetPacketRecv_eq hsocket, if_neg (by omega), dif_pos hle, hpacket]

end Recv

end SndNet
