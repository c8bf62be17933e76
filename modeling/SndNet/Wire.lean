import SndNet.Crypto.Sign
import SndNet.Library.ByteLayout
import SndNet.Net.Addr

/-!
# The wire format

A packet starts with a header of 132 bytes (`include/wire.h`). The code sends and receives the
memory of the structure as it is, and computes what is signed from the offsets and the sizes of
the members. This file lays the header out as bytes and reads it back. A length is stored in the
byte order of the machine, which is little-endian here.

## Main definitions

* `SndNet.SnWireNetHeader`: the header.
* `SndNet.SnWireNetHeader.mem`, `SndNet.SnWireNetHeader.ofMem`: the memory of a header and the
  header in a memory.

## Main results

* `SndNet.SnWireNetHeader.ofMem_mem`, `SndNet.SnWireNetHeader.mem_ofMem`: headers and memories of
  132 bytes correspond.
-/

namespace SndNet

open ByteLayout

/-- `sn_net_addr_ser_t`: an address in a packet. -/
structure SnNetAddrSer where
  key : CArray UInt8 snNetAddrLen
  deriving DecidableEq

/-- `sn_net_addr_ser` (`src/net/addr.c`, lines 137–144). -/
def snNetAddrSer (sna : SnNetAddr) : SnNetAddrSer := ⟨sna.key⟩

/-- `sn_net_addr_deser` (`src/net/addr.c`, lines 146–153). -/
def snNetAddrDeser (ser : SnNetAddrSer) : SnNetAddr := ⟨ser.key⟩

@[simp] theorem snNetAddrDeser_ser (sna : SnNetAddr) : snNetAddrDeser (snNetAddrSer sna) = sna :=
  rfl

@[simp] theorem snNetAddrSer_deser (ser : SnNetAddrSer) : snNetAddrSer (snNetAddrDeser ser) = ser :=
  rfl

/-- `sn_wire_net_header_t`: the header of a packet. -/
structure SnWireNetHeader where
  /-- Length of the payload. -/
  len : UInt16
  /-- Time to live, decreased when forwarded; at 0 the packet is not forwarded any more. -/
  ttl : UInt8
  /-- SecondNet source address. -/
  src : SnNetAddrSer
  /-- Ed25519-SHA512 signature. -/
  sign : SnCryptoSign
  /-- SecondNet destination address. -/
  dst : SnNetAddrSer
  /-- Content type. -/
  type : UInt8
  deriving DecidableEq

/-! ### Packet types -/

/-- `SN_WIRE_NET_TYPE_USER`. -/
abbrev snWireNetTypeUser : UInt8 := 0

/-- `SN_WIRE_NET_TYPE_REPLY`. -/
abbrev snWireNetTypeReply : UInt8 := 1

/-- `SN_WIRE_NET_TYPE_PING`. -/
abbrev snWireNetTypePing : UInt8 := 2

/-- `SN_WIRE_NET_TYPES`: the number of types. -/
abbrev snWireNetTypes : UInt8 := 3

/-- `SN_WIRE_PING_MSG_SIZE`, the size of `sn_wire_ping_msg_t`. -/
abbrev snWirePingMsgSize : ℕ := 20

/-! ### The memory of a header -/

namespace SnWireNetHeader

/-- `sizeof(sn_wire_net_header_t)`. -/
abbrev size : ℕ := 132

/-- `SN_SIZEOF_MEMBER(sn_wire_net_header_t, sign)`. -/
abbrev sizeofSign : ℕ := cryptoSignBytes

/-- `offsetof(sn_wire_net_header_t, ttl)`. -/
abbrev offsetofTtl : ℕ := 2

/-- `offsetof(sn_wire_net_header_t, src)`. -/
abbrev offsetofSrc : ℕ := offsetofTtl + 1

/-- `offsetof(sn_wire_net_header_t, sign)`. -/
abbrev offsetofSign : ℕ := offsetofSrc + snNetAddrLen

/-- `offsetof(sn_wire_net_header_t, dst)`. -/
abbrev offsetofDst : ℕ := offsetofSign + sizeofSign

/-- `offsetof(sn_wire_net_header_t, type)`. -/
abbrev offsetofType : ℕ := offsetofDst + snNetAddrLen

/-- The memory of a header, the members in their order without padding. -/
def mem (h : SnWireNetHeader) : List UInt8 :=
  le16 h.len ++ ([h.ttl] ++
    (h.src.key.val ++ (h.sign.signature.val ++ (h.dst.key.val ++ [h.type]))))

/-- The header in a memory of its size. -/
def ofMem (m : CArray UInt8 size) : SnWireNetHeader where
  len := ofLe16 (m.val.getD 0 0) (m.val.getD 1 0)
  ttl := m.val.getD offsetofTtl 0
  src := ⟨⟨slice offsetofSrc snNetAddrLen m.val, length_slice (by rw [m.property]; decide)⟩⟩
  sign := ⟨⟨slice offsetofSign sizeofSign m.val, length_slice (by rw [m.property]; decide)⟩⟩
  dst := ⟨⟨slice offsetofDst snNetAddrLen m.val, length_slice (by rw [m.property]; decide)⟩⟩
  type := m.val.getD offsetofType 0

variable (h : SnWireNetHeader)

@[simp] theorem length_src : h.src.key.val.length = 32 := h.src.key.property

@[simp] theorem length_sign : h.sign.signature.val.length = 64 := h.sign.signature.property

@[simp] theorem length_dst : h.dst.key.val.length = 32 := h.dst.key.property

@[simp] theorem length_mem : h.mem.length = size := by simp [mem, size]

/-- The memory of a header ends with the destination and the type. -/
theorem mem_eq : h.mem =
    (le16 h.len ++ ([h.ttl] ++ (h.src.key.val ++ h.sign.signature.val))) ++
      (h.dst.key.val ++ [h.type]) := by
  simp only [mem, List.append_assoc]

/-- What stands before the destination has its offset as length. -/
theorem length_before_dst :
    (le16 h.len ++ ([h.ttl] ++ (h.src.key.val ++ h.sign.signature.val))).length = offsetofDst := by
  simp only [List.length_append, length_le16, List.length_singleton, h.length_src, h.length_sign]
  rfl

theorem slice_src : slice offsetofSrc snNetAddrLen h.mem = h.src.key.val := by
  rw [mem, slice_append_right (show 2 ≤ offsetofSrc by decide),
    slice_append_right (show 1 ≤ offsetofSrc - 2 by decide)]
  exact slice_append_of_length h.src.key.property

theorem slice_sign : slice offsetofSign sizeofSign h.mem = h.sign.signature.val := by
  rw [mem, slice_append_right (show 2 ≤ offsetofSign by decide),
    slice_append_right (show 1 ≤ offsetofSign - 2 by decide), length_le16, List.length_singleton,
    slice_append_right (show h.src.key.val.length ≤ offsetofSign - 2 - 1 from
      h.length_src.trans_le (by decide)), h.length_src]
  exact slice_append_of_length h.sign.signature.property

theorem slice_dst : slice offsetofDst snNetAddrLen h.mem = h.dst.key.val := by
  rw [mem_eq, slice_append_right h.length_before_dst.le, h.length_before_dst, Nat.sub_self]
  exact slice_append_of_length h.dst.key.property

theorem getD_type : h.mem.getD offsetofType 0 = h.type := by
  rw [mem_eq, List.getD_eq_getElem?_getD, List.getElem?_append_right
    (h.length_before_dst.trans_le (by decide)), h.length_before_dst,
    List.getElem?_append_right (h.length_dst.trans_le (by decide)), h.length_dst]
  rfl

/-- The header in its memory. -/
theorem ofMem_mem : ofMem ⟨h.mem, h.length_mem⟩ = h := by
  have hlen : ofLe16 (h.mem.getD 0 0) (h.mem.getD 1 0) = h.len := ofLe16_le16 h.len
  have httl : h.mem.getD offsetofTtl 0 = h.ttl := rfl
  simp only [ofMem, hlen, httl, slice_src, slice_sign, slice_dst, getD_type]

/-- The memory of the header that a memory holds. -/
theorem mem_ofMem (m : CArray UInt8 size) : (ofMem m).mem = m.val := by
  have hone : ∀ off, off < size → [m.val.getD off 0] = slice off 1 m.val := fun off hoff =>
    (slice_one (m.property.symm ▸ hoff)).symm
  have htwo : le16 (ofMem m).len = slice 0 1 m.val ++ slice (0 + 1) 1 m.val := by
    rw [ofMem, le16_ofLe16, ← hone 0 (by decide), ← hone 1 (by decide)]
    rfl
  calc (ofMem m).mem
      = slice 0 1 m.val ++ slice (0 + 1) 1 m.val ++ (slice offsetofTtl 1 m.val ++
          (slice offsetofSrc snNetAddrLen m.val ++ (slice offsetofSign sizeofSign m.val ++
            (slice offsetofDst snNetAddrLen m.val ++ slice offsetofType 1 m.val)))) := by
        rw [mem, htwo, ← hone offsetofTtl (by decide), ← hone offsetofType (by decide)]
        rfl
    _ = slice 0 size m.val := by
        rw [slice_append_slice, slice_append_slice, slice_append_slice, slice_append_slice,
          slice_append_slice, slice_append_slice]
        rfl
    _ = m.val := slice_of_length m.property

end SnWireNetHeader

end SndNet
