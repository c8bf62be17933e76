import SndNet.Net.Packet

/-!
# Receiving from a queue of datagrams

`sn_net_packet_recv` (`src/net/packet.c`, lines 11–57) looks at the length of the next datagram
before it allocates memory and takes the datagram from the socket in a second call. This file
translates it on a socket with a queue of datagrams that this thread alone reads, whose calls do not
fail, and with the allocated block as a memory of its size. Every path of the function, whatever the
datagram, takes exactly one datagram from the queue.

## Main definitions

* `SndNet.SockQueue.QueueM`: computations on the queue of a socket.
* `SndNet.SockQueue.snIoSockPeek`, `SndNet.SockQueue.snIoSockRecv`: the calls of the socket.
* `SndNet.SockQueue.snNetPacketRecv`: receiving a packet.
* `SndNet.SockQueue.accepted`: the block in which a datagram is received as a packet.

## Main results

* `SndNet.SockQueue.snNetPacketRecv_cons`: what the function does with the next datagram.
* `SndNet.SockQueue.recvAll_eq`: as many calls as there are datagrams empty the queue.
* `SndNet.SockQueue.snNetPacketRecv_spec`: the format that is accepted, and what is sent again.
-/

namespace SndNet

namespace SockQueue

open ByteLayout FallibleRun SnWireNetHeader

/-! ### The socket -/

/-- What keeps a call from returning. -/
inductive Stop where
  | fault (fault : Fault)
  /-- The queue is empty. -/
  | blocked
  deriving DecidableEq

/-- The datagrams that wait in a socket, the next one first. -/
abbrev Queue := List (List UInt8)

/-- A computation on the queue of a socket. -/
abbrev QueueM := StateT Queue (Except Stop)

/-- A computation that does not touch the queue. -/
def liftExec {α : Type} (x : Exec α) : QueueM α := fun queue =>
  match x with
  | .ok a => .ok (a, queue)
  | .error e => .error (.fault e)

/-- `recvfrom` with a buffer of `len` bytes: the bytes stored in it. The rest of a datagram that is
taken is lost. -/
def recvfrom (len : ℕ) (peek : Bool) : QueueM (List UInt8)
  | [] => .error .blocked
  | d :: queue => .ok (d.take len, if peek then d :: queue else queue)

/-- `sn_io_sock_recv` (`src/io/sock.c`, lines 57–66). -/
def snIoSockRecv (socket : ℤ) (len : ℕ) : QueueM (List UInt8) := do
  liftExec (cAssert (socket ≠ snIoSockInvalid))
  recvfrom len false

/-- `sn_io_sock_peek` (`src/io/sock.c`, lines 68–77). -/
def snIoSockPeek (socket : ℤ) (len : ℕ) : QueueM (List UInt8) := do
  liftExec (cAssert (socket ≠ snIoSockInvalid))
  recvfrom len true

/-! ### Receiving a packet -/

/-- The memory that `malloc` returns. -/
def mallocBlock (heap : ℕ → UInt8) (n : ℕ) : List UInt8 := (List.range n).map heap

/-- A memory after some bytes have been stored at its start. -/
def store (block bytes : List UInt8) : List UInt8 := bytes ++ block.drop bytes.length

/-- A memory after a byte has been written at an index, which has to lie inside. -/
def writeByte (block : List UInt8) (i : ℕ) (b : UInt8) : Exec (List UInt8) :=
  if i < block.length then .ok (block.set i b) else .error .outOfBounds

/-- `sn_net_packet_recv` (`src/net/packet.c`, lines 11–57): the block of the packet, unless `NULL`
is returned. The count of a call that does not fail is not negative. -/
def snNetPacketRecv (heap : ℕ → UInt8) (socket : ℤ) : QueueM (Option (List UInt8)) := do
  liftExec (cAssert (socket ≠ snIoSockInvalid))
  let peeked ← snIoSockPeek socket 2
  if peeked.length < 2 then
    let _ ← snIoSockRecv socket 0
    return none
  else
    let payloadLen := lenOfMem peeked
    if payloadLen > snNetPacketMaxLen then
      let _ ← snIoSockRecv socket 0
      return none
    else
      let packetSize := size + payloadLen + 1
      let packet := mallocBlock heap packetSize
      let received ← snIoSockRecv socket packetSize
      if received.length < size + payloadLen then return none
      else
        let packet ← liftExec (writeByte (store packet received) (size + payloadLen) 0)
        return some packet

/-- A node that receives `n` times. -/
def recvAll (heap : ℕ → UInt8) (socket : ℤ) : ℕ → QueueM (List (Option (List UInt8)))
  | 0 => return []
  | n + 1 => do
    let packet ← snNetPacketRecv heap socket
    let packets ← recvAll heap socket n
    return packet :: packets

/-! ### What the calls do -/

section Calls

variable {α β : Type} {x : QueueM α} {f : α → QueueM β} {queue queue' : Queue} {a : α} {socket : ℤ}
  {d : List UInt8} {len : ℕ}

/-- A sequence of two computations, the first of which returns. -/
theorem bind_apply (h : x queue = .ok (a, queue')) : (x >>= f) queue = f a queue' := by
  change (x queue >>= fun p => f p.1 p.2) = _
  rw [h]
  rfl

theorem liftExec_bind (f : Unit → QueueM β) (hsocket : socket ≠ snIoSockInvalid) :
    (liftExec (cAssert (socket ≠ snIoSockInvalid)) >>= f) = f () := by
  rw [cAssert_of hsocket]
  rfl

theorem snIoSockRecv_cons (hsocket : socket ≠ snIoSockInvalid) :
    snIoSockRecv socket len (d :: queue) = .ok (d.take len, queue) := by
  rw [snIoSockRecv, liftExec_bind _ hsocket]
  rfl

theorem snIoSockPeek_cons (hsocket : socket ≠ snIoSockInvalid) :
    snIoSockPeek socket len (d :: queue) = .ok (d.take len, d :: queue) := by
  rw [snIoSockPeek, liftExec_bind _ hsocket]
  rfl

end Calls

@[simp] theorem length_mallocBlock (heap : ℕ → UInt8) (n : ℕ) :
    (mallocBlock heap n).length = n := by
  rw [mallocBlock, List.length_map, List.length_range]

theorem length_store {block bytes : List UInt8} (h : bytes.length ≤ block.length) :
    (store block bytes).length = block.length := by
  rw [store, List.length_append, List.length_drop]
  omega

/-- A byte written at the last index of a memory. -/
theorem writeByte_last {block bytes : List UInt8} {n : ℕ} {b : UInt8}
    (hlen : block.length = n + 1) (htake : block.take n = bytes) :
    writeByte block n b = .ok (bytes ++ [b]) := by
  have hlt : n < block.length := hlen ▸ Nat.lt_succ_self n
  rw [writeByte, if_pos hlt, List.set_eq_take_append_cons_drop, if_pos hlt, htake,
    List.drop_of_length_le (by omega)]

/-! ### What becomes of a datagram -/

/-- The datagrams in the format of a packet: there are two bytes for the length, it is at most
`SN_NET_PACKET_MAX_LEN`, and the header and the payload are there. -/
def WellFormed (d : List UInt8) : Prop :=
  2 ≤ d.length ∧ lenOfMem d ≤ snNetPacketMaxLen ∧ size + lenOfMem d ≤ d.length

instance (d : List UInt8) : Decidable (WellFormed d) :=
  inferInstanceAs (Decidable (2 ≤ d.length ∧ lenOfMem d ≤ snNetPacketMaxLen ∧
    size + lenOfMem d ≤ d.length))

/-- The block in which a datagram is received as a packet. -/
def accepted (d : List UInt8) : Option (List UInt8) :=
  if WellFormed d then some (d.take (size + lenOfMem d) ++ [0]) else none

variable {heap : ℕ → UInt8} {socket : ℤ}

/-- **One call takes one datagram**, whatever it is. -/
theorem snNetPacketRecv_cons (hsocket : socket ≠ snIoSockInvalid) (d : List UInt8)
    (queue : Queue) : snNetPacketRecv heap socket (d :: queue) = .ok (accepted d, queue) := by
  have hsize : size = 132 := rfl
  rw [snNetPacketRecv, liftExec_bind _ hsocket, bind_apply (snIoSockPeek_cons hsocket)]
  by_cases hshort : d.length < 2
  · have hbad : ¬ WellFormed d := fun h => absurd h.1 (not_le.2 hshort)
    rw [if_pos (by rw [List.length_take]; omega), bind_apply (snIoSockRecv_cons hsocket), accepted,
      if_neg hbad]
    rfl
  rw [if_neg (by rw [List.length_take]; omega), lenOfMem_take le_rfl]
  by_cases hlong : lenOfMem d > snNetPacketMaxLen
  · have hbad : ¬ WellFormed d := fun h => absurd h.2.1 (not_le.2 hlong)
    rw [if_pos hlong, bind_apply (snIoSockRecv_cons hsocket), accepted, if_neg hbad]
    rfl
  rw [if_neg hlong, bind_apply (snIoSockRecv_cons hsocket)]
  by_cases hle : size + lenOfMem d ≤ d.length
  · have hgood : WellFormed d := ⟨not_lt.1 hshort, not_lt.1 hlong, hle⟩
    have hreceived : (d.take (size + lenOfMem d + 1)).length ≤
        (mallocBlock heap (size + lenOfMem d + 1)).length := by
      rw [List.length_take, length_mallocBlock]
      exact min_le_left _ _
    have hstore : (store (mallocBlock heap (size + lenOfMem d + 1))
        (d.take (size + lenOfMem d + 1))).length = size + lenOfMem d + 1 := by
      rw [length_store hreceived, length_mallocBlock]
    have htake : (store (mallocBlock heap (size + lenOfMem d + 1))
        (d.take (size + lenOfMem d + 1))).take (size + lenOfMem d) =
          d.take (size + lenOfMem d) := by
      rw [store, List.take_append_of_le_length (by rw [List.length_take]; omega), List.take_take,
        min_eq_left (Nat.le_succ _)]
    rw [if_neg (by rw [List.length_take]; omega), writeByte_last hstore htake, accepted,
      if_pos hgood]
    rfl
  · have hbad : ¬ WellFormed d := fun h => hle h.2.2
    rw [if_pos (by rw [List.length_take]; omega), accepted, if_neg hbad]
    rfl

/-- **The queue runs empty.** As many calls as there are datagrams take all of them. -/
theorem recvAll_eq (hsocket : socket ≠ snIoSockInvalid) (ds queue : Queue) :
    recvAll heap socket ds.length (ds ++ queue) = .ok (ds.map accepted, queue) := by
  induction ds with
  | nil => rfl
  | cons d ds ih =>
    rw [List.cons_append, List.length_cons, recvAll, bind_apply (snNetPacketRecv_cons hsocket d _),
      bind_apply ih]
    rfl

/-! ### The packet in a block -/

theorem length_block {d : List UInt8} (h : WellFormed d) :
    (d.take (size + lenOfMem d) ++ [0]).length = size + lenOfMem d + 1 := by
  rw [List.length_append, List.length_take, List.length_singleton, min_eq_left h.2.2]

/-- The packet of a datagram has the block as its memory. -/
theorem mem_packetOfMem {d : List UInt8} (h : WellFormed d) :
    (packetOfMem d h.2.2).mem = d.take (size + lenOfMem d) ++ [0] := by
  have hheader : (packetOfMem d h.2.2).header.mem = d.take size := mem_ofMem _
  have hpayload : (packetOfMem d h.2.2).payload = slice size (lenOfMem d) d ++ [0] := rfl
  rw [SnNetPacket.mem, hheader, hpayload, slice, ← List.append_assoc, ← List.take_add]

/-- Reception from a queue agrees with reception of a single datagram. -/
theorem snNetPacketRecv_eq_accepted (hsocket : socket ≠ snIoSockInvalid) (d : List UInt8) :
    SndNet.snNetPacketRecv true socket d = .ok (if h : WellFormed d then
      .packet (packetOfMem d h.2.2) else .dropped) := by
  rw [snNetPacketRecv_eq hsocket]
  by_cases hgood : WellFormed d
  · rw [dif_pos hgood, if_neg (not_or.2 ⟨not_lt.2 hgood.1, not_lt.2 hgood.2.1⟩), if_pos rfl,
      dif_pos hgood.2.2]
  · rw [dif_neg hgood]
    by_cases hbad : d.length < 2 ∨ lenOfMem d > snNetPacketMaxLen
    · rw [if_pos hbad]
    · rw [not_or, not_lt, not_lt] at hbad
      have hshort : ¬ size + lenOfMem d ≤ d.length := fun hle => hgood ⟨hbad.1, hbad.2, hle⟩
      rw [if_neg (not_or.2 ⟨not_lt.2 hbad.1, not_lt.2 hbad.2⟩), if_pos rfl, dif_neg hshort]

/-- The length in the header of the packet of a datagram. -/
theorem len_packetOfMem {d : List UInt8} (h : size + lenOfMem d ≤ d.length) :
    (packetOfMem d h).header.len.toNat = lenOfMem d :=
  lenOfMem_take (show 2 ≤ size by decide)

/-- **The receiver accepts exactly the format.** For every queue with the datagram `d` in front, a
call takes `d` and nothing else from the queue. It returns a packet exactly when `d` has two bytes
for the length, the length is at most `SN_NET_PACKET_MAX_LEN` and `d` has the header and that many
bytes after it. The packet fills the allocated block: the header is the first part of `d`, the
payload the next bytes of `d`, with a zero behind them. Sent again, it is these two parts of `d`. -/
theorem snNetPacketRecv_spec (heap : ℕ → UInt8) (hsocket : socket ≠ snIoSockInvalid)
    (d : List UInt8) (queue : Queue) : ∃ block,
    snNetPacketRecv heap socket (d :: queue) = .ok (block, queue) ∧
    (block.isSome ↔ 2 ≤ d.length ∧ lenOfMem d ≤ snNetPacketMaxLen ∧
      size + lenOfMem d ≤ d.length) ∧
    ∀ m ∈ block, m.length = size + lenOfMem d + 1 ∧ ∃ packet : SnNetPacket, packet.mem = m ∧
      packet.header.mem = d.take size ∧ packet.payload = slice size (lenOfMem d) d ++ [0] ∧
      ∀ dstAddr, snNetPacketSend (fun _ _ => true) packet socket dstAddr =
        ⟨[⟨dstAddr, d.take (size + lenOfMem d)⟩], .ok 0⟩ := by
  refine ⟨accepted d, snNetPacketRecv_cons hsocket d queue, ?_, fun m hm => ?_⟩
  · rw [accepted]
    split_ifs with hgood
    · exact iff_of_true rfl hgood
    · exact iff_of_false Bool.false_ne_true hgood
  · rw [accepted] at hm
    split_ifs at hm with hgood
    · obtain rfl := Option.mem_some.1 hm
      have hdatagram : (packetOfMem d hgood.2.2).datagram = d.take (size + lenOfMem d) := by
        have hlen : (d.take (size + lenOfMem d)).length = size + lenOfMem d := by
          rw [List.length_take, min_eq_left hgood.2.2]
        rw [SnNetPacket.datagram, len_packetOfMem, mem_packetOfMem hgood, List.take_left' hlen]
      refine ⟨length_block hgood, packetOfMem d hgood.2.2, mem_packetOfMem hgood, mem_ofMem _, rfl,
        fun dstAddr => ?_⟩
      rw [snNetPacketSend_eq _ hsocket, if_pos rfl, hdatagram]
    · cases hm

/-- A datagram with a message of two bytes and one byte behind it. -/
def twoByteDatagram : List UInt8 := [2, 0] ++ List.replicate 130 0 ++ [104, 105, 33]

/-- A datagram with a message and one of three bytes, which is no packet, are taken from the queue
one after the other. -/
theorem snNetPacketRecv_spec_two_datagrams : ∃ packet : SnNetPacket,
    snNetPacketRecv (fun _ => 7) 3 [twoByteDatagram, [1, 2, 3], [4]] =
      .ok (some packet.mem, [[1, 2, 3], [4]]) ∧
    packet.header.mem = twoByteDatagram.take size ∧ packet.payload = [104, 105, 0] ∧
    snNetPacketRecv (fun _ => 7) 3 [[1, 2, 3], [4]] = .ok (none, [[4]]) := by
  have hsocket : (3 : ℤ) ≠ snIoSockInvalid := by decide
  obtain ⟨block, hrecv, hiff, hblock⟩ :=
    snNetPacketRecv_spec (fun _ => 7) hsocket twoByteDatagram [[1, 2, 3], [4]]
  obtain ⟨m, rfl⟩ := Option.isSome_iff_exists.1 (hiff.2 (by decide +kernel))
  obtain ⟨-, packet, rfl, hheader, hpayload, -⟩ := hblock m rfl
  obtain ⟨block', hrecv', hiff', -⟩ := snNetPacketRecv_spec (fun _ => 7) hsocket [1, 2, 3] [[4]]
  have hnone : block' = none := by
    rw [← Option.not_isSome_iff_eq_none, hiff']
    decide
  exact ⟨packet, hrecv, hheader, hpayload.trans (by decide +kernel), hnone ▸ hrecv'⟩

end SockQueue

end SndNet
