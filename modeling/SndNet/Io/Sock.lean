import SndNet.Io.Naddr
import SndNet.Library.Traced

/-!
# Sockets

The library sends and receives datagrams through a socket of the operating system
(`src/io/sock.c`). A datagram socket transmits a datagram whole or not at all, and delivers one
datagram to each receiving call, of which it stores as much as fits into the buffer. Receiving
calls that fail are left out, since a node that gets no packet just tries again.

## Main definitions

* `SndNet.Datagram`: a datagram handed to the network.
* `SndNet.snIoSockSend`, `SndNet.snIoSockRecv`: sending and receiving.
-/

namespace SndNet

/-- `SN_IO_SOCK_INVALID`. -/
abbrev snIoSockInvalid : ℤ := -1

/-- A datagram handed to the network. -/
structure Datagram where
  /-- The network address it is sent to. -/
  dst : SnIoNaddr
  bytes : List UInt8
  deriving DecidableEq

/-- `sn_io_sock_send` (`src/io/sock.c`, lines 49–55): the number of bytes sent, or -1 when the
system does not accept the datagram. -/
def snIoSockSend (accepts : SnIoNaddr → List UInt8 → Bool) (socket : ℤ) (buf : List UInt8)
    (dst : SnIoNaddr) : Traced Datagram Fault ℤ := do
  .lift (cAssert (socket ≠ snIoSockInvalid))
  if accepts dst buf then
    .emit ⟨dst, buf⟩
    return buf.length
  else return -1

/-- `sn_io_sock_recv` and `sn_io_sock_peek` (`src/io/sock.c`, lines 57–77) on a socket whose next
datagram is `datagram`: the bytes stored in a buffer of `len` bytes. Only the first of the two
takes the datagram from the socket. -/
def snIoSockRecv (socket : ℤ) (datagram : List UInt8) (len : ℕ) : Exec (List UInt8) := do
  cAssert (socket ≠ snIoSockInvalid)
  return datagram.take len

end SndNet
