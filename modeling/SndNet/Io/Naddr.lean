import Mathlib.Data.Int.Notation
import SndNet.Common

/-!
# Network addresses

A node is reached at a socket address of the operating system (`include/io/naddr.h`). The router
stores such addresses and hands them to the socket without looking inside.

## Main definitions

* `SndNet.SnIoNaddr`: a socket address, the family and fourteen bytes of data.
* `SndNet.SnIoNaddr.zero`: the address of zero bytes.
-/

namespace SndNet

/-- `sn_io_naddr_t`, the `struct sockaddr` of the system. -/
structure SnIoNaddr where
  saFamily : UInt16
  saData : CArray UInt8 14
  deriving DecidableEq

/-- The address of zero bytes, which `memset` leaves. -/
def SnIoNaddr.zero : SnIoNaddr := ⟨0, .replicate _ 0⟩

end SndNet
