import Mathlib.Data.Finset.Card
import SndNet.Library.Walk
import SndNet.Net.Router.Built

/-!
# A network in which everyone knows everyone

Every node of a finite set is initialised and adds all other nodes, each in an order of its own, as
the emulated networks of `test/net/network-emulations.cpp` do. A packet moves to the address that
`sn_net_router_nexthop` returns, while there is one. This file computes where it moves from a node:
on range to a node of the whole network at the least distance, off range to a node that shares more
digits with the destination, or, among those that share the most, to one at the least distance.

## Main definitions

* `SndNet.Mesh`: the orders in which the nodes add each other.
* `SndNet.Mesh.hop`: the address to which a packet moves from a node.
* `SndNet.closestNodes`, `SndNet.deepestNodes`: the nodes at the least distance from a destination,
  and those that share the most digits with it.
* `SndNet.OnRange`, `SndNet.Rests`: the nodes that route by the leafset, and those that keep a
  packet.

## Main results

* `SndNet.Mesh.hop_spec`: where a packet moves from a node.
-/

namespace SndNet

open FallibleRun

/-- The orders in which the nodes of `V` add each other, with the network addresses they use. -/
structure Mesh (V : Finset SnNetAddr) where
  /-- The node's own network address. -/
  netAddr : SnNetAddr → Option SnIoNaddr
  /-- The additions of a node, in their order. -/
  order : SnNetAddr → List (SnNetAddr × Option SnIoNaddr)
  nodup : ∀ v ∈ V, ((order v).map Prod.fst).Nodup
  mem_order : ∀ v ∈ V, ∀ x, x ∈ (order v).map Prod.fst ↔ x ∈ V ∧ x ≠ v

/-! ### Nodes and a destination -/

section Nodes

variable (V : Finset SnNetAddr) (dst : SnNetAddr)

/-- The nodes at the least distance from a destination. -/
def closestNodes : Finset SnNetAddr :=
  V.filter fun v => ∀ w ∈ V, snNetAddrDist v dst ≤ snNetAddrDist w dst

/-- The nodes that share the most digits with a destination. -/
def deepestNodes : Finset SnNetAddr := V.filter fun v => ∀ w ∈ V, w.level dst ≤ v.level dst

/-- The nodes whose range test accepts a destination: the greatest, for destinations up to its own
address, and for the address of zero bytes all but the least. -/
def OnRange (v : SnNetAddr) : Prop :=
  (∀ w ∈ V, w ≤ v) ∧ dst ≤ v ∨ dst = .zero ∧ ∃ w ∈ V, w < v

instance (v : SnNetAddr) : Decidable (OnRange V dst v) := inferInstanceAs (Decidable (_ ∨ _))

/-- The nodes that keep a packet for a destination. -/
def Rests (v : SnNetAddr) : Prop :=
  if OnRange V dst v then v ∈ closestNodes V dst
  else v ∈ closestNodes (deepestNodes V dst) dst

instance (v : SnNetAddr) : Decidable (Rests V dst v) := by unfold Rests; infer_instance

variable {V}

variable {dst} in
theorem mem_closestNodes {v : SnNetAddr} : v ∈ closestNodes V dst ↔
    v ∈ V ∧ ∀ w ∈ V, snNetAddrDist v dst ≤ snNetAddrDist w dst :=
  Finset.mem_filter

variable {dst} in
theorem mem_deepestNodes {v : SnNetAddr} : v ∈ deepestNodes V dst ↔
    v ∈ V ∧ ∀ w ∈ V, w.level dst ≤ v.level dst :=
  Finset.mem_filter

/-- A search over the nodes `C` that starts with one of them ends with it when it is among the
closest, and with another of the closest otherwise. -/
theorem bestOf_closest {C : Finset SnNetAddr} {self : SnNetEntry} {xs : List SnNetEntry}
    (hC : ∀ w, w ∈ C ↔ w = self.addr ∨ ∃ e ∈ xs, e.addr = w)
    (hxs : ∀ e ∈ xs, e.addr ≠ self.addr) :
    if self.addr ∈ closestNodes C dst then bestOf self dst xs = { self with isSet := 0 }
    else bestOf self dst xs ∈ xs ∧ (bestOf self dst xs).addr ∈ closestNodes C dst := by
  have hself : self.addr ∈ C := (hC _).2 (Or.inl rfl)
  rcases bestOf_cases dst hxs with ⟨hbest, hle⟩ | ⟨hmem, hlt, hargmin⟩
  · rw [if_pos]
    · exact hbest
    · refine mem_closestNodes.2 ⟨hself, fun w hw => ?_⟩
      rcases (hC w).1 hw with rfl | ⟨e, he, rfl⟩
      · exact le_rfl
      · exact hle e he
  · rw [if_neg fun h => absurd ((mem_closestNodes.1 h).2 _ ((hC _).2 (Or.inr ⟨_, hmem, rfl⟩)))
      (not_le.2 hlt)]
    refine ⟨hmem, mem_closestNodes.2 ⟨(hC _).2 (Or.inr ⟨_, hmem, rfl⟩), fun w hw => ?_⟩⟩
    rcases (hC w).1 hw with rfl | ⟨e, he, rfl⟩
    · exact hlt.le
    · have hle : distTo dst (bestOf self dst xs) ≤ distTo dst e :=
        List.le_of_mem_argmin (List.mem_cons_of_mem _ he) hargmin
      exact hle

end Nodes

/-- The address to which a packet moves for an answer of `sn_net_router_nexthop`, if any. -/
def moveTo (e : SnNetEntry) : Option SnNetAddr := if e.IsSet then some e.addr else none

theorem moveTo_of_isSet {e : SnNetEntry} (h : e.IsSet) : moveTo e = some e.addr := if_pos h

theorem moveTo_unset (e : SnNetEntry) : moveTo { e with isSet := 0 } = none := rfl

/-- After a search over the nodes `C` that starts with one of them, a packet rests there when this
one is among the closest, and moves to one of the closest otherwise. -/
theorem moveTo_bestOf (dst : SnNetAddr) {C : Finset SnNetAddr} {self : SnNetEntry}
    {xs : List SnNetEntry} (hself : self.addr ∈ C)
    (hC : ∀ {w}, (∃ e ∈ xs, e.addr = w) ↔ w ∈ C ∧ w ≠ self.addr) (hset : ∀ e ∈ xs, e.IsSet) :
    if self.addr ∈ closestNodes C dst then moveTo (bestOf self dst xs) = none
    else ∃ w ∈ closestNodes C dst, moveTo (bestOf self dst xs) = some w := by
  have hC' : ∀ w, w ∈ C ↔ w = self.addr ∨ ∃ e ∈ xs, e.addr = w := by
    intro w
    rw [hC]
    exact ⟨fun hw => (eq_or_ne w self.addr).imp id fun hne => ⟨hw, hne⟩,
      fun h => h.elim (fun h => h ▸ hself) And.left⟩
  have hbest := bestOf_closest dst hC' fun e he => (hC.1 ⟨e, he, rfl⟩).2
  split_ifs at hbest ⊢ with hclosest
  · rw [hbest]
    exact moveTo_unset self
  · exact ⟨_, hbest.2, moveTo_of_isSet (hset _ hbest.1)⟩

namespace Mesh

variable (q : Sorter SnNetEntry) {V : Finset SnNetAddr} (mesh : Mesh V) (dst : SnNetAddr)

/-- The router of a node. -/
def router (v : SnNetAddr) : Exec SnNetRouter :=
  run (routerStep q) (snNetRouterInit v (mesh.netAddr v))
    ((mesh.order v).map fun p => .add p.1 p.2)

/-- The address to which a packet for `dst` moves from a node, if any. -/
def hop (v : SnNetAddr) : Exec (Option SnNetAddr) := do
  let snr ← mesh.router q v
  let e ← snNetRouterNexthop snr dst
  return moveTo e

/-- The entries that a node adds. -/
def added (v : SnNetAddr) : List SnNetEntry :=
  (mesh.order v).map fun p => (RouterOp.add p.1 p.2).entry

variable {q mesh dst} {v : SnNetAddr} {snr : SnNetRouter}

theorem map_addr_added (v : SnNetAddr) :
    (mesh.added v).map (·.addr) = (mesh.order v).map Prod.fst := by
  rw [added, List.map_map]
  rfl

variable (mesh) in
theorem exists_added_iff (hv : v ∈ V) {w : SnNetAddr} :
    (∃ e ∈ mesh.added v, e.addr = w) ↔ w ∈ V ∧ w ≠ v := by
  rw [← mesh.mem_order v hv, ← map_addr_added, List.mem_map]

variable (mesh) in
theorem length_added (hv : v ∈ V) : (mesh.added v).length + 1 = V.card := by
  have hset : ((mesh.order v).map Prod.fst).toFinset = V.erase v := by
    ext x
    rw [List.mem_toFinset, mesh.mem_order v hv, Finset.mem_erase, and_comm]
  rw [← List.length_map (f := (·.addr)), map_addr_added,
    ← List.toFinset_card_of_nodup (mesh.nodup v hv), hset, Finset.card_erase_add_one hv]

theorem built (hrouter : mesh.router q v = .ok snr) : Built (mesh.added v) snr :=
  Built.of_run hrouter

theorem self_addr (hrouter : mesh.router q v = .ok snr) : snr.self.addr = v := by
  rw [self_of_run hrouter]
  rfl

/-- Without the address of zero bytes in the network a node can add all others. -/
theorem exists_router (hv : v ∈ V) (hzero : SnNetAddr.zero ∉ V) :
    ∃ snr, mesh.router q v = .ok snr := by
  refine exists_run_of_ne_zero (fun h => hzero (h ▸ hv)) _ fun op hop => ?_
  obtain ⟨p, hp, rfl⟩ := List.mem_map.1 hop
  exact ((mesh.mem_order v hv p.1).1 (List.mem_map_of_mem hp)).2

/-- The nodes on one side of a node are those it adds on that side. -/
theorem exists_sideEntries_iff (hv : v ∈ V) (hrouter : mesh.router q v = .ok snr) {right : Bool}
    {w : SnNetAddr} : (∃ e ∈ sideEntries snr right (mesh.added v), e.addr = w) ↔
      w ∈ V ∧ if right then v < w else w < v := by
  have hself := self_addr hrouter
  have hside : (∃ e ∈ sideEntries snr right (mesh.added v), e.addr = w) ↔
      (w ∈ V ∧ w ≠ v) ∧ snr.sideOf w = right := by
    rw [← mesh.exists_added_iff hv]
    simp only [sideEntries, List.mem_filter, decide_eq_true_eq]
    constructor
    · rintro ⟨e, ⟨he, hright⟩, rfl⟩
      exact ⟨⟨e, he, rfl⟩, hright⟩
    · rintro ⟨⟨e, he, rfl⟩, hright⟩
      exact ⟨e, ⟨he, hright⟩, rfl⟩
  rw [hside, and_assoc]
  refine and_congr_right fun _ => ?_
  cases right with
  | true =>
    rw [SnNetRouter.sideOf_eq_true, hself, if_pos rfl, lt_iff_le_and_ne, and_comm, ne_comm]
  | false =>
    rw [SnNetRouter.sideOf_eq_false, hself]
    exact ⟨fun h => h.2, fun h => ⟨h.ne, h⟩⟩

theorem sideEntries_eq_nil_iff (hv : v ∈ V) (hrouter : mesh.router q v = .ok snr) {right : Bool} :
    sideEntries snr right (mesh.added v) = [] ↔ ∀ w ∈ V, if right then w ≤ v else v ≤ w := by
  have hnil : sideEntries snr right (mesh.added v) = [] ↔
      ∀ w, ¬ ∃ e ∈ sideEntries snr right (mesh.added v), e.addr = w := by
    rw [List.eq_nil_iff_forall_not_mem]
    exact ⟨fun h w ⟨e, he, _⟩ => h e he, fun h e he => h e.addr ⟨e, he, rfl⟩⟩
  rw [hnil]
  refine forall_congr' fun w => ?_
  rw [exists_sideEntries_iff hv hrouter, not_and]
  refine forall_congr' fun _ => ?_
  cases right <;> simp

/-! ### The range test -/

theorem hop_eq (hrouter : mesh.router q v = .ok snr) {onRange : Bool}
    (hrange : leafsetIsOnRange snr dst = .ok onRange) :
    mesh.hop q dst v = .ok (moveTo (nexthopOf onRange snr dst)) := by
  rw [hop, hrouter, ok_bind, snNetRouterNexthop, hrange, ok_bind,
    snNetRouterNexthopFrom_eq (built hrouter).inv.self_isSet, ok_bind, pure_eq_ok]

/-- A side of a network of at most eight nodes has room. -/
theorem length_sideEntries_lt (hv : v ∈ V) (hcard : V.card ≤ snNetRouterLeafsetSize)
    (right : Bool) :
    (sideEntries snr right (mesh.added v)).length < snNetRouterLeafsetSize := by
  have hle : (sideEntries snr right (mesh.added v)).length ≤ (mesh.added v).length :=
    List.length_filter_le _ _
  have hlen := mesh.length_added hv
  omega

/-- The range test in a network of two to eight nodes without the address of zero bytes. -/
theorem leafsetIsOnRange_eq (hv : v ∈ V) (hzero : SnNetAddr.zero ∉ V) (htwo : 1 < V.card)
    (hcard : V.card ≤ snNetRouterLeafsetSize) (hrouter : mesh.router q v = .ok snr)
    (dst : SnNetAddr) : leafsetIsOnRange snr dst = .ok (decide (OnRange V dst v)) := by
  rw [(built hrouter).leafsetIsOnRange_of_room (length_sideEntries_lt hv hcard) dst,
    self_addr hrouter, Except.ok.injEq, decide_eq_decide, OnRange]
  simp only [sideEntries_eq_nil_iff hv hrouter, Bool.false_eq_true, if_false, if_true]
  have hv0 : v ≠ .zero := fun h => hzero (h ▸ hv)
  obtain ⟨u, hu, huv⟩ := Finset.exists_mem_ne htwo v
  have hle0 : ∀ a : SnNetAddr, a ≤ .zero ↔ a = .zero := fun a =>
    ⟨fun h => le_antisymm h (SnNetAddr.zero_le a), fun h => h.le⟩
  by_cases hmax : ∀ w ∈ V, w ≤ v
  · -- The greatest node: its right side is empty and its left side is not.
    have hmin : ¬ ∀ w ∈ V, v ≤ w := fun h => huv (le_antisymm (hmax u hu) (h u hu))
    rw [if_neg hmin, if_pos hmax, and_iff_right (SnNetAddr.zero_le dst), and_iff_right hmax]
    exact ⟨Or.inl, fun h => h.elim id fun h => h.1 ▸ SnNetAddr.zero_le v⟩
  · rw [if_neg hmax, hle0]
    by_cases hmin : ∀ w ∈ V, v ≤ w
    · rw [if_pos hmin]
      refine iff_of_false ?_ ?_
      · rintro ⟨hle, rfl⟩
        exact hv0 ((hle0 v).1 hle)
      · rintro (⟨h, -⟩ | ⟨-, w, hw, hlt⟩)
        · exact hmax h
        · exact absurd (hmin w hw) (not_le.2 hlt)
    · rw [if_neg hmin, and_iff_right (SnNetAddr.zero_le dst)]
      push Not at hmin
      exact ⟨fun h => Or.inr ⟨h, hmin⟩, fun h => h.elim (fun h => absurd h.1 hmax) And.left⟩

/-- The greatest node of nine or more cannot route: its left side is full. -/
theorem hop_of_full (hv : v ∈ V) (hmax : ∀ w ∈ V, w ≤ v) (hcard : snNetRouterLeafsetSize < V.card)
    (hrouter : mesh.router q v = .ok snr) (dst : SnNetAddr) :
    mesh.hop q dst v = .error .outOfBounds := by
  have hall : sideEntries snr false (mesh.added v) = mesh.added v := by
    refine List.filter_eq_self.2 fun e he => ?_
    obtain ⟨hw, hne⟩ := (mesh.exists_added_iff hv).1 ⟨e, he, rfl⟩
    rw [decide_eq_true_eq, SnNetRouter.sideOf_eq_false, self_addr hrouter]
    exact lt_of_le_of_ne (hmax _ hw) hne
  have hlen := mesh.length_added hv
  have hfull := (built hrouter).leafsetIsOnRange_of_full (by rw [hall]; omega) dst
  rw [hop, hrouter, ok_bind, snNetRouterNexthop, hfull]
  rfl

/-! ### The next hop -/

section Hop

variable (hv : v ∈ V) (hcard : V.card ≤ snNetRouterLeafsetSize)
  (hrouter : mesh.router q v = .ok snr)

include hv hcard hrouter

/-- The leafset of a node holds all other nodes. -/
theorem exists_entries_iff {w : SnNetAddr} :
    (∃ right, ∃ e ∈ (snr.leafset right).entries, e.addr = w) ↔ w ∈ V ∧ w ≠ v := by
  rw [← mesh.exists_added_iff hv]
  constructor
  · rintro ⟨right, e, he, rfl⟩
    exact ⟨e, (((built hrouter).mem_entries_iff (length_sideEntries_lt hv hcard right)).1 he).1,
      rfl⟩
  · rintro ⟨e, he, rfl⟩
    exact ⟨snr.sideOf e.addr, e, ((built hrouter).mem_entries_iff
      (length_sideEntries_lt hv hcard _)).2 ⟨he, rfl⟩, rfl⟩

theorem exists_onRangeEntries_iff {w : SnNetAddr} :
    (∃ e ∈ onRangeEntries snr, e.addr = w) ↔ w ∈ V ∧ w ≠ v := by
  rw [← exists_entries_iff hv hcard hrouter]
  simp only [mem_onRangeEntries]
  exact ⟨fun ⟨e, ⟨right, he⟩, h⟩ => ⟨right, e, he, h⟩, fun ⟨right, e, he, h⟩ => ⟨e, ⟨right, he⟩, h⟩⟩

omit hcard in
/-- A set slot carries a node that shares more digits with the destination. -/
theorem level_lt_slotOf {h : snr.self.addr ≠ dst} (hset : (snr.slotOf h).IsSet) :
    (snr.slotOf h).addr ∈ V ∧ v.level dst < (snr.slotOf h).addr.level dst := by
  have hbuilt := built hrouter
  obtain ⟨hne, hidx⟩ := hbuilt.inv.tableIndex_eq hset
  refine ⟨((mesh.exists_added_iff hv).1 ⟨_, hbuilt.slot_mem _ _ hset, rfl⟩).1, ?_⟩
  calc v.level dst = snr.self.addr.level dst := by rw [self_addr hrouter]
    _ < dst.level _ := (tableIndex_eq_iff h hne).1 hidx.symm
    _ = _ := SnNetAddr.level_comm _ _

omit hcard in
/-- The slot of a destination is set exactly when some node shares more digits with it. -/
theorem slotOf_isSet_iff (h : snr.self.addr ≠ dst) :
    (snr.slotOf h).IsSet ↔ ∃ w ∈ V, v.level dst < w.level dst := by
  have hself := self_addr hrouter
  have hbuilt := built hrouter
  constructor
  · intro hset
    exact ⟨_, level_lt_slotOf hv hrouter hset⟩
  · rintro ⟨w, hw, hlt⟩
    have hne : w ≠ v := by
      rintro rfl
      exact lt_irrefl _ hlt
    obtain ⟨e, he, rfl⟩ := (mesh.exists_added_iff hv).2 ⟨hw, hne⟩
    have hne' : snr.self.addr ≠ e.addr := by rw [hself]; exact hne.symm
    have hidx : tableIndex h = tableIndex hne' := by
      rw [tableIndex_eq_iff, hself, SnNetAddr.level_comm dst]
      exact hlt
    have hset := hbuilt.slot_isSet e he hne'
    rwa [SnNetRouter.slotOf, ← hidx] at hset

/-- Off range and among the deepest nodes, the candidates are the other deepest nodes. -/
theorem exists_offRangeEntries_iff (h : snr.self.addr ≠ dst) (hdeep : v ∈ deepestNodes V dst)
    {w : SnNetAddr} :
    (∃ e ∈ offRangeEntries snr h, e.addr = w) ↔ w ∈ deepestNodes V dst ∧ w ≠ v := by
  have hself := self_addr hrouter
  have hinv := (built hrouter).inv
  have hV : ∀ {e : SnNetEntry}, snr.SetEntry e → e.addr ∈ V ∧ e.addr ≠ v := by
    intro e he
    rcases SnNetRouter.setEntry_iff.1 he with ⟨hset, l, c, rfl⟩ | ⟨right, hmem⟩
    · exact (mesh.exists_added_iff hv).1 ⟨_, (built hrouter).slot_mem l c hset, rfl⟩
    · exact (exists_entries_iff hv hcard hrouter).1 ⟨right, e, hmem, rfl⟩
  constructor
  · rintro ⟨e, he, rfl⟩
    obtain ⟨hset, hlevel⟩ := level_le_of_mem_offRangeEntries hinv he
    obtain ⟨hmem, hne⟩ := hV hset
    refine ⟨mem_deepestNodes.2 ⟨hmem, fun w hw => ?_⟩, hne⟩
    have hultra := SnNetAddr.min_level_le e.addr snr.self.addr dst
    rw [SnNetAddr.level_comm e.addr, min_eq_right hlevel, hself] at hultra
    exact ((mem_deepestNodes.1 hdeep).2 w hw).trans hultra
  · rintro ⟨hw, hne⟩
    obtain ⟨hmem, hle⟩ := mem_deepestNodes.1 hw
    obtain ⟨right, e, he, rfl⟩ := (exists_entries_iff hv hcard hrouter).2 ⟨hmem, hne⟩
    refine ⟨e, mem_offRangeEntries.2 (Or.inr ⟨⟨right, he⟩, ?_⟩), rfl⟩
    have hultra := SnNetAddr.min_level_le snr.self.addr dst e.addr
    rw [SnNetAddr.level_comm dst, hself, min_eq_left (hle v hv)] at hultra
    rwa [hself]

omit hcard hrouter in
/-- A node with the destination's own address keeps the packet. -/
theorem mem_closest_deepest_of_eq (h : v = dst) : v ∈ closestNodes (deepestNodes V dst) dst := by
  subst h
  have hdeep : v ∈ deepestNodes V v := mem_deepestNodes.2 ⟨hv, fun w _ => by
    rw [SnNetAddr.level_self]
    exact SnNetAddr.level_le w v⟩
  refine mem_closestNodes.2 ⟨hdeep, fun w _ => ?_⟩
  rw [snNetAddrDist_self]
  exact SnNetAddr.zero_le _

end Hop

variable (q mesh dst) in
/-- **Where a packet moves from a node** of a network of two to eight nodes without the address of
zero bytes: nowhere if it rests there, on range to one of the closest nodes, and off range to one
of the closest among the deepest nodes from one of them, and otherwise to a deeper node. -/
theorem hop_spec (hv : v ∈ V) (hzero : SnNetAddr.zero ∉ V) (htwo : 1 < V.card)
    (hcard : V.card ≤ snNetRouterLeafsetSize) :
    if Rests V dst v then mesh.hop q dst v = .ok none
    else ∃ w ∈ V, mesh.hop q dst v = .ok (some w) ∧
      if OnRange V dst v then w ∈ closestNodes V dst
      else if v ∈ deepestNodes V dst then w ∈ closestNodes (deepestNodes V dst) dst
      else v.level dst < w.level dst := by
  obtain ⟨snr, hrouter⟩ : ∃ snr, mesh.router q v = .ok snr := exists_router hv hzero
  obtain rfl : snr.self.addr = v := self_addr hrouter
  have hinv := (built hrouter).inv
  rw [hop_eq hrouter (leafsetIsOnRange_eq hv hzero htwo hcard hrouter dst)]
  by_cases hon : OnRange V dst snr.self.addr
  · -- On range the search is over the whole network.
    have hmove := moveTo_bestOf dst hv (exists_onRangeEntries_iff hv hcard hrouter)
      fun e he => (setEntry_of_mem_onRangeEntries he).1
    simp only [Rests, hon, decide_true, nexthopOf, if_true]
    split_ifs at hmove ⊢
    · rw [hmove]
    · obtain ⟨w, hw, hmove⟩ := hmove
      exact ⟨w, (mem_closestNodes.1 hw).1, congrArg _ hmove, hw⟩
  · simp only [Rests, hon, decide_false, nexthopOf, if_false, Bool.false_eq_true]
    by_cases h : snr.self.addr = dst
    · rw [if_pos (mem_closest_deepest_of_eq hv h), dif_pos h, moveTo_unset]
    · rw [dif_neg h]
      by_cases hdeep : snr.self.addr ∈ deepestNodes V dst
      · -- Among the deepest nodes the slot is unset, and the search is over the deepest nodes.
        have hunset : ¬ (snr.slotOf h).IsSet := fun hs => by
          obtain ⟨w, hw, hlt⟩ := (slotOf_isSet_iff hv hrouter h).1 hs
          exact absurd ((mem_deepestNodes.1 hdeep).2 w hw) (not_le.2 hlt)
        have hmove := moveTo_bestOf dst hdeep
          (exists_offRangeEntries_iff hv hcard hrouter h hdeep)
          fun e he => (level_le_of_mem_offRangeEntries hinv he).1.1
        rw [if_neg hunset]
        split_ifs at hmove ⊢
        · rw [hmove]
        · obtain ⟨w, hw, hmove⟩ := hmove
          exact ⟨w, (mem_deepestNodes.1 (mem_closestNodes.1 hw).1).1, congrArg _ hmove, hw⟩
      · -- A deeper node is in the slot.
        have hlt : ∃ w ∈ V, snr.self.addr.level dst < w.level dst := by
          by_contra hnone
          push Not at hnone
          exact hdeep (mem_deepestNodes.2 ⟨hv, hnone⟩)
        have hs := (slotOf_isSet_iff hv hrouter h).2 hlt
        obtain ⟨hw, hlevel⟩ := level_lt_slotOf hv hrouter hs
        rw [if_neg fun hc => hdeep (mem_closestNodes.1 hc).1, if_pos hs]
        refine ⟨_, hw, congrArg _ (moveTo_of_isSet hs), ?_⟩
        rwa [if_neg hdeep]

section Outcomes

variable (hv : v ∈ V) (hzero : SnNetAddr.zero ∉ V) (htwo : 1 < V.card)
  (hcard : V.card ≤ snNetRouterLeafsetSize)

include hv hzero htwo hcard

variable (q mesh dst) in
/-- Every node answers. -/
theorem exists_hop : ∃ o, mesh.hop q dst v = .ok o := by
  have hspec := mesh.hop_spec q dst hv hzero htwo hcard
  by_cases hrest : Rests V dst v
  · rw [if_pos hrest] at hspec
    exact ⟨_, hspec⟩
  · rw [if_neg hrest] at hspec
    obtain ⟨w, -, hhop, -⟩ := hspec
    exact ⟨_, hhop⟩

/-- What a hop says about the nodes on either end. -/
theorem of_hop_eq_some {w : SnNetAddr} (hhop : mesh.hop q dst v = .ok (some w)) :
    ¬ Rests V dst v ∧ w ∈ V ∧
      if OnRange V dst v then w ∈ closestNodes V dst
      else if v ∈ deepestNodes V dst then w ∈ closestNodes (deepestNodes V dst) dst
      else v.level dst < w.level dst := by
  have hspec := mesh.hop_spec q dst hv hzero htwo hcard
  by_cases hrest : Rests V dst v
  · rw [if_pos hrest, hhop] at hspec
    simp at hspec
  · rw [if_neg hrest] at hspec
    obtain ⟨w', hw, hhop', hspec⟩ := hspec
    obtain rfl : w' = w := by simpa [hhop'] using hhop
    exact ⟨hrest, hw, hspec⟩

theorem hop_eq_none_iff : mesh.hop q dst v = .ok none ↔ Rests V dst v := by
  have hspec := mesh.hop_spec q dst hv hzero htwo hcard
  by_cases hrest : Rests V dst v
  · rw [if_pos hrest] at hspec
    exact iff_of_true hspec hrest
  · rw [if_neg hrest] at hspec
    obtain ⟨w, -, hhop, -⟩ := hspec
    exact iff_of_false (by simp [hhop]) hrest

end Outcomes

/-- The greatest node, on range, moves a packet to the greatest of the closest nodes. -/
theorem le_of_hop_greatest (hv : v ∈ V) (hzero : SnNetAddr.zero ∉ V) (htwo : 1 < V.card)
    (hcard : V.card ≤ snNetRouterLeafsetSize) (hmax : ∀ w ∈ V, w ≤ v) (hdst : dst ≤ v)
    {w : SnNetAddr} (hhop : mesh.hop q dst v = .ok (some w)) {u : SnNetAddr}
    (hu : u ∈ closestNodes V dst) : u ≤ w := by
  obtain ⟨snr, hrouter⟩ : ∃ snr, mesh.router q v = .ok snr := exists_router hv hzero
  have hself := self_addr hrouter
  have hinv := (built hrouter).inv
  have hon : OnRange V dst v := Or.inl ⟨hmax, hdst⟩
  rw [hop_eq hrouter (leafsetIsOnRange_eq hv hzero htwo hcard hrouter dst)] at hhop
  simp only [hon, decide_true, nexthopOf, if_true, Except.ok.injEq] at hhop
  have hne : ∀ e ∈ onRangeEntries snr, e.addr ≠ snr.self.addr ∧ e.isSet = 1 := fun e he =>
    hinv.setEntry (setEntry_of_mem_onRangeEntries he)
  have hV : ∀ e ∈ onRangeEntries snr, e.addr ∈ V := fun e he =>
    ((exists_onRangeEntries_iff hv hcard hrouter).1 ⟨e, he, rfl⟩).1
  -- The right side is empty, so the candidates are sorted downwards.
  have hsorted : (snr.self :: onRangeEntries snr).Pairwise fun a b => b.addr ≤ a.addr := by
    have hright : snr.rightLeafset.entries = [] := by
      refine List.eq_nil_iff_forall_not_mem.2 fun e he => ?_
      have hbeyond : snr.self.addr < e.addr := (hinv.leafset true).beyond e he
      have hmem := hV e (mem_onRangeEntries.2 ⟨true, he⟩)
      exact absurd (hmax _ hmem) (not_le.2 (hself ▸ hbeyond))
    refine List.pairwise_cons.2 ⟨fun e he => hself ▸ hmax _ (hV e he), ?_⟩
    rw [onRangeEntries, hright, List.append_nil]
    exact (hinv.leafset false).sorted.imp fun h => by simpa using leafsetCmp_nonpos_iff.1 h
  rcases bestOf_cases dst fun e he => (hne e he).1 with ⟨hbest, -⟩ | ⟨hmem, -, hargmin⟩
  · rw [hbest, moveTo_unset] at hhop
    simp at hhop
  · set m := bestOf snr.self dst (onRangeEntries snr)
    have hset : m.IsSet := by simp [(hne m hmem).2]
    rw [moveTo_of_isSet hset, Option.some.injEq] at hhop
    subst hhop
    obtain ⟨huV, hmin⟩ := mem_closestNodes.1 hu
    have hcand : ∃ e ∈ snr.self :: onRangeEntries snr, e.addr = u := by
      by_cases huv : u = v
      · exact ⟨snr.self, List.mem_cons_self, by rw [hself, huv]⟩
      · obtain ⟨e, he, haddr⟩ := (exists_onRangeEntries_iff hv hcard hrouter).2 ⟨huV, huv⟩
        exact ⟨e, List.mem_cons_of_mem _ he, haddr⟩
    obtain ⟨e, he, rfl⟩ := hcand
    rcases Argmin.eq_or_rel_of_le hsorted hargmin he (hmin _ (hV m hmem)) with heq | hle
    · rw [heq]
    · exact hle

/-- Off range a packet moves to the node added last, when that node shares more digits with the
destination. -/
theorem hop_of_last (hv : v ∈ V) (hzero : SnNetAddr.zero ∉ V) (htwo : 1 < V.card)
    (hcard : V.card ≤ snNetRouterLeafsetSize) (hoff : ¬ OnRange V dst v)
    {order : List (SnNetAddr × Option SnIoNaddr)} {a : SnNetAddr} {netAddr : Option SnIoNaddr}
    (hlast : mesh.order v = order ++ [(a, netAddr)]) (hlt : v.level dst < a.level dst) :
    mesh.hop q dst v = .ok (some a) := by
  obtain ⟨snr, hrouter⟩ : ∃ snr, mesh.router q v = .ok snr := exists_router hv hzero
  have hself := self_addr hrouter
  have hne : snr.self.addr ≠ dst := by
    rw [hself]
    rintro rfl
    rw [SnNetAddr.level_self] at hlt
    exact absurd hlt (not_lt.2 (SnNetAddr.level_le _ _))
  -- The last addition has written the slot of the destination.
  have hslot : snr.slotOf hne = (RouterOp.add a netAddr).entry := by
    rw [router, hlast, List.map_append, List.map_singleton] at hrouter
    obtain ⟨s, -, hstep⟩ := run_concat_eq_ok.1 hrouter
    obtain ⟨hne', -, rfl⟩ := routerStep_eq_ok_iff.1 hstep
    rw [SnNetRouter.slotOf, SnNetRouter.after_table_apply, if_pos]
    have hs : s.self.addr = v := by rwa [SnNetRouter.after_self] at hself
    have hdst : s.self.addr ≠ dst := by rwa [SnNetRouter.after_self] at hne
    have hidx : tableIndex hdst = tableIndex hne' := by
      rw [tableIndex_eq_iff, hs, SnNetAddr.level_comm dst]
      exact hlt
    rw [← hidx]
    simp only [tableIndex, SnNetRouter.after_self]
  rw [hop_eq hrouter (leafsetIsOnRange_eq hv hzero htwo hcard hrouter dst)]
  have hset : (snr.slotOf hne).IsSet := by
    rw [hslot]
    simp [RouterOp.entry]
  simp only [hoff, decide_false, nexthopOf, if_false, Bool.false_eq_true, dif_neg hne, if_pos hset]
  rw [moveTo_of_isSet hset, hslot]
  rfl

end Mesh

end SndNet
