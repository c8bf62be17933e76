import Mathlib.Data.Prod.Lex
import SndNet.Library.Walk
import SndNet.Net.Router.Built

/-!
# Packets that return

In a network whose nodes know only some of the others, or know nodes that are gone, a packet can
come back to a node. Every hop on range is to a node at a smaller distance from the destination, and
every hop off range is to a node that shares more digits with it, or as many at a smaller distance.
So a packet that comes back has taken hops of both kinds, however many nodes there are, whatever
their routers contain and however they change meanwhile. Where the nodes have only added others, a
hop on range is one from a node that has added none above itself.

## Main definitions

* `SndNet.RoutingHop`: a hop of a packet from a node, on range or off range.

## Main results

* `SndNet.dist_lt_of_hop`, `SndNet.routeMeasure_lt_of_hop`: what a hop of either kind decreases.
* `SndNet.mixed_of_loop`: a packet that comes back has taken hops of both kinds.
* `SndNet.greatest_of_loop`: among nodes that only add, it has passed one that knows none above it.
-/

namespace SndNet

open FallibleRun

variable {q : Sorter SnNetEntry} {dst v w : SnNetAddr} {onRange : Bool}

/-! ### Hops -/

/-- A hop of a packet for `dst` from the node `v` to the node `w`: in some reachable state, the
router of `v` answers with a set entry for `w`, on range or off range. -/
def RoutingHop (q : Sorter SnNetEntry) (dst : SnNetAddr) (onRange : Bool) (v w : SnNetAddr) :
    Prop :=
  ∃ snr e, Reachable q snr ∧ snr.self.addr = v ∧
    snNetRouterNexthopFrom onRange snr dst = .ok e ∧ e.IsSet ∧ e.addr = w

/-- A hop makes progress. -/
theorem RoutingHop.exists_progress (h : RoutingHop q dst onRange v w) :
    ∃ snr e, RouterInv snr ∧ snr.self.addr = v ∧ e.addr = w ∧ nexthopOf onRange snr dst = e ∧
      Progress onRange snr dst e := by
  obtain ⟨snr, e, hreach, rfl, hnext, hset, rfl⟩ := h
  have hinv := RouterInv.of_reachable hreach
  rw [snNetRouterNexthopFrom_eq hinv.self_isSet, Except.ok.injEq] at hnext
  subst hnext
  rcases nexthopOf_cases hinv onRange dst with hself | hprog
  · rw [hself] at hset
    exact absurd rfl hset
  · exact ⟨snr, _, hinv, rfl, rfl, rfl, hprog⟩

/-- On range a hop is to a smaller distance. -/
theorem dist_lt_of_hop (h : RoutingHop q dst true v w) :
    snNetAddrDist w dst < snNetAddrDist v dst := by
  obtain ⟨snr, e, hinv, rfl, rfl, rfl, hprog⟩ := h.exists_progress
  rw [nexthopOf, if_pos rfl] at hprog ⊢
  have hne : ∀ e ∈ onRangeEntries snr, e.addr ≠ snr.self.addr := fun e he =>
    (hinv.setEntry (setEntry_of_mem_onRangeEntries he)).1
  rcases bestOf_cases dst hne with ⟨hself, -⟩ | ⟨-, hlt, -⟩
  · rw [hself] at hprog
    exact absurd rfl hprog.setEntry.1
  · exact hlt

/-- What a hop off range decreases: the number of digits that are not shared with the destination,
and among nodes that share as many the distance. -/
def routeMeasure (dst v : SnNetAddr) : ℕ ×ₗ SnNetAddr :=
  toLex (snNetAddrHexLen - v.level dst, snNetAddrDist v dst)

theorem routeMeasure_lt_of_hop (h : RoutingHop q dst false v w) :
    routeMeasure dst w < routeMeasure dst v := by
  obtain ⟨snr, e, -, rfl, rfl, -, hprog⟩ := h.exists_progress
  have hle := SnNetAddr.level_le e.addr dst
  have hlevel := hprog.level_le rfl
  rw [routeMeasure, routeMeasure, Prod.Lex.toLex_lt_toLex]
  rcases hprog.closer with hmore | hcloser
  · exact Or.inl (by omega)
  · rcases hlevel.lt_or_eq with hlt | heq
    · exact Or.inl (by omega)
    · exact Or.inr ⟨by rw [heq], hcloser⟩

/-! ### Loops -/

/-- **A packet that comes back to a node has taken a hop on range and one off range**, whatever the
routers on its way contain. -/
theorem mixed_of_loop (q : Sorter SnNetEntry) (dst v : SnNetAddr) {hops : List Bool}
    (hhops : hops ≠ []) (h : LabelledWalk (RoutingHop q dst) v hops v) :
    true ∈ hops ∧ false ∈ hops := by
  constructor
  · obtain ⟨onRange, hmem, hnot⟩ := h.exists_not_of_loop (routeMeasure dst) hhops
    cases onRange with
    | true => exact hmem
    | false => exact absurd (fun v w => routeMeasure_lt_of_hop) hnot
  · obtain ⟨onRange, hmem, hnot⟩ := h.exists_not_of_loop (fun v => snNetAddrDist v dst) hhops
    cases onRange with
    | true => exact absurd (fun v w => dist_lt_of_hop) hnot
    | false => exact hmem

/-! ### Nodes that only add -/

/-- A node that has only added others. -/
structure Adder where
  self : SnNetAddr
  netAddr : Option SnIoNaddr
  order : List (SnNetAddr × Option SnIoNaddr)

namespace Adder

variable (a : Adder)

/-- The additions of either side fit into the leafset. -/
def HasRoom : Prop := ∀ right : Bool,
  (a.order.filter fun p => decide (a.self ≤ p.1) = right).length < snNetRouterLeafsetSize

/-- The node has added none above itself, and the destination is not above it either. -/
def Greatest (dst : SnNetAddr) : Prop := (∀ p ∈ a.order, p.1 < a.self) ∧ dst ≤ a.self

instance (dst : SnNetAddr) : Decidable (a.Greatest dst) := inferInstanceAs (Decidable (_ ∧ _))

instance : Decidable a.HasRoom := by unfold HasRoom; infer_instance

/-- The router of the node. -/
def router (q : Sorter SnNetEntry) : Exec SnNetRouter :=
  run (routerStep q) (snNetRouterInit a.self a.netAddr) (a.order.map fun p => .add p.1 p.2)

/-- The entries that the node has added. -/
def added : List SnNetEntry := a.order.map fun p => (RouterOp.add p.1 p.2).entry

variable {a} {snr : SnNetRouter}

theorem self_addr (hrouter : a.router q = .ok snr) : snr.self.addr = a.self := by
  rw [self_of_run hrouter]
  rfl

theorem built (hrouter : a.router q = .ok snr) : Built a.added snr := Built.of_run hrouter

theorem sideEntries_added (hrouter : a.router q = .ok snr) (right : Bool) :
    sideEntries snr right a.added =
      (a.order.filter fun p => decide (a.self ≤ p.1) = right).map fun p =>
        (RouterOp.add p.1 p.2).entry := by
  rw [sideEntries, added, List.filter_map]
  refine congrArg _ (List.filter_congr fun p _ => ?_)
  have hside : snr.sideOf (RouterOp.add p.1 p.2).entry.addr = decide (a.self ≤ p.1) := by
    rw [SnNetRouter.sideOf, self_addr hrouter, ← decide_not]
    exact decide_eq_decide.2 not_lt
  rw [Function.comp_apply, hside]

/-- The sides of the leafset have room. -/
theorem HasRoom.length_sideEntries_lt (h : a.HasRoom) (hrouter : a.router q = .ok snr)
    (right : Bool) : (sideEntries snr right a.added).length < snNetRouterLeafsetSize := by
  rw [sideEntries_added hrouter, List.length_map]
  exact h right

/-- The right side is empty exactly when the node has added none above itself. -/
theorem sideEntries_right_eq_nil_iff (hrouter : a.router q = .ok snr) :
    sideEntries snr true a.added = [] ↔ ∀ p ∈ a.order, p.1 < a.self := by
  rw [sideEntries_added hrouter, List.map_eq_nil_iff, List.filter_eq_nil_iff]
  simp only [decide_eq_true_eq, not_le]

/-- A router that has added nobody has no next hop. -/
theorem not_isSet_of_added_nil {e : SnNetEntry} (hrouter : a.router q = .ok snr)
    (hadded : a.added = []) (hnext : snNetRouterNexthop snr dst = .ok e) : ¬ e.IsSet := by
  have hbuilt := built hrouter
  rw [hadded] at hbuilt
  have hempty : ∀ e, ¬ snr.SetEntry e := by
    intro e he
    rcases SnNetRouter.setEntry_iff.1 he with ⟨hset, l, c, rfl⟩ | ⟨right, hmem⟩
    · exact absurd (hbuilt.slot_mem l c hset) List.not_mem_nil
    · rw [hbuilt.mem_entries_iff (by simp [sideEntries])] at hmem
      exact absurd hmem.1 List.not_mem_nil
  obtain ⟨onRange, -, hset⟩ := (exists_nexthop_iff (P := fun e' => e' = e)
    hbuilt.inv.self_isSet dst).1 ⟨e, hnext, rfl⟩
  rw [nexthopOf_of_not_setEntry hbuilt.inv hempty] at hset
  subst hset
  exact fun h => h rfl

/-- **On range** are the nodes that have added none above themselves. -/
theorem leafsetIsOnRange_eq (hdst : dst ≠ .zero) (hroom : a.HasRoom)
    (hrouter : a.router q = .ok snr) (hadded : a.added ≠ []) :
    leafsetIsOnRange snr dst = .ok (decide (a.Greatest dst)) := by
  rw [(built hrouter).leafsetIsOnRange_of_room (hroom.length_sideEntries_lt hrouter) dst,
    self_addr hrouter, Except.ok.injEq, decide_eq_decide, Greatest,
    ← sideEntries_right_eq_nil_iff hrouter]
  by_cases hright : sideEntries snr true a.added = []
  · -- Then all additions are on the left.
    have hleft : sideEntries snr false a.added ≠ [] := by
      intro hleft
      refine hadded (List.eq_nil_iff_forall_not_mem.2 fun e he => ?_)
      cases hside : snr.sideOf e.addr with
      | true => exact List.filter_eq_nil_iff.1 hright e he (decide_eq_true hside)
      | false => exact List.filter_eq_nil_iff.1 hleft e he (decide_eq_true hside)
    rw [if_neg hleft, if_pos hright, and_iff_right (SnNetAddr.zero_le dst), and_iff_right hright]
  · rw [if_neg hright]
    exact iff_of_false
      (fun h => hdst (le_antisymm h.2 (SnNetAddr.zero_le dst))) fun h => hright h.1

end Adder

/-- A hop of a packet for `dst` from a node that has only added others. -/
def AddingHop (q : Sorter SnNetEntry) (dst : SnNetAddr) (a : Adder) (v w : SnNetAddr) : Prop :=
  a.self = v ∧ a.HasRoom ∧ ∃ snr e, a.router q = .ok snr ∧ snNetRouterNexthop snr dst = .ok e ∧
    e.IsSet ∧ e.addr = w

/-- Such a hop is on range exactly at a node that has added none above itself. -/
theorem AddingHop.routingHop {a : Adder} (hdst : dst ≠ .zero) (h : AddingHop q dst a v w) :
    RoutingHop q dst (decide (a.Greatest dst)) v w := by
  obtain ⟨rfl, hroom, snr, e, hrouter, hnext, hset, rfl⟩ := h
  have hadded : a.added ≠ [] := fun hnil => Adder.not_isSet_of_added_nil hrouter hnil hnext hset
  rw [snNetRouterNexthop, Adder.leafsetIsOnRange_eq hdst hroom hrouter hadded, ok_bind] at hnext
  exact ⟨snr, e, ⟨_, _, _, hrouter⟩, Adder.self_addr hrouter, hnext, hset, rfl⟩

/-- **A packet that comes back** in a network whose nodes have only added others has passed a node
that has added none above itself, the destination not being above it either, and another node. -/
theorem greatest_of_loop (q : Sorter SnNetEntry) (hdst : dst ≠ .zero) (v : SnNetAddr)
    {adders : List Adder} (hadders : adders ≠ [])
    (h : LabelledWalk (AddingHop q dst) v adders v) :
    (∃ a ∈ adders, a.Greatest dst) ∧ ∃ a ∈ adders, ¬ a.Greatest dst := by
  constructor
  · obtain ⟨a, ha, hnot⟩ := h.exists_not_of_loop (routeMeasure dst) hadders
    refine ⟨a, ha, by_contra fun hgreatest => hnot fun v w hhop => ?_⟩
    have hroute := hhop.routingHop hdst
    rw [decide_eq_false hgreatest] at hroute
    exact routeMeasure_lt_of_hop hroute
  · obtain ⟨a, ha, hnot⟩ := h.exists_not_of_loop (fun v => snNetAddrDist v dst) hadders
    refine ⟨a, ha, fun hgreatest => hnot fun v w hhop => ?_⟩
    have hroute := hhop.routingHop hdst
    rw [decide_eq_true hgreatest] at hroute
    exact dist_lt_of_hop hroute

/-! ### An example -/

/-- The nodes on 6f and 7f, which have added each other. -/
def adder6f7f (greatest : Bool) : Adder :=
  if greatest then ⟨.ofBytes [0x7f], none, [(.ofBytes [0x6f], none)]⟩
  else ⟨.ofBytes [0x6f], none, [(.ofBytes [0x7f], none)]⟩

/-- Either of them sends a packet for 70 to the other. -/
theorem addingHop_adder6f7f (greatest : Bool) :
    AddingHop (.insertion SnNetEntry) (.ofBytes [0x70]) (adder6f7f greatest)
      (adder6f7f greatest).self (adder6f7f !greatest).self := by
  have hobs : ((adder6f7f greatest).router (.insertion SnNetEntry)).toOption.map (fun snr =>
      (snNetRouterNexthop snr (.ofBytes [0x70])).toOption.map fun e => (e.isSet, e.addr)) =
      some (some (1, (adder6f7f !greatest).self)) := by
    revert greatest
    decide +kernel
  have hroom : ∀ greatest, (adder6f7f greatest).HasRoom := by decide
  obtain ⟨snr, hrouter, hnext⟩ := exists_ok_of_toOption_map hobs
  obtain ⟨e, he, heq⟩ := exists_ok_of_toOption_map hnext
  obtain ⟨hset, haddr⟩ := Prod.mk.inj heq
  refine ⟨rfl, hroom greatest, snr, e, hrouter, he, ?_, haddr⟩
  simp [hset]

/-- A packet for 70 returns to 6f from 7f, with a hop on range and one off range. -/
theorem mixed_of_loop_6f7f : ∃ hops : List Bool, hops.length = 2 ∧
    LabelledWalk (RoutingHop (.insertion SnNetEntry) (.ofBytes [0x70])) (.ofBytes [0x6f]) hops
      (.ofBytes [0x6f]) ∧ true ∈ hops ∧ false ∈ hops := by
  have hwalk := LabelledWalk.cons ((addingHop_adder6f7f false).routingHop (by decide))
    (.cons ((addingHop_adder6f7f true).routingHop (by decide)) (.nil _))
  exact ⟨_, rfl, hwalk, mixed_of_loop (.insertion SnNetEntry) _ _ (List.cons_ne_nil _ _) hwalk⟩

/-- Of the two nodes 7f has added none above itself. -/
theorem greatest_of_loop_6f7f : ∃ adders : List Adder, adders.length = 2 ∧
    LabelledWalk (AddingHop (.insertion SnNetEntry) (.ofBytes [0x70])) (.ofBytes [0x6f]) adders
      (.ofBytes [0x6f]) ∧ (∃ a ∈ adders, a.Greatest (.ofBytes [0x70])) ∧
      ∃ a ∈ adders, ¬ a.Greatest (.ofBytes [0x70]) := by
  have hwalk := LabelledWalk.cons (addingHop_adder6f7f false)
    (.cons (addingHop_adder6f7f true) (.nil _))
  exact ⟨_, rfl, hwalk, greatest_of_loop (.insertion SnNetEntry) (by decide) _
    (List.cons_ne_nil _ _) hwalk⟩

end SndNet
