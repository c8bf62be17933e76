import SndNet.Net.Router.Built
import SndNet.Net.Router.Direct

/-!
# The node added last

The slot of the table and the side of the leafset for a node that has just been added both hold it
(`src/net/router.c`, lines 30–46 and 382–411), as long as the side has room. It is the answer of a
search for it, in either branch of `sn_net_router_nexthop` (lines 61–116), unless another address
of the router, or its own, cannot be told from it.

## Main results

* `SndNet.nexthopOf_newest`: the next hop for the node added last.
-/

namespace SndNet

open FallibleRun

variable {q : Sorter SnNetEntry} {snr : SnNetRouter} {added : List SnNetEntry}
  {selfAddr dst : SnNetAddr} {selfNetAddr : Option SnIoNaddr}
  {order : List (SnNetAddr × Option SnIoNaddr)}

/-- The search on range finds an entry that has been added for the destination, when no other can be
taken for it. -/
theorem Built.find_onRange (h : Built added snr)
    (hroom : ∀ right, (sideEntries snr right added).length ≤ snNetRouterLeafsetSize)
    {e : SnNetEntry} (he : e ∈ added) (haddr : e.addr = dst) (hself : ¬ AtDistanceZero dst snr.self)
    (honly : ∀ e', snr.SetEntry e' → AtDistanceZero dst e' → e' = e) :
    (searched true snr dst).find? (fun e' => AtDistanceZero dst e') = some e := by
  have hmem : e ∈ searched true snr dst := List.mem_cons_of_mem _ (h.mem_onRangeEntries hroom he)
  obtain ⟨e', he'⟩ : ∃ e', (searched true snr dst).find? (fun e' => AtDistanceZero dst e') =
      some e' :=
    Option.isSome_iff_exists.1 (List.find?_isSome.2
      ⟨e, hmem, decide_eq_true (atDistanceZero_of_addr_eq haddr)⟩)
  have hdist : AtDistanceZero dst e' := by simpa using List.find?_some he'
  rcases List.mem_cons.1 (List.mem_of_find?_eq_some he') with rfl | hentry
  · exact absurd hdist hself
  · rw [he', honly e' (setEntry_of_mem_onRangeEntries hentry) hdist]

/-- An addition fills the slot of its address. -/
theorem slotOf_after_add {netAddr : Option SnIoNaddr}
    (h : snr.self.addr ≠ (RouterOp.add dst netAddr).addr)
    (h' : (snr.after q (.add dst netAddr) h).self.addr ≠ dst) :
    (snr.after q (.add dst netAddr) h).slotOf h' = (RouterOp.add dst netAddr).entry := by
  rw [SnNetRouter.slotOf, SnNetRouter.after_table_apply, if_pos]
  simp only [tableIndex, SnNetRouter.after_self, RouterOp.addr]

/-- **The node added last is reached directly.** After at most seven other additions, none of an
address that cannot be told from it, the answer of both branches is the entry that has just been
stored. -/
theorem nexthopOf_newest
    (hrun : run (routerStep q) (snNetRouterInit selfAddr selfNetAddr)
      (order.map fun p => .add p.1 p.2) = .ok snr) (hzero : selfAddr ≠ .zero)
    (hroom : order.length < snNetRouterLeafsetSize) (hself : snNetAddrDist selfAddr dst ≠ .zero)
    (hothers : ∀ p ∈ order, snNetAddrDist p.1 dst ≠ .zero) (netAddr : Option SnIoNaddr) :
    ∃ snr', snNetRouterAdd q snr dst netAddr = .ok snr' ∧ snr'.self = snr.self ∧
      RouterInv snr' ∧ ∀ onRange,
        nexthopOf onRange snr' dst = (RouterOp.add dst netAddr).entry := by
  have hselfAddr : snr.self.addr = selfAddr := by rw [self_of_run hrun]; rfl
  have hne : snr.self.addr ≠ dst := by
    rw [hselfAddr]
    rintro rfl
    exact hself (snNetAddrDist_self _)
  have hreach : Reachable q snr := ⟨selfAddr, selfNetAddr, _, hrun⟩
  obtain ⟨snr', hadd⟩ := (@Reachable.exists_routerStep_iff _ _ (.add dst netAddr) hreach).2
    ⟨hselfAddr ▸ hzero, hne⟩
  obtain ⟨hne', -, rfl⟩ := routerStep_eq_ok_iff.1 hadd
  have hbuilt := (Built.of_run hrun).after_add (q := q) hne'
  set snr' := snr.after q (.add dst netAddr) hne'
  have hself' : snr'.self = snr.self := SnNetRouter.after_self q hne'
  have hlen : ∀ right, (sideEntries snr' right
      (order.map (fun p => (RouterOp.add p.1 p.2).entry) ++
        [(RouterOp.add dst netAddr).entry])).length ≤ snNetRouterLeafsetSize := by
    intro right
    refine (List.length_filter_le _ _).trans ?_
    rw [List.length_append, List.length_map, List.length_singleton]
    exact hroom
  -- The other entries can be told from the new one.
  have honly : ∀ e, snr'.SetEntry e → AtDistanceZero dst e →
      e = (RouterOp.add dst netAddr).entry := by
    intro e he hdist
    rcases List.mem_append.1 (hbuilt.mem_of_setEntry hlen he) with hold | hnew
    · obtain ⟨p, hp, rfl⟩ := List.mem_map.1 hold
      exact absurd hdist (hothers p hp)
    · exact List.mem_singleton.1 hnew
  refine ⟨snr', hadd, hself', hbuilt.inv, fun onRange => ?_⟩
  have hnew : AtDistanceZero dst (RouterOp.add dst netAddr).entry := atDistanceZero_of_addr_eq rfl
  have hfind : ∃ e ∈ (searched onRange snr' dst).find? fun e => AtDistanceZero dst e,
      e.addr = dst := by
    cases onRange with
    | true =>
      have hself'' : ¬ AtDistanceZero dst snr'.self := by
        rw [AtDistanceZero, hself', hselfAddr]
        exact hself
      exact ⟨_, hbuilt.find_onRange hlen
        (List.mem_append_right _ (List.mem_singleton_self _)) rfl hself'' honly, rfl⟩
    | false =>
      have hne'' : snr'.self.addr ≠ dst := hself' ▸ hne
      have hslot : snr'.slotOf hne'' = (RouterOp.add dst netAddr).entry :=
        slotOf_after_add hne' hne''
      have hsearched : searched false snr' dst = [(RouterOp.add dst netAddr).entry] := by
        rw [searched, if_neg (by decide), dif_neg hne'', hslot, if_pos (by simp [RouterOp.entry])]
      exact ⟨(RouterOp.add dst netAddr).entry, by simp [hsearched, hnew], rfl⟩
  obtain ⟨hset, haddr⟩ := (nexthopOf_addr_eq_iff hbuilt.inv (hself' ▸ hne.symm)).2 hfind
  rcases nexthopOf_cases hbuilt.inv onRange dst with hnone | hprog
  · rw [hnone] at hset
    exact absurd hset (by simp)
  · exact honly _ hprog.setEntry (atDistanceZero_of_addr_eq haddr)

end SndNet
