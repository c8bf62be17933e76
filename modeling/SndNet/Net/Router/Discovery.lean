import SndNet.Net.Router.Sides

/-!
# The order of discovery

The membership of a network reaches a node in some order. This file proves that the leafsets of a
node that only adds, with every address added once, do not depend on it: each side holds the eight
nearest of the added addresses on that side, with the network addresses they were added with.

## Main results

* `SndNet.addrs_of_adds`: the addresses of a side after a run of additions.
* `SndNet.leafsets_of_adds`: the entries of the leafsets after a run of additions with distinct
  addresses, in whatever order.
-/

namespace SndNet

open FallibleRun

variable {q : Sorter SnNetEntry} {snr : SnNetRouter} {selfAddr : SnNetAddr}
  {selfNetAddr : Option SnIoNaddr} {order : List (SnNetAddr × Option SnIoNaddr)} {right : Bool}

/-! ### Addresses -/

/-- Additions act on a side as insertions of the addresses on that side. -/
theorem Sides.foldl_step_add (self : SnNetAddr) (s : Sides) (right : Bool)
    (order : List (SnNetAddr × Option SnIoNaddr)) :
    ((order.map fun p => RouterOp.add p.1 p.2).foldl (Sides.step self) s) right =
      ((order.filter fun p => Beyond right self p.1).map Prod.fst).foldl BoundedSorted.insert
        (s right) := by
  induction order generalizing s with
  | nil => rfl
  | cons p order ih =>
    rw [List.map_cons, List.foldl_cons, ih]
    by_cases hp : Beyond right self p.1
    · rw [List.filter_cons_of_pos (by simpa using hp), List.map_cons, List.foldl_cons, Sides.step,
        RouterOp.addr, if_pos hp]
      rfl
    · rw [List.filter_cons_of_neg (by simpa using hp), Sides.step, RouterOp.addr, if_neg hp]

/-- The additions of one side, nearest first, as many as a leafset holds. -/
def nearestAdds (selfAddr : SnNetAddr) (right : Bool)
    (order : List (SnNetAddr × Option SnIoNaddr)) : List (SnNetAddr × Option SnIoNaddr) :=
  ((order.filter fun p => Beyond right selfAddr p.1).insertionSort fun p p' =>
    Outward right p.1 p'.1).take snNetRouterLeafsetSize

theorem mem_of_mem_nearestAdds {p : SnNetAddr × Option SnIoNaddr}
    (h : p ∈ nearestAdds selfAddr right order) : p ∈ order :=
  List.mem_of_mem_filter ((List.mem_insertionSort _).1 (List.mem_of_mem_take h))

theorem insertionSort_eq_of_perm {xs ys : List SnNetAddr} (h : xs.Perm ys) :
    xs.insertionSort (Outward right) = ys.insertionSort (Outward right) :=
  (((List.perm_insertionSort _ xs).trans h).trans
    (List.perm_insertionSort _ ys).symm).eq_of_pairwise' (List.pairwise_insertionSort _ xs)
      (List.pairwise_insertionSort _ ys)

theorem map_fst_nearestAdds : (nearestAdds selfAddr right order).map Prod.fst =
    ((((order.filter fun p => Beyond right selfAddr p.1).map Prod.fst).insertionSort
      (Outward right)).take snNetRouterLeafsetSize) := by
  rw [nearestAdds, List.map_take, List.map_insertionSort _ (Outward right)]
  exact fun _ _ _ _ => Iff.rfl

/-- **The addresses of a side after additions** are the nearest ones added, repetitions included. -/
theorem addrs_of_adds (hrun : run (routerStep q) (snNetRouterInit selfAddr selfNetAddr)
    (order.map fun p => .add p.1 p.2) = .ok snr) (right : Bool) :
    (snr.leafset right).addrs = (nearestAdds selfAddr right order).map Prod.fst := by
  have hsides := congrFun ((RouterInv.init selfAddr selfNetAddr).sides_run hrun) right
  rw [RouterInv.sides_init, Sides.foldl_step_add] at hsides
  have haddrs := congrArg BoundedSorted.toList hsides
  rw [RouterInv.toList_sides, BoundedSorted.toList_foldl_insert] at haddrs
  rw [haddrs, map_fst_nearestAdds, Sides.toList_empty, List.append_nil]
  congr 1
  -- The sorted list does not depend on the order of its argument.
  exact insertionSort_eq_of_perm (List.reverse_perm _)

/-! ### Entries -/

/-- A run of operations holds in its leafsets only what it has added. -/
theorem exists_add_of_mem_entries {ops : List RouterOp} (hrun : run (routerStep q)
    (snNetRouterInit selfAddr selfNetAddr) ops = .ok snr) {e : SnNetEntry}
    (he : e ∈ (snr.leafset right).entries) :
    ∃ x netAddr, RouterOp.add x netAddr ∈ ops ∧ e = (RouterOp.add x netAddr).entry := by
  refine (run_invariant (fun s => RouterInv s ∧ ∀ e ∈ (s.leafset right).entries, ∃ x netAddr,
    RouterOp.add x netAddr ∈ ops ∧ e = (RouterOp.add x netAddr).entry) ?_ ?_ hrun).2 e he
  · rintro s op s' hop ⟨hinv, hs⟩ hstep
    refine ⟨hinv.step hstep, fun e he => ?_⟩
    obtain ⟨hne, -, rfl⟩ := routerStep_eq_ok_iff.1 hstep
    rw [SnNetRouter.after_leafset] at he
    split_ifs at he
    · cases op with
      | add x netAddr =>
        rcases Leafset.mem_entries_insert q (hinv.leafset right).packed (by simp [RouterOp.entry])
          he with hold | rfl
        · exact hs e hold
        · exact ⟨x, netAddr, hop, rfl⟩
      | remove x junk =>
        exact hs e (Leafset.mem_entries_extract q (hinv.leafset right).packed he)
    · exact hs e he
  · refine ⟨RouterInv.init selfAddr selfNetAddr, fun e he => ?_⟩
    cases right <;> simp [snNetRouterInit, SnNetRouter.leafset, Leafset.entries, CArray.replicate]
      at he

/-- Lists with the same image under a map are equal when the map tells their elements apart. -/
theorem eq_of_map_eq {α β : Type*} {f : α → β} : ∀ {xs ys : List α}, xs.map f = ys.map f →
    (∀ x ∈ xs, ∀ y ∈ ys, f x = f y → x = y) → xs = ys
  | [], [], _, _ => rfl
  | [], _ :: _, h, _ => by simp at h
  | _ :: _, [], h, _ => by simp at h
  | x :: xs, y :: ys, h, hinj => by
    obtain ⟨hxy, hrest⟩ := List.cons.inj h
    rw [hinj x List.mem_cons_self y List.mem_cons_self hxy, eq_of_map_eq hrest
      fun x hx y hy => hinj x (List.mem_cons_of_mem _ hx) y (List.mem_cons_of_mem _ hy)]

/-- With distinct addresses the entries of a side are those of the nearest additions. -/
theorem entries_of_adds (hnodup : (order.map Prod.fst).Nodup)
    (hrun : run (routerStep q) (snNetRouterInit selfAddr selfNetAddr)
      (order.map fun p => .add p.1 p.2) = .ok snr) (right : Bool) :
    (snr.leafset right).entries =
      (nearestAdds selfAddr right order).map fun p => (RouterOp.add p.1 p.2).entry := by
  have haddrs : (snr.leafset right).entries.map (·.addr) =
      ((nearestAdds selfAddr right order).map fun p => (RouterOp.add p.1 p.2).entry).map
        (·.addr) := by
    rw [List.map_map]
    exact addrs_of_adds hrun right
  refine eq_of_map_eq haddrs fun e he e' he' heq => ?_
  obtain ⟨x, netAddr, hop, rfl⟩ := exists_add_of_mem_entries hrun he
  obtain ⟨p', hp', hop'⟩ := List.mem_map.1 hop
  obtain ⟨p, hp, rfl⟩ := List.mem_map.1 he'
  obtain rfl : p' = p := by
    refine List.inj_on_of_nodup_map hnodup hp' (mem_of_mem_nearestAdds hp) ?_
    cases hop'
    exact heq
  rw [hop']

/-- With distinct addresses the nearest additions do not depend on the order. -/
theorem nearestAdds_of_perm {order' : List (SnNetAddr × Option SnIoNaddr)}
    (hnodup : (order.map Prod.fst).Nodup) (h : order'.Perm order) :
    nearestAdds selfAddr right order' = nearestAdds selfAddr right order := by
  refine eq_of_map_eq (f := Prod.fst) ?_ fun p hp p' hp' heq => ?_
  · rw [map_fst_nearestAdds, map_fst_nearestAdds,
      insertionSort_eq_of_perm ((h.filter _).map Prod.fst)]
  · exact List.inj_on_of_nodup_map hnodup (h.mem_iff.1 (mem_of_mem_nearestAdds hp))
      (mem_of_mem_nearestAdds hp') heq

/-- **The leafsets do not depend on the order of discovery.** After additions of distinct addresses
each side holds the eight nearest of those on that side, or all of them if there are fewer, nearest
first, with their network addresses. Any other order of the same additions returns, and leaves the
same entries. -/
theorem leafsets_of_adds (hnodup : (order.map Prod.fst).Nodup)
    (hrun : run (routerStep q) (snNetRouterInit selfAddr selfNetAddr)
      (order.map fun p => .add p.1 p.2) = .ok snr) :
    snr.rightLeafset.entries.map (fun e => (e.addr, e.netAddr)) =
      (((order.filter fun p => selfAddr < p.1).insertionSort fun p p' => p.1 ≤ p'.1).take
        snNetRouterLeafsetSize).map (fun p => (p.1, p.2.getD .zero)) ∧
    snr.leftLeafset.entries.map (fun e => (e.addr, e.netAddr)) =
      (((order.filter fun p => p.1 < selfAddr).insertionSort fun p p' => p'.1 ≤ p.1).take
        snNetRouterLeafsetSize).map (fun p => (p.1, p.2.getD .zero)) ∧
    ∀ q' order', List.Perm order' order → ∃ snr', run (routerStep q')
      (snNetRouterInit selfAddr selfNetAddr) (order'.map fun p => .add p.1 p.2) = .ok snr' ∧
      snr'.rightLeafset.entries = snr.rightLeafset.entries ∧
      snr'.leftLeafset.entries = snr.leftLeafset.entries := by
  have hpairs : ∀ right, (snr.leafset right).entries.map (fun e => (e.addr, e.netAddr)) =
      (nearestAdds selfAddr right order).map fun p => (p.1, p.2.getD .zero) := by
    intro right
    rw [entries_of_adds hnodup hrun right, List.map_map]
    rfl
  refine ⟨hpairs true, hpairs false, fun q' order' hperm => ?_⟩
  obtain ⟨snr', hrun'⟩ : ∃ snr', run (routerStep q') (snNetRouterInit selfAddr selfNetAddr)
      (order'.map fun p => .add p.1 p.2) = .ok snr' := by
    rw [exists_run_iff]
    refine ((exists_run_iff q selfAddr selfNetAddr _).1 ⟨snr, hrun⟩).imp ?_ fun h => ⟨h.1, ?_⟩
    · rw [List.map_eq_nil_iff, List.map_eq_nil_iff]
      rintro rfl
      exact hperm.eq_nil
    · exact fun op hop => h.2 op ((hperm.map _).mem_iff.1 hop)
  have hnodup' : (order'.map Prod.fst).Nodup := (hperm.map Prod.fst).nodup_iff.2 hnodup
  have hsame : ∀ right, (snr'.leafset right).entries = (snr.leafset right).entries := by
    intro right
    rw [entries_of_adds hnodup' hrun' right, entries_of_adds hnodup hrun right,
      nearestAdds_of_perm hnodup hperm]
  exact ⟨snr', hrun', hsame true, hsame false⟩

/-- The router on 4f5e22 that has added 888888 and then 500000 holds both, 500000 first. -/
theorem leafsets_of_two_adds : ∃ snr,
    routerOn4f5e22 [.add (.ofBytes [0x88, 0x88, 0x88]) none, .add (.ofBytes [0x50]) none] =
      .ok snr ∧
    snr.rightLeafset.entries.map (fun e => (e.addr, e.netAddr)) =
      [(.ofBytes [0x50], .zero), (.ofBytes [0x88, 0x88, 0x88], .zero)] := by
  obtain ⟨snr, hrun⟩ : ∃ snr, routerOn4f5e22 [.add (.ofBytes [0x88, 0x88, 0x88]) none,
      .add (.ofBytes [0x50]) none] = .ok snr :=
    (exists_run_iff _ _ _ _).2 (Or.inr ⟨by decide, by decide⟩)
  have hnodup : (([(.ofBytes [0x88, 0x88, 0x88], none), (.ofBytes [0x50], none)] :
      List (SnNetAddr × Option SnIoNaddr)).map Prod.fst).Nodup := by decide
  have horder := (leafsets_of_adds hnodup hrun).1
  refine ⟨snr, hrun, horder.trans ?_⟩
  decide

end SndNet
