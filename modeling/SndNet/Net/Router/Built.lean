import Mathlib.Data.List.GetD
import SndNet.Net.Router.Nexthop
import SndNet.Net.Router.Safety

/-!
# Routers that only add

The nodes of a network that is only built up hold everything they have added, as long as no side of
their leafset is full. This file describes the state of such a router: which slots of its table are
set, what its leafset holds, and what the slots after the set entries contain, which
`leafset_is_on_range` (`src/net/router.c`, lines 357–380) reads.

## Main definitions

* `SndNet.BuiltSide`, `SndNet.Built`: a side of the leafset, and a router, after additions only.

## Main results

* `SndNet.Built.of_run`: a run of additions builds its entries.
* `SndNet.Built.mem_of_setEntry`: what a router holds has been added to it.
* `SndNet.Built.leafsetIsOnRange_of_room`: the range test while both sides have room.
* `SndNet.Built.leafsetIsOnRange_of_full`: the range test reads past a full left side.
-/

namespace SndNet

open FallibleRun

variable {q : Sorter SnNetEntry} {snr snr' : SnNetRouter} {added side : List SnNetEntry}

/-! ### One side of the leafset -/

/-- A side of the leafset after the additions `side` only: it holds all of them, with zero bytes
after them, as long as they fit. -/
structure BuiltSide (side : List SnNetEntry) (leafset : Leafset) : Prop where
  length_eq : leafset.entries.length = min side.length snNetRouterLeafsetSize
  perm : side.length ≤ snNetRouterLeafsetSize → leafset.entries.Perm side
  val_eq : side.length ≤ snNetRouterLeafsetSize → leafset.val =
    leafset.entries ++ List.replicate (snNetRouterLeafsetSize - side.length) .zero

namespace BuiltSide

variable {leafset : Leafset} {sne : SnNetEntry}

theorem insert (h : BuiltSide side leafset) (hpacked : leafset.Packed) (hsne : sne.IsSet)
    (right : Bool) : BuiltSide (side ++ [sne]) (leafsetInsert q leafset sne right) := by
  by_cases hroom : side.length < snNetRouterLeafsetSize
  · have hset : ∀ e ∈ leafset.entries ++ [sne], e.IsSet := by
      simpa [or_imp, forall_and] using ⟨fun e => Leafset.isSet_of_mem_entries, hsne⟩
    -- The first of the zero slots is taken.
    obtain ⟨k, hk⟩ : ∃ k, snNetRouterLeafsetSize - side.length = k + 1 :=
      ⟨snNetRouterLeafsetSize - side.length - 1, by omega⟩
    have hval := h.val_eq hroom.le
    rw [hk, List.replicate_succ] at hval
    have hzero : ∀ e ∈ SnNetEntry.zero :: List.replicate k .zero, ¬ e.IsSet := by
      rw [← List.replicate_succ]
      intro e he
      simp [List.eq_of_mem_replicate he]
    have hval' : (leafsetInsert q leafset sne right).val = _ :=
      Leafset.val_insert_of_room q hval (fun e => Leafset.isSet_of_mem_entries) hzero hsne
    obtain ⟨hent, -⟩ := Leafset.packed_of_split hval' (fun e => Leafset.isSet_of_mem_sort q hset)
      fun e he => hzero e (List.mem_cons_of_mem _ he)
    have hperm : (leafsetInsert q leafset sne right).entries.Perm (side ++ [sne]) := by
      rw [hent]
      exact (q.perm (isComparator_leafsetCmp right) _).trans ((h.perm hroom.le).append_right _)
    refine ⟨?_, fun _ => hperm, fun _ => ?_⟩
    · rw [hperm.length_eq, List.length_append, List.length_singleton]
      omega
    · rw [hval', hent, List.length_append, List.length_singleton,
        show snNetRouterLeafsetSize - (side.length + 1) = k by omega]
  · have hlen : leafset.entries.length = snNetRouterLeafsetSize := by
      rw [h.length_eq]
      omega
    have hfull : ¬ (side ++ [sne]).length ≤ snNetRouterLeafsetSize := by
      rw [List.length_append, List.length_singleton]
      omega
    refine ⟨?_, fun hle => absurd hle hfull, fun hle => absurd hle hfull⟩
    have hlen' : (leafsetInsert q leafset sne right).entries.length = snNetRouterLeafsetSize := by
      rcases Leafset.insert_cases q hpacked hsne right with
        ⟨hlt, -⟩ | ⟨init, last, hent, -, ⟨-, heq⟩ | ⟨-, hperm⟩⟩
      · exact absurd hlen hlt.ne
      · rw [heq, hlen]
      · rw [hperm.length_eq, ← hlen, hent, List.length_append, List.length_append]
        rfl
    rw [hlen']
    omega

/-- While a side has room, its bound is the address of zero bytes, or our own when it is empty. -/
theorem leafsetBound_of_room (h : BuiltSide side leafset) (hpacked : leafset.Packed)
    (hroom : side.length < snNetRouterLeafsetSize) (self : SnNetEntry) :
    leafsetBound self leafset = .ok (if side = [] then self.addr else .zero) := by
  have hperm := h.perm hroom.le
  rw [hpacked.leafsetBound_eq]
  by_cases hnil : side = []
  · rw [if_pos hnil, if_pos (List.perm_nil.1 (hnil ▸ hperm))]
  · have hent : leafset.entries ≠ [] := fun hent => hnil (List.nil_perm.1 (hent ▸ hperm))
    have hzero : leafsetEntry leafset side.length = .zero := by
      rw [leafsetEntry, h.val_eq hroom.le, List.getD_append_right _ _ _ _ hperm.length_eq.le]
      simp
    rw [if_neg hnil, if_neg hent, hperm.length_eq, if_pos hroom, hzero]
    rfl

/-- The bound of a full side lies outside the array. -/
theorem leafsetBound_of_full (h : BuiltSide side leafset) (hpacked : leafset.Packed)
    (hfull : snNetRouterLeafsetSize ≤ side.length) (self : SnNetEntry) :
    leafsetBound self leafset = .error .outOfBounds := by
  have hlen : leafset.entries.length = snNetRouterLeafsetSize := by
    rw [h.length_eq, min_eq_right hfull]
  have hent : leafset.entries ≠ [] := List.ne_nil_of_length_pos (hlen ▸ Nat.succ_pos _)
  rw [hpacked.leafsetBound_eq, if_neg hent, if_neg hlen.not_lt]

end BuiltSide

/-! ### Runs of additions -/

/-- The entries of `added` on one side of the router's own address. -/
def sideEntries (snr : SnNetRouter) (right : Bool) (added : List SnNetEntry) : List SnNetEntry :=
  added.filter fun e => snr.sideOf e.addr = right

/-- A router after the additions `added` only. -/
structure Built (added : List SnNetEntry) (snr : SnNetRouter) : Prop where
  inv : RouterInv snr
  slot_mem : ∀ l c, (snr.table l c).IsSet → snr.table l c ∈ added
  slot_isSet : ∀ e ∈ added, ∀ h : snr.self.addr ≠ e.addr, (snr.slotOf h).IsSet
  side : ∀ right, BuiltSide (sideEntries snr right added) (snr.leafset right)

namespace Built

theorem init (selfAddr : SnNetAddr) (selfNetAddr : Option SnIoNaddr) :
    Built [] (snNetRouterInit selfAddr selfNetAddr) where
  inv := RouterInv.init selfAddr selfNetAddr
  slot_mem l c hset := absurd rfl hset
  slot_isSet e he := absurd he List.not_mem_nil
  side right := by
    cases right <;> exact ⟨rfl, fun _ => List.Perm.refl _, fun _ => rfl⟩

theorem after_add (h : Built added snr) {x : SnNetAddr} {netAddr : Option SnIoNaddr}
    (hne : snr.self.addr ≠ (RouterOp.add x netAddr).addr) :
    Built (added ++ [(RouterOp.add x netAddr).entry]) (snr.after q (.add x netAddr) hne) where
  inv := h.inv.after hne
  slot_mem l c hset := by
    rw [SnNetRouter.after_table_apply] at hset ⊢
    split_ifs at hset ⊢ with hidx
    · simp
    · exact List.mem_append_left _ (h.slot_mem l c hset)
  slot_isSet e he hne' := by
    rw [SnNetRouter.slotOf, SnNetRouter.after_table_apply]
    split_ifs with hidx
    · simp [RouterOp.entry]
    · rcases List.mem_append.1 he with hold | hnew
      · have hself : snr.self.addr ≠ e.addr := by rwa [SnNetRouter.after_self] at hne'
        have hset := h.slot_isSet e hold hself
        simpa only [SnNetRouter.slotOf, tableIndex, SnNetRouter.after_self] using hset
      · obtain rfl := List.mem_singleton.1 hnew
        refine absurd ?_ hidx
        simp only [tableIndex, SnNetRouter.after_self, RouterOp.entry_addr]
  side right := by
    have hside : ∀ e : SnNetEntry, (snr.after q (.add x netAddr) hne).sideOf e.addr =
        snr.sideOf e.addr := fun e => by
      simp only [SnNetRouter.sideOf, SnNetRouter.after_self]
    simp only [sideEntries, hside, List.filter_append, SnNetRouter.after_leafset]
    by_cases hr : right = snr.sideOf x
    · have hkeep : [(RouterOp.add x netAddr).entry].filter
          (fun e => snr.sideOf e.addr = right) = [(RouterOp.add x netAddr).entry] :=
        List.filter_cons_of_pos (by simpa [RouterOp.addr] using hr.symm)
      rw [hkeep]
      exact (if_pos hr : ite _ _ _ = _) ▸ (h.side right).insert (h.inv.leafset right).packed
        (by simp [RouterOp.entry]) right
    · have hdrop : [(RouterOp.add x netAddr).entry].filter
          (fun e => snr.sideOf e.addr = right) = [] :=
        List.filter_cons_of_neg (by simpa [RouterOp.addr] using fun heq => hr heq.symm)
      rw [hdrop, List.append_nil]
      exact (if_neg hr : ite _ _ _ = _) ▸ h.side right

theorem run_add {order : List (SnNetAddr × Option SnIoNaddr)} (h : Built added snr)
    (hrun : run (routerStep q) snr (order.map fun p => .add p.1 p.2) = .ok snr') :
    Built (added ++ order.map fun p => (RouterOp.add p.1 p.2).entry) snr' := by
  induction order generalizing added snr with
  | nil =>
    obtain rfl := Except.ok.inj hrun
    simpa using h
  | cons p order ih =>
    obtain ⟨s, hs, hrest⟩ := bind_eq_ok.1 hrun
    obtain ⟨hne, -, rfl⟩ := routerStep_eq_ok_iff.1 hs
    have hbuilt := ih (h.after_add (q := q) hne) hrest
    rwa [List.append_assoc] at hbuilt

/-- **A run of additions builds its entries.** -/
theorem of_run {selfAddr : SnNetAddr} {selfNetAddr : Option SnIoNaddr}
    {order : List (SnNetAddr × Option SnIoNaddr)}
    (hrun : run (routerStep q) (snNetRouterInit selfAddr selfNetAddr)
      (order.map fun p => .add p.1 p.2) = .ok snr) :
    Built (order.map fun p => (RouterOp.add p.1 p.2).entry) snr :=
  (init selfAddr selfNetAddr).run_add hrun

/-- The range test while both sides have room: the left bound is the address of zero bytes unless
there is no address below ours, and so is the right bound unless there is none above ours. -/
theorem leafsetIsOnRange_of_room (h : Built added snr)
    (hroom : ∀ right, (sideEntries snr right added).length < snNetRouterLeafsetSize)
    (dst : SnNetAddr) : leafsetIsOnRange snr dst = .ok (decide
      ((if sideEntries snr false added = [] then snr.self.addr else .zero) ≤ dst ∧
        dst ≤ if sideEntries snr true added = [] then snr.self.addr else .zero)) := by
  have hbound : ∀ right, leafsetBound snr.self (snr.leafset right) =
      .ok (if sideEntries snr right added = [] then snr.self.addr else .zero) := fun right =>
    (h.side right).leafsetBound_of_room (h.inv.leafset right).packed (hroom right) snr.self
  exact leafsetIsOnRange_of_bounds (hbound false) (hbound true) dst

/-- With a full left side the range test reads past it. -/
theorem leafsetIsOnRange_of_full (h : Built added snr)
    (hfull : snNetRouterLeafsetSize ≤ (sideEntries snr false added).length) (dst : SnNetAddr) :
    leafsetIsOnRange snr dst = .error .outOfBounds := by
  have hleft := (h.side false).leafsetBound_of_full (h.inv.leafset false).packed hfull snr.self
  rw [SnNetRouter.leafset_false] at hleft
  rw [leafsetIsOnRange, hleft, error_bind]

/-- While a side has room for all additions, its entries are those on its side. -/
theorem mem_entries_iff (h : Built added snr) {right : Bool}
    (hroom : (sideEntries snr right added).length < snNetRouterLeafsetSize) {e : SnNetEntry} :
    e ∈ (snr.leafset right).entries ↔ e ∈ added ∧ snr.sideOf e.addr = right := by
  rw [((h.side right).perm hroom.le).mem_iff, sideEntries, List.mem_filter, decide_eq_true_eq]

/-- What a router holds has been added to it. -/
theorem mem_of_setEntry (h : Built added snr)
    (hroom : ∀ right, (sideEntries snr right added).length ≤ snNetRouterLeafsetSize)
    {e : SnNetEntry} (he : snr.SetEntry e) : e ∈ added := by
  rcases SnNetRouter.setEntry_iff.1 he with ⟨hset, l, c, rfl⟩ | ⟨right, hmem⟩
  · exact h.slot_mem l c hset
  · exact List.mem_of_mem_filter (((h.side right).perm (hroom right)).mem_iff.1 hmem)

/-- What holds of a few additions holds of all that the router knows. -/
theorem forall_setEntry {selfAddr : SnNetAddr} {selfNetAddr : Option SnIoNaddr}
    {order : List (SnNetAddr × Option SnIoNaddr)} {p : SnNetEntry → Prop}
    (hrun : run (routerStep q) (snNetRouterInit selfAddr selfNetAddr)
      (order.map fun a => .add a.1 a.2) = .ok snr)
    (hlen : order.length ≤ snNetRouterLeafsetSize)
    (h : ∀ a ∈ order, p (RouterOp.add a.1 a.2).entry) : ∀ e, snr.SetEntry e → p e := by
  intro e he
  have hroom : ∀ right, (sideEntries snr right
      (order.map fun a => (RouterOp.add a.1 a.2).entry)).length ≤ snNetRouterLeafsetSize := by
    intro right
    have hfilter := List.length_filter_le (fun e => decide (snr.sideOf e.addr = right))
      (order.map fun a => (RouterOp.add a.1 a.2).entry)
    rw [List.length_map] at hfilter
    exact hfilter.trans hlen
  obtain ⟨a, ha, rfl⟩ := List.mem_map.1 ((of_run hrun).mem_of_setEntry hroom he)
  exact h a ha

/-- What has been added is in the leafset. -/
theorem mem_onRangeEntries (h : Built added snr)
    (hroom : ∀ right, (sideEntries snr right added).length ≤ snNetRouterLeafsetSize)
    {e : SnNetEntry} (he : e ∈ added) : e ∈ onRangeEntries snr := by
  have hperm := (h.side (snr.sideOf e.addr)).perm (hroom _)
  exact SndNet.mem_onRangeEntries.2
    ⟨_, hperm.mem_iff.2 (List.mem_filter.2 ⟨he, decide_eq_true rfl⟩)⟩

end Built

end SndNet
