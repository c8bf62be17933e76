import SndNet.Net.Router.Nexthop
import SndNet.Net.Router.Safety

/-!
# Adding an address again

`leafset_insert` (`src/net/router.c`, lines 424–442) does not look for the address it inserts. An
address that is added again is stored a second time while the leafset has room, and takes the place
of the last entry once it is full. This file says for which histories the addresses of a leafset
stay distinct, and when a further addition of a known address refreshes it.

## Main definitions

* `SndNet.Leafset.FullAt`: a full leafset whose last entry carries an address.
* `SndNet.DistinctAlong`: no state of a run holds an address twice on one side of its leafset.
* `SndNet.Refreshes`: an addition that evicts no other address and leaves every set entry for its
  address with the new network address.

## Main results

* `SndNet.nodup_insert_iff`: when insertion keeps the addresses distinct.
* `SndNet.refreshes_insert_iff`: when insertion of a known address refreshes it.
* `SndNet.readding_iff`: the histories for which re-adding refreshes.
-/

namespace SndNet

open FallibleRun

/-- A full leafset whose last entry carries `x`. -/
def Leafset.FullAt (leafset : Leafset) (x : SnNetAddr) : Prop :=
  leafset.entries.length = snNetRouterLeafsetSize ∧ ∃ e ∈ leafset.entries.getLast?, e.addr = x

/-! ### One side of the leafset -/

section OneSide

variable (q : Sorter SnNetEntry) {selfAddr : SnNetAddr} {right : Bool} {leafset : Leafset}
  {sne : SnNetEntry} {init : List SnNetEntry} {last : SnNetEntry}

theorem fullAt_iff (hent : leafset.entries = init ++ [last]) {x : SnNetAddr} :
    leafset.FullAt x ↔ leafset.entries.length = snNetRouterLeafsetSize ∧ last.addr = x := by
  simp [Leafset.FullAt, hent]

/-- A full leafset turns away a known address only on the right, and only when it is the last. -/
theorem rejects_iff_of_mem (hinv : LeafsetInv selfAddr right leafset)
    (hent : leafset.entries = init ++ [last]) (hmem : sne.addr ∈ leafset.addrs) :
    Leafset.Rejects right sne last ↔ right = true ∧ last.addr = sne.addr := by
  have hlast : if right then sne.addr ≤ last.addr else last.addr ≤ sne.addr := by
    obtain ⟨e, he, haddr⟩ := Leafset.mem_addrs.1 hmem
    have hsorted := hinv.sorted
    rw [hent, List.pairwise_append] at hsorted
    rw [hent, List.mem_append, List.mem_singleton] at he
    rcases he with he | rfl
    · rw [← haddr]
      exact leafsetCmp_nonpos_iff.1 (hsorted.2.2 e he last (by simp))
    · simp [haddr]
  rw [Leafset.rejects_iff]
  cases right with
  | true =>
    simp only [if_true, true_and] at hlast ⊢
    exact ⟨fun h => le_antisymm h hlast, fun h => h.le⟩
  | false =>
    simp only [Bool.false_eq_true, if_false, false_and, iff_false, not_lt] at hlast ⊢
    exact hlast

theorem nodup_append_singleton_iff {xs : List SnNetEntry} (hnodup : (xs.map (·.addr)).Nodup) :
    ((xs ++ [sne]).map (·.addr)).Nodup ↔ sne.addr ∉ xs.map (·.addr) := by
  rw [((List.perm_append_singleton sne xs).map _).nodup_iff, List.map_cons, List.nodup_cons]
  exact and_iff_left hnodup

/-- **When insertion keeps the addresses distinct**: the address is new, or the leafset is full and
its last entry carries it. -/
theorem nodup_insert_iff (hinv : LeafsetInv selfAddr right leafset) (hsne : sne.IsSet)
    (hnodup : leafset.addrs.Nodup) : (leafsetInsert q leafset sne right).addrs.Nodup ↔
      (sne.addr ∈ leafset.addrs → leafset.FullAt sne.addr) := by
  rcases Leafset.insert_cases q hinv.packed hsne right with
    ⟨hroom, hperm⟩ | ⟨init, last, hent, hfull, hcases⟩
  · have hnot : ¬ leafset.FullAt sne.addr := fun h => hroom.ne h.1
    rw [Leafset.addrs, (hperm.map _).nodup_iff, nodup_append_singleton_iff hnodup]
    simp only [hnot, imp_false]
    rfl
  · rw [fullAt_iff hent, and_iff_right hfull]
    rcases hcases with ⟨hrej, heq⟩ | ⟨hrej, hperm⟩
    · rw [heq]
      exact iff_of_true hnodup fun hmem => ((rejects_iff_of_mem hinv hent hmem).1 hrej).2
    · have haddrs : leafset.addrs = init.map (·.addr) ++ [last.addr] := by
        rw [Leafset.addrs, hent, List.map_append, List.map_singleton]
      rw [haddrs, (List.perm_append_singleton _ _).nodup_iff, List.nodup_cons] at hnodup
      rw [Leafset.addrs, (hperm.map _).nodup_iff, nodup_append_singleton_iff hnodup.2, haddrs,
        List.mem_append, List.mem_singleton]
      constructor
      · rintro hnot (hmem | heq)
        · exact absurd hmem hnot
        · exact heq.symm
      · intro h hmem
        exact hnodup.1 (h (Or.inl hmem) ▸ hmem)

/-- One side of the leafset keeps every other address, and all its entries for the address of `sne`
carry the network address of `sne`. -/
def RefreshesSide (leafset leafset' : Leafset) (sne : SnNetEntry) : Prop :=
  (∀ y ∈ leafset.addrs, y ≠ sne.addr → y ∈ leafset'.addrs) ∧
    ∀ e ∈ leafset'.entries, e.addr = sne.addr → e.netAddr = sne.netAddr

section RefreshesSide

variable {leafset' : Leafset} {e : SnNetEntry}

/-- The entry that a leafset with distinct addresses has for an address is its only one. -/
theorem eq_of_nodup_addrs (hnodup : leafset.addrs.Nodup) (he : e ∈ leafset.entries)
    (haddr : e.addr = sne.addr) {e' : SnNetEntry} (he' : e' ∈ leafset.entries)
    (haddr' : e'.addr = sne.addr) : e' = e :=
  List.inj_on_of_nodup_map hnodup he' he (haddr'.trans haddr.symm)

/-- A leafset that stays is refreshed when its entry has the network address already. -/
theorem refreshesSide_self_iff (hnodup : leafset.addrs.Nodup) (he : e ∈ leafset.entries)
    (haddr : e.addr = sne.addr) : RefreshesSide leafset leafset sne ↔ e.netAddr = sne.netAddr := by
  refine ⟨fun h => h.2 e he haddr, fun hnet => ⟨fun _ hy _ => hy, fun e' he' haddr' => ?_⟩⟩
  rw [eq_of_nodup_addrs hnodup he haddr he' haddr', hnet]

/-- A leafset that gains a second entry is refreshed when its first one has the network address
already. -/
theorem refreshesSide_append_iff (hnodup : leafset.addrs.Nodup) (he : e ∈ leafset.entries)
    (haddr : e.addr = sne.addr) (hperm : leafset'.entries.Perm (leafset.entries ++ [sne])) :
    RefreshesSide leafset leafset' sne ↔ e.netAddr = sne.netAddr := by
  constructor
  · exact fun h => h.2 e (hperm.mem_iff.2 (List.mem_append_left _ he)) haddr
  · refine fun hnet => ⟨fun y hy _ => ?_, fun e' he' haddr' => ?_⟩
    · obtain ⟨e', he', rfl⟩ := Leafset.mem_addrs.1 hy
      exact Leafset.mem_addrs.2 ⟨e', hperm.mem_iff.2 (List.mem_append_left _ he'), rfl⟩
    · rcases List.mem_append.1 (hperm.mem_iff.1 he') with hold | hnew
      · rw [eq_of_nodup_addrs hnodup he haddr hold haddr', hnet]
      · rw [List.mem_singleton.1 hnew]

/-- A leafset whose last entry gives way is refreshed when this entry has the address. -/
theorem refreshesSide_replace_iff (hnodup : leafset.addrs.Nodup)
    (hent : leafset.entries = init ++ [last])
    (hperm : leafset'.entries.Perm (init ++ [sne])) :
    RefreshesSide leafset leafset' sne ↔ last.addr = sne.addr := by
  have hnotin : last.addr ∉ init.map (·.addr) := by
    have haddrs : leafset.addrs = init.map (·.addr) ++ [last.addr] := by
      rw [Leafset.addrs, hent, List.map_append, List.map_singleton]
    rw [haddrs, (List.perm_append_singleton _ _).nodup_iff, List.nodup_cons] at hnodup
    exact hnodup.1
  constructor
  · rintro ⟨hkeep, -⟩
    by_contra hne
    have hkept := hkeep last.addr (Leafset.mem_addrs.2 ⟨last, by simp [hent], rfl⟩) hne
    obtain ⟨e', he', haddr'⟩ := Leafset.mem_addrs.1 hkept
    rcases List.mem_append.1 (hperm.mem_iff.1 he') with hold | hnew
    · exact hnotin (List.mem_map.2 ⟨e', hold, haddr'⟩)
    · rw [List.mem_singleton.1 hnew] at haddr'
      exact hne haddr'.symm
  · refine fun hlast => ⟨fun y hy hne => ?_, fun e' he' haddr' => ?_⟩
    · obtain ⟨e', he', rfl⟩ := Leafset.mem_addrs.1 hy
      rw [hent, List.mem_append, List.mem_singleton] at he'
      rcases he' with hold | rfl
      · exact Leafset.mem_addrs.2 ⟨e', hperm.mem_iff.2 (List.mem_append_left _ hold), rfl⟩
      · exact absurd hlast hne
    · rcases List.mem_append.1 (hperm.mem_iff.1 he') with hold | hnew
      · exact absurd (List.mem_map.2 ⟨e', hold, haddr'.trans hlast.symm⟩) hnotin
      · rw [List.mem_singleton.1 hnew]

/-- **When insertion of a known address refreshes it**: the leafset has room or its last entry
carries the address, and the entry `e` for the address has the network address already or is the
last of a full left leafset. -/
theorem refreshes_insert_iff (hinv : LeafsetInv selfAddr right leafset) (hsne : sne.IsSet)
    (hnodup : leafset.addrs.Nodup) (he : e ∈ leafset.entries) (haddr : e.addr = sne.addr) :
    RefreshesSide leafset (leafsetInsert q leafset sne right) sne ↔
      (leafset.entries.length = snNetRouterLeafsetSize → leafset.FullAt sne.addr) ∧
        (e.netAddr = sne.netAddr ∨
          right = false ∧ leafset.entries.length = snNetRouterLeafsetSize) := by
  have hmem : sne.addr ∈ leafset.addrs := Leafset.mem_addrs.2 ⟨e, he, haddr⟩
  rcases Leafset.insert_cases q hinv.packed hsne right with
    ⟨hroom, hperm⟩ | ⟨init, last, hent, hfull, hcases⟩
  · -- The entry `e` stays, and a second one is stored.
    simp only [hroom.ne, false_implies, true_and, and_false, or_false]
    exact refreshesSide_append_iff hnodup he haddr hperm
  · simp only [fullAt_iff hent, hfull, true_and, true_implies, and_true]
    have hrejects := rejects_iff_of_mem hinv hent hmem
    rcases hcases with ⟨hrej, heq⟩ | ⟨hrej, hperm⟩
    · -- Nothing changes.
      obtain ⟨rfl, hlast⟩ := hrejects.1 hrej
      simp only [heq, hlast, true_and, Bool.true_eq_false, or_false]
      exact refreshesSide_self_iff hnodup he haddr
    · -- The last entry gives way.
      rw [refreshesSide_replace_iff hnodup hent hperm]
      refine ⟨fun hlast => ⟨hlast, Or.inr ?_⟩, And.left⟩
      cases right with
      | true => exact absurd (hrejects.2 ⟨rfl, hlast⟩) hrej
      | false => rfl

end RefreshesSide

/-- Extraction keeps the addresses distinct. -/
theorem nodup_extract (hpacked : leafset.Packed) (sne : SnNetEntry) (right : Bool)
    (hnodup : leafset.addrs.Nodup) : (leafsetExtract q leafset sne right).addrs.Nodup :=
  ((Leafset.entries_extract_perm q hpacked).map _).nodup_iff.2
    (hnodup.sublist (List.eraseP_sublist.map _))

end OneSide

/-! ### The router -/

section Router

variable {q : Sorter SnNetEntry} {snr snr' : SnNetRouter} {x : SnNetAddr} {right : Bool}

/-- The side of the leafset that holds an address is the one on which it is handled. -/
theorem sideOf_of_mem_addrs (hinv : RouterInv snr) (h : x ∈ (snr.leafset right).addrs) :
    snr.sideOf x = right ∧ snr.self.addr ≠ x := by
  obtain ⟨e, he, rfl⟩ := Leafset.mem_addrs.1 h
  exact ⟨sideOf_eq_of_beyond ((hinv.leafset right).beyond e he),
    (hinv.setEntry (SnNetRouter.setEntry_of_mem_entries he)).1.symm⟩

theorem addrs_init (selfAddr : SnNetAddr) (selfNetAddr : Option SnIoNaddr) (right : Bool) :
    ((snNetRouterInit selfAddr selfNetAddr).leafset right).addrs = [] := by
  cases right <;> rfl

/-- A router with a leafset entry does not have the address of zero bytes. -/
theorem Reachable.self_ne_zero_of_mem (h : Reachable q snr) (hx : x ∈ (snr.leafset right).addrs) :
    snr.self.addr ≠ .zero := by
  obtain ⟨selfAddr, selfNetAddr, ops, hrun⟩ := h
  by_cases hops : ops = []
  · subst hops
    obtain rfl := Except.ok.inj hrun
    rw [addrs_init] at hx
    exact absurd hx List.not_mem_nil
  · have hself : snr.self.addr = selfAddr := by rw [self_of_run hrun]; rfl
    rw [hself]
    exact ne_zero_of_run hrun hops

/-- The addition of an address that a side of the leafset holds succeeds. -/
theorem Reachable.exists_add_of_mem (h : Reachable q snr) (hx : x ∈ (snr.leafset right).addrs)
    (netAddr : Option SnIoNaddr) : ∃ hne : snr.self.addr ≠ (RouterOp.add x netAddr).addr,
      routerStep q snr (.add x netAddr) = .ok (snr.after q (.add x netAddr) hne) := by
  have hne := (sideOf_of_mem_addrs (RouterInv.of_reachable h) hx).2
  obtain ⟨snr', hstep⟩ : ∃ snr', routerStep q snr (.add x netAddr) = .ok snr' :=
    h.exists_routerStep_iff.2 ⟨h.self_ne_zero_of_mem hx, hne⟩
  obtain ⟨_, -, rfl⟩ := routerStep_eq_ok_iff.1 hstep
  exact ⟨hne, hstep⟩

theorem nodup_after_add_iff (hinv : RouterInv snr)
    (hnodup : ∀ right, (snr.leafset right).addrs.Nodup) {netAddr : Option SnIoNaddr}
    (h : snr.self.addr ≠ (RouterOp.add x netAddr).addr) :
    (∀ right, ((snr.after q (.add x netAddr) h).leafset right).addrs.Nodup) ↔
      ∀ right, x ∈ (snr.leafset right).addrs → (snr.leafset right).FullAt x := by
  refine forall_congr' fun right => ?_
  rw [SnNetRouter.after_leafset]
  split_ifs with hside
  · have hset : (RouterOp.add x netAddr).entry.IsSet := by simp [RouterOp.entry]
    exact nodup_insert_iff q (hinv.leafset right) hset (hnodup right)
  · exact iff_of_true (hnodup right) fun hmem =>
      absurd (sideOf_of_mem_addrs hinv hmem).1.symm hside

theorem nodup_after_remove (hinv : RouterInv snr)
    (hnodup : ∀ right, (snr.leafset right).addrs.Nodup) {junk : SnIoNaddr}
    (h : snr.self.addr ≠ (RouterOp.remove x junk).addr) (right : Bool) :
    ((snr.after q (.remove x junk) h).leafset right).addrs.Nodup := by
  rw [SnNetRouter.after_leafset]
  split_ifs with hside
  · exact nodup_extract q (hinv.leafset right).packed _ right (hnodup right)
  · exact hnodup right

/-- The addition of `x` evicts no other address from either side of the leafset and leaves every
set entry for `x` with the network address `netAddr`. -/
def Refreshes (q : Sorter SnNetEntry) (snr : SnNetRouter) (x : SnNetAddr)
    (netAddr : Option SnIoNaddr) : Prop :=
  ∃ snr', snNetRouterAdd q snr x netAddr = .ok snr' ∧
    (∀ right, ∀ y ∈ (snr.leafset right).addrs, y ≠ x → y ∈ (snr'.leafset right).addrs) ∧
    ∀ e, snr'.SetEntry e → e.addr = x → e.netAddr = netAddr.getD .zero

/-- The addition of a known address refreshes it exactly when insertion into its side does. -/
theorem refreshes_iff_side (h : Reachable q snr) (hx : x ∈ (snr.leafset right).addrs)
    (netAddr : Option SnIoNaddr) : Refreshes q snr x netAddr ↔
      RefreshesSide (snr.leafset right)
        (leafsetInsert q (snr.leafset right) (RouterOp.add x netAddr).entry right)
        (RouterOp.add x netAddr).entry := by
  have hinv := RouterInv.of_reachable h
  have hright := (sideOf_of_mem_addrs hinv hx).1
  obtain ⟨hne, hstep⟩ := h.exists_add_of_mem hx netAddr
  have hleafset : (snr.after q (.add x netAddr) hne).leafset right =
      leafsetInsert q (snr.leafset right) (RouterOp.add x netAddr).entry right := by
    exact (SnNetRouter.after_leafset q hne right).trans (if_pos hright.symm)
  constructor
  · rintro ⟨snr', hadd, hkeep, hnet⟩
    obtain rfl : snr' = snr.after q (.add x netAddr) hne := Except.ok.inj (hadd.symm.trans hstep)
    rw [← hleafset]
    exact ⟨hkeep right, fun e he => hnet e (SnNetRouter.setEntry_of_mem_entries he)⟩
  · rw [← hleafset]
    rintro ⟨hkeep, hnet⟩
    refine ⟨_, hstep, fun right' y hy hyx => ?_, fun e he haddr => ?_⟩
    · by_cases hr : right' = right
      · subst hr
        exact hkeep y hy hyx
      · rwa [SnNetRouter.after_leafset, if_neg fun heq => hr (heq.trans hright)]
    · rcases SnNetRouter.setEntry_iff.1 he with ⟨hset, l, c, rfl⟩ | ⟨right', hmem⟩
      · -- The only slot for `x` is the one just written.
        obtain ⟨hne', hidx⟩ := (hinv.after (q := q) hne).tableIndex_eq hset
        have hslot : (l, c) = tableIndex hne := by
          rw [← hidx]
          simp only [tableIndex, SnNetRouter.after_self, haddr, RouterOp.addr]
        rw [SnNetRouter.after_table_apply, if_pos hslot]
        rfl
      · have hr : right' = right := by
          have := (sideOf_of_mem_addrs (hinv.after (q := q) hne)
            (Leafset.mem_addrs.2 ⟨e, hmem, haddr⟩)).1
          rw [← this, ← hright]
          simp only [SnNetRouter.sideOf, SnNetRouter.after_self]
        subst hr
        exact hnet e hmem haddr

/-- No state of a run holds an address twice on one side of its leafset. -/
def DistinctAlong (q : Sorter SnNetEntry) (snr : SnNetRouter) (ops : List RouterOp) : Prop :=
  ∀ pre s, pre <+: ops → run (routerStep q) snr pre = .ok s →
    ∀ right, (s.leafset right).addrs.Nodup

/-- Every addition along a run is of an address that its side of the leafset does not hold, or that
the last entry of a full leafset carries. -/
def AddsFresh (q : Sorter SnNetEntry) (snr : SnNetRouter) (ops : List RouterOp) : Prop :=
  ∀ pre y netAddr s, pre ++ [.add y netAddr] <+: ops → run (routerStep q) snr pre = .ok s →
    ∀ right, y ∈ (s.leafset right).addrs → (s.leafset right).FullAt y

/-- A run keeps the addresses distinct exactly when its additions are fresh. -/
theorem distinctAlong_iff (hinit : Reachable q snr)
    (hnodup : ∀ right, (snr.leafset right).addrs.Nodup) (ops : List RouterOp) :
    DistinctAlong q snr ops ↔ AddsFresh q snr ops := by
  constructor
  · intro hdistinct pre y netAddr s hpre hrun right hmem
    have hs := hinit.run hrun
    obtain ⟨hne, hstep⟩ := hs.exists_add_of_mem hmem netAddr
    have hbefore := hdistinct pre s ((List.prefix_append pre _).trans hpre) hrun
    have hafter := hdistinct _ _ hpre (run_concat_eq_ok.2 ⟨s, hrun, hstep⟩)
    exact (nodup_after_add_iff (RouterInv.of_reachable hs) hbefore hne).1 hafter right hmem
  · intro hfresh pre
    induction pre using List.reverseRecOn with
    | nil =>
      rintro s - hrun
      obtain rfl := Except.ok.inj hrun
      exact hnodup
    | append_singleton pre op ih =>
      intro s' hpre hrun'
      obtain ⟨s, hrun, hstep⟩ := run_concat_eq_ok.1 hrun'
      have hinv := RouterInv.of_reachable (hinit.run hrun)
      have hbefore := ih s ((List.prefix_append pre _).trans hpre) hrun
      obtain ⟨hne, -, rfl⟩ := routerStep_eq_ok_iff.1 hstep
      cases op with
      | add y netAddr =>
        exact (nodup_after_add_iff hinv hbefore hne).2 (hfresh pre y netAddr s hpre hrun)
      | remove y junk => exact nodup_after_remove hinv hbefore hne

/-- **When re-adding refreshes instead of duplicating.** Along a history no leafset holds an address
twice, and a further addition of an address that a leafset holds at its end refreshes it, exactly
when every addition of the history is of an address that its side does not hold or that the last
entry of a full side carries, and, for the entry that holds the address at the end, the side has
room or the entry is its last, and the entry carries the network address already or is the last of
a full left side. -/
theorem readding_iff (q : Sorter SnNetEntry) (selfAddr : SnNetAddr) (selfNetAddr : Option SnIoNaddr)
    (ops : List RouterOp) (x : SnNetAddr) (netAddr : Option SnIoNaddr) :
    (DistinctAlong q (snNetRouterInit selfAddr selfNetAddr) ops ∧
      ∀ snr, run (routerStep q) (snNetRouterInit selfAddr selfNetAddr) ops = .ok snr →
        (∃ right, x ∈ (snr.leafset right).addrs) → Refreshes q snr x netAddr) ↔
    AddsFresh q (snNetRouterInit selfAddr selfNetAddr) ops ∧
      ∀ snr, run (routerStep q) (snNetRouterInit selfAddr selfNetAddr) ops = .ok snr →
        ∀ right, ∀ e ∈ (snr.leafset right).entries, e.addr = x →
          ((snr.leafset right).entries.length = snNetRouterLeafsetSize →
            (snr.leafset right).FullAt x) ∧
          (e.netAddr = netAddr.getD .zero ∨
            right = false ∧ (snr.leafset right).entries.length = snNetRouterLeafsetSize) := by
  have hinit := Reachable.init q selfAddr selfNetAddr
  have hempty : ∀ right, ((snNetRouterInit selfAddr selfNetAddr).leafset right).addrs.Nodup :=
    fun right => addrs_init selfAddr selfNetAddr right ▸ List.nodup_nil
  rw [← distinctAlong_iff hinit hempty]
  refine and_congr_right fun hdistinct => forall_congr' fun snr => forall_congr' fun hrun => ?_
  have hnodup := hdistinct ops snr List.prefix_rfl hrun
  have hreach := hinit.run hrun
  have hone : ∀ right, ∀ e ∈ (snr.leafset right).entries, e.addr = x →
      (Refreshes q snr x netAddr ↔ _) := fun right e he haddr =>
    (refreshes_iff_side hreach (Leafset.mem_addrs.2 ⟨e, he, haddr⟩) netAddr).trans
      (refreshes_insert_iff q ((RouterInv.of_reachable hreach).leafset right)
        (by simp [RouterOp.entry]) (hnodup right) he haddr)
  constructor
  · intro h right e he haddr
    exact (hone right e he haddr).1 (h ⟨right, Leafset.mem_addrs.2 ⟨e, he, haddr⟩⟩)
  · rintro h ⟨right, hx⟩
    obtain ⟨e, he, haddr⟩ := Leafset.mem_addrs.1 hx
    exact (hone right e he haddr).2 (h right e he haddr)

/-- Re-adding can duplicate: the router on 4f5e22 that has added 888888 twice holds it twice. -/
theorem not_distinctAlong_add_add : ¬ DistinctAlong (.insertion SnNetEntry)
    (snNetRouterInit (.ofBytes [0x4f, 0x5e, 0x22]) none)
    [.add (.ofBytes [0x88, 0x88, 0x88]) none, .add (.ofBytes [0x88, 0x88, 0x88]) none] := by
  have hobs : (routerOn4f5e22 [.add (.ofBytes [0x88, 0x88, 0x88]) none,
      .add (.ofBytes [0x88, 0x88, 0x88]) none]).toOption.map (fun snr => snr.rightLeafset.addrs) =
      some [.ofBytes [0x88, 0x88, 0x88], .ofBytes [0x88, 0x88, 0x88]] := by
    decide +kernel
  obtain ⟨snr, hrun, haddrs⟩ := exists_ok_of_toOption_map hobs
  intro hdistinct
  have hnodup := hdistinct _ snr List.prefix_rfl hrun true
  rw [SnNetRouter.leafset_true, haddrs] at hnodup
  exact absurd hnodup (by simp)

end Router

end SndNet
