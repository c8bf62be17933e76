import SndNet.Net.Router.Invariant

/-!
# The choice of the next hop

`sn_net_router_nexthop` (`src/net/router.c`, lines 61–116) searches the two sides of the leafset,
or one slot of the table and, when the slot is unset, the row of the slot with the part of the
leafset that shares enough digits with the node. Each branch compares the winners of several
searches with the node itself. This file reduces the branches to one search each
(`snNetRouterNexthopFrom_eq`) and proves that a next hop makes progress.

## Main definitions

* `SndNet.SnNetRouter.SetEntry`, `SndNet.SnNetRouter.Holds`: the set entries of a router, and the
  addresses it knows.
* `SndNet.onRangeEntries`, `SndNet.offRangeEntries`: the entries that a branch compares with the
  node itself.
* `SndNet.nexthopOf`: the choice of the next hop as one search.

## Main results

* `SndNet.snNetRouterNexthopFrom_eq`: the code computes `nexthopOf`.
* `SndNet.nexthop_progress`: every next hop is a set entry and makes progress.
-/

namespace SndNet

open FallibleRun

variable {q : Sorter SnNetEntry} {snr : SnNetRouter} {onRange : Bool} {dst : SnNetAddr}
  {e : SnNetEntry}

/-! ### The entries of a router -/

namespace SnNetRouter

/-- A set entry of the table or of a leafset. -/
def SetEntry (snr : SnNetRouter) (e : SnNetEntry) : Prop :=
  e.IsSet ∧ ((∃ l c, snr.table l c = e) ∨ ∃ right, e ∈ (snr.leafset right).val)

/-- An address that a set entry carries. -/
def Holds (snr : SnNetRouter) (x : SnNetAddr) : Prop := ∃ e, snr.SetEntry e ∧ e.addr = x

theorem setEntry_of_mem_entries {right : Bool} (h : e ∈ (snr.leafset right).entries) :
    snr.SetEntry e :=
  ⟨Leafset.isSet_of_mem_entries h, Or.inr ⟨right, (Leafset.mem_entries.1 h).1⟩⟩

/-- A set entry is in a slot or among the entries of a leafset. -/
theorem setEntry_iff : snr.SetEntry e ↔
    (e.IsSet ∧ ∃ l c, snr.table l c = e) ∨ ∃ right, e ∈ (snr.leafset right).entries := by
  constructor
  · rintro ⟨hset, htable | ⟨right, hleaf⟩⟩
    · exact Or.inl ⟨hset, htable⟩
    · exact Or.inr ⟨right, Leafset.mem_entries.2 ⟨hleaf, hset⟩⟩
  · rintro (⟨hset, htable⟩ | ⟨right, hleaf⟩)
    · exact ⟨hset, Or.inl htable⟩
    · exact setEntry_of_mem_entries hleaf

end SnNetRouter

namespace RouterInv

theorem self_isSet (hinv : RouterInv snr) : snr.self.IsSet := by simp [hinv.self_isSet_eq]

/-- A set slot is the slot of the address it carries. -/
theorem tableIndex_eq (hinv : RouterInv snr) {l : Fin snNetRouterLevels}
    {c : Fin snNetRouterColumns} (hset : (snr.table l c).IsSet) :
    ∃ h : snr.self.addr ≠ (snr.table l c).addr, tableIndex h = (l, c) := by
  rcases hinv.slot l c with hzero | ⟨hne, hidx, -⟩
  · simp [hzero] at hset
  · exact ⟨hne, hidx⟩

/-- A set entry carries another address, and its flag is one. -/
theorem setEntry (hinv : RouterInv snr) (h : snr.SetEntry e) :
    e.addr ≠ snr.self.addr ∧ e.isSet = 1 := by
  rcases SnNetRouter.setEntry_iff.1 h with ⟨hset, l, c, rfl⟩ | ⟨right, hleaf⟩
  · rcases hinv.slot l c with hzero | ⟨hne, -, hone⟩
    · simp [hzero] at hset
    · exact ⟨hne.symm, hone hset⟩
  · refine ⟨?_, (hinv.leafset right).isSet_eq e hleaf⟩
    have hbeyond := (hinv.leafset right).beyond e hleaf
    cases right with
    | true => exact (show snr.self.addr < e.addr from hbeyond).ne'
    | false => exact (show e.addr < snr.self.addr from hbeyond).ne

end RouterInv

/-! ### One search for each branch -/

/-- What the branch on range compares with the node itself: both sides of the leafset. -/
def onRangeEntries (snr : SnNetRouter) : List SnNetEntry :=
  snr.leftLeafset.entries ++ snr.rightLeafset.entries

/-- The set entries in the row of the slot of `dst`. -/
def rowEntries (snr : SnNetRouter) (h : snr.self.addr ≠ dst) : List SnNetEntry :=
  (List.ofFn (snr.table (tableIndex h).1)).filter fun e => e.IsSet

/-- The entries of a leafset that share at least as many digits with the node as `dst` does. -/
def leafsetFrom (self dst : SnNetAddr) (leafset : Leafset) : List SnNetEntry :=
  leafset.val.filter fun e => Eligible (some self) (self.level dst) e

/-- What the branch off range compares with the node itself when the slot of `dst` is unset: the
row of the slot and the entries of the leafset that share enough digits. -/
def offRangeEntries (snr : SnNetRouter) (h : snr.self.addr ≠ dst) : List SnNetEntry :=
  rowEntries snr h ++ (leafsetFrom snr.self.addr dst snr.leftLeafset ++
    leafsetFrom snr.self.addr dst snr.rightLeafset)

/-- The result of a search that starts with the node itself. -/
def bestOf (self : SnNetEntry) (dst : SnNetAddr) (xs : List SnNetEntry) : SnNetEntry :=
  dropSelf self (((self :: xs).argmin (distTo dst)).getD self)

/-- The choice of the next hop as one search. -/
def nexthopOf (onRange : Bool) (snr : SnNetRouter) (dst : SnNetAddr) : SnNetEntry :=
  if onRange then bestOf snr.self dst (onRangeEntries snr)
  else if h : snr.self.addr = dst then { snr.self with isSet := 0 }
  else if (snr.slotOf h).IsSet then snr.slotOf h
  else bestOf snr.self dst (offRangeEntries snr h)

/-- The winner of a search, as `sn_net_entry_closest` stores it in `bests`. -/
def winner (dst : SnNetAddr) (xs : List SnNetEntry) : SnNetEntry :=
  (xs.argmin (distTo dst)).getD { SnNetEntry.zero with isSet := 0 }

theorem filter_winner {xs : List SnNetEntry} (hxs : ∀ e ∈ xs, e.IsSet) :
    [winner dst xs].filter (fun e => Eligible none 0 e) = (xs.argmin (distTo dst)).toList := by
  cases h : xs.argmin (distTo dst) with
  | none => simp [winner, h, Eligible]
  | some m => simp [winner, h, Eligible, hxs m (List.argmin_mem h)]

/-- Searching the node and the winners of several searches is searching the node and all
candidates. -/
theorem closestOf_winners {self : SnNetEntry} (hself : self.IsSet) {parts : List (List SnNetEntry)}
    (hparts : ∀ xs ∈ parts, ∀ e ∈ xs, e.IsSet) :
    closestOf dst (self :: parts.map (winner dst)) none 0 =
      (self :: parts.flatten).argmin (distTo dst) := by
  have hfilter : (parts.map (winner dst)).filter (fun e => Eligible none 0 e) =
      parts.flatMap fun xs => (xs.argmin (distTo dst)).toList := by
    induction parts with
    | nil => rfl
    | cons xs parts ih =>
      rw [List.map_cons, List.flatMap_cons, ← filter_winner (hparts xs List.mem_cons_self),
        ← ih fun ys hys => hparts ys (List.mem_cons_of_mem _ hys), ← List.filter_append,
        List.singleton_append]
  have hcons : Eligible none 0 self := ⟨hself, by simp⟩
  rw [closestOf, List.filter_cons_of_pos (by simpa using hcons), hfilter]
  have hself' : ([self] : List SnNetEntry).argmin (distTo dst) = some self := rfl
  have := Argmin.argmin_flatten (distTo dst) ([self] :: parts)
  rw [List.flatten_cons, List.flatMap_cons, hself', Option.toList_some, List.singleton_append,
    List.singleton_append] at this
  exact this.symm

/-- The search of a side of the leafset stores its winner. -/
theorem closest_entries (dst : SnNetAddr) (leafset : Leafset) :
    snNetEntryClosest dst leafset.val none 0 .zero = .ok (winner dst leafset.entries) := by
  rw [snNetEntryClosest_eq dst leafset.length_pos]
  simp [closestOf, winner, Leafset.entries, Eligible]

/-- So does the search of its entries that share enough digits. -/
theorem closest_leafsetFrom (self dst : SnNetAddr) (leafset : Leafset) :
    snNetEntryClosest dst leafset.val (some self) (self.level dst) .zero =
      .ok (winner dst (leafsetFrom self dst leafset)) := by
  rw [snNetEntryClosest_eq dst leafset.length_pos]
  rfl

/-- So does the search of the row of a slot. -/
theorem closest_rowEntries (h : snr.self.addr ≠ dst) :
    snNetEntryClosest dst (List.ofFn (snr.table (tableIndex h).1)) none 0 .zero =
      .ok (winner dst (rowEntries snr h)) := by
  rw [snNetEntryClosest_eq dst (by simp)]
  simp [closestOf, winner, rowEntries, Eligible]

/-- The last search of the code, which compares the node with the winners, finds `bestOf`. -/
theorem snNetEntryClosest_winners {self : SnNetEntry} (hself : self.IsSet) (dst : SnNetAddr)
    (parts : List (List SnNetEntry)) (hparts : ∀ xs ∈ parts, ∀ e ∈ xs, e.IsSet) :
    (snNetEntryClosest dst (self :: parts.map (winner dst)) none 0 .zero >>= fun nexthop =>
      .ok (dropSelf self nexthop)) = .ok (bestOf self dst parts.flatten) := by
  rw [snNetEntryClosest_eq dst (by simp), ok_bind, closestOf_winners hself hparts, bestOf]
  obtain ⟨m, hm⟩ : ∃ m, (self :: parts.flatten).argmin (distTo dst) = some m :=
    Argmin.exists_argmin (List.cons_ne_nil _ _)
  rw [hm, Option.getD_some, Option.getD_some]

/-- **The next hop is one search.** The code fails no assertion and returns the result of one
search, in each of its branches. -/
theorem snNetRouterNexthopFrom_eq (hself : snr.self.IsSet) (onRange : Bool) (dst : SnNetAddr) :
    snNetRouterNexthopFrom onRange snr dst = .ok (nexthopOf onRange snr dst) := by
  cases onRange with
  | true =>
    simp only [snNetRouterNexthopFrom, nexthopOf, if_true, closest_entries, ok_bind, pure_eq_ok]
    have hlast := snNetEntryClosest_winners hself dst
      [snr.leftLeafset.entries, snr.rightLeafset.entries] (by
        simpa [or_imp, forall_and] using
          ⟨fun e => Leafset.isSet_of_mem_entries, fun e => Leafset.isSet_of_mem_entries⟩)
    simpa [onRangeEntries] using hlast
  | false =>
    simp only [snNetRouterNexthopFrom, nexthopOf, Bool.false_eq_true, if_false, snNetAddrIndex_eq,
      ok_bind]
    by_cases h : snr.self.addr = dst
    · subst h
      simp
    · have hin : snr.self.addr.level dst < snNetRouterLevels ∧
          (snr.self.addr.column dst).toNat < snNetRouterColumns :=
        ⟨(tableIndex h).1.isLt, (tableIndex h).2.isLt⟩
      rw [dif_pos hin, dif_neg h]
      by_cases hslot : (snr.slotOf h).IsSet
      · rw [if_pos hslot]
        exact if_pos hslot
      · rw [if_neg hslot]
        refine (if_neg hslot).trans ?_
        have hlast := snNetEntryClosest_winners hself dst
          [rowEntries snr h, leafsetFrom snr.self.addr dst snr.leftLeafset,
            leafsetFrom snr.self.addr dst snr.rightLeafset] (by
              simpa [or_imp, forall_and, rowEntries, leafsetFrom] using
                ⟨fun e _ h => h.1, fun e _ h => h.1⟩)
        rw [show (⟨snr.self.addr.level dst, hin.1⟩ : Fin _) = (tableIndex h).1 from rfl,
          closest_rowEntries, ok_bind, closest_leafsetFrom, ok_bind, closest_leafsetFrom, ok_bind]
        simpa [offRangeEntries] using hlast

/-- A property of the next hop is one of the search that the range test selects. -/
theorem exists_nexthop_iff (hself : snr.self.IsSet) (dst : SnNetAddr) {P : SnNetEntry → Prop} :
    (∃ e, snNetRouterNexthop snr dst = .ok e ∧ P e) ↔
      ∃ onRange, leafsetIsOnRange snr dst = .ok onRange ∧ P (nexthopOf onRange snr dst) := by
  simp only [snNetRouterNexthop, bind_eq_ok, snNetRouterNexthopFrom_eq hself, Except.ok.injEq]
  constructor
  · rintro ⟨_, ⟨onRange, hrange, rfl⟩, hP⟩
    exact ⟨onRange, hrange, hP⟩
  · rintro ⟨onRange, hrange, hP⟩
    exact ⟨_, ⟨onRange, hrange, rfl⟩, hP⟩

/-! ### Progress -/

/-- A search that starts with the node ends with the node, which no candidate beats, or with a
strictly better candidate. -/
theorem bestOf_cases (dst : SnNetAddr) {self : SnNetEntry} {xs : List SnNetEntry}
    (hxs : ∀ e ∈ xs, e.addr ≠ self.addr) :
    bestOf self dst xs = { self with isSet := 0 } ∧
        (∀ e ∈ xs, distTo dst self ≤ distTo dst e) ∨
      bestOf self dst xs ∈ xs ∧ distTo dst (bestOf self dst xs) < distTo dst self ∧
        (self :: xs).argmin (distTo dst) = some (bestOf self dst xs) := by
  obtain ⟨m, hm⟩ : ∃ m, (self :: xs).argmin (distTo dst) = some m :=
    Argmin.exists_argmin (List.cons_ne_nil _ _)
  rw [bestOf, hm, Option.getD_some]
  rcases Argmin.eq_head_or_lt hm with rfl | ⟨hmem, hlt⟩
  · exact Or.inl ⟨if_pos (snNetAddrCmp_self m.addr), fun e he =>
      List.le_of_mem_argmin (List.mem_cons_of_mem _ he) hm⟩
  · have hdrop : dropSelf self m = m := if_neg fun h => hxs m hmem (snNetAddrCmp_eq_zero_iff.1 h)
    rw [hdrop]
    exact Or.inr ⟨hmem, hlt, rfl⟩

theorem mem_onRangeEntries : e ∈ onRangeEntries snr ↔ ∃ right, e ∈ (snr.leafset right).entries := by
  simp [onRangeEntries]

theorem setEntry_of_mem_onRangeEntries (h : e ∈ onRangeEntries snr) : snr.SetEntry e := by
  obtain ⟨right, hmem⟩ := mem_onRangeEntries.1 h
  exact SnNetRouter.setEntry_of_mem_entries hmem

theorem mem_leafsetFrom {self : SnNetAddr} {leafset : Leafset} :
    e ∈ leafsetFrom self dst leafset ↔
      e ∈ leafset.entries ∧ self.level dst ≤ self.level e.addr := by
  simp [leafsetFrom, Leafset.mem_entries, Eligible, and_assoc]

theorem mem_offRangeEntries {h : snr.self.addr ≠ dst} : e ∈ offRangeEntries snr h ↔
    e ∈ rowEntries snr h ∨ (∃ right, e ∈ (snr.leafset right).entries) ∧
      snr.self.addr.level dst ≤ snr.self.addr.level e.addr := by
  simp [offRangeEntries, mem_leafsetFrom, or_and_right]

theorem mem_rowEntries {h : snr.self.addr ≠ dst} :
    e ∈ rowEntries snr h ↔ e.IsSet ∧ ∃ c, snr.table (tableIndex h).1 c = e := by
  rw [rowEntries, List.mem_filter, List.mem_ofFn, decide_eq_true_eq, and_comm]

/-- What the branch off range compares with the node shares at least as many digits with the node
as the destination does. -/
theorem level_le_of_mem_offRangeEntries (hinv : RouterInv snr) {h : snr.self.addr ≠ dst}
    (he : e ∈ offRangeEntries snr h) :
    snr.SetEntry e ∧ snr.self.addr.level dst ≤ snr.self.addr.level e.addr := by
  rcases mem_offRangeEntries.1 he with hrow | ⟨⟨right, hmem⟩, hlevel⟩
  · obtain ⟨hset, c, rfl⟩ := mem_rowEntries.1 hrow
    obtain ⟨hne, hidx⟩ := hinv.tableIndex_eq hset
    refine ⟨⟨hset, Or.inl ⟨_, c, rfl⟩⟩, le_of_eq ?_⟩
    exact (congrArg (fun i => i.1.val) hidx).symm
  · exact ⟨SnNetRouter.setEntry_of_mem_entries hmem, hlevel⟩

/-- A next hop `e` for `dst` makes progress: it shares more digits with the destination than the
node does or is closer to it, and off range it never shares fewer digits. -/
structure Progress (onRange : Bool) (snr : SnNetRouter) (dst : SnNetAddr) (e : SnNetEntry) :
    Prop where
  setEntry : snr.SetEntry e
  closer : snr.self.addr.level dst < e.addr.level dst ∨
    snNetAddrDist e.addr dst < snNetAddrDist snr.self.addr dst
  level_le : onRange = false → snr.self.addr.level dst ≤ e.addr.level dst

/-- The choice of the next hop is the node itself, unset, or makes progress. -/
theorem nexthopOf_cases (hinv : RouterInv snr) (onRange : Bool) (dst : SnNetAddr) :
    nexthopOf onRange snr dst = { snr.self with isSet := 0 } ∨
      Progress onRange snr dst (nexthopOf onRange snr dst) := by
  cases onRange with
  | true =>
    simp only [nexthopOf, if_true]
    have hset : ∀ e ∈ onRangeEntries snr, snr.SetEntry e :=
      fun e => setEntry_of_mem_onRangeEntries
    rcases bestOf_cases dst fun e he => (hinv.setEntry (hset e he)).1 with
      ⟨hself, -⟩ | ⟨hmem, hlt, -⟩
    · exact Or.inl hself
    · exact Or.inr ⟨hset _ hmem, Or.inr hlt, by simp⟩
  | false =>
    simp only [nexthopOf, Bool.false_eq_true, if_false]
    by_cases h : snr.self.addr = dst
    · exact Or.inl (dif_pos h)
    · rw [dif_neg h]
      by_cases hslot : (snr.slotOf h).IsSet
      · -- The slot of the destination: its entry shares one digit more.
        rw [if_pos hslot]
        obtain ⟨hne, hidx⟩ := hinv.tableIndex_eq hslot
        have hlt := (tableIndex_eq_iff h hne).1 hidx.symm
        rw [SnNetAddr.level_comm dst] at hlt
        exact Or.inr ⟨⟨hslot, Or.inl ⟨_, _, rfl⟩⟩, Or.inl hlt, fun _ => hlt.le⟩
      · rw [if_neg hslot]
        have hset := fun e (he : e ∈ offRangeEntries snr h) =>
          level_le_of_mem_offRangeEntries hinv he
        rcases bestOf_cases dst fun e he => (hinv.setEntry (hset e he).1).1 with
          ⟨hself, -⟩ | ⟨hmem, hlt, -⟩
        · exact Or.inl hself
        · refine Or.inr ⟨(hset _ hmem).1, Or.inr hlt, fun _ => ?_⟩
          set m := bestOf snr.self dst (offRangeEntries snr h)
          have hultra := SnNetAddr.min_level_le m.addr snr.self.addr dst
          rwa [SnNetAddr.level_comm m.addr, min_eq_right (hset m hmem).2] at hultra

/-- A router without entries has no next hop. -/
theorem nexthopOf_of_not_setEntry (hinv : RouterInv snr) (hempty : ∀ e, ¬ snr.SetEntry e)
    (onRange : Bool) (dst : SnNetAddr) :
    nexthopOf onRange snr dst = { snr.self with isSet := 0 } :=
  (nexthopOf_cases hinv onRange dst).resolve_right fun h => hempty _ h.setEntry

/-- No entry makes progress from the destination. -/
theorem Progress.dst_ne (h : Progress onRange snr dst e) : dst ≠ snr.self.addr := by
  rintro rfl
  rcases h.closer with hlevel | hdist
  · rw [SnNetAddr.level_self] at hlevel
    exact absurd hlevel (not_lt.2 (SnNetAddr.level_le _ _))
  · rw [snNetAddrDist_self] at hdist
    exact absurd hdist (not_lt.2 (SnNetAddr.zero_le _))

/-- **Every hop makes progress.** In a reachable state, whichever way the range test answers, the
choice of the next hop returns. A set answer is a set entry of the table or of a leafset with
another address that shares more digits with the destination or is closer to it, and off range
never shares fewer digits. An unset answer carries our own address, and is the answer for
ourselves. -/
theorem nexthop_progress (h : Reachable q snr) (onRange : Bool) (dst : SnNetAddr) :
    ∃ e, snNetRouterNexthopFrom onRange snr dst = .ok e ∧
      (leafsetIsOnRange snr dst = .ok onRange → snNetRouterNexthop snr dst = .ok e) ∧
      (e.isSet = 1 ∧ snr.SetEntry e ∧ e.addr ≠ snr.self.addr ∧
          (snr.self.addr.level dst < e.addr.level dst ∨
            snNetAddrCmp (snNetAddrDist e.addr dst) (snNetAddrDist snr.self.addr dst) < 0) ∧
          (onRange = false → snr.self.addr.level dst ≤ e.addr.level dst) ∨
        e.isSet = 0 ∧ e.addr = snr.self.addr) ∧
      (dst = snr.self.addr → e.isSet = 0) := by
  have hinv := RouterInv.of_reachable h
  have hfrom := snNetRouterNexthopFrom_eq hinv.self_isSet onRange dst
  refine ⟨_, hfrom, fun hrange => ?_, ?_⟩
  · rw [snNetRouterNexthop, hrange, ok_bind, hfrom]
  · rcases nexthopOf_cases hinv onRange dst with hself | hprog
    · rw [hself]
      exact ⟨Or.inr ⟨rfl, rfl⟩, fun _ => rfl⟩
    · obtain ⟨hne, hone⟩ := hinv.setEntry hprog.setEntry
      refine ⟨Or.inl ⟨hone, hprog.setEntry, hne, ?_, hprog.level_le⟩,
        fun h => absurd h hprog.dst_ne⟩
      rw [snNetAddrCmp_neg_iff]
      exact hprog.closer

/-- The router on 4f5e22 that knows 888888 sends what is meant for 788888 to an entry that makes
progress, also off range. -/
theorem nexthop_progress_of_add : ∃ snr e,
    routerOn4f5e22 [.add (.ofBytes [0x88, 0x88, 0x88]) none] = .ok snr ∧
    snNetRouterNexthopFrom false snr (.ofBytes [0x78, 0x88, 0x88]) = .ok e ∧
    e.isSet = 1 ∧ snr.SetEntry e ∧
    (snr.self.addr.level (.ofBytes [0x78, 0x88, 0x88]) <
        e.addr.level (.ofBytes [0x78, 0x88, 0x88]) ∨
      snNetAddrCmp (snNetAddrDist e.addr (.ofBytes [0x78, 0x88, 0x88]))
        (snNetAddrDist snr.self.addr (.ofBytes [0x78, 0x88, 0x88])) < 0) := by
  have hobs : (routerOn4f5e22 [.add (.ofBytes [0x88, 0x88, 0x88]) none]).toOption.map (fun snr =>
      (snNetRouterNexthopFrom false snr (.ofBytes [0x78, 0x88, 0x88])).toOption.map (·.isSet)) =
      some (some 1) := by decide +kernel
  obtain ⟨snr, hrun, hnexthop⟩ := exists_ok_of_toOption_map hobs
  obtain ⟨e, he, hone⟩ := exists_ok_of_toOption_map hnexthop
  obtain ⟨e', he', -, hcases, -⟩ := nexthop_progress (reachable_routerOn4f5e22 hrun) false
    (.ofBytes [0x78, 0x88, 0x88])
  obtain rfl : e = e' := Except.ok.inj (he.symm.trans he')
  rcases hcases with ⟨-, hset, -, hcloser, -⟩ | ⟨hzero, -⟩
  · exact ⟨snr, e, hrun, he, hone, hset, hcloser⟩
  · exact absurd (hone.symm.trans hzero) (by decide)

end SndNet
