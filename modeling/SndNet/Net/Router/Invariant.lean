import SndNet.Net.Router.Leafset

/-!
# The router invariant

Every membership operation writes one table slot and changes one leafset
(`src/net/router.c`, lines 30–59). This file inverts a step once (`routerStep_eq_ok_iff`) and
derives from it the invariant of all reachable routers: a slot of the table is either untouched or
carries an address with the index of the slot, and each leafset is packed, ordered away from the
router's own address, and on its own side of it.

## Main definitions

* `SndNet.SnNetRouter.leafset`, `SndNet.SnNetRouter.sideOf`: a side of the leafset, and the side an
  address belongs to.
* `SndNet.tableIndex`, `SndNet.SnNetRouter.slotOf`: the slot of an address.
* `SndNet.SlotInv`, `SndNet.LeafsetInv`, `SndNet.RouterInv`: the invariant.

## Main results

* `SndNet.routerStep_eq_ok_iff`: what a step that succeeds has done.
* `SndNet.RouterInv.of_reachable`: reachable routers satisfy the invariant.
-/

namespace SndNet

open FallibleRun

/-! ### Sides -/

namespace SnNetRouter

/-- One side of the leafset. -/
def leafset (snr : SnNetRouter) (right : Bool) : Leafset :=
  if right then snr.rightLeafset else snr.leftLeafset

/-- The side on which `leafset_add` and `leafset_remove` handle an address. -/
def sideOf (snr : SnNetRouter) (x : SnNetAddr) : Bool := !(x < snr.self.addr)

@[simp] theorem leafset_true (snr : SnNetRouter) : snr.leafset true = snr.rightLeafset := rfl

@[simp] theorem leafset_false (snr : SnNetRouter) : snr.leafset false = snr.leftLeafset := rfl

theorem sideOf_eq_true {snr : SnNetRouter} {x : SnNetAddr} :
    snr.sideOf x = true ↔ snr.self.addr ≤ x := by simp [sideOf]

theorem sideOf_eq_false {snr : SnNetRouter} {x : SnNetAddr} :
    snr.sideOf x = false ↔ x < snr.self.addr := by simp [sideOf]

end SnNetRouter

/-- With both bounds, the range test compares with them. -/
theorem leafsetIsOnRange_of_bounds {snr : SnNetRouter} {lo hi : SnNetAddr}
    (hlo : leafsetBound snr.self (snr.leafset false) = .ok lo)
    (hhi : leafsetBound snr.self (snr.leafset true) = .ok hi) (addr : SnNetAddr) :
    leafsetIsOnRange snr addr = .ok (decide (lo ≤ addr ∧ addr ≤ hi)) := by
  rw [SnNetRouter.leafset_false] at hlo
  rw [SnNetRouter.leafset_true] at hhi
  simp only [leafsetIsOnRange, hlo, hhi, ok_bind, snNetAddrCmp_nonpos_iff, pure_eq_ok]
  split_ifs with hle
  · simp [hle]
  · simp [hle]

section Step

variable (q : Sorter SnNetEntry) (snr : SnNetRouter) (sne : SnNetEntry)

@[simp] theorem leafsetAdd_self : (leafsetAdd q snr sne).self = snr.self := by
  rw [leafsetAdd]; split_ifs <;> rfl

@[simp] theorem leafsetAdd_table : (leafsetAdd q snr sne).table = snr.table := by
  rw [leafsetAdd]; split_ifs <;> rfl

@[simp] theorem leafsetRemove_self : (leafsetRemove q snr sne).self = snr.self := by
  rw [leafsetRemove]; split_ifs <;> rfl

@[simp] theorem leafsetRemove_table : (leafsetRemove q snr sne).table = snr.table := by
  rw [leafsetRemove]; split_ifs <;> rfl

theorem leafset_leafsetAdd (right : Bool) : (leafsetAdd q snr sne).leafset right =
    if right = snr.sideOf sne.addr then leafsetInsert q (snr.leafset right) sne right
    else snr.leafset right := by
  by_cases h : sne.addr < snr.self.addr <;> cases right <;>
    simp [leafsetAdd, snNetEntryCmp, snNetAddrCmp_neg_iff, SnNetRouter.sideOf, h,
      SnNetRouter.leafset]

theorem leafset_leafsetRemove (right : Bool) : (leafsetRemove q snr sne).leafset right =
    if right = snr.sideOf sne.addr then leafsetExtract q (snr.leafset right) sne right
    else snr.leafset right := by
  by_cases h : sne.addr < snr.self.addr <;> cases right <;>
    simp [leafsetRemove, snNetEntryCmp, snNetAddrCmp_neg_iff, SnNetRouter.sideOf, h,
      SnNetRouter.leafset]

end Step

/-! ### Slots -/

/-- The slot of the table that belongs to an address other than our own. -/
def tableIndex {self x : SnNetAddr} (h : self ≠ x) :
    Fin snNetRouterLevels × Fin snNetRouterColumns :=
  (⟨self.level x, SnNetAddr.level_lt_iff.2 h⟩,
    ⟨(self.column x).toNat, UInt8.lt_iff_toNat_lt.1 (SnNetAddr.column_lt h)⟩)

/-- The content of the slot that belongs to an address. -/
def SnNetRouter.slotOf (snr : SnNetRouter) {x : SnNetAddr} (h : snr.self.addr ≠ x) : SnNetEntry :=
  snr.table (tableIndex h).1 (tableIndex h).2

/-- Addresses belong to one slot exactly when they share more digits with each other than with our
own address. -/
theorem tableIndex_eq_iff {self x y : SnNetAddr} (hx : self ≠ x) (hy : self ≠ y) :
    tableIndex hx = tableIndex hy ↔ self.level x < x.level y := by
  rw [← SnNetAddr.index_eq_iff_level_lt hx hy, tableIndex, tableIndex, Prod.mk.injEq, Fin.mk.injEq,
    Fin.mk.injEq, UInt8.toNat_inj]

/-- `sn_net_router_set` with our own address leaves the table: level 64 and column 255. -/
theorem snNetRouterSet_self {snr : SnNetRouter} {sne : SnNetEntry}
    (h : snr.self.addr = sne.addr) : snNetRouterSet snr sne = .error .outOfBounds := by
  simp [snNetRouterSet, snNetAddrIndex_eq, ← h]

/-- `sn_net_router_set` with another address checks the slot of that address and overwrites it. -/
theorem snNetRouterSet_of_ne {snr : SnNetRouter} {sne : SnNetEntry} (h : snr.self.addr ≠ sne.addr) :
    snNetRouterSet snr sne = (cAssert (snr.self.addr ≠ (snr.slotOf h).addr) >>= fun _ =>
      .ok { snr with table := tableWrite snr.table (tableIndex h).1 (tableIndex h).2 sne }) := by
  have hin : snr.self.addr.level sne.addr < snNetRouterLevels ∧
      (snr.self.addr.column sne.addr).toNat < snNetRouterColumns :=
    ⟨(tableIndex h).1.isLt, (tableIndex h).2.isLt⟩
  simp only [snNetRouterSet, snNetAddrIndex_eq, ok_bind, dif_pos hin, pure_eq_ok, Ne,
    snNetAddrCmp_eq_zero_iff]
  rfl

/-! ### Steps -/

namespace RouterOp

/-- The local entry `e` that an operation builds. -/
def entry : RouterOp → SnNetEntry
  | add addr netAddr => ⟨1, addr, netAddr.getD .zero⟩
  | remove addr junk => ⟨0, addr, junk⟩

@[simp] theorem entry_addr (op : RouterOp) : op.entry.addr = op.addr := by cases op <;> rfl

/-- What an operation does to the leafset on the side of its address. -/
def onLeafset (q : Sorter SnNetEntry) (op : RouterOp) (leafset : Leafset) (right : Bool) :
    Leafset :=
  match op with
  | add _ _ => leafsetInsert q leafset op.entry right
  | remove _ _ => leafsetExtract q leafset op.entry right

end RouterOp

namespace SnNetRouter

variable (q : Sorter SnNetEntry) (snr : SnNetRouter) (op : RouterOp)

/-- The state after an operation with an address other than our own: its entry is in the slot of
the address and the leafset on the side of the address has changed. -/
def after (h : snr.self.addr ≠ op.addr) : SnNetRouter :=
  let snr' : SnNetRouter :=
    { snr with table := tableWrite snr.table (tableIndex h).1 (tableIndex h).2 op.entry }
  match op with
  | .add _ _ => leafsetAdd q snr' op.entry
  | .remove _ _ => leafsetRemove q snr' op.entry

variable {snr op} (h : snr.self.addr ≠ op.addr)

@[simp] theorem after_self : (snr.after q op h).self = snr.self := by
  cases op <;> simp [after]

@[simp] theorem after_table : (snr.after q op h).table =
    tableWrite snr.table (tableIndex h).1 (tableIndex h).2 op.entry := by
  cases op <;> simp [after]

theorem after_leafset (right : Bool) : (snr.after q op h).leafset right =
    if right = snr.sideOf op.addr then op.onLeafset q (snr.leafset right) right
    else snr.leafset right := by
  cases op <;> simp only [after, leafset_leafsetAdd, leafset_leafsetRemove] <;> rfl

theorem after_table_apply (l : Fin snNetRouterLevels) (c : Fin snNetRouterColumns) :
    (snr.after q op h).table l c = if (l, c) = tableIndex h then op.entry else snr.table l c := by
  simp only [after_table, tableWrite, Prod.ext_iff]

end SnNetRouter

section StepCases

variable {q : Sorter SnNetEntry} {snr snr' : SnNetRouter} {op : RouterOp}

theorem routerStep_eq_bind : routerStep q snr op = (snNetRouterSet snr op.entry >>= fun snr' =>
    .ok (match op with
      | .add _ _ => leafsetAdd q snr' op.entry
      | .remove _ _ => leafsetRemove q snr' op.entry)) := by
  cases op <;> rfl

/-- An operation with our own address leaves the table. -/
theorem routerStep_self (h : snr.self.addr = op.addr) :
    routerStep q snr op = .error .outOfBounds := by
  rw [routerStep_eq_bind, snNetRouterSet_self (by rw [h, op.entry_addr]), error_bind]

theorem routerStep_of_ne (h : snr.self.addr ≠ op.addr) :
    routerStep q snr op = (cAssert (snr.self.addr ≠ (snr.slotOf h).addr) >>= fun _ =>
      .ok (snr.after q op h)) := by
  have h' : snr.self.addr ≠ op.entry.addr := by rwa [op.entry_addr]
  have hidx : tableIndex h' = tableIndex h := by
    simp only [tableIndex, op.entry_addr]
  have hslotOf : snr.slotOf h' = snr.slotOf h := by simp only [SnNetRouter.slotOf, hidx]
  rw [routerStep_eq_bind, snNetRouterSet_of_ne h', hidx]
  by_cases hslot : snr.self.addr ≠ (snr.slotOf h).addr
  · rw [cAssert_of hslot, cAssert_of (hslotOf ▸ hslot)]
    cases op <;> rfl
  · rw [cAssert_of_not hslot, cAssert_of_not (hslotOf ▸ hslot)]
    rfl

/-- **What a step has done.** A membership operation that succeeds is about an address other than
our own and has not found our own address in the slot of that address. -/
theorem routerStep_eq_ok_iff : routerStep q snr op = .ok snr' ↔
    ∃ h : snr.self.addr ≠ op.addr,
      snr.self.addr ≠ (snr.slotOf h).addr ∧ snr' = snr.after q op h := by
  by_cases h : snr.self.addr = op.addr
  · rw [routerStep_self h]
    simp [h]
  · rw [routerStep_of_ne h]
    by_cases hslot : snr.self.addr ≠ (snr.slotOf h).addr
    · rw [cAssert_of hslot, ok_bind, Except.ok.injEq]
      exact ⟨fun heq => ⟨h, hslot, heq.symm⟩, fun ⟨_, _, heq⟩ => heq.symm⟩
    · rw [cAssert_of_not hslot, error_bind]
      simp [h, hslot]

end StepCases

/-! ### The invariant -/

/-- An address lies on a side of our own. -/
def Beyond (right : Bool) (self x : SnNetAddr) : Prop := if right then self < x else x < self

theorem beyond_sideOf {snr : SnNetRouter} {x : SnNetAddr} (h : snr.self.addr ≠ x) :
    Beyond (snr.sideOf x) snr.self.addr x := by
  cases hside : snr.sideOf x with
  | true => exact lt_of_le_of_ne (SnNetRouter.sideOf_eq_true.1 hside) h
  | false => exact SnNetRouter.sideOf_eq_false.1 hside

theorem sideOf_eq_of_beyond {snr : SnNetRouter} {right : Bool} {x : SnNetAddr}
    (h : Beyond right snr.self.addr x) : snr.sideOf x = right := by
  cases right with
  | true => exact SnNetRouter.sideOf_eq_true.2 (le_of_lt (show snr.self.addr < x from h))
  | false => exact SnNetRouter.sideOf_eq_false.2 h

/-- The invariant of a slot: untouched since initialisation, or written with an address that
belongs to it. -/
def SlotInv (self : SnNetAddr) (i : Fin snNetRouterLevels × Fin snNetRouterColumns)
    (e : SnNetEntry) : Prop :=
  e = .zero ∨ ∃ h : self ≠ e.addr, tableIndex h = i ∧ (e.IsSet → e.isSet = 1)

/-- The invariant of one side of the leafset. -/
structure LeafsetInv (selfAddr : SnNetAddr) (right : Bool) (leafset : Leafset) : Prop where
  packed : leafset.Packed
  sorted : leafset.entries.Pairwise fun a b => leafsetCmp right a b ≤ 0
  beyond : ∀ e ∈ leafset.entries, Beyond right selfAddr e.addr
  isSet_eq : ∀ e ∈ leafset.entries, e.isSet = 1

theorem leafsetCmp_nonpos_iff {right : Bool} {a b : SnNetEntry} :
    leafsetCmp right a b ≤ 0 ↔ if right then a.addr ≤ b.addr else b.addr ≤ a.addr := by
  cases right <;> simp [leafsetCmp, snNetEntryCmpNeg, snNetEntryCmp, snNetAddrCmp_nonpos_iff]

/-- The invariant of a router. -/
structure RouterInv (snr : SnNetRouter) : Prop where
  self_isSet_eq : snr.self.isSet = 1
  slot : ∀ l c, SlotInv snr.self.addr (l, c) (snr.table l c)
  leafset : ∀ right, LeafsetInv snr.self.addr right (snr.leafset right)

namespace LeafsetInv

variable {q : Sorter SnNetEntry} {selfAddr : SnNetAddr} {right : Bool} {leafset : Leafset}
  {sne : SnNetEntry}

theorem of_entries_perm (hpacked : leafset.Packed)
    {xs : List SnNetEntry} (hent : leafset.entries = q.sort (leafsetCmp right) xs)
    (hbeyond : ∀ e ∈ xs, Beyond right selfAddr e.addr) (hset : ∀ e ∈ xs, e.isSet = 1) :
    LeafsetInv selfAddr right leafset where
  packed := hpacked
  sorted := hent ▸ q.pairwise (isComparator_leafsetCmp right) xs
  beyond e he := hbeyond e ((q.mem_sort (isComparator_leafsetCmp right)).1 (hent ▸ he))
  isSet_eq e he := hset e ((q.mem_sort (isComparator_leafsetCmp right)).1 (hent ▸ he))

/-- Insertion of an entry of the right side keeps the invariant. -/
theorem insert (h : LeafsetInv selfAddr right leafset) (hbeyond : Beyond right selfAddr sne.addr)
    (hset : sne.isSet = 1) : LeafsetInv selfAddr right (leafsetInsert q leafset sne right) := by
  have hsne : sne.IsSet := by simp [hset]
  by_cases hroom : leafset.entries.length < snNetRouterLeafsetSize
  · obtain ⟨hent, hpacked⟩ := Leafset.entries_insert_of_room q right h.packed hroom hsne
    refine of_entries_perm hpacked hent ?_ ?_
    · simpa [or_imp, forall_and] using ⟨h.beyond, hbeyond⟩
    · simpa [or_imp, forall_and] using ⟨h.isSet_eq, hset⟩
  · have hfull : leafset.entries.length = snNetRouterLeafsetSize :=
      le_antisymm leafset.length_entries_le (not_lt.1 hroom)
    obtain ⟨init, last, hent, -⟩ := h.packed.exists_last hfull
    have hins := Leafset.insert_of_full q right h.packed hfull hent hsne
    split_ifs at hins with hrej
    · rwa [hins]
    · have hb := h.beyond
      have hs := h.isSet_eq
      rw [hent] at hb hs
      simp only [List.mem_append, List.mem_singleton, or_imp, forall_and, forall_eq] at hb hs
      refine of_entries_perm hins.2 hins.1 ?_ ?_
      · simpa [or_imp, forall_and] using ⟨hb.1, hbeyond⟩
      · simpa [or_imp, forall_and] using ⟨hs.1, hset⟩

/-- Extraction keeps the invariant. -/
theorem extract (h : LeafsetInv selfAddr right leafset) :
    LeafsetInv selfAddr right (leafsetExtract q leafset sne right) := by
  rcases Leafset.extract_cases q h.packed sne right with
    ⟨heq, -⟩ | ⟨zs, hperm, hent, hpacked⟩
  · rwa [heq]
  · have hsub : ∀ e ∈ zs, e ∈ leafset.entries := fun e he =>
      List.eraseP_subset (hperm.mem_iff.1 he)
    exact of_entries_perm hpacked hent (fun e he => h.beyond e (hsub e he)) fun e he =>
      h.isSet_eq e (hsub e he)

/-- An empty leafset satisfies the invariant. -/
theorem zero : LeafsetInv selfAddr right (.replicate _ .zero) := by
  have hsplit : (CArray.replicate snNetRouterLeafsetSize SnNetEntry.zero).val =
      [] ++ List.replicate snNetRouterLeafsetSize .zero := rfl
  obtain ⟨hent, hpacked⟩ := Leafset.packed_of_split hsplit (by simp) (by simp)
  exact ⟨hpacked, by simp [hent], by simp [hent], by simp [hent]⟩

end LeafsetInv

namespace RouterInv

variable {q : Sorter SnNetEntry} {snr snr' : SnNetRouter} {op : RouterOp}

theorem init (selfAddr : SnNetAddr) (selfNetAddr : Option SnIoNaddr) :
    RouterInv (snNetRouterInit selfAddr selfNetAddr) where
  self_isSet_eq := rfl
  slot _ _ := Or.inl rfl
  leafset right := by cases right <;> exact LeafsetInv.zero

/-- An operation with another address keeps the invariant. -/
theorem after (hinv : RouterInv snr) (h : snr.self.addr ≠ op.addr) :
    RouterInv (snr.after q op h) where
  self_isSet_eq := by rw [SnNetRouter.after_self, hinv.self_isSet_eq]
  slot l c := by
    rw [SnNetRouter.after_self, SnNetRouter.after_table_apply]
    split_ifs with hidx
    · refine Or.inr ⟨by rwa [op.entry_addr], ?_, ?_⟩
      · simp only [hidx, tableIndex, op.entry_addr]
      · cases op <;> simp [RouterOp.entry]
    · exact hinv.slot l c
  leafset right := by
    rw [SnNetRouter.after_self, SnNetRouter.after_leafset]
    split_ifs with hside
    · subst hside
      have hbeyond := beyond_sideOf h
      cases op with
      | add addr netAddr => exact (hinv.leafset _).insert hbeyond rfl
      | remove addr junk => exact (hinv.leafset _).extract
    · exact hinv.leafset right

theorem step (hinv : RouterInv snr) (h : routerStep q snr op = .ok snr') : RouterInv snr' := by
  obtain ⟨hne, -, rfl⟩ := routerStep_eq_ok_iff.1 h
  exact hinv.after hne

theorem run {ops : List RouterOp} (hinv : RouterInv snr)
    (h : FallibleRun.run (routerStep q) snr ops = .ok snr') : RouterInv snr' :=
  run_invariant RouterInv (fun _ _ _ _ hs => hs.step) hinv h

/-- **Reachable routers satisfy the invariant.** -/
theorem of_reachable (h : Reachable q snr) : RouterInv snr := by
  obtain ⟨selfAddr, selfNetAddr, ops, hrun⟩ := h
  exact (init selfAddr selfNetAddr).run hrun

end RouterInv

namespace Reachable

variable {q : Sorter SnNetEntry} {snr snr' : SnNetRouter} {op : RouterOp}

theorem init (q : Sorter SnNetEntry) (selfAddr : SnNetAddr) (selfNetAddr : Option SnIoNaddr) :
    Reachable q (snNetRouterInit selfAddr selfNetAddr) :=
  ⟨selfAddr, selfNetAddr, [], rfl⟩

theorem step (h : Reachable q snr) (hstep : routerStep q snr op = .ok snr') :
    Reachable q snr' := by
  obtain ⟨selfAddr, selfNetAddr, ops, hrun⟩ := h
  exact ⟨selfAddr, selfNetAddr, ops ++ [op], run_concat_eq_ok.2 ⟨snr, hrun, hstep⟩⟩

theorem run {ops : List RouterOp} (h : Reachable q snr)
    (hrun : FallibleRun.run (routerStep q) snr ops = .ok snr') : Reachable q snr' :=
  run_invariant (Reachable q) (fun _ _ _ _ hs => hs.step) h hrun

end Reachable

/-- The router on 4f5e22 of the tests (`test/net/router-tests.cpp`) after some operations, sorted by
insertion. -/
def routerOn4f5e22 (ops : List RouterOp) : Exec SnNetRouter :=
  run (routerStep (.insertion SnNetEntry)) (snNetRouterInit (.ofBytes [0x4f, 0x5e, 0x22]) none) ops

theorem reachable_routerOn4f5e22 {ops : List RouterOp} {snr : SnNetRouter}
    (h : routerOn4f5e22 ops = .ok snr) : Reachable (.insertion SnNetEntry) snr :=
  ⟨_, _, ops, h⟩

/-- No membership operation changes our own entry. -/
theorem self_of_run {q : Sorter SnNetEntry} {snr snr' : SnNetRouter} {ops : List RouterOp}
    (h : run (routerStep q) snr ops = .ok snr') : snr'.self = snr.self := by
  refine run_invariant (fun s => s.self = snr.self) (fun s op s' _ hs hstep => ?_) rfl h
  obtain ⟨hne, -, rfl⟩ := routerStep_eq_ok_iff.1 hstep
  rw [SnNetRouter.after_self, hs]

end SndNet
