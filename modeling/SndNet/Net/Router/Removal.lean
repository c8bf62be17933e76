import SndNet.Net.Router.Nexthop
import SndNet.Net.Router.Safety

/-!
# Removal

`sn_net_router_remove` (`src/net/router.c`, lines 48–59) stores an unset entry in the slot of the
address, whoever occupies it, and takes one entry with the address out of the leafset
(`leafset_extract`, lines 444–463). So a removal is complete when the leafset holds the address at
most once, and touches nothing else when the slot of the address is its own or free.

## Main definitions

* `SndNet.Gone`: an address that stays unknown until it is added again.
* `SndNet.KeepsOthers`: a state that keeps every set entry with another address.

## Main results

* `SndNet.removal_complete_iff`: when a removal is complete.
* `SndNet.removal_keepsOthers_iff`: when a removal touches nothing else.
-/

namespace SndNet

open FallibleRun

variable {q : Sorter SnNetEntry} {snr snr' : SnNetRouter} {op : RouterOp} {x : SnNetAddr}
  {junk : SnIoNaddr}

/-! ### What an operation can bring -/

/-- After an operation every set entry was there before or is the one that the operation stores. -/
theorem SnNetRouter.SetEntry.of_after (hinv : RouterInv snr) {h : snr.self.addr ≠ op.addr}
    {e : SnNetEntry} (he : (snr.after q op h).SetEntry e) :
    snr.SetEntry e ∨ e = op.entry ∧ op.entry.IsSet := by
  rcases SnNetRouter.setEntry_iff.1 he with ⟨hset, l, c, htable⟩ | ⟨right, hleaf⟩
  · rw [SnNetRouter.after_table_apply] at htable
    split_ifs at htable with hidx
    · subst htable
      exact Or.inr ⟨rfl, hset⟩
    · exact Or.inl ⟨hset, Or.inl ⟨l, c, htable⟩⟩
  · rw [SnNetRouter.after_leafset] at hleaf
    have hpacked := (hinv.leafset right).packed
    split_ifs at hleaf with hside
    · cases op with
      | add addr netAddr =>
        have hset : (RouterOp.add addr netAddr).entry.IsSet := by simp [RouterOp.entry]
        rcases Leafset.mem_entries_insert q hpacked hset hleaf with hmem | rfl
        · exact Or.inl (SnNetRouter.setEntry_of_mem_entries hmem)
        · exact Or.inr ⟨rfl, hset⟩
      | remove addr junk =>
        exact Or.inl (SnNetRouter.setEntry_of_mem_entries
          (Leafset.mem_entries_extract q hpacked hleaf))
    · exact Or.inl (SnNetRouter.setEntry_of_mem_entries hleaf)

/-- An operation other than an addition of `x` does not make `x` known. -/
theorem not_holds_after (hinv : RouterInv snr) {h : snr.self.addr ≠ op.addr}
    (hop : ∀ netAddr, op ≠ .add x netAddr) (hx : ¬ snr.Holds x) :
    ¬ (snr.after q op h).Holds x := by
  rintro ⟨e, he, rfl⟩
  rcases he.of_after hinv with hold | ⟨rfl, hset⟩
  · exact hx ⟨e, hold, rfl⟩
  · cases op with
    | add addr netAddr => exact hop netAddr rfl
    | remove addr junk => exact absurd hset (by simp [RouterOp.entry])

/-- A next hop with an address other than our own is an entry that the router holds. -/
theorem holds_of_nexthop (hinv : RouterInv snr) {onRange : Bool} {dst : SnNetAddr} {e : SnNetEntry}
    (he : snNetRouterNexthopFrom onRange snr dst = .ok e) (hne : e.addr ≠ snr.self.addr) :
    snr.Holds e.addr := by
  rw [snNetRouterNexthopFrom_eq hinv.self_isSet, Except.ok.injEq] at he
  subst he
  rcases nexthopOf_cases hinv onRange dst with hself | hprog
  · rw [hself] at hne
    exact absurd rfl hne
  · exact ⟨_, hprog.setEntry, rfl⟩

/-! ### Completeness -/

/-- The address `x` is gone: until it is added again, no set entry carries it and it is the next
hop for no destination, whichever way the range test answers. -/
def Gone (q : Sorter SnNetEntry) (snr : SnNetRouter) (x : SnNetAddr) : Prop :=
  ∀ later snr', (∀ op ∈ later, ∀ netAddr, op ≠ RouterOp.add x netAddr) →
    run (routerStep q) snr later = .ok snr' → ¬ snr'.Holds x ∧
      ∀ onRange dst e, snNetRouterNexthopFrom onRange snr' dst = .ok e → e.addr ≠ x

/-- An unknown address is gone. -/
theorem gone_iff_not_holds (hinv : RouterInv snr) (hx : x ≠ snr.self.addr) :
    Gone q snr x ↔ ¬ snr.Holds x := by
  constructor
  · intro hgone
    exact (hgone [] snr (by simp) rfl).1
  · intro hnot later snr' hlater hrun
    have hall : RouterInv snr' ∧ snr'.self = snr.self ∧ ¬ snr'.Holds x := by
      refine run_invariant (fun s => RouterInv s ∧ s.self = snr.self ∧ ¬ s.Holds x)
        (fun s op s' hop hs hstep => ?_) ⟨hinv, rfl, hnot⟩ hrun
      obtain ⟨hs, hself, hnot⟩ := hs
      obtain ⟨hne, -, rfl⟩ := routerStep_eq_ok_iff.1 hstep
      exact ⟨hs.after hne, by rw [SnNetRouter.after_self, hself],
        not_holds_after hs (hlater op hop) hnot⟩
    obtain ⟨hinv', hself, hnot'⟩ := hall
    refine ⟨hnot', fun onRange dst e he hex => hnot' ?_⟩
    subst hex
    exact holds_of_nexthop hinv' he (by rwa [hself])

/-- A removal lowers the number of leafset entries with the address by one, if there are any. -/
theorem countP_entries_after_remove (hinv : RouterInv snr)
    (h : snr.self.addr ≠ (RouterOp.remove x junk).addr) (right : Bool) :
    ((snr.after q (.remove x junk) h).leafset right).entries.countP (fun e => e.addr = x) =
      (snr.leafset right).entries.countP (fun e => e.addr = x) - 1 := by
  rw [SnNetRouter.after_leafset]
  split_ifs with hside
  · exact Leafset.countP_entries_extract q (hinv.leafset right).packed ⟨0, x, junk⟩ right
  · -- The other side does not hold the address at all.
    have hzero : (snr.leafset right).entries.countP (fun e => e.addr = x) = 0 := by
      refine List.countP_eq_zero.2 fun e he => ?_
      rw [decide_eq_true_eq]
      rintro rfl
      exact hside (sideOf_eq_of_beyond ((hinv.leafset right).beyond e he)).symm
    rw [hzero]

/-- After a removal only the leafset can hold the address. -/
theorem holds_after_remove_iff (hinv : RouterInv snr)
    (h : snr.self.addr ≠ (RouterOp.remove x junk).addr) :
    (snr.after q (.remove x junk) h).Holds x ↔
      ∃ right, 1 < (snr.leafset right).entries.countP fun e => e.addr = x := by
  have hcount : ∀ right, (∃ e ∈ ((snr.after q (.remove x junk) h).leafset right).entries,
      e.addr = x) ↔ 1 < (snr.leafset right).entries.countP fun e => e.addr = x := by
    intro right
    rw [← Nat.sub_pos_iff_lt, ← countP_entries_after_remove (q := q) hinv h, List.countP_pos_iff]
    simp only [decide_eq_true_eq]
  simp only [← hcount]
  constructor
  · rintro ⟨e, he, haddr⟩
    rcases SnNetRouter.setEntry_iff.1 he with ⟨hset, l, c, htable⟩ | ⟨right, hmem⟩
    · -- Only the slot of the address could hold it, and that slot is unset.
      subst htable
      obtain ⟨hne, hidx⟩ := (hinv.after (q := q) h).tableIndex_eq hset
      have hslot : (l, c) = tableIndex h := by
        rw [← hidx]
        simp only [tableIndex, SnNetRouter.after_self, haddr, RouterOp.addr]
      rw [SnNetRouter.after_table_apply, if_pos hslot] at hset
      exact absurd rfl hset
    · exact ⟨right, e, hmem, haddr⟩
  · rintro ⟨right, e, hmem, haddr⟩
    exact ⟨e, SnNetRouter.setEntry_of_mem_entries hmem, haddr⟩

/-- **When a removal is complete.** In a reachable state the removal of another address returns and
leaves no trace of it exactly when our own address is not the address of zero bytes, which lets no
operation return, and neither side of the leafset holds the address twice. -/
theorem removal_complete_iff (h : Reachable q snr) (hx : x ≠ snr.self.addr) (junk : SnIoNaddr) :
    (∃ snr', snNetRouterRemove q snr x junk = .ok snr' ∧ Gone q snr' x) ↔
      snr.self.addr ≠ .zero ∧
        ∀ right, ((snr.leafset right).entries.countP fun e => e.addr = x) ≤ 1 := by
  have hinv := RouterInv.of_reachable h
  have hne : snr.self.addr ≠ (RouterOp.remove x junk).addr := hx.symm
  have hgone : Gone q (snr.after q (.remove x junk) hne) x ↔
      ∀ right, ((snr.leafset right).entries.countP fun e => e.addr = x) ≤ 1 := by
    rw [gone_iff_not_holds (hinv.after hne) (by rwa [SnNetRouter.after_self]),
      holds_after_remove_iff hinv hne]
    push Not
    rfl
  change (∃ snr', routerStep q snr (.remove x junk) = .ok snr' ∧ _) ↔ _
  constructor
  · rintro ⟨snr', hstep, hgone'⟩
    refine ⟨(h.exists_routerStep_iff.1 ⟨snr', hstep⟩).1, ?_⟩
    obtain ⟨_, -, rfl⟩ := routerStep_eq_ok_iff.1 hstep
    exact hgone.1 hgone'
  · rintro ⟨hzero, hcount⟩
    obtain ⟨snr', hstep⟩ := h.exists_routerStep_iff.2 ⟨hzero, hne⟩
    refine ⟨snr', hstep, ?_⟩
    obtain ⟨_, -, rfl⟩ := routerStep_eq_ok_iff.1 hstep
    exact hgone.2 hcount

/-- The router on 4f5e22 forgets 888888, added once. -/
theorem removal_complete_of_add : ∃ snr snr',
    routerOn4f5e22 [.add (.ofBytes [0x88, 0x88, 0x88]) none] = .ok snr ∧
    snNetRouterRemove (.insertion SnNetEntry) snr (.ofBytes [0x88, 0x88, 0x88]) .zero = .ok snr' ∧
    Gone (.insertion SnNetEntry) snr' (.ofBytes [0x88, 0x88, 0x88]) := by
  have hobs : (routerOn4f5e22 [.add (.ofBytes [0x88, 0x88, 0x88]) none]).toOption.map (fun snr =>
      (snr.self.addr, snr.leftLeafset.entries.map (·.addr),
        snr.rightLeafset.entries.map (·.addr))) =
      some (.ofBytes [0x4f, 0x5e, 0x22], [], [.ofBytes [0x88, 0x88, 0x88]]) := by
    decide +kernel
  obtain ⟨snr, hrun, hsnr⟩ := exists_ok_of_toOption_map hobs
  simp only [Prod.mk.injEq] at hsnr
  obtain ⟨hself, hleft, hright⟩ := hsnr
  have hx : SnNetAddr.ofBytes [0x88, 0x88, 0x88] ≠ snr.self.addr := by
    rw [hself]
    decide
  have hcount : ∀ right, ((snr.leafset right).entries.countP fun e =>
      e.addr = .ofBytes [0x88, 0x88, 0x88]) ≤ 1 := by
    intro right
    refine List.countP_le_length.trans ?_
    rw [← List.length_map (f := (·.addr))]
    cases right <;> simp [hleft, hright]
  obtain ⟨snr', hremove, hgone⟩ := (removal_complete_iff (reachable_routerOn4f5e22 hrun) hx
    .zero).2 ⟨by rw [hself]; decide, hcount⟩
  exact ⟨snr, snr', hrun, hremove, hgone⟩

/-- A removal is not always complete: the router on 4f5e22 that has added 888888 twice still sends
what is meant for 788888 to 888888 after it has removed it. -/
theorem removal_incomplete_of_add_add : ∃ snr snr',
    routerOn4f5e22 [.add (.ofBytes [0x88, 0x88, 0x88]) none,
      .add (.ofBytes [0x88, 0x88, 0x88]) none] = .ok snr ∧
    snNetRouterRemove (.insertion SnNetEntry) snr (.ofBytes [0x88, 0x88, 0x88]) .zero = .ok snr' ∧
    snr'.Holds (.ofBytes [0x88, 0x88, 0x88]) ∧
    ∃ e, snNetRouterNexthop snr' (.ofBytes [0x78, 0x88, 0x88]) = .ok e ∧
      e.isSet = 1 ∧ e.addr = .ofBytes [0x88, 0x88, 0x88] := by
  have hobs : (routerOn4f5e22 [.add (.ofBytes [0x88, 0x88, 0x88]) none,
      .add (.ofBytes [0x88, 0x88, 0x88]) none]).toOption.map (fun snr =>
        (snNetRouterRemove (.insertion SnNetEntry) snr (.ofBytes [0x88, 0x88, 0x88])
          .zero).toOption.map fun snr' => ((onRangeEntries snr').map (·.addr),
            (snNetRouterNexthop snr' (.ofBytes [0x78, 0x88, 0x88])).toOption.map fun e =>
              (e.isSet, e.addr))) =
      some (some ([.ofBytes [0x88, 0x88, 0x88]], some (1, .ofBytes [0x88, 0x88, 0x88]))) := by
    decide +kernel
  obtain ⟨snr, hrun, hremove⟩ := exists_ok_of_toOption_map hobs
  obtain ⟨snr', hsnr', hafter⟩ := exists_ok_of_toOption_map hremove
  simp only [Prod.mk.injEq] at hafter
  obtain ⟨hentries, hnexthop⟩ := hafter
  obtain ⟨e, he, hans⟩ := exists_ok_of_toOption_map hnexthop
  have hmem : SnNetAddr.ofBytes [0x88, 0x88, 0x88] ∈ (onRangeEntries snr').map (·.addr) := by
    simp [hentries]
  obtain ⟨e', he', haddr'⟩ := List.mem_map.1 hmem
  exact ⟨snr, snr', hrun, hsnr', ⟨e', setEntry_of_mem_onRangeEntries he', haddr'⟩, e, he,
    Prod.mk.inj hans⟩

/-! ### Other entries -/

/-- The state `snr'` keeps every set entry of `snr` with an address other than `x`, in its slot and
in its leafset. -/
structure KeepsOthers (snr snr' : SnNetRouter) (x : SnNetAddr) : Prop where
  table : ∀ l c, (snr.table l c).IsSet → (snr.table l c).addr ≠ x →
    snr'.table l c = snr.table l c
  leafset : ∀ right, ((snr'.leafset right).entries.filter fun e => e.addr ≠ x).Perm
    ((snr.leafset right).entries.filter fun e => e.addr ≠ x)

/-- **When a removal touches nothing else.** In a reachable state the removal of another address
returns and keeps every set entry with a different address exactly when our own address is not the
address of zero bytes and the slot of the address is unset or its own. -/
theorem removal_keepsOthers_iff (h : Reachable q snr) (hx : snr.self.addr ≠ x)
    (junk : SnIoNaddr) :
    (∃ snr', snNetRouterRemove q snr x junk = .ok snr' ∧ KeepsOthers snr snr' x) ↔
      snr.self.addr ≠ .zero ∧ ((snr.slotOf hx).IsSet → (snr.slotOf hx).addr = x) := by
  have hinv := RouterInv.of_reachable h
  have hne : snr.self.addr ≠ (RouterOp.remove x junk).addr := hx
  change (∃ snr', routerStep q snr (.remove x junk) = .ok snr' ∧ _) ↔ _
  constructor
  · rintro ⟨snr', hstep, hkeeps⟩
    refine ⟨(h.exists_routerStep_iff.1 ⟨snr', hstep⟩).1, fun hset => ?_⟩
    obtain ⟨_, -, rfl⟩ := routerStep_eq_ok_iff.1 hstep
    by_contra hother
    have hkept := hkeeps.table _ _ hset hother
    have hslot : ((tableIndex hx).1, (tableIndex hx).2) = tableIndex hne := rfl
    rw [SnNetRouter.after_table_apply, if_pos hslot] at hkept
    exact hset (by rw [SnNetRouter.slotOf, ← hkept]; rfl)
  · rintro ⟨hzero, hslot⟩
    obtain ⟨snr', hstep⟩ := h.exists_routerStep_iff.2 ⟨hzero, hne⟩
    refine ⟨snr', hstep, ?_⟩
    obtain ⟨_, -, rfl⟩ := routerStep_eq_ok_iff.1 hstep
    refine ⟨fun l c hset hother => ?_, fun right => ?_⟩
    · rw [SnNetRouter.after_table_apply, if_neg]
      intro hidx
      obtain ⟨rfl, rfl⟩ := Prod.mk.inj hidx
      exact hother (hslot hset)
    · rw [SnNetRouter.after_leafset]
      split_ifs with hside
      · exact Leafset.filter_entries_extract q (hinv.leafset right).packed ⟨0, x, junk⟩ right
      · exact List.Perm.refl _

/-- The router on 4f5e22 that knows two nodes on its left and three on its right keeps the other
four when it removes 888888. -/
theorem removal_keepsOthers_of_add : ∃ snr snr',
    routerOn4f5e22 [.add (.ofBytes [0x33, 0x33, 0x33]) none,
      .add (.ofBytes [0x4f, 0x5e, 0x21]) none, .add (.ofBytes [0x88, 0x88, 0x88]) none,
      .add (.ofBytes [0x4f, 0x5e, 0x23]) none, .add (.ofBytes [0x77, 0x77]) none] = .ok snr ∧
    (snr.leafset false).entries.map SnNetEntry.addr =
      [.ofBytes [0x4f, 0x5e, 0x21], .ofBytes [0x33, 0x33, 0x33]] ∧
    (snr.leafset true).entries.map SnNetEntry.addr =
      [.ofBytes [0x4f, 0x5e, 0x23], .ofBytes [0x77, 0x77], .ofBytes [0x88, 0x88, 0x88]] ∧
    snNetRouterRemove (.insertion SnNetEntry) snr (.ofBytes [0x88, 0x88, 0x88]) .zero = .ok snr' ∧
    KeepsOthers snr snr' (.ofBytes [0x88, 0x88, 0x88]) := by
  have hobs : (routerOn4f5e22 [.add (.ofBytes [0x33, 0x33, 0x33]) none,
      .add (.ofBytes [0x4f, 0x5e, 0x21]) none, .add (.ofBytes [0x88, 0x88, 0x88]) none,
      .add (.ofBytes [0x4f, 0x5e, 0x23]) none, .add (.ofBytes [0x77, 0x77]) none]).toOption.map
      (fun snr => (snr.self.addr, (if h : snr.self.addr = .ofBytes [0x88, 0x88, 0x88] then .zero
        else (snr.slotOf h).addr), (snr.leafset false).entries.map SnNetEntry.addr,
        (snr.leafset true).entries.map SnNetEntry.addr)) =
      some (.ofBytes [0x4f, 0x5e, 0x22], .ofBytes [0x88, 0x88, 0x88],
        [.ofBytes [0x4f, 0x5e, 0x21], .ofBytes [0x33, 0x33, 0x33]],
        [.ofBytes [0x4f, 0x5e, 0x23], .ofBytes [0x77, 0x77], .ofBytes [0x88, 0x88, 0x88]]) := by
    decide +kernel
  obtain ⟨snr, hrun, hsnr⟩ := exists_ok_of_toOption_map hobs
  simp only [Prod.mk.injEq] at hsnr
  obtain ⟨hself, hslot, hleft, hright⟩ := hsnr
  have hx : snr.self.addr ≠ .ofBytes [0x88, 0x88, 0x88] := by
    rw [hself]
    decide
  rw [dif_neg hx] at hslot
  obtain ⟨snr', hremove, hkeeps⟩ := (removal_keepsOthers_iff (reachable_routerOn4f5e22 hrun) hx
    .zero).2 ⟨by rw [hself]; decide, fun _ => hslot⟩
  exact ⟨snr, snr', hrun, hleft, hright, hremove, hkeeps⟩

/-- A removal can touch something else: the router on 4f5e22 that knows 888888 unsets its slot when
it removes 898888, which it does not know. -/
theorem removal_unsets_shared_slot : ∃ snr snr',
    routerOn4f5e22 [.add (.ofBytes [0x88, 0x88, 0x88]) none] = .ok snr ∧
    snNetRouterRemove (.insertion SnNetEntry) snr (.ofBytes [0x89, 0x88, 0x88]) .zero = .ok snr' ∧
    ¬ KeepsOthers snr snr' (.ofBytes [0x89, 0x88, 0x88]) := by
  have hobs : (routerOn4f5e22 [.add (.ofBytes [0x88, 0x88, 0x88]) none]).toOption.map (fun snr =>
      ((snr.table 0 8).isSet, (snr.table 0 8).addr,
        (snNetRouterRemove (.insertion SnNetEntry) snr (.ofBytes [0x89, 0x88, 0x88])
          .zero).toOption.map fun snr' => (snr'.table 0 8).isSet)) =
      some (1, .ofBytes [0x88, 0x88, 0x88], some 0) := by
    decide +kernel
  obtain ⟨snr, hrun, hsnr⟩ := exists_ok_of_toOption_map hobs
  simp only [Prod.mk.injEq] at hsnr
  obtain ⟨hset, haddr, hremove⟩ := hsnr
  obtain ⟨snr', hsnr', hunset⟩ := exists_ok_of_toOption_map hremove
  refine ⟨snr, snr', hrun, hsnr', fun hkeeps => ?_⟩
  have hkept := hkeeps.table 0 8 (by simp [hset]) (by rw [haddr]; decide)
  rw [hkept, hset] at hunset
  exact absurd hunset (by decide)

end SndNet
