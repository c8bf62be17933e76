import SndNet.Library.BoundedSorted
import SndNet.Net.Router.Safety

/-!
# The leafsets as bounded sorted lists

What the two leafsets are for is simple to say: each side holds the eight addresses nearest to our
own among those it has been told of. This file states it as an abstract machine, whose state is a
bounded sorted list of addresses for each side, and proves that the leafsets of `src/net/router.c`
(lines 402–470) refine it: the addresses of the set entries are the abstract lists, and every
membership operation acts on them as the abstract one does, whatever `qsort` does with entries of
equal address.

## Main definitions

* `SndNet.Outward`: the order of the addresses on a side, away from our own.
* `SndNet.Sides`, `SndNet.Sides.step`: the abstract machine.
* `SndNet.RouterInv.sides`: the abstract state of a router.

## Main results

* `SndNet.RouterInv.sides_after`, `SndNet.RouterInv.sides_run`: the refinement, of one operation and
  of a run.
* `SndNet.leafsets_refine`: the refinement in terms of the address lists.
-/

namespace SndNet

open FallibleRun

/-! ### The order of a side -/

/-- The order of the addresses on a side: ascending above our own, descending below it. -/
def Outward (right : Bool) (x y : SnNetAddr) : Prop := if right then x ≤ y else y ≤ x

section Outward

variable (right : Bool)

instance : DecidableRel (Outward right) := fun x y =>
  inferInstanceAs (Decidable (if right then x ≤ y else y ≤ x))

instance : Std.Total (Outward right) where
  total x y := by
    cases right
    · exact le_total y x
    · exact le_total x y

instance : IsTrans SnNetAddr (Outward right) where
  trans x y z hxy hyz := by
    cases right
    · exact le_trans hyz hxy
    · exact le_trans hxy hyz

instance : Std.Antisymm (Outward right) where
  antisymm x y hxy hyx := by
    cases right
    · exact le_antisymm hyx hxy
    · exact le_antisymm hxy hyx

instance (self x : SnNetAddr) : Decidable (Beyond right self x) :=
  inferInstanceAs (Decidable (if right then self < x else x < self))

theorem leafsetCmp_nonpos_iff_outward {a b : SnNetEntry} :
    leafsetCmp right a b ≤ 0 ↔ Outward right a.addr b.addr := leafsetCmp_nonpos_iff

end Outward

/-! ### The abstract machine -/

/-- The addresses that each side holds. -/
abbrev Sides := (right : Bool) → BoundedSorted (Outward right) snNetRouterLeafsetSize

/-- What an operation does to the side of its address. -/
def RouterOp.onSide {right : Bool} (op : RouterOp)
    (s : BoundedSorted (Outward right) snNetRouterLeafsetSize) :
    BoundedSorted (Outward right) snNetRouterLeafsetSize :=
  match op with
  | add x _ => s.insert x
  | remove x _ => s.erase x

namespace Sides

/-- Sides that hold nothing. -/
def empty : Sides := fun right => .empty (Outward right) snNetRouterLeafsetSize

@[simp] theorem toList_empty (right : Bool) : (empty right).toList = [] := rfl

/-- One membership operation of a node with the address `self`. -/
def step (self : SnNetAddr) (s : Sides) (op : RouterOp) : Sides :=
  fun right => if Beyond right self op.addr then op.onSide (s right) else s right

end Sides

/-! ### One side -/

section Side

variable {q : Sorter SnNetEntry} {selfAddr : SnNetAddr} {right : Bool} {leafset : Leafset}
  {sne : SnNetEntry} {xs : List SnNetEntry}

theorem pairwise_addr (h : xs.Pairwise fun a b => leafsetCmp right a b ≤ 0) :
    (xs.map (·.addr)).Pairwise (Outward right) := by
  rw [List.pairwise_map]
  exact h.imp fun {a b} hab => (leafsetCmp_nonpos_iff_outward right).1 hab

/-- The abstract value of a side. -/
def LeafsetInv.side (h : LeafsetInv selfAddr right leafset) :
    BoundedSorted (Outward right) snNetRouterLeafsetSize where
  toList := leafset.addrs
  sorted := pairwise_addr h.sorted
  length_le := by
    rw [Leafset.addrs, List.length_map]
    exact leafset.length_entries_le

/-- Sorting with one entry appended is an ordered insertion of its address. -/
theorem map_addr_sort_concat (h : (xs.map (·.addr)).Pairwise (Outward right)) :
    (q.sort (leafsetCmp right) (xs ++ [sne])).map (·.addr) =
      (xs.map (·.addr)).orderedInsert (Outward right) sne.addr := by
  have hcmp := isComparator_leafsetCmp right
  refine BoundedSorted.eq_orderedInsert_of_perm h (pairwise_addr (q.pairwise hcmp _)) ?_
  have hperm : (q.sort (leafsetCmp right) (xs ++ [sne])).Perm (sne :: xs) :=
    (q.perm hcmp _).trans (List.perm_append_singleton sne xs)
  exact hperm.map (·.addr)

theorem rejects_iff_outward {last : SnNetEntry} (h : Leafset.Rejects right sne last) :
    Outward right last.addr sne.addr := by
  rw [Leafset.rejects_iff] at h
  cases right
  · exact le_of_lt h
  · exact h

theorem outward_of_not_rejects {last : SnNetEntry} (h : ¬ Leafset.Rejects right sne last) :
    Outward right sne.addr last.addr := by
  rw [Leafset.rejects_iff] at h
  cases right
  · exact le_of_not_gt h
  · exact le_of_not_ge h

/-- **Insertion into a leafset** is insertion into a bounded sorted list. -/
theorem LeafsetInv.addrs_insert (h : LeafsetInv selfAddr right leafset) (hsne : sne.IsSet) :
    (leafsetInsert q leafset sne right).addrs = (h.side.insert sne.addr).toList := by
  have hlen : h.side.toList.length = leafset.entries.length := List.length_map _
  by_cases hroom : leafset.entries.length < snNetRouterLeafsetSize
  · rw [BoundedSorted.toList_insert_of_room (hlen ▸ hroom), Leafset.addrs,
      (Leafset.entries_insert_of_room q right h.packed hroom hsne).1]
    exact map_addr_sort_concat h.side.sorted
  · have hfull : leafset.entries.length = snNetRouterLeafsetSize :=
      le_antisymm leafset.length_entries_le (not_lt.1 hroom)
    obtain ⟨init, last, hent, -⟩ := h.packed.exists_last hfull
    have hside : h.side.toList = init.map (·.addr) ++ [last.addr] := by
      change leafset.entries.map (·.addr) = _
      rw [hent, List.map_append, List.map_singleton]
    have hins := Leafset.insert_of_full q right h.packed hfull hent hsne
    split_ifs at hins with hrej
    · rw [BoundedSorted.toList_insert_of_last_le hside (hlen.trans hfull)
        (rejects_iff_outward hrej), hins]
      rfl
    · have hsorted := h.side.sorted
      rw [hside, List.pairwise_append] at hsorted
      rw [BoundedSorted.toList_insert_of_le_last hside (hlen.trans hfull)
        (outward_of_not_rejects hrej), Leafset.addrs, hins.1]
      exact map_addr_sort_concat hsorted.1

/-- **Extraction from a leafset** is removal of one occurrence of the address. -/
theorem LeafsetInv.addrs_extract (h : LeafsetInv selfAddr right leafset) :
    (leafsetExtract q leafset sne right).addrs = (h.side.erase sne.addr).toList := by
  have hperm : (leafsetExtract q leafset sne right).addrs.Perm (leafset.addrs.erase sne.addr) := by
    have hmap : (leafset.entries.eraseP fun e => e.addr = sne.addr).map (·.addr) =
        leafset.addrs.erase sne.addr := by
      rw [Leafset.addrs, List.erase_eq_eraseP, List.eraseP_map]
      congr 2
      funext e
      rw [Function.comp_apply, Bool.eq_iff_iff, decide_eq_true_eq, beq_iff_eq, eq_comm]
    rw [← hmap]
    exact (Leafset.entries_extract_perm q h.packed).map (·.addr)
  have hext : LeafsetInv selfAddr right (leafsetExtract q leafset sne right) := h.extract
  exact hperm.eq_of_pairwise' hext.side.sorted (h.side.erase sne.addr).sorted

theorem LeafsetInv.addrs_onLeafset (h : LeafsetInv selfAddr right leafset) (op : RouterOp) :
    (op.onLeafset q leafset right).addrs = (op.onSide h.side).toList := by
  cases op with
  | add x netAddr => exact h.addrs_insert (by simp [RouterOp.entry])
  | remove x junk => exact h.addrs_extract

end Side

/-! ### The refinement -/

theorem beyond_iff_sideOf {snr : SnNetRouter} {x : SnNetAddr} (h : snr.self.addr ≠ x)
    (right : Bool) : Beyond right snr.self.addr x ↔ right = snr.sideOf x :=
  ⟨fun hx => (sideOf_eq_of_beyond hx).symm, fun hr => hr ▸ beyond_sideOf h⟩

namespace RouterInv

variable {q : Sorter SnNetEntry} {snr snr' : SnNetRouter} {op : RouterOp}

/-- The abstract state of a router. -/
def sides (hinv : RouterInv snr) : Sides := fun right => (hinv.leafset right).side

@[simp] theorem toList_sides (hinv : RouterInv snr) (right : Bool) :
    (hinv.sides right).toList = (snr.leafset right).addrs := rfl

theorem sides_init (selfAddr : SnNetAddr) (selfNetAddr : Option SnIoNaddr) :
    (RouterInv.init selfAddr selfNetAddr).sides = .empty := by
  funext right
  refine BoundedSorted.ext ?_
  cases right <;> rfl

/-- **Refinement of one operation.** -/
theorem sides_after (hinv : RouterInv snr) (h : snr.self.addr ≠ op.addr) :
    (hinv.after (q := q) h).sides = hinv.sides.step snr.self.addr op := by
  funext right
  refine BoundedSorted.ext ?_
  rw [toList_sides, SnNetRouter.after_leafset, Sides.step]
  simp only [beyond_iff_sideOf h]
  split_ifs
  · exact (hinv.leafset right).addrs_onLeafset op
  · rfl

/-- **Refinement of a run.** A run of membership operations acts on the abstract state as the
abstract operations do. -/
theorem sides_run {ops : List RouterOp} (hinv : RouterInv snr)
    (h : FallibleRun.run (routerStep q) snr ops = .ok snr') :
    (hinv.run h).sides = ops.foldl (Sides.step snr.self.addr) hinv.sides := by
  induction ops generalizing snr with
  | nil =>
    obtain rfl := Except.ok.inj h
    rfl
  | cons op ops ih =>
    obtain ⟨s, hs, hrest⟩ := bind_eq_ok.1 h
    obtain ⟨hne, -, rfl⟩ := routerStep_eq_ok_iff.1 hs
    have hrun := ih (hinv.after hne) hrest
    rw [sides_after hinv hne, SnNetRouter.after_self] at hrun
    exact hrun

end RouterInv

/-- **The leafsets refine bounded sorted multisets.** In a reachable state the set entries of each
leafset are its first ones, ordered away from our own address and on their side of it. An operation
acts on the address list of the side of its address: an addition keeps the first eight of the list
with the address inserted, a removal takes out one occurrence of the address. The other side stays
as it was. -/
theorem leafsets_refine {q : Sorter SnNetEntry} {snr : SnNetRouter} (h : Reachable q snr) :
    (∀ right, (snr.leafset right).Packed ∧ (snr.leafset right).addrs.Pairwise (Outward right) ∧
      ∀ x ∈ (snr.leafset right).addrs, Beyond right snr.self.addr x) ∧
    ∀ op snr', routerStep q snr op = .ok snr' → ∀ right,
      if Beyond right snr.self.addr op.addr then
        (snr'.leafset right).addrs = match op with
          | .add x _ =>
            ((snr.leafset right).addrs.orderedInsert (Outward right) x).take snNetRouterLeafsetSize
          | .remove x _ => (snr.leafset right).addrs.erase x
      else snr'.leafset right = snr.leafset right := by
  have hinv := RouterInv.of_reachable h
  refine ⟨fun right => ⟨(hinv.leafset right).packed, (hinv.leafset right).side.sorted, ?_⟩, ?_⟩
  · intro x hx
    obtain ⟨e, he, rfl⟩ := Leafset.mem_addrs.1 hx
    exact (hinv.leafset right).beyond e he
  · intro op snr' hstep right
    obtain ⟨hne, -, rfl⟩ := routerStep_eq_ok_iff.1 hstep
    rw [SnNetRouter.after_leafset]
    simp only [beyond_iff_sideOf hne]
    split_ifs
    · rw [(hinv.leafset right).addrs_onLeafset op]
      cases op <;> rfl
    · rfl

/-- The router on 4f5e22 that has added 888888 and 500000 holds 500000 after it has removed
888888. -/
theorem leafsets_refine_of_add_add : ∃ snr snr',
    routerOn4f5e22 [.add (.ofBytes [0x88, 0x88, 0x88]) none, .add (.ofBytes [0x50]) none] =
      .ok snr ∧
    routerStep (.insertion SnNetEntry) snr (.remove (.ofBytes [0x88, 0x88, 0x88]) .zero) =
      .ok snr' ∧
    snr'.rightLeafset.addrs = [.ofBytes [0x50]] := by
  have hobs : (routerOn4f5e22 [.add (.ofBytes [0x88, 0x88, 0x88]) none,
      .add (.ofBytes [0x50]) none]).toOption.map (fun snr =>
        (snr.self.addr, snr.rightLeafset.addrs)) =
      some (.ofBytes [0x4f, 0x5e, 0x22], [.ofBytes [0x50], .ofBytes [0x88, 0x88, 0x88]]) := by
    decide +kernel
  obtain ⟨snr, hrun, hsnr⟩ := exists_ok_of_toOption_map hobs
  obtain ⟨hself, hright⟩ := Prod.mk.inj hsnr
  have hreach := reachable_routerOn4f5e22 hrun
  obtain ⟨snr', hstep⟩ : ∃ snr', routerStep (.insertion SnNetEntry) snr
      (.remove (.ofBytes [0x88, 0x88, 0x88]) .zero) = .ok snr' :=
    hreach.exists_routerStep_iff.2 (by rw [hself]; decide)
  have hbeyond : Beyond true snr.self.addr
      (RouterOp.remove (.ofBytes [0x88, 0x88, 0x88]) .zero).addr := by
    rw [hself]
    decide
  have hside := (leafsets_refine hreach).2 _ _ hstep true
  rw [if_pos hbeyond, SnNetRouter.leafset_true, SnNetRouter.leafset_true,
    hright] at hside
  refine ⟨snr, snr', hrun, hstep, hside.trans ?_⟩
  decide

end SndNet
