import SndNet.Net.Router.Nexthop

/-!
# When a known node is reached directly

A router that holds an address should answer a search for it with that address. The search
(`src/net/router.c`, lines 61–116) returns the first candidate at the least distance, and
`sn_net_addr_dist` (`src/net/addr.c`, lines 76–103) is zero for some pairs of different addresses:
its borrow is lost at a byte 255, and the complement it negates with is off by one. Which candidates
are searched depends on the range test, which reads the entry after the last set one. This file says
exactly when the answer is the address.

## Main definitions

* `SndNet.searched`: the entries that a branch compares, in the order of the search.
* `SndNet.AtDistanceZero`: what the search cannot tell from an address.
* `SndNet.ReachedOnRange`, `SndNet.ReachedOffRange`: what the entries of a router must be like for a
  known address to be reached.

## Main results

* `SndNet.nexthop_known_iff`: a known address is reached exactly when nothing stands in front of it.
-/

namespace SndNet

open FallibleRun

variable {q : Sorter SnNetEntry} {snr : SnNetRouter} {onRange : Bool} {x : SnNetAddr}

/-- The entries that a branch compares, in the order of the search: on range the node and its
leafset, off range the slot of `dst` alone when it is set, and otherwise the node, the row of the
slot and the part of the leafset that shares enough digits. -/
def searched (onRange : Bool) (snr : SnNetRouter) (dst : SnNetAddr) : List SnNetEntry :=
  if onRange then snr.self :: onRangeEntries snr
  else if h : snr.self.addr = dst then [snr.self]
  else if (snr.slotOf h).IsSet then [snr.slotOf h]
  else snr.self :: offRangeEntries snr h

/-- An entry that the search cannot tell from `x`. -/
def AtDistanceZero (x : SnNetAddr) (e : SnNetEntry) : Prop := snNetAddrDist e.addr x = .zero

instance (x : SnNetAddr) (e : SnNetEntry) : Decidable (AtDistanceZero x e) :=
  inferInstanceAs (Decidable (_ = _))

theorem atDistanceZero_of_addr_eq {e : SnNetEntry} (h : e.addr = x) : AtDistanceZero x e := by
  rw [AtDistanceZero, h, snNetAddrDist_self]

/-- A search that starts with another node finds `x` exactly when the first candidate that it cannot
tell from `x` carries `x`. -/
theorem bestOf_addr_eq_iff {self : SnNetEntry} {xs : List SnNetEntry} (hx : x ≠ self.addr)
    (hxs : ∀ e ∈ xs, e.addr ≠ self.addr ∧ e.isSet = 1) :
    (bestOf self x xs).isSet = 1 ∧ (bestOf self x xs).addr = x ↔
      ∃ e ∈ (self :: xs).find? fun e => AtDistanceZero x e, e.addr = x := by
  have hfind : (∃ e ∈ self :: xs, AtDistanceZero x e) →
      (self :: xs).argmin (distTo x) = (self :: xs).find? fun e => AtDistanceZero x e :=
    Argmin.argmin_eq_find? fun e _ => SnNetAddr.zero_le _
  constructor
  · rintro ⟨hset, haddr⟩
    rcases bestOf_cases x fun e he => (hxs e he).1 with
      ⟨hself, -⟩ | ⟨hmem, -, hargmin⟩
    · rw [hself] at hset
      exact absurd hset (by simp)
    · refine ⟨bestOf self x xs, ?_, haddr⟩
      rw [Option.mem_def, ← hargmin, hfind ⟨_, List.mem_cons_of_mem self hmem,
        atDistanceZero_of_addr_eq haddr⟩]
  · rintro ⟨e, he, haddr⟩
    have hmem := List.mem_of_find?_eq_some he
    have hne : e ≠ self := by
      rintro rfl
      exact hx haddr.symm
    have hmem' := List.mem_of_ne_of_mem hne hmem
    have hdrop : dropSelf self e = e :=
      if_neg fun h => (hxs e hmem').1 (snNetAddrCmp_eq_zero_iff.1 h)
    rw [bestOf, hfind ⟨e, hmem, atDistanceZero_of_addr_eq haddr⟩, Option.mem_def.1 he,
      Option.getD_some, hdrop]
    exact ⟨(hxs e hmem').2, haddr⟩

/-- After either answer of the range test, the next hop carries `x` exactly when the first entry
searched that cannot be told from `x` does. -/
theorem nexthopOf_addr_eq_iff (hinv : RouterInv snr) (hx : x ≠ snr.self.addr) :
    (nexthopOf onRange snr x).isSet = 1 ∧ (nexthopOf onRange snr x).addr = x ↔
      ∃ e ∈ (searched onRange snr x).find? fun e => AtDistanceZero x e, e.addr = x := by
  cases onRange with
  | true =>
    exact bestOf_addr_eq_iff hx fun e he => hinv.setEntry (setEntry_of_mem_onRangeEntries he)
  | false =>
    have h : snr.self.addr ≠ x := hx.symm
    simp only [nexthopOf, searched, Bool.false_eq_true, if_false, dif_neg h]
    by_cases hslot : (snr.slotOf h).IsSet
    · have hone := (hinv.setEntry (e := snr.slotOf h) ⟨hslot, Or.inl ⟨_, _, rfl⟩⟩).2
      rw [if_pos hslot, if_pos hslot]
      constructor
      · rintro ⟨-, haddr⟩
        exact ⟨snr.slotOf h, by simp [atDistanceZero_of_addr_eq haddr], haddr⟩
      · rintro ⟨e, he, haddr⟩
        obtain rfl : e = snr.slotOf h := by simpa using List.mem_of_find?_eq_some he
        exact ⟨hone, haddr⟩
    · rw [if_neg hslot, if_neg hslot]
      exact bestOf_addr_eq_iff hx fun e he =>
        hinv.setEntry (level_le_of_mem_offRangeEntries hinv he).1

/-! ### The order of the search -/

/-- The node and the set entries of its leafsets. -/
def candidates (snr : SnNetRouter) : List SnNetEntry := snr.self :: onRangeEntries snr

/-- The place of an address in the order of the leafsets: the node itself, then the left side
downwards, then the right side upwards. -/
def SnNetAddr.searchPlace (self a : SnNetAddr) : ℕ :=
  if a ≤ self then self.val - a.val else a.val

theorem SnNetAddr.searchPlace_of_le {self a : SnNetAddr} (h : a ≤ self) :
    self.searchPlace a = self.val - a.val := if_pos h

theorem SnNetAddr.searchPlace_of_lt {self a : SnNetAddr} (h : self < a) :
    self.searchPlace a = a.val := if_neg (not_le.2 h)

theorem SnNetAddr.searchPlace_inj {self a b : SnNetAddr} :
    self.searchPlace a = self.searchPlace b ↔ a = b := by
  refine ⟨fun h => SnNetAddr.val_injective ?_, fun h => by rw [h]⟩
  rw [searchPlace, searchPlace] at h
  simp only [SnNetAddr.le_def] at h
  split_ifs at h <;> omega

theorem SnNetAddr.searchPlace_self (self : SnNetAddr) : self.searchPlace self = 0 := by
  rw [searchPlace_of_le le_rfl, Nat.sub_self]

/-- The leafsets are searched in the order of the places. -/
theorem pairwise_onRangeEntries (hinv : RouterInv snr) : (onRangeEntries snr).Pairwise fun a b =>
    snr.self.addr.searchPlace a.addr ≤ snr.self.addr.searchPlace b.addr := by
  have hleft : ∀ e ∈ snr.leftLeafset.entries, e.addr < snr.self.addr :=
    (hinv.leafset false).beyond
  have hright : ∀ e ∈ snr.rightLeafset.entries, snr.self.addr < e.addr :=
    (hinv.leafset true).beyond
  refine List.pairwise_append.2 ⟨?_, ?_, fun a ha b hb => ?_⟩
  · refine (hinv.leafset false).sorted.imp_of_mem fun {a b} ha hb h => ?_
    have hle : b.addr ≤ a.addr := by simpa using leafsetCmp_nonpos_iff.1 h
    rw [SnNetAddr.searchPlace_of_le (hleft a ha).le, SnNetAddr.searchPlace_of_le (hleft b hb).le]
    exact Nat.sub_le_sub_left hle _
  · refine (hinv.leafset true).sorted.imp_of_mem fun {a b} ha hb h => ?_
    rw [SnNetAddr.searchPlace_of_lt (hright a ha), SnNetAddr.searchPlace_of_lt (hright b hb)]
    exact show a.addr ≤ b.addr by simpa using leafsetCmp_nonpos_iff.1 h
  · rw [SnNetAddr.searchPlace_of_le (hleft a ha).le, SnNetAddr.searchPlace_of_lt (hright b hb)]
    exact (Nat.sub_le _ _).trans (le_of_lt (hright b hb))

theorem pairwise_candidates (hinv : RouterInv snr) : (candidates snr).Pairwise fun a b =>
    snr.self.addr.searchPlace a.addr ≤ snr.self.addr.searchPlace b.addr := by
  refine List.pairwise_cons.2 ⟨fun e _ => ?_, pairwise_onRangeEntries hinv⟩
  rw [SnNetAddr.searchPlace_self]
  exact Nat.zero_le _

theorem leafsetFrom_eq_filter (self dst : SnNetAddr) (leafset : Leafset) :
    leafsetFrom self dst leafset =
      leafset.entries.filter fun e => self.level dst ≤ self.level e.addr := by
  rw [leafsetFrom, Leafset.entries, List.filter_filter]
  refine List.filter_congr fun e _ => ?_
  rw [← Bool.decide_and, decide_eq_decide]
  simp [Eligible, and_comm]

/-! ### What stands in front of a known address -/

/-- On range `x` is reached when a leafset holds it and no address in front of it is taken for
it. -/
structure ReachedOnRange (snr : SnNetRouter) (x : SnNetAddr) : Prop where
  held : ∃ e ∈ onRangeEntries snr, e.addr = x
  clear : ∀ e ∈ candidates snr,
    snr.self.addr.searchPlace e.addr < snr.self.addr.searchPlace x → ¬ AtDistanceZero x e

/-- Off range a known `x` is reached when it occupies its slot, or when the slot is unset and
neither the node nor an entry in the row of the slot nor an address in front of `x` in the leafsets,
of those that share as many digits with the node, is taken for it. -/
structure ReachedOffRange (snr : SnNetRouter) {x : SnNetAddr} (hx : snr.self.addr ≠ x) :
    Prop where
  slot : (snr.slotOf hx).IsSet → (snr.slotOf hx).addr = x
  self : ¬ (snr.slotOf hx).IsSet → ¬ AtDistanceZero x snr.self
  row : ¬ (snr.slotOf hx).IsSet → ∀ c, (snr.table (tableIndex hx).1 c).IsSet →
    ¬ AtDistanceZero x (snr.table (tableIndex hx).1 c)
  clear : ¬ (snr.slotOf hx).IsSet → ∀ e ∈ onRangeEntries snr,
    snr.self.addr.level x ≤ snr.self.addr.level e.addr →
    snr.self.addr.searchPlace e.addr < snr.self.addr.searchPlace x → ¬ AtDistanceZero x e

instance (snr : SnNetRouter) (x : SnNetAddr) : Decidable (ReachedOnRange snr x) :=
  decidable_of_iff ((∃ e ∈ onRangeEntries snr, e.addr = x) ∧ ∀ e ∈ candidates snr,
      snr.self.addr.searchPlace e.addr < snr.self.addr.searchPlace x → ¬ AtDistanceZero x e)
    ⟨fun h => ⟨h.1, h.2⟩, fun h => ⟨h.held, h.clear⟩⟩

instance (snr : SnNetRouter) {x : SnNetAddr} (hx : snr.self.addr ≠ x) :
    Decidable (ReachedOffRange snr hx) :=
  decidable_of_iff (((snr.slotOf hx).IsSet → (snr.slotOf hx).addr = x) ∧
      (¬ (snr.slotOf hx).IsSet → ¬ AtDistanceZero x snr.self) ∧
      (¬ (snr.slotOf hx).IsSet → ∀ c, (snr.table (tableIndex hx).1 c).IsSet →
        ¬ AtDistanceZero x (snr.table (tableIndex hx).1 c)) ∧
      (¬ (snr.slotOf hx).IsSet → ∀ e ∈ onRangeEntries snr,
        snr.self.addr.level x ≤ snr.self.addr.level e.addr →
        snr.self.addr.searchPlace e.addr < snr.self.addr.searchPlace x → ¬ AtDistanceZero x e))
    ⟨fun h => ⟨h.1, h.2.1, h.2.2.1, h.2.2.2⟩, fun h => ⟨h.slot, h.self, h.row, h.clear⟩⟩

theorem reachedOnRange_iff (hinv : RouterInv snr) (hx : snr.self.addr ≠ x) :
    (∃ e ∈ (searched true snr x).find? fun e => AtDistanceZero x e, e.addr = x) ↔
      ReachedOnRange snr x := by
  have hfirst := Argmin.find?_sorted_iff (P := fun e : SnNetEntry => e.addr = x)
    (p := fun e => decide (AtDistanceZero x e)) (pairwise_candidates hinv)
    (fun _ _ => SnNetAddr.searchPlace_inj.symm)
    fun e he => decide_eq_true (atDistanceZero_of_addr_eq he)
  simp only [decide_eq_true_eq] at hfirst
  rw [searched, if_pos rfl, ← candidates, hfirst]
  constructor
  · rintro ⟨⟨e, he, haddr⟩, hclear⟩
    refine ⟨⟨e, List.mem_of_ne_of_mem ?_ he, haddr⟩, hclear⟩
    rintro rfl
    exact hx haddr
  · rintro ⟨⟨e, he, haddr⟩, hclear⟩
    exact ⟨⟨e, List.mem_cons_of_mem _ he, haddr⟩, hclear⟩

/-- An address in the table occupies its slot. -/
theorem slotOf_isSet_of_table (hinv : RouterInv snr) (hx : snr.self.addr ≠ x)
    {l : Fin snNetRouterLevels} {c : Fin snNetRouterColumns} (hset : (snr.table l c).IsSet)
    (haddr : (snr.table l c).addr = x) : (snr.slotOf hx).IsSet := by
  subst haddr
  obtain ⟨_, hidx⟩ := hinv.tableIndex_eq hset
  rw [SnNetRouter.slotOf, hidx]
  exact hset

/-- A known address whose slot is unset is in a leafset. -/
theorem exists_onRangeEntries_of_holds (hinv : RouterInv snr) (hx : snr.self.addr ≠ x)
    (hheld : snr.Holds x) (hslot : ¬ (snr.slotOf hx).IsSet) :
    ∃ e ∈ onRangeEntries snr, e.addr = x := by
  obtain ⟨e, he, rfl⟩ := hheld
  rcases SnNetRouter.setEntry_iff.1 he with ⟨hset, l, c, rfl⟩ | hleaf
  · exact absurd (slotOf_isSet_of_table hinv hx hset rfl) hslot
  · exact ⟨e, mem_onRangeEntries.2 hleaf, rfl⟩

theorem reachedOffRange_iff (hinv : RouterInv snr) (hx : snr.self.addr ≠ x)
    (hheld : snr.Holds x) :
    (∃ e ∈ (searched false snr x).find? fun e => AtDistanceZero x e, e.addr = x) ↔
      ReachedOffRange snr hx := by
  rw [searched, if_neg Bool.false_ne_true, dif_neg hx]
  by_cases hslot : (snr.slotOf hx).IsSet
  · rw [if_pos hslot]
    constructor
    · rintro ⟨e, he, haddr⟩
      obtain rfl : e = snr.slotOf hx := by simpa using List.mem_of_find?_eq_some he
      exact ⟨fun _ => haddr, absurd hslot, absurd hslot, absurd hslot⟩
    · intro h
      have haddr := h.slot hslot
      exact ⟨snr.slotOf hx, by simp [atDistanceZero_of_addr_eq haddr], haddr⟩
  · rw [if_neg hslot]
    -- The node and the row come first, and do not carry `x`.
    have hrow : ∀ e ∈ snr.self :: rowEntries snr hx, e.addr ≠ x := by
      intro e he haddr
      rcases List.mem_cons.1 he with rfl | he
      · exact hx haddr
      · obtain ⟨hset, c, hc⟩ := mem_rowEntries.1 he
        exact hslot (slotOf_isSet_of_table hinv hx (hc ▸ hset) (hc ▸ haddr))
    have hrest : leafsetFrom snr.self.addr x snr.leftLeafset ++
        leafsetFrom snr.self.addr x snr.rightLeafset = (onRangeEntries snr).filter fun e =>
          snr.self.addr.level x ≤ snr.self.addr.level e.addr := by
      rw [leafsetFrom_eq_filter, leafsetFrom_eq_filter, onRangeEntries, List.filter_append]
    have hfirst := Argmin.find?_sorted_iff (P := fun e : SnNetEntry => e.addr = x)
      (p := fun e => decide (AtDistanceZero x e))
      ((pairwise_onRangeEntries hinv).filter fun e =>
        decide (snr.self.addr.level x ≤ snr.self.addr.level e.addr))
      (fun _ _ => SnNetAddr.searchPlace_inj.symm)
      fun e he => decide_eq_true (atDistanceZero_of_addr_eq he)
    rw [offRangeEntries, hrest, ← List.cons_append, Argmin.find?_append_iff hrow, hfirst]
    simp only [decide_eq_true_eq, List.mem_filter]
    obtain ⟨e₀, he₀, haddr₀⟩ := exists_onRangeEntries_of_holds hinv hx hheld hslot
    constructor
    · rintro ⟨hfront, -, hclear⟩
      exact ⟨fun h => absurd h hslot, fun _ => hfront _ List.mem_cons_self,
        fun _ c hset => hfront _ (List.mem_cons_of_mem _ (mem_rowEntries.2 ⟨hset, c, rfl⟩)),
        fun _ e he hlevel => hclear e ⟨he, hlevel⟩⟩
    · intro h
      refine ⟨fun e he => ?_, ⟨e₀, ⟨he₀, by rw [haddr₀]⟩, haddr₀⟩,
        fun e he => h.clear hslot e he.1 he.2⟩
      rcases List.mem_cons.1 he with rfl | he
      · exact h.self hslot
      · obtain ⟨hset, c, rfl⟩ := mem_rowEntries.1 he
        exact h.row hslot c hset

/-- **When a known node is reached directly.** In a reachable state that holds another address `x`,
the next hop for `x` is `x` exactly when, depending on what the range test answers for `x`, the
leafset holds it with nothing in front that is taken for it, or its slot holds it, or its slot is
unset and nothing in front is taken for it. -/
theorem nexthop_known_iff (h : Reachable q snr) (hx : snr.self.addr ≠ x) (hheld : snr.Holds x) :
    (∃ e, snNetRouterNexthop snr x = .ok e ∧ e.isSet = 1 ∧ e.addr = x) ↔
      leafsetIsOnRange snr x = .ok true ∧ ReachedOnRange snr x ∨
        leafsetIsOnRange snr x = .ok false ∧ ReachedOffRange snr hx := by
  have hinv := RouterInv.of_reachable h
  rw [exists_nexthop_iff hinv.self_isSet, Bool.exists_bool, or_comm,
    nexthopOf_addr_eq_iff hinv hx.symm, nexthopOf_addr_eq_iff hinv hx.symm,
    reachedOnRange_iff hinv hx, reachedOffRange_iff hinv hx hheld]

/-- The router on 4f5e22 reaches 222222, which stands behind 333333 in its left leafset, and in a
router that knows addresses on both sides, where the range test misses it, 888888 by its slot. -/
theorem nexthop_known_of_add :
    (∃ snr e, routerOn4f5e22 [.add (.ofBytes [0x33, 0x33, 0x33]) none,
        .add (.ofBytes [0x22, 0x22, 0x22]) none] = .ok snr ∧
      snNetRouterNexthop snr (.ofBytes [0x22, 0x22, 0x22]) = .ok e ∧
      e.isSet = 1 ∧ e.addr = .ofBytes [0x22, 0x22, 0x22]) ∧
    ∃ snr e, routerOn4f5e22 [.add (.ofBytes [0x33, 0x33, 0x33]) none,
        .add (.ofBytes [0x88, 0x88, 0x88]) none, .add (.ofBytes [0x98, 0x88, 0x88]) none] =
          .ok snr ∧
      snNetRouterNexthop snr (.ofBytes [0x88, 0x88, 0x88]) = .ok e ∧
      e.isSet = 1 ∧ e.addr = .ofBytes [0x88, 0x88, 0x88] := by
  constructor
  · have hobs : (routerOn4f5e22 [.add (.ofBytes [0x33, 0x33, 0x33]) none,
        .add (.ofBytes [0x22, 0x22, 0x22]) none]).toOption.map (fun snr =>
          (decide (snr.self.addr ≠ .ofBytes [0x22, 0x22, 0x22]),
            leafsetIsOnRange snr (.ofBytes [0x22, 0x22, 0x22]),
            decide (ReachedOnRange snr (.ofBytes [0x22, 0x22, 0x22])))) =
        some (true, .ok true, true) := by
      decide +kernel
    obtain ⟨snr, hrun, hsnr⟩ := exists_ok_of_toOption_map hobs
    simp only [Prod.mk.injEq, decide_eq_true_eq] at hsnr
    obtain ⟨hne, hrange, hreached⟩ := hsnr
    obtain ⟨e, he, haddr⟩ := hreached.held
    obtain ⟨e', hnexthop, hone, haddr'⟩ := (nexthop_known_iff (reachable_routerOn4f5e22 hrun) hne
      ⟨e, setEntry_of_mem_onRangeEntries he, haddr⟩).2 (Or.inl ⟨hrange, hreached⟩)
    exact ⟨snr, e', hrun, hnexthop, hone, haddr'⟩
  · have hobs : (routerOn4f5e22 [.add (.ofBytes [0x33, 0x33, 0x33]) none,
        .add (.ofBytes [0x88, 0x88, 0x88]) none,
        .add (.ofBytes [0x98, 0x88, 0x88]) none]).toOption.map (fun snr =>
          (leafsetIsOnRange snr (.ofBytes [0x88, 0x88, 0x88]),
            if h : snr.self.addr ≠ .ofBytes [0x88, 0x88, 0x88] then
              decide ((snr.slotOf h).IsSet ∧
                (snr.slotOf h).addr = .ofBytes [0x88, 0x88, 0x88] ∧ ReachedOffRange snr h)
            else false)) = some (.ok false, true) := by
      decide +kernel
    obtain ⟨snr, hrun, hsnr⟩ := exists_ok_of_toOption_map hobs
    obtain ⟨hrange, hslot⟩ := Prod.mk.inj hsnr
    split_ifs at hslot with hne
    obtain ⟨hset, haddr, hreached⟩ := of_decide_eq_true hslot
    obtain ⟨e, hnexthop, hone, haddr'⟩ := (nexthop_known_iff (reachable_routerOn4f5e22 hrun) hne
      ⟨snr.slotOf hne, ⟨hset, Or.inl ⟨_, _, rfl⟩⟩, haddr⟩).2 (Or.inr ⟨hrange, hreached⟩)
    exact ⟨snr, e, hrun, hnexthop, hone, haddr'⟩

/-- A node is not always reached directly: 4f5e22, which knows 888888 and 898888, sends what is
meant for 888888 to 898888. The range test misses 888888, and both addresses share one slot. -/
theorem nexthop_known_shared_slot : ∃ snr, Reachable (.insertion SnNetEntry) snr ∧
    snr.self.addr ≠ .ofBytes [0x88, 0x88, 0x88] ∧ snr.Holds (.ofBytes [0x88, 0x88, 0x88]) ∧
    ∃ e, snNetRouterNexthop snr (.ofBytes [0x88, 0x88, 0x88]) = .ok e ∧
      e.addr = .ofBytes [0x89, 0x88, 0x88] ∧ e.addr ≠ .ofBytes [0x88, 0x88, 0x88] := by
  have hobs : (routerOn4f5e22 [.add (.ofBytes [0x88, 0x88, 0x88]) none,
      .add (.ofBytes [0x89, 0x88, 0x88]) none]).toOption.map (fun snr =>
        (snr.self.addr, (onRangeEntries snr).map (·.addr),
          (snNetRouterNexthop snr (.ofBytes [0x88, 0x88, 0x88])).toOption.map (·.addr))) =
      some (.ofBytes [0x4f, 0x5e, 0x22],
        [.ofBytes [0x88, 0x88, 0x88], .ofBytes [0x89, 0x88, 0x88]],
        some (.ofBytes [0x89, 0x88, 0x88])) := by
    decide +kernel
  obtain ⟨snr, hrun, hsnr⟩ := exists_ok_of_toOption_map hobs
  simp only [Prod.mk.injEq] at hsnr
  obtain ⟨hself, hentries, hnexthop⟩ := hsnr
  obtain ⟨e, he, haddr⟩ := exists_ok_of_toOption_map hnexthop
  have hmem : SnNetAddr.ofBytes [0x88, 0x88, 0x88] ∈ (onRangeEntries snr).map (·.addr) := by
    simp [hentries]
  obtain ⟨e', he', haddr'⟩ := List.mem_map.1 hmem
  refine ⟨snr, reachable_routerOn4f5e22 hrun, ?_, ⟨e', setEntry_of_mem_onRangeEntries he', haddr'⟩,
    e, he, haddr, ?_⟩
  · rw [hself]
    decide
  · rw [haddr]
    decide

end SndNet
