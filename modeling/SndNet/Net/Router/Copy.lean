import SndNet.Net.Router.Built
import SndNet.Net.Router.Listing

/-!
# Copying a router

The answers of the two queries of a router hold everything that the choice of the next hop looks at:
which places are set, and with which addresses. A router that is filled from them with
`sn_net_router_table_set` and `sn_net_router_leafset_set` (`src/net/router.c`, lines 232–254), the
setters of the interface, chooses the same next hops as the router that was asked. The network
addresses are another matter, since the port of an IPv4 address is not written
(`SndNet.roundTrips_iff`).

## Main definitions

* `SndNet.snNetRouterTableSet`, `SndNet.snNetRouterLeafsetSet`: the setters.
* `SndNet.copyRecord`, `SndNet.copyRecords`: a router filled from the records of an answer.
* `SndNet.SameNode`: entries that are both unset, or both set with one address.
* `SndNet.Alike`: routers with the same nodes at the same places.

## Main results

* `SndNet.Alike.nexthopOf`: routers that are alike choose the same next hops.
* `SndNet.copy_routes_alike`: a copy of a router routes as the router does.
-/

namespace SndNet

open FallibleRun

/-! ### The functions of the source -/

/-- `sn_net_router_table_set` (`src/net/router.c`, lines 232–239). -/
def snNetRouterTableSet (snr : SnNetRouter) (level column : ℕ) (e : SnNetEntry) :
    Exec SnNetRouter := do
  cAssert (level < snNetRouterLevels)
  cAssert (column < snNetRouterColumns)
  if hl : level < snNetRouterLevels then
    if hc : column < snNetRouterColumns then
      return { snr with table := tableWrite snr.table ⟨level, hl⟩ ⟨column, hc⟩ e }
    else .error .outOfBounds
  else .error .outOfBounds

/-- `sn_net_router_leafset_set` (`src/net/router.c`, lines 241–254). -/
def snNetRouterLeafsetSet (snr : SnNetRouter) (position : ℤ) (e : SnNetEntry) :
    Exec SnNetRouter := do
  cAssert (position ≤ snNetRouterLeafsetSize)
  cAssert (-snNetRouterLeafsetSize ≤ position)
  if position > 0 then
    return { snr with rightLeafset := snr.rightLeafset.write (position - 1).toNat e }
  else if position < 0 then
    return { snr with leftLeafset := snr.leftLeafset.write (-position - 1).toNat e }
  else return { snr with self := e }

/-! ### Copies -/

/-- What is done with a record of an answer: its entry is read and set at its place. -/
def copyRecord (snr : SnNetRouter) (r : SnNetRouterEntrySer) : Exec SnNetRouter :=
  match r.place with
  | .slot level column =>
    snNetRouterTableSet snr level column (snNetEntryDeser .zero r.entry).2
  | .position position =>
    snNetRouterLeafsetSet snr position (snNetEntryDeser .zero r.entry).2

/-- A router filled from the records of an answer. -/
def copyRecords (snr : SnNetRouter) (records : List SnNetRouterEntrySer) : Exec SnNetRouter :=
  run copyRecord snr records

/-! ### Routers that are alike -/

/-- Both entries are unset, or both are set with one address. -/
def SameNode (e e' : SnNetEntry) : Prop := (e.IsSet ↔ e'.IsSet) ∧ (e.IsSet → e.addr = e'.addr)

/-- The routers have the same nodes at the same places. -/
structure Alike (snr snr' : SnNetRouter) : Prop where
  self_isSet : snr.self.IsSet
  table : ∀ l c, SameNode (snr.table l c) (snr'.table l c)
  entryAt : ∀ p, -(snNetRouterLeafsetSize : ℤ) ≤ p → p ≤ snNetRouterLeafsetSize →
    SameNode (snr.entryAt p) (snr'.entryAt p)

/-- Both entries are set, with one address. -/
def Twins (e e' : SnNetEntry) : Prop := e.IsSet ∧ e'.IsSet ∧ e.addr = e'.addr

theorem Twins.sameNode {e e' : SnNetEntry} (h : Twins e e') : SameNode e e' :=
  ⟨iff_of_true h.1 h.2.1, fun _ => h.2.2⟩

variable {e e' : SnNetEntry} {xs ys : List SnNetEntry} {dst : SnNetAddr}

/-- What is eligible among entries of the same nodes are twins. -/
theorem forall₂_filter_eligible (h : List.Forall₂ SameNode xs ys) (self : Option SnNetAddr)
    (minLevel : ℕ) : List.Forall₂ Twins (xs.filter fun e => Eligible self minLevel e)
      (ys.filter fun e => Eligible self minLevel e) := by
  induction h with
  | nil => exact .nil
  | @cons x y xs ys hxy _ ih =>
    by_cases hx : Eligible self minLevel x
    · have haddr := hxy.2 hx.1
      have hy : Eligible self minLevel y := ⟨hxy.1.1 hx.1, haddr ▸ hx.2⟩
      rw [List.filter_cons_of_pos (by simpa using hx), List.filter_cons_of_pos (by simpa using hy)]
      exact .cons ⟨hx.1, hy.1, haddr⟩ ih
    · have hy : ¬ Eligible self minLevel y := fun hy => by
        have hset := hxy.1.2 hy.1
        exact hx ⟨hset, (hxy.2 hset).symm ▸ hy.2⟩
      rw [List.filter_cons_of_neg (by simpa using hx), List.filter_cons_of_neg (by simpa using hy)]
      exact ih

/-- A search among twins ends with twins. -/
theorem sameNode_bestOf {self self' : SnNetEntry} (hself : Twins self self')
    (h : List.Forall₂ Twins xs ys) : SameNode (bestOf self dst xs) (bestOf self' dst ys) := by
  have hwinner := Argmin.argmin_rel (f := distTo dst) (g := distTo dst) (List.Forall₂.cons hself h)
    fun x y hxy => congrArg (snNetAddrDist · dst) hxy.2.2
  rw [bestOf, bestOf]
  generalize (self :: xs).argmin (distTo dst) = m? at hwinner ⊢
  generalize (self' :: ys).argmin (distTo dst) = n? at hwinner ⊢
  have hdrop : ∀ {m n : SnNetEntry}, Twins m n → SameNode (dropSelf self m) (dropSelf self' n) := by
    intro m n hmn
    rw [dropSelf, dropSelf, snNetEntryCmp, snNetEntryCmp, hmn.2.2, hself.2.2]
    split_ifs
    · exact ⟨iff_of_false (by simp) (by simp), fun habs => absurd rfl habs⟩
    · exact hmn.sameNode
  cases hwinner with
  | none => exact hdrop hself
  | some hmn => exact hdrop hmn

namespace Alike

variable {snr snr' : SnNetRouter} (h : Alike snr snr')

include h

theorem twins_self : Twins snr.self snr'.self := by
  obtain ⟨hset, haddr⟩ := h.entryAt 0 (by decide) (by decide)
  exact ⟨h.self_isSet, hset.1 h.self_isSet, haddr h.self_isSet⟩

/-- The leafsets have the same nodes at the same indices. -/
theorem forall₂_leafset (right : Bool) :
    List.Forall₂ SameNode (snr.leafset right).val (snr'.leafset right).val := by
  refine List.forall₂_iff_get.2 ⟨?_, fun i hi hi' => ?_⟩
  · rw [(snr.leafset right).property, (snr'.leafset right).property]
  · have hlt : i < snNetRouterLeafsetSize := (snr.leafset right).property ▸ hi
    rw [List.get_eq_getElem, List.get_eq_getElem, ← leafsetEntry_eq_getElem,
      ← leafsetEntry_eq_getElem]
    cases right with
    | true =>
      have hat := h.entryAt ((i : ℤ) + 1) (by omega) (by omega)
      rw [SnNetRouter.entryAt, if_pos (by omega), SnNetRouter.entryAt, if_pos (by omega),
        Int.add_sub_cancel, Int.toNat_natCast] at hat
      exact hat
    | false =>
      have hat := h.entryAt (-((i : ℤ) + 1)) (by omega) (by omega)
      rw [SnNetRouter.entryAt, if_neg (by omega), if_pos (by omega), SnNetRouter.entryAt,
        if_neg (by omega), if_pos (by omega), neg_neg, Int.add_sub_cancel, Int.toNat_natCast] at hat
      exact hat

theorem forall₂_entries (right : Bool) :
    List.Forall₂ Twins (snr.leafset right).entries (snr'.leafset right).entries := by
  simpa [Eligible, Leafset.entries] using forall₂_filter_eligible (h.forall₂_leafset right) none 0

theorem forall₂_leafsetFrom (self : SnNetAddr) (right : Bool) :
    List.Forall₂ Twins (leafsetFrom self dst (snr.leafset right))
      (leafsetFrom self dst (snr'.leafset right)) :=
  forall₂_filter_eligible (h.forall₂_leafset right) (some self) (self.level dst)

/-- **Routers that are alike choose the same next hops.** -/
theorem nexthopOf (onRange : Bool) (dst : SnNetAddr) :
    SameNode (nexthopOf onRange snr dst) (nexthopOf onRange snr' dst) := by
  have hself := h.twins_self
  cases onRange with
  | true =>
    exact sameNode_bestOf hself (List.rel_append (h.forall₂_entries false) (h.forall₂_entries true))
  | false =>
    rw [SndNet.nexthopOf, if_neg Bool.false_ne_true, SndNet.nexthopOf, if_neg Bool.false_ne_true]
    by_cases hdst : snr.self.addr = dst
    · rw [dif_pos hdst, dif_pos (hself.2.2 ▸ hdst)]
      exact ⟨iff_of_false (by simp) (by simp), fun habs => absurd rfl habs⟩
    have hdst' : snr'.self.addr ≠ dst := hself.2.2 ▸ hdst
    have hindex : tableIndex hdst = tableIndex hdst' := by
      have hcongr : ∀ {a b : SnNetAddr}, a = b → ∀ (ha : a ≠ dst) (hb : b ≠ dst),
          tableIndex ha = tableIndex hb := by
        rintro a _ rfl _ _
        rfl
      exact hcongr hself.2.2 hdst hdst'
    have hslot : SameNode (snr.slotOf hdst) (snr'.slotOf hdst') := by
      rw [SnNetRouter.slotOf, SnNetRouter.slotOf, hindex]
      exact h.table _ _
    rw [dif_neg hdst, dif_neg hdst']
    by_cases hset : (snr.slotOf hdst).IsSet
    · rw [if_pos hset, if_pos (hslot.1.1 hset)]
      exact hslot
    · rw [if_neg hset, if_neg (mt hslot.1.2 hset)]
      refine sameNode_bestOf hself (List.rel_append ?_ (List.rel_append ?_ ?_))
      · rw [rowEntries, rowEntries, ← hindex]
        have hrow : List.Forall₂ SameNode (List.ofFn (snr.table (tableIndex hdst).1))
            (List.ofFn (snr'.table (tableIndex hdst).1)) := by
          refine List.forall₂_iff_get.2 ⟨by simp, fun i hi hi' => ?_⟩
          rw [List.get_ofFn, List.get_ofFn]
          exact h.table _ _
        simpa [Eligible] using forall₂_filter_eligible hrow none 0
      · rw [← hself.2.2]
        exact h.forall₂_leafsetFrom _ false
      · rw [← hself.2.2]
        exact h.forall₂_leafsetFrom _ true

end Alike

/-! ### What a copy holds -/

/-- The place is a slot of the table or a position of the leafset. -/
def SnNetRouterPlaceSer.Valid : SnNetRouterPlaceSer → Prop
  | .slot level column => level < snNetRouterLevels ∧ column < snNetRouterColumns
  | .position p => -(snNetRouterLeafsetSize : ℤ) ≤ p ∧ p ≤ snNetRouterLeafsetSize

/-- The entry at a place. -/
def SnNetRouter.placeEntry (snr : SnNetRouter) : SnNetRouterPlaceSer → SnNetEntry
  | .slot level column =>
    if hl : level < snNetRouterLevels then
      if hc : column < snNetRouterColumns then snr.table ⟨level, hl⟩ ⟨column, hc⟩ else .zero
    else .zero
  | .position p => snr.entryAt p

theorem leafsetEntry_write (leafset : Leafset) {i : ℕ} (hi : i < snNetRouterLeafsetSize)
    (e : SnNetEntry) (j : ℕ) :
    leafsetEntry (leafset.write i e) j = if j = i then e else leafsetEntry leafset j := by
  have hlen : i < leafset.val.length := leafset.property.symm ▸ hi
  rw [leafsetEntry, leafsetEntry, CArray.write, List.getD_eq_getElem?_getD,
    List.getD_eq_getElem?_getD, List.getElem?_set]
  by_cases hij : j = i
  · subst hij
    simp [hlen]
  · rw [if_neg (Ne.symm hij), if_neg hij]

variable {snr : SnNetRouter} {r : SnNetRouterEntrySer} {place : SnNetRouterPlaceSer}

/-- Setting a slot changes this slot alone. -/
theorem exists_snNetRouterTableSet {level column : ℕ}
    (hvalid : (SnNetRouterPlaceSer.slot level column).Valid) (e : SnNetEntry) :
    ∃ snr', snNetRouterTableSet snr level column e = .ok snr' ∧
      ∀ place : SnNetRouterPlaceSer, place.Valid → snr'.placeEntry place =
        if place = .slot level column then e else snr.placeEntry place := by
  have hin : level < snNetRouterLevels ∧ column < snNetRouterColumns := hvalid
  refine ⟨{ snr with table := tableWrite snr.table ⟨level, hin.1⟩ ⟨column, hin.2⟩ e }, ?_, ?_⟩
  · rw [snNetRouterTableSet, cAssert_of hin.1, cAssert_of hin.2, ok_bind, ok_bind, dif_pos hin.1,
      dif_pos hin.2]
    rfl
  · rintro (⟨l, c⟩ | p) hplace
    · have hin' : l < snNetRouterLevels ∧ c < snNetRouterColumns := hplace
      rw [SnNetRouter.placeEntry, SnNetRouter.placeEntry, dif_pos hin'.1, dif_pos hin'.2,
        dif_pos hin'.1, dif_pos hin'.2]
      simp only [tableWrite, Fin.mk.injEq, SnNetRouterPlaceSer.slot.injEq]
    · rfl

/-- Setting a position changes this position alone. -/
theorem exists_snNetRouterLeafsetSet {p : ℤ} (hvalid : (SnNetRouterPlaceSer.position p).Valid)
    (e : SnNetEntry) : ∃ snr', snNetRouterLeafsetSet snr p e = .ok snr' ∧
      ∀ place : SnNetRouterPlaceSer, place.Valid → snr'.placeEntry place =
        if place = .position p then e else snr.placeEntry place := by
  obtain ⟨hmin, hmax⟩ := hvalid
  rw [snNetRouterLeafsetSet, cAssert_of hmax, cAssert_of hmin, ok_bind, ok_bind]
  have hright : p > 0 → (p - 1).toNat < snNetRouterLeafsetSize := fun hpos => by omega
  have hleft : p < 0 → (-p - 1).toNat < snNetRouterLeafsetSize := fun hneg => by omega
  split_ifs with hpos hneg
  · refine ⟨_, rfl, ?_⟩
    rintro (⟨l, c⟩ | p') -
    · rfl
    · simp only [SnNetRouter.placeEntry, SnNetRouter.entryAt, leafsetEntry_write _ (hright hpos),
        SnNetRouterPlaceSer.position.injEq]
      split_ifs <;> first | rfl | omega
  · refine ⟨_, rfl, ?_⟩
    rintro (⟨l, c⟩ | p') -
    · rfl
    · simp only [SnNetRouter.placeEntry, SnNetRouter.entryAt, leafsetEntry_write _ (hleft hneg),
        SnNetRouterPlaceSer.position.injEq]
      split_ifs <;> first | rfl | omega
  · refine ⟨_, rfl, ?_⟩
    rintro (⟨l, c⟩ | p') -
    · rfl
    · simp only [SnNetRouter.placeEntry, SnNetRouter.entryAt, SnNetRouterPlaceSer.position.injEq]
      split_ifs <;> first | rfl | omega

/-- A record changes its place and no other. -/
theorem exists_copyRecord (hr : r.place.Valid) : ∃ snr', copyRecord snr r = .ok snr' ∧
    ∀ place : SnNetRouterPlaceSer, place.Valid → snr'.placeEntry place =
      if place = r.place then (snNetEntryDeser .zero r.entry).2 else snr.placeEntry place := by
  rw [copyRecord]
  rcases hplace : r.place with ⟨level, column⟩ | p
  · exact exists_snNetRouterTableSet (hplace ▸ hr) _
  · exact exists_snNetRouterLeafsetSet (hplace ▸ hr) _

/-- What a copy holds: at the place of a record the entry of some record with this place, and
elsewhere what was there before. -/
theorem exists_copyRecords {records : List SnNetRouterEntrySer}
    (hrecords : ∀ r ∈ records, r.place.Valid) (snr : SnNetRouter) :
    ∃ snr', copyRecords snr records = .ok snr' ∧
      ∀ place : SnNetRouterPlaceSer, place.Valid →
        (∃ r ∈ records, r.place = place ∧
          snr'.placeEntry place = (snNetEntryDeser .zero r.entry).2) ∨
        (∀ r ∈ records, r.place ≠ place) ∧ snr'.placeEntry place = snr.placeEntry place := by
  induction records generalizing snr with
  | nil => exact ⟨snr, rfl, fun place _ => Or.inr ⟨by simp, rfl⟩⟩
  | cons r records ih =>
    obtain ⟨hr, hrest⟩ := List.forall_mem_cons.1 hrecords
    obtain ⟨snr₁, hstep, hplace₁⟩ := @exists_copyRecord snr _ hr
    obtain ⟨snr', hrun, hplace'⟩ := ih hrest snr₁
    refine ⟨snr', by rw [copyRecords, run_cons, hstep, ok_bind]; exact hrun, fun place hvalid => ?_⟩
    rcases hplace' place hvalid with ⟨r', hr', hsame, hentry⟩ | ⟨hnone, hentry⟩
    · exact Or.inl ⟨r', List.mem_cons_of_mem _ hr', hsame, hentry⟩
    · rw [hplace₁ place hvalid] at hentry
      by_cases hsame : place = r.place
      · rw [if_pos hsame] at hentry
        exact Or.inl ⟨r, List.mem_cons_self, hsame.symm, hentry⟩
      · rw [if_neg hsame] at hentry
        exact Or.inr ⟨List.forall_mem_cons.2 ⟨Ne.symm hsame, hnone⟩, hentry⟩

theorem placeEntry_slot (l : Fin snNetRouterLevels) (c : Fin snNetRouterColumns) :
    snr.placeEntry (.slot l.val c.val) = snr.table l c :=
  (dif_pos l.isLt).trans (dif_pos c.isLt)

/-- The records of a listing are made from the entries at their places, and every entry of the range
that serialises has one. -/
theorem Lists.mem_records {ι : Type} {lt : ι → ι → Prop} {isTable : UInt8}
    {place : ι → SnNetRouterPlaceSer} {entry : ι → SnNetEntry} {inRange : ι → Prop} {size : ℕ}
    {ret : SnNetRouterQuerySer} (h : Lists lt isTable place entry inRange (size, some ret)) :
    (∀ r ∈ ret.records, ∃ i, inRange i ∧ IsRecordOf isTable (place i) (entry i) r) ∧
      ∀ i, inRange i → Serialises (entry i) → ∃ r ∈ ret.records, r.place = place i := by
  obtain ⟨_, _, hanswer, items, -, hitems, hrecords, -, -⟩ := h
  cases hanswer
  constructor
  · intro r hr
    obtain ⟨n, hn, rfl⟩ := List.mem_iff_getElem.1 hr
    have hn' : n < items.length := hrecords.length_eq ▸ hn
    exact ⟨items[n], ((hitems _).1 (List.getElem_mem hn')).1, hrecords.get hn' hn⟩
  · intro i hi hser
    obtain ⟨n, hn, rfl⟩ := List.mem_iff_getElem.1 ((hitems i).2 ⟨hi, hser⟩)
    have hn' : n < ret.records.length := hrecords.length_eq ▸ hn
    exact ⟨_, List.getElem_mem hn', (hrecords.get hn hn').place_eq⟩

/-- The entry read from a record is of the same node as the entry it was made from. -/
theorem IsRecordOf.sameNode {isTable : UInt8} (h : IsRecordOf isTable place e r) :
    SameNode e (snNetEntryDeser .zero r.entry).2 := by
  obtain ⟨hset, haddr⟩ := snNetEntryEquals_eq_one_iff.1 (h.deser .zero).2
  exact ⟨by rw [SnNetEntry.IsSet, SnNetEntry.IsSet, hset], fun _ => haddr.symm⟩

/-- What is set at a place is a set entry of the router or the router's own entry. -/
theorem setEntry_or_eq_self (hplace : place.Valid) (hset : (snr.placeEntry place).IsSet) :
    snr.SetEntry (snr.placeEntry place) ∨ snr.placeEntry place = snr.self := by
  rcases place with ⟨l, c⟩ | p
  · have hin : l < snNetRouterLevels ∧ c < snNetRouterColumns := hplace
    rw [SnNetRouter.placeEntry, dif_pos hin.1, dif_pos hin.2] at hset ⊢
    exact Or.inl ⟨hset, Or.inl ⟨_, _, rfl⟩⟩
  · obtain ⟨hmin, hmax⟩ : -(snNetRouterLeafsetSize : ℤ) ≤ p ∧ p ≤ snNetRouterLeafsetSize := hplace
    have hmem : ∀ (right : Bool) {i : ℕ}, i < snNetRouterLeafsetSize →
        leafsetEntry (snr.leafset right) i ∈ (snr.leafset right).val := by
      intro right i hi
      have hlen : i < (snr.leafset right).val.length := (snr.leafset right).property.symm ▸ hi
      rw [leafsetEntry_eq_getElem _ hlen]
      exact List.getElem_mem hlen
    rw [SnNetRouter.placeEntry, SnNetRouter.entryAt] at hset ⊢
    split_ifs at hset ⊢ with hpos hneg
    · exact Or.inl ⟨hset, Or.inr ⟨true, hmem true (by omega)⟩⟩
    · exact Or.inl ⟨hset, Or.inr ⟨false, hmem false (by omega)⟩⟩
    · exact Or.inr rfl

/-- A fresh router has nothing but its own entry. -/
theorem not_isSet_placeEntry_init (selfAddr : SnNetAddr) (selfNetAddr : Option SnIoNaddr)
    (hplace : place ≠ .position 0) :
    ¬ ((snNetRouterInit selfAddr selfNetAddr).placeEntry place).IsSet := by
  have hleafset : ∀ i, leafsetEntry (.replicate _ .zero) i = .zero := fun i => by
    rw [leafsetEntry, CArray.replicate, List.getD_eq_getElem?_getD, List.getElem?_replicate]
    split_ifs <;> rfl
  rcases place with ⟨l, c⟩ | p
  · rw [SnNetRouter.placeEntry]
    split_ifs <;> exact fun h => h rfl
  · have hne : p ≠ 0 := fun h => hplace (congrArg _ h)
    rw [SnNetRouter.placeEntry, SnNetRouter.entryAt, snNetRouterInit, hleafset, hleafset]
    split_ifs
    · exact fun h => h rfl
    · exact fun h => h rfl
    · omega

/-- A fresh router filled from the records of the set entries of another router is alike. -/
theorem exists_copy {records : List SnNetRouterEntrySer} (hself : snr.self.IsSet)
    (hplace : ∀ r ∈ records, r.place.Valid ∧
      SameNode (snr.placeEntry r.place) (snNetEntryDeser .zero r.entry).2)
    (hall : ∀ place : SnNetRouterPlaceSer, place.Valid → (snr.placeEntry place).IsSet →
      ∃ r ∈ records, r.place = place)
    (selfAddr : SnNetAddr) (selfNetAddr : Option SnIoNaddr) :
    ∃ copy, copyRecords (snNetRouterInit selfAddr selfNetAddr) records = .ok copy ∧
      Alike snr copy := by
  obtain ⟨copy, hcopy, hheld⟩ := exists_copyRecords (fun r hr => (hplace r hr).1)
    (snNetRouterInit selfAddr selfNetAddr)
  have hsame : ∀ place : SnNetRouterPlaceSer, place.Valid →
      SameNode (snr.placeEntry place) (copy.placeEntry place) := by
    intro place hvalid
    rcases hheld place hvalid with ⟨r, hr, rfl, hentry⟩ | ⟨hnone, hentry⟩
    · rw [hentry]
      exact (hplace r hr).2
    · have hunset : ¬ (snr.placeEntry place).IsSet := fun hset => by
        obtain ⟨r, hr, hat⟩ := hall place hvalid hset
        exact hnone r hr hat
      have hne : place ≠ .position 0 := by
        rintro rfl
        exact hunset hself
      rw [hentry]
      exact ⟨iff_of_false hunset (not_isSet_placeEntry_init _ _ hne),
        fun hset => absurd hset hunset⟩
  refine ⟨copy, hcopy, ?_⟩
  exact
    { self_isSet := hself
      table := fun l c => by
        have hslot := hsame (.slot l.val c.val) ⟨l.isLt, c.isLt⟩
        rwa [placeEntry_slot, placeEntry_slot] at hslot
      entryAt := fun p hmin hmax => hsame (.position p) ⟨hmin, hmax⟩ }

/-- The answers to queries of the whole table and the whole leafset fit into their buffers, and the
router `fresh` filled from their records chooses, for every destination and whatever the range test
answers, the same next hop as the router that was asked. -/
def CopyRoutesAlike (snr : SnNetRouter) (mem mem' : ℕ → SnNetRouterEntrySer)
    (fresh : SnNetRouter) : Prop :=
  ∃ size ret size' ret' copy,
    snNetRouterQueryTable (some mem) true snr 0 63 = .ok (size, some ret) ∧
    ret.entriesLen ≤ ret.maxSize ∧
    snNetRouterQueryLeafset (some mem') true snr (-8) 8 = .ok (size', some ret') ∧
    ret'.entriesLen ≤ ret'.maxSize ∧
    copyRecords fresh (ret.records ++ ret'.records) = .ok copy ∧
    ∀ onRange dst, ∃ e e', snNetRouterNexthopFrom onRange snr dst = .ok e ∧
      snNetRouterNexthopFrom onRange copy dst = .ok e' ∧ SameNode e e'

/-- **A copy routes alike.** A reachable router whose entries have IPv4 addresses or paths can be
copied through its queries into any fresh router. -/
theorem copy_routes_alike {q : Sorter SnNetEntry} (h : Reachable q snr)
    (hfamily : ∀ e, snr.SetEntry e ∨ e = snr.self →
      e.netAddr.saFamily = afInet ∨ e.netAddr.saFamily = afUnix)
    (mem mem' : ℕ → SnNetRouterEntrySer) (selfAddr : SnNetAddr) (selfNetAddr : Option SnIoNaddr) :
    CopyRoutesAlike snr mem mem' (snNetRouterInit selfAddr selfNetAddr) := by
  have hinv := RouterInv.of_reachable h
  obtain ⟨size, ret, hquery, hfits⟩ := @tableFits_of_reachable q snr 0 63 h
    (by decide) (by decide) mem
  obtain ⟨size', ret', hquery', hfits'⟩ := @leafsetFits snr (-8) 8
    (by decide) (by decide) (by decide) mem'
  have htable := tableAnswers mem snr 0 63
  rw [TableAnswers, if_pos (by decide), hquery] at htable
  have hleafset := leafsetAnswers mem' snr (-8) 8
  rw [LeafsetAnswers, if_pos (by decide), hquery'] at hleafset
  obtain ⟨_, hanswer, hlists⟩ := htable
  obtain rfl := Except.ok.inj hanswer
  obtain ⟨_, hanswer', hlists'⟩ := hleafset
  obtain rfl := Except.ok.inj hanswer'
  obtain ⟨hrecords, hcover⟩ := hlists.mem_records
  obtain ⟨hrecords', hcover'⟩ := hlists'.mem_records
  -- Every record is of the entry at its place, and every entry that serialises has a record.
  have hplace : ∀ r ∈ ret.records ++ ret'.records, r.place.Valid ∧
      SameNode (snr.placeEntry r.place) (snNetEntryDeser .zero r.entry).2 := by
    intro r hr
    rcases List.mem_append.1 hr with hr | hr
    · obtain ⟨i, -, hrecord⟩ := hrecords r hr
      rw [hrecord.place_eq, placeEntry_slot]
      exact ⟨⟨i.1.isLt, i.2.isLt⟩, hrecord.sameNode⟩
    · obtain ⟨p, hp, hrecord⟩ := hrecords' r hr
      rw [hrecord.place_eq]
      exact ⟨hp, hrecord.sameNode⟩
  have hall : ∀ place : SnNetRouterPlaceSer, place.Valid → (snr.placeEntry place).IsSet →
      ∃ r ∈ ret.records ++ ret'.records, r.place = place := by
    intro place hvalid hset
    have hser : Serialises (snr.placeEntry place) :=
      ⟨hset, hfamily _ (setEntry_or_eq_self hvalid hset)⟩
    rcases place with ⟨l, c⟩ | p
    · have hin : l < snNetRouterLevels ∧ c < snNetRouterColumns := hvalid
      rw [SnNetRouter.placeEntry, dif_pos hin.1, dif_pos hin.2] at hser
      obtain ⟨r, hr, hat⟩ := hcover (⟨l, hin.1⟩, ⟨c, hin.2⟩)
        ⟨Nat.zero_le _, Nat.le_of_lt_succ hin.1⟩ hser
      exact ⟨r, List.mem_append_left _ hr, hat⟩
    · obtain ⟨r, hr, hat⟩ := hcover' p hvalid hser
      exact ⟨r, List.mem_append_right _ hr, hat⟩
  obtain ⟨copy, hcopy, halike⟩ := exists_copy hinv.self_isSet hplace hall selfAddr selfNetAddr
  refine ⟨size, ret, size', ret', copy, hquery, hfits, hquery', hfits', hcopy,
    fun onRange dst => ⟨_, _, snNetRouterNexthopFrom_eq hinv.self_isSet onRange dst,
      snNetRouterNexthopFrom_eq halike.twins_self.2.1 onRange dst, halike.nexthopOf onRange dst⟩⟩

/-- The router on 4f5e22 at INET:1.1.1.1:1111 that knows 888888 is copied. -/
theorem copy_routes_alike_of_add : ∃ snr,
    run (routerStep (.insertion SnNetEntry))
      (snNetRouterInit (.ofBytes [0x4f, 0x5e, 0x22]) (some naddr1111))
      [.add (.ofBytes [0x88, 0x88, 0x88]) (some naddr1111)] = .ok snr ∧
    CopyRoutesAlike snr (fun _ => .zero) (fun _ => .zero) (snNetRouterInit .zero none) := by
  obtain ⟨snr, hrun, -⟩ := exists_ok_of_toOption_map (c := 1) (show Option.map
    (fun snr : SnNetRouter => snr.self.isSet) (Except.toOption (run
      (routerStep (.insertion SnNetEntry))
      (snNetRouterInit (.ofBytes [0x4f, 0x5e, 0x22]) (some naddr1111))
      [.add (.ofBytes [0x88, 0x88, 0x88]) (some naddr1111)])) = some 1 by decide +kernel)
  have hbuilt := @Built.of_run _ _ _ _ [(.ofBytes [0x88, 0x88, 0x88], some naddr1111)] hrun
  refine ⟨snr, hrun, copy_routes_alike ⟨_, _, _, hrun⟩ (fun e he => Or.inl ?_) _ _ _ _⟩
  rcases he with he | rfl
  · have hmem : e ∈ [(RouterOp.add (.ofBytes [0x88, 0x88, 0x88]) (some naddr1111)).entry] := by
      rcases SnNetRouter.setEntry_iff.1 he with ⟨hset, l, c, rfl⟩ | ⟨right, hmem⟩
      · exact hbuilt.slot_mem l c hset
      · exact ((hbuilt.mem_entries_iff ((List.length_filter_le _ _).trans_lt (by decide))).1
          hmem).1
    rw [List.mem_singleton.1 hmem]
    rfl
  · rw [self_of_run hrun]
    rfl

end SndNet
