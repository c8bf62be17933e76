import SndNet.Net.Router.Invariant
import SndNet.Net.Router.Query

/-!
# What the queries of the router list

A query walks through a range of the table, row by row, or through a range of the leafset, from its
far left over the router's own entry to its far right, and compacts what it finds into records
(`src/net/router.c`, lines 256–353). This file shows that the records of an answer are, in the order
of the walk, those of the set entries that can be serialised, and that the addresses of a leafset
answer ascend. How many records there is room for is another matter (`SndNet.queries_fit_iff`).

## Main definitions

* `SndNet.SnNetRouterQuerySer.records`: the records of an answer.
* `SndNet.IsRecordOf`: a record with the tag, the place and the entry it was made from.
* `SndNet.Lists`: an answer lists a range.
* `SndNet.TableAnswers`, `SndNet.LeafsetAnswers`: a query lists an accepted range, and answers any
  other one with nothing.

## Main results

* `SndNet.exists_records_storeAll`: the loops add one record for each entry that serialises.
* `SndNet.addr_entryAt_le`: addresses ascend with the positions.
* `SndNet.queries_list_range`: what the answers list.
-/

namespace SndNet

open FallibleRun

/-! ### Records -/

/-- The records of an answer. -/
def SnNetRouterQuerySer.records (ret : SnNetRouterQuerySer) : List SnNetRouterEntrySer :=
  (List.range ret.entriesLen).map ret.entries

@[simp] theorem length_records (ret : SnNetRouterQuerySer) :
    ret.records.length = ret.entriesLen := by
  rw [SnNetRouterQuerySer.records, List.length_map, List.length_range]

/-- A record with the tag and the place of an entry, from which the entry can be read back. -/
structure IsRecordOf (isTable : UInt8) (place : SnNetRouterPlaceSer) (e : SnNetEntry)
    (r : SnNetRouterEntrySer) : Prop where
  isTable_eq : r.isTable = isTable
  place_eq : r.place = place
  deser : ∀ target, (snNetEntryDeser target r.entry).1 = 0 ∧
    snNetEntryEquals (snNetEntryDeser target r.entry).2 e = 1

/-- What was written of an entry that serialises is read back as an equal entry. -/
theorem snNetEntryDeser_ser {e : SnNetEntry} (ser : SnNetEntrySer)
    (h : (snNetEntrySer e ser).1 = 0) (target : SnNetEntry) :
    (snNetEntryDeser target (snNetEntrySer e ser).2).1 = 0 ∧
      snNetEntryEquals (snNetEntryDeser target (snNetEntrySer e ser).2).2 e = 1 := by
  rw [snNetEntryEquals_eq_one_iff]
  rcases (snNetEntrySer_eq_zero_iff ser).1 h with hinet | hunix
  · obtain ⟨hser, htype, -, -⟩ := snIoNaddrSer_inet hinet ser.netAddr
    obtain ⟨hdeser, -, -, -⟩ := snIoNaddrDeser_inet htype target.netAddr
    simp [snNetEntrySer, hser, snNetEntryDeser, hdeser]
  · simp [snNetEntrySer, snIoNaddrSer_unix hunix, snNetEntryDeser, snIoNaddrDeser]

/-- The address in a record is that of its entry. -/
theorem IsRecordOf.addr_eq {isTable : UInt8} {place : SnNetRouterPlaceSer} {e : SnNetEntry}
    {r : SnNetRouterEntrySer} (h : IsRecordOf isTable place e r) :
    snNetAddrDeser r.entry.addr = e.addr := by
  obtain ⟨-, heq⟩ := h.deser .zero
  have haddr := (snNetEntryEquals_eq_one_iff.1 heq).2
  rw [← haddr, snNetEntryDeser]
  split_ifs <;> rfl

section Store

variable (isTable : UInt8) (place : SnNetRouterPlaceSer) {e : SnNetEntry}
  (ret : SnNetRouterQuerySer)

/-- An entry that serialises adds its record. -/
theorem records_queryStore_of_serialises (h : Serialises e) :
    ∃ r, (queryStore isTable place e ret).records = ret.records ++ [r] ∧
      IsRecordOf isTable place e r := by
  have hser := (snNetEntrySer_eq_zero_iff (ret.entries ret.entriesLen).entry).2 h.2
  refine ⟨⟨isTable, place, (snNetEntrySer e (ret.entries ret.entriesLen).entry).2⟩, ?_,
    rfl, rfl, snNetEntryDeser_ser _ hser⟩
  rw [queryStore, if_pos h.1, if_pos hser]
  simp only [SnNetRouterQuerySer.records, List.range_succ, List.map_append, List.map_singleton,
    Function.update_self]
  refine congrArg (· ++ _) (List.map_congr_left fun i hi => ?_)
  exact Function.update_of_ne (List.mem_range.1 hi).ne _ _

/-- Any other entry leaves the records as they are. -/
theorem records_queryStore_of_not (h : ¬ Serialises e) :
    (queryStore isTable place e ret).records = ret.records := by
  rw [queryStore]
  by_cases hset : e.IsSet
  · have hser : (snNetEntrySer e (ret.entries ret.entriesLen).entry).1 ≠ 0 := fun hser =>
      h ⟨hset, (snNetEntrySer_eq_zero_iff _).1 hser⟩
    rw [if_pos hset, if_neg hser]
    refine List.map_congr_left fun i hi => ?_
    exact Function.update_of_ne (List.mem_range.1 hi).ne _ _
  · rw [if_neg hset]

end Store

/-- **What the loops store.** The entries of the list that serialise add one record each, in
order. -/
theorem exists_records_storeAll {ι : Type} (isTable : UInt8) (place : ι → SnNetRouterPlaceSer)
    (entry : ι → SnNetEntry) (items : List ι) (ret : SnNetRouterQuerySer) :
    ∃ rs, (storeAll isTable place entry items ret).records = ret.records ++ rs ∧
      List.Forall₂ (fun i r => IsRecordOf isTable (place i) (entry i) r)
        (items.filter fun i => Serialises (entry i)) rs := by
  rw [storeAll]
  induction items generalizing ret with
  | nil => exact ⟨[], by simp, .nil⟩
  | cons i items ih =>
    obtain ⟨rs, hrs, hlist⟩ := ih (queryStore isTable (place i) (entry i) ret)
    rw [List.foldl_cons, hrs]
    by_cases hi : Serialises (entry i)
    · obtain ⟨r, hr, hrecord⟩ := records_queryStore_of_serialises isTable (place i) ret hi
      refine ⟨r :: rs, by rw [hr, List.append_assoc, List.singleton_append], ?_⟩
      rw [List.filter_cons_of_pos (by simpa using hi)]
      exact .cons hrecord hlist
    · rw [records_queryStore_of_not isTable (place i) ret hi,
        List.filter_cons_of_neg (by simpa using hi)]
      exact ⟨rs, rfl, hlist⟩

/-! ### Listings -/

section Listing

variable {ι : Type} (lt : ι → ι → Prop) (isTable : UInt8) (place : ι → SnNetRouterPlaceSer)
  (entry : ι → SnNetEntry) (inRange : ι → Prop)

/-- An answer lists a range: its records are, in increasing order, one for each place of the range
whose entry serialises, and its length and its size are those of the records. -/
def Lists (answer : ℕ × Option SnNetRouterQuerySer) : Prop :=
  ∃ size ret, answer = (size, some ret) ∧ ∃ items : List ι, items.Pairwise lt ∧
    (∀ i, i ∈ items ↔ inRange i ∧ Serialises (entry i)) ∧
    List.Forall₂ (fun i r => IsRecordOf isTable (place i) (entry i) r) items ret.records ∧
    ret.entriesLen = items.length ∧ size = sizeofQuerySer + items.length * sizeofEntrySer

variable {lt entry inRange}

/-- A query whose loop goes through a range in order lists it. -/
theorem lists_of_loop {loop : SnNetRouterQuerySer → Exec SnNetRouterQuerySer} {items : List ι}
    (hloop : ∀ ret, loop ret = .ok (storeAll isTable place entry items ret))
    (hitems : items.Pairwise lt) (hmem : ∀ i, i ∈ items ↔ inRange i) (maxSize : ℕ)
    (mem : ℕ → SnNetRouterEntrySer) :
    ∃ answer, queryRun (some mem) true maxSize loop = .ok answer ∧
      Lists lt isTable place entry inRange answer := by
  obtain ⟨rs, hrs, hlist⟩ := exists_records_storeAll isTable place entry items ⟨maxSize, 0, mem⟩
  have hlen : (storeAll isTable place entry items ⟨maxSize, 0, mem⟩).entriesLen =
      (items.filter fun i => Serialises (entry i)).length := by
    rw [← length_records, hrs, List.length_append, length_records, Nat.zero_add, hlist.length_eq]
  refine ⟨_, by rw [queryRun, hloop, ok_bind, if_pos rfl]; rfl, _, _, rfl, _, hitems.filter _,
    fun i => ?_, ?_, hlen, by rw [hlen]⟩
  · rw [List.mem_filter, hmem, decide_eq_true_eq]
  · rw [hrs]
    exact hlist

end Listing

section Queries

variable (mem : ℕ → SnNetRouterEntrySer) (snr : SnNetRouter)

/-- An accepted range of levels is listed slot by slot, and any other one is answered with
nothing. -/
def TableAnswers (lMin lMax : ℕ) : Prop :=
  if lMin ≤ lMax ∧ lMax < snNetRouterLevels then
    ∃ answer, snNetRouterQueryTable (some mem) true snr lMin lMax = .ok answer ∧
      Lists (Prod.Lex (· < ·) (· < ·)) 1
        (fun i : Fin snNetRouterLevels × Fin snNetRouterColumns => .slot i.1.val i.2.val)
        (fun i => snr.table i.1 i.2) (fun i => lMin ≤ i.1.val ∧ i.1.val ≤ lMax) answer
  else ∀ malloc realloc, snNetRouterQueryTable malloc realloc snr lMin lMax = .ok (0, none)

/-- An accepted range of positions is listed position by position, and any other one is answered
with nothing. -/
def LeafsetAnswers (pMin pMax : ℤ) : Prop :=
  if -(snNetRouterLeafsetSize : ℤ) ≤ pMin ∧ pMin ≤ pMax ∧ pMax ≤ snNetRouterLeafsetSize then
    ∃ answer, snNetRouterQueryLeafset (some mem) true snr pMin pMax = .ok answer ∧
      Lists (· < ·) 0 .position snr.entryAt (fun p => pMin ≤ p ∧ p ≤ pMax) answer
  else ∀ malloc realloc, snNetRouterQueryLeafset malloc realloc snr pMin pMax = .ok (0, none)

theorem mem_slotRange {lMin lMax : ℕ} {i : Fin snNetRouterLevels × Fin snNetRouterColumns} :
    i ∈ slotRange lMin lMax ↔ lMin ≤ i.1.val ∧ i.1.val ≤ lMax := by
  simp [slotRange, levelRange, Prod.ext_iff]

theorem pairwise_slotRange (lMin lMax : ℕ) :
    (slotRange lMin lMax).Pairwise (Prod.Lex (· < ·) (· < ·)) := by
  rw [slotRange, List.pairwise_flatMap]
  constructor
  · intro l _
    rw [List.pairwise_map]
    exact (List.pairwise_lt_finRange _).imp fun h => .right _ h
  · refine ((List.pairwise_lt_finRange _).filter _).imp fun {l l'} h i hi i' hi' => ?_
    obtain ⟨c, -, rfl⟩ := List.mem_map.1 hi
    obtain ⟨c', -, rfl⟩ := List.mem_map.1 hi'
    exact .left _ _ h

theorem pairwise_intRange (pMin pMax : ℤ) : (Int.range pMin pMax).Pairwise (· < ·) := by
  rw [Int.range, List.pairwise_map]
  exact List.pairwise_lt_range.imp fun h => by omega

theorem tableAnswers (lMin lMax : ℕ) : TableAnswers mem snr lMin lMax := by
  rw [TableAnswers]
  split_ifs with hrange
  · rw [snNetRouterQueryTable, if_neg (by omega)]
    exact lists_of_loop 1 _ (queryTableLoop_eq hrange.2) (pairwise_slotRange _ _)
      (fun i => mem_slotRange) _ mem
  · intro malloc realloc
    rw [snNetRouterQueryTable, if_pos (by omega)]
    rfl

theorem leafsetAnswers (pMin pMax : ℤ) : LeafsetAnswers mem snr pMin pMax := by
  rw [LeafsetAnswers]
  split_ifs with hrange
  · rw [snNetRouterQueryLeafset, if_neg (by omega)]
    refine lists_of_loop 0 _ (queryLeafsetLoop_eq hrange.1 hrange.2.2) (pairwise_intRange _ _)
      (fun p => ?_) _ mem
    rw [Int.mem_range_iff, Int.lt_add_one_iff]
  · intro malloc realloc
    rw [snNetRouterQueryLeafset, if_pos (by omega)]
    rfl

end Queries
/-! ### The order of a leafset -/

section Order

variable {q : Sorter SnNetEntry} {snr : SnNetRouter}

theorem leafsetEntry_eq_getElem (leafset : Leafset) {i : ℕ} (h : i < leafset.val.length) :
    leafsetEntry leafset i = leafset.val[i] := by
  simp [leafsetEntry, h]

/-- Of two set slots the nearer one comes first. -/
theorem LeafsetInv.leafsetCmp_nonpos {selfAddr : SnNetAddr} {right : Bool} {leafset : Leafset}
    (h : LeafsetInv selfAddr right leafset) {i j : ℕ} (hij : i < j)
    (hj : j < snNetRouterLeafsetSize) (hi : (leafsetEntry leafset i).IsSet)
    (hset : (leafsetEntry leafset j).IsSet) :
    leafsetCmp right (leafsetEntry leafset i) (leafsetEntry leafset j) ≤ 0 := by
  have hlen : j < leafset.val.length := leafset.property.symm ▸ hj
  have hi' : i < leafset.val.length := hij.trans hlen
  have hsorted := List.pairwise_filter.1 h.sorted
  rw [List.pairwise_iff_getElem] at hsorted
  rw [leafsetEntry_eq_getElem leafset hi'] at hi ⊢
  rw [leafsetEntry_eq_getElem leafset hlen] at hset ⊢
  exact hsorted i j hi' hlen hij (by simpa using hi) (by simpa using hset)

theorem LeafsetInv.beyond_leafsetEntry {selfAddr : SnNetAddr} {right : Bool} {leafset : Leafset}
    (h : LeafsetInv selfAddr right leafset) {i : ℕ} (hi : i < snNetRouterLeafsetSize)
    (hset : (leafsetEntry leafset i).IsSet) :
    Beyond right selfAddr (leafsetEntry leafset i).addr := by
  have hlen : i < leafset.val.length := leafset.property.symm ▸ hi
  rw [leafsetEntry_eq_getElem leafset hlen] at hset ⊢
  exact h.beyond _ (Leafset.mem_entries.2 ⟨List.getElem_mem hlen, hset⟩)

/-- **Addresses ascend with the positions.** The left leafset goes down from our own address and is
walked backwards, the right one goes up. -/
theorem addr_entryAt_le (hinv : RouterInv snr) {p p' : ℤ} (hpp : p < p')
    (hmin : -(snNetRouterLeafsetSize : ℤ) ≤ p) (hmax : p' ≤ snNetRouterLeafsetSize)
    (hset : (snr.entryAt p).IsSet) (hset' : (snr.entryAt p').IsSet) :
    (snr.entryAt p).addr ≤ (snr.entryAt p').addr := by
  -- An entry on the left is below our own address, one on the right above it.
  have hleft {p : ℤ} (hp : p < 0) (hmin : -(snNetRouterLeafsetSize : ℤ) ≤ p)
      (hset : (snr.entryAt p).IsSet) : (snr.entryAt p).addr < snr.self.addr := by
    rw [SnNetRouter.entryAt, if_neg (by omega), if_pos hp] at hset ⊢
    exact (hinv.leafset false).beyond_leafsetEntry (by omega) hset
  have hright {p : ℤ} (hp : p > 0) (hmax : p ≤ snNetRouterLeafsetSize)
      (hset : (snr.entryAt p).IsSet) : snr.self.addr < (snr.entryAt p).addr := by
    rw [SnNetRouter.entryAt, if_pos hp] at hset ⊢
    exact (hinv.leafset true).beyond_leafsetEntry (by omega) hset
  have hself : snr.entryAt 0 = snr.self := rfl
  rcases lt_trichotomy p 0 with hp | rfl | hp
  · have hlt := hleft hp hmin hset
    rcases lt_trichotomy p' 0 with hp' | rfl | hp'
    · rw [SnNetRouter.entryAt, if_neg (by omega), if_pos hp] at hset ⊢
      rw [SnNetRouter.entryAt, if_neg (by omega), if_pos hp'] at hset' ⊢
      exact leafsetCmp_nonpos_iff.1
        ((hinv.leafset false).leafsetCmp_nonpos (by omega) (by omega) hset' hset)
    · exact hlt.le
    · exact (hlt.trans (hright hp' hmax hset')).le
  · exact (hright hpp hmax hset').le
  · have hp' : p' > 0 := hp.trans hpp
    rw [SnNetRouter.entryAt, if_pos hp] at hset ⊢
    rw [SnNetRouter.entryAt, if_pos hp'] at hset' ⊢
    exact leafsetCmp_nonpos_iff.1
      ((hinv.leafset true).leafsetCmp_nonpos (by omega) (by omega) hset hset')

/-- The addresses of the records of an answer, in their order. -/
def SnNetRouterQuerySer.addrs (ret : SnNetRouterQuerySer) : List SnNetAddr :=
  ret.records.map fun r => snNetAddrDeser r.entry.addr

/-- The addresses of a leafset answer ascend. -/
theorem pairwise_addrs (hinv : RouterInv snr) {mem : ℕ → SnNetRouterEntrySer} {pMin pMax : ℤ}
    {size : ℕ} {ret : SnNetRouterQuerySer}
    (h : snNetRouterQueryLeafset (some mem) true snr pMin pMax = .ok (size, some ret)) :
    ret.addrs.Pairwise (· ≤ ·) := by
  have hanswers := leafsetAnswers mem snr pMin pMax
  rw [LeafsetAnswers] at hanswers
  split_ifs at hanswers with hrange
  · obtain ⟨answer, hanswer, hlists⟩ := hanswers
    obtain ⟨size', ret', rfl, items, hsorted, hitems, hrecords, -, -⟩ := hlists
    rw [h] at hanswer
    cases hanswer
    have haddrs : ret.addrs = items.map fun p => (snr.entryAt p).addr := by
      refine (List.forall₂_eq_eq_eq ▸ ?_ : _ = _).symm
      rw [SnNetRouterQuerySer.addrs, List.forall₂_map_left_iff, List.forall₂_map_right_iff]
      exact hrecords.imp fun p r hr => hr.addr_eq.symm
    rw [haddrs, List.pairwise_map]
    refine hsorted.imp_of_mem fun {p p'} hp hp' hpp => ?_
    obtain ⟨⟨hmin, -⟩, hser⟩ := (hitems p).1 hp
    obtain ⟨⟨-, hmax⟩, hser'⟩ := (hitems p').1 hp'
    exact addr_entryAt_le hinv hpp (hrange.1.trans hmin) (hmax.trans hrange.2.2) hser.1 hser'.1
  · rw [hanswers] at h
    cases h

/-- **Queries list exactly the range.** Whatever the memory held, every query with an accepted range
answers with one record for each entry of the range that is set and whose network address is an IPv4
address or a path, in increasing order, and every other query answers with nothing. The addresses of
a leafset answer of a reachable router ascend. -/
theorem queries_list_range (mem : ℕ → SnNetRouterEntrySer) (snr : SnNetRouter) :
    (∀ lMin lMax, TableAnswers mem snr lMin lMax) ∧
    (∀ pMin pMax, LeafsetAnswers mem snr pMin pMax) ∧
    ∀ q, Reachable q snr → ∀ pMin pMax size ret,
      snNetRouterQueryLeafset (some mem) true snr pMin pMax = .ok (size, some ret) →
        ret.addrs.Pairwise (· ≤ ·) :=
  ⟨tableAnswers mem snr, leafsetAnswers mem snr, fun _ h _ _ _ _ hquery =>
    pairwise_addrs (RouterInv.of_reachable h) hquery⟩

/-- The router on 4f5e22 that knows nodes on both sides lists them in order. -/
theorem queries_list_range_of_add_add : ∃ snr,
    routerOn4f5e22 [.add (.ofBytes [0x88]) (some naddr1111),
      .add (.ofBytes [0x18]) (some naddr1111)] = .ok snr ∧
    ∃ size ret, snNetRouterQueryLeafset (some fun _ => .zero) true snr (-8) 8 =
      .ok (size, some ret) ∧ ret.addrs = [.ofBytes [0x18], .ofBytes [0x88]] ∧
      ret.addrs.Pairwise (· ≤ ·) := by
  have hobs : (routerOn4f5e22 [.add (.ofBytes [0x88]) (some naddr1111),
      .add (.ofBytes [0x18]) (some naddr1111)]).toOption.map (fun snr =>
        (snNetRouterQueryLeafset (some fun _ => .zero) true snr (-8) 8).toOption.map
          fun r => r.2.map SnNetRouterQuerySer.addrs) =
      some (some (some [.ofBytes [0x18], .ofBytes [0x88]])) := by
    decide +kernel
  obtain ⟨snr, hrun, hmap⟩ := exists_ok_of_toOption_map hobs
  obtain ⟨⟨size, answer⟩, hquery, hanswer⟩ := exists_ok_of_toOption_map hmap
  obtain ⟨ret, rfl, haddrs⟩ := Option.map_eq_some_iff.1 hanswer
  exact ⟨snr, hrun, size, ret, hquery, haddrs, (queries_list_range _ snr).2.2 _
    (reachable_routerOn4f5e22 hrun) _ _ _ _ hquery⟩

end Order

end SndNet
