import Mathlib.Algebra.Order.BigOperators.Group.List
import Mathlib.Data.Int.Range
import Mathlib.Data.List.Intervals
import SndNet.Net.EntrySer
import SndNet.Net.Router.Nexthop
import SndNet.Net.Router.Table

/-!
# Queries of the router

A query serialises the set entries of some rows of the table, or of some positions of the leafset,
one after the other into a buffer that has been allocated for a number of records
(`src/net/router.c`, lines 210–353). For the leafset there is room for every position. For the rows
`l_min` to `l_max` there is room for `(l_max - l_min) * 16 + 1` records, which is short of a row:
this file says exactly when that is enough.

## Main definitions

* `SndNet.snNetRouterTableGet`, `SndNet.snNetRouterLeafsetGet`: the entry at a place.
* `SndNet.snNetRouterQueryTable`, `SndNet.snNetRouterQueryLeafset`: the queries.
* `SndNet.Serialises`: an entry that a query stores.
* `SndNet.TableFits`, `SndNet.LeafsetFits`: a query stores no more records than there is room for.
* `SndNet.writtenRecords`: the records that a query writes, stored or not.

## Main results

* `SndNet.queries_fit_iff`: leafset queries always fit, and table queries exactly when at most
  `(l_max - l_min) * 16 + 1` entries of the rows serialise.
* `SndNet.tableWrites_behind_iff`: when a query that fits still writes behind its memory.
* `SndNet.tableFits_of_reachable`: in a reachable state queries of fifteen rows or more fit.
-/

namespace SndNet

open FallibleRun

/-! ### The functions of the source -/

/-- `sn_net_router_table_get` (`src/net/router.c`, lines 210–216). A level or a column outside the
table makes the access stop. -/
def snNetRouterTableGet (snr : SnNetRouter) (level column : ℕ) : Exec SnNetEntry := do
  cAssert (level ≤ snNetRouterLevels)
  cAssert (column ≤ snNetRouterColumns)
  if h : level < snNetRouterLevels ∧ column < snNetRouterColumns then
    return snr.table ⟨level, h.1⟩ ⟨column, h.2⟩
  else .error .outOfBounds

/-- `sn_net_router_leafset_get` (`src/net/router.c`, lines 218–230). -/
def snNetRouterLeafsetGet (snr : SnNetRouter) (position : ℤ) : Exec SnNetEntry := do
  cAssert (position ≤ snNetRouterLeafsetSize)
  cAssert (-snNetRouterLeafsetSize ≤ position)
  if position > 0 then snr.rightLeafset.read (position - 1).toNat
  else if position < 0 then snr.leftLeafset.read (-position - 1).toNat
  else return snr.self

/-- The union of `sn_net_router_entry_ser_t`, with the place of an entry. -/
inductive SnNetRouterPlaceSer where
  | slot (level column : ℕ)
  | position (position : ℤ)
  deriving DecidableEq

/-- `sn_net_router_entry_ser_t`: a record of a query. -/
structure SnNetRouterEntrySer where
  isTable : UInt8
  place : SnNetRouterPlaceSer
  entry : SnNetEntrySer
  deriving DecidableEq

/-- The record of zero bytes. -/
def SnNetRouterEntrySer.zero : SnNetRouterEntrySer :=
  ⟨0, .slot 0 0, 0, snNetAddrSer .zero, 0, .replicate _ 0⟩

/-- `sn_net_router_query_ser_t`: the result of a query, in memory that has been allocated for
`maxSize` records. The records hold anything before they are written, and a write after the last of
them goes on in the memory behind. -/
structure SnNetRouterQuerySer where
  maxSize : ℕ
  entriesLen : ℕ
  entries : ℕ → SnNetRouterEntrySer

/-- `sizeof(sn_net_router_query_ser_t)`. -/
abbrev sizeofQuerySer : ℕ := 4

/-- `sizeof(sn_net_router_entry_ser_t)`, with the members at their alignments. -/
abbrev sizeofEntrySer : ℕ := 64

/-- What a query does with the entry at a place: a set entry is written into the record after those
stored, which counts as stored when the entry can be serialised. -/
def queryStore (isTable : UInt8) (place : SnNetRouterPlaceSer) (e : SnNetEntry)
    (ret : SnNetRouterQuerySer) : SnNetRouterQuerySer :=
  if e.IsSet then
    let eSer := ret.entries ret.entriesLen
    let r := snNetEntrySer e eSer.entry
    if r.1 = 0 then
      { ret with
        entries := Function.update ret.entries ret.entriesLen ⟨isTable, place, r.2⟩
        entriesLen := ret.entriesLen + 1 }
    else { ret with
      entries := Function.update ret.entries ret.entriesLen { eSer with entry := r.2 } }
  else ret

/-- The loops of `sn_net_router_query_table`. -/
def queryTableLoop (snr : SnNetRouter) (lMin lMax : ℕ) (ret : SnNetRouterQuerySer) :
    Exec SnNetRouterQuerySer :=
  run (fun ret l => run (fun ret c => do
      let e ← snNetRouterTableGet snr l c
      return queryStore 1 (.slot l c) e ret) ret (List.range snNetRouterColumns))
    ret (List.Ico lMin (lMax + 1))

/-- The loop of `sn_net_router_query_leafset`. -/
def queryLeafsetLoop (snr : SnNetRouter) (pMin pMax : ℤ) (ret : SnNetRouterQuerySer) :
    Exec SnNetRouterQuerySer :=
  run (fun ret p => do
      let e ← snNetRouterLeafsetGet snr p
      return queryStore 0 (.position p) e ret)
    ret (Int.range pMin (pMax + 1))

/-- What both queries do once the range is accepted: `malloc` fails or returns memory with some
content, and `realloc` fails or not. -/
def queryRun (malloc : Option (ℕ → SnNetRouterEntrySer)) (realloc : Bool) (maxSize : ℕ)
    (loop : SnNetRouterQuerySer → Exec SnNetRouterQuerySer) :
    Exec (ℕ × Option SnNetRouterQuerySer) :=
  match malloc with
  | none => return (0, none)
  | some mem => do
    let ret ← loop ⟨maxSize, 0, mem⟩
    if realloc then return (sizeofQuerySer + ret.entriesLen * sizeofEntrySer, some ret)
    else return (0, none)

/-- `sn_net_router_query_table` (`src/net/router.c`, lines 256–305): the return value and what
`*out_query` points to. -/
def snNetRouterQueryTable (malloc : Option (ℕ → SnNetRouterEntrySer)) (realloc : Bool)
    (snr : SnNetRouter) (lMin lMax : ℕ) : Exec (ℕ × Option SnNetRouterQuerySer) :=
  if lMin ≥ snNetRouterLevels ∨ lMax ≥ snNetRouterLevels ∨ lMax < lMin then return (0, none)
  else queryRun malloc realloc ((lMax - lMin) * snNetRouterColumns + 1)
    (queryTableLoop snr lMin lMax)

/-- `sn_net_router_query_leafset` (`src/net/router.c`, lines 307–353). -/
def snNetRouterQueryLeafset (malloc : Option (ℕ → SnNetRouterEntrySer)) (realloc : Bool)
    (snr : SnNetRouter) (pMin pMax : ℤ) : Exec (ℕ × Option SnNetRouterQuerySer) :=
  if pMin < -snNetRouterLeafsetSize ∨ pMax > snNetRouterLeafsetSize ∨ pMax < pMin then
    return (0, none)
  else queryRun malloc realloc (pMax - pMin + 1).toNat (queryLeafsetLoop snr pMin pMax)

/-! ### What the loops store -/

/-- An entry that a query stores: it is set, and its network address can be serialised. -/
def Serialises (e : SnNetEntry) : Prop :=
  e.IsSet ∧ (e.netAddr.saFamily = afInet ∨ e.netAddr.saFamily = afUnix)

instance (e : SnNetEntry) : Decidable (Serialises e) := inferInstanceAs (Decidable (_ ∧ _))

section Store

variable (isTable : UInt8) (place : SnNetRouterPlaceSer) (e : SnNetEntry)
  (ret : SnNetRouterQuerySer)

@[simp] theorem queryStore_maxSize : (queryStore isTable place e ret).maxSize = ret.maxSize := by
  rw [queryStore]
  by_cases hset : e.IsSet
  · by_cases hser : (snNetEntrySer e (ret.entries ret.entriesLen).entry).1 = 0 <;> simp [hset, hser]
  · rw [if_neg hset]

theorem queryStore_entriesLen : (queryStore isTable place e ret).entriesLen =
    ret.entriesLen + if Serialises e then 1 else 0 := by
  rw [queryStore]
  by_cases hset : e.IsSet
  · by_cases hser : (snNetEntrySer e (ret.entries ret.entriesLen).entry).1 = 0
    · have h : Serialises e := ⟨hset, (snNetEntrySer_eq_zero_iff _).1 hser⟩
      simp [hset, hser, h]
    · have h : ¬ Serialises e := fun h => hser ((snNetEntrySer_eq_zero_iff _).2 h.2)
      simp [hset, hser, h]
  · have h : ¬ Serialises e := fun h => hset h.1
    simp [hset, h]

/-- Only the record behind those stored is written. -/
theorem queryStore_entries_of_ne {k : ℕ} (h : e.IsSet → k ≠ ret.entriesLen) :
    (queryStore isTable place e ret).entries k = ret.entries k := by
  rw [queryStore]
  by_cases hset : e.IsSet
  · by_cases hser : (snNetEntrySer e (ret.entries ret.entriesLen).entry).1 = 0
    · simp [hset, hser, Function.update_of_ne (h hset)]
    · simp [hset, hser, Function.update_of_ne (h hset)]
  · rw [if_neg hset]

end Store

/-- A result after the entries at the places `items` have been handled in order. -/
def storeAll {ι : Type} (isTable : UInt8) (place : ι → SnNetRouterPlaceSer)
    (entry : ι → SnNetEntry) (items : List ι) (ret : SnNetRouterQuerySer) : SnNetRouterQuerySer :=
  items.foldl (fun ret i => queryStore isTable (place i) (entry i) ret) ret

section StoreAll

variable {ι : Type} (isTable : UInt8) (place : ι → SnNetRouterPlaceSer) (entry : ι → SnNetEntry)
  (items : List ι) (ret : SnNetRouterQuerySer)

@[simp] theorem storeAll_maxSize :
    (storeAll isTable place entry items ret).maxSize = ret.maxSize := by
  rw [storeAll]
  induction items generalizing ret with
  | nil => rfl
  | cons i items ih => rw [List.foldl_cons, ih, queryStore_maxSize]

theorem storeAll_entriesLen : (storeAll isTable place entry items ret).entriesLen =
    ret.entriesLen + items.countP fun i => Serialises (entry i) := by
  rw [storeAll]
  induction items generalizing ret with
  | nil => rfl
  | cons i items ih =>
    rw [List.foldl_cons, ih, queryStore_entriesLen, List.countP_cons]
    simp only [decide_eq_true_eq]
    omega

end StoreAll

/-- The records that are written when the entries at the places `items` are handled with `n` records
stored before. An entry that cannot be serialised is written, too. -/
def writtenRecords {ι : Type} (entry : ι → SnNetEntry) : ℕ → List ι → List ℕ
  | _, [] => []
  | n, i :: items => (if (entry i).IsSet then [n] else []) ++
      writtenRecords entry (n + if Serialises (entry i) then 1 else 0) items

section Written

variable {ι : Type} {entry : ι → SnNetEntry} {items : List ι} {n k : ℕ}

/-- Every other record stays as it was. -/
theorem storeAll_entries_of_notMem (isTable : UInt8) (place : ι → SnNetRouterPlaceSer)
    {ret : SnNetRouterQuerySer} (h : k ∉ writtenRecords entry ret.entriesLen items) :
    (storeAll isTable place entry items ret).entries k = ret.entries k := by
  induction items generalizing ret with
  | nil => rfl
  | cons i items ih =>
    rw [writtenRecords, List.mem_append, not_or, ← queryStore_entriesLen isTable (place i)] at h
    rw [storeAll, List.foldl_cons]
    refine (ih h.2).trans (queryStore_entries_of_ne _ _ _ _ fun hset => ?_)
    rw [if_pos hset, List.mem_singleton] at h
    exact h.1

/-- **Where a query writes.** Every set entry is written behind the ones before it that have been
stored. -/
theorem mem_writtenRecords : k ∈ writtenRecords entry n items ↔
    ∃ done i rest, items = done ++ i :: rest ∧ (entry i).IsSet ∧
      k = n + done.countP fun i => Serialises (entry i) := by
  induction items generalizing n with
  | nil => simp [writtenRecords]
  | cons i items ih =>
    rw [writtenRecords, List.mem_append, ih]
    constructor
    · rintro (hk | ⟨done, j, rest, rfl, hset, rfl⟩)
      · split_ifs at hk with hset
        · exact ⟨[], i, items, rfl, hset, List.mem_singleton.1 hk⟩
        · exact absurd hk List.not_mem_nil
      · refine ⟨i :: done, j, rest, rfl, hset, ?_⟩
        rw [List.countP_cons]
        simp only [decide_eq_true_eq]
        omega
    · rintro ⟨done, j, rest, heq, hset, rfl⟩
      rcases done with _ | ⟨i', done⟩
      · obtain ⟨rfl, -⟩ := List.cons.inj heq
        rw [if_pos hset]
        exact Or.inl (List.mem_singleton_self _)
      · obtain ⟨rfl, rfl⟩ := List.cons.inj heq
        refine Or.inr ⟨done, j, rest, rfl, hset, ?_⟩
        rw [List.countP_cons]
        simp only [decide_eq_true_eq]
        omega

/-- A query that stores no more than `max` records writes behind them only when it has stored that
many and a set entry follows that cannot be serialised. -/
theorem exists_written_behind_iff {max : ℕ}
    (hfits : (items.countP fun i => Serialises (entry i)) ≤ max) :
    (∃ k ∈ writtenRecords entry 0 items, max ≤ k) ↔
      ∃ done i rest, items = done ++ i :: rest ∧ (entry i).IsSet ∧ ¬ Serialises (entry i) ∧
        (done.countP fun i => Serialises (entry i)) = max := by
  simp only [mem_writtenRecords, Nat.zero_add]
  constructor
  · rintro ⟨k, ⟨done, i, rest, rfl, hset, rfl⟩, hle⟩
    rw [List.countP_append, List.countP_cons] at hfits
    have hnot : ¬ Serialises (entry i) := by
      intro hser
      rw [if_pos (decide_eq_true hser)] at hfits
      omega
    exact ⟨done, i, rest, rfl, hset, hnot, by omega⟩
  · rintro ⟨done, i, rest, heq, hset, -, hcount⟩
    exact ⟨_, ⟨done, i, rest, heq, hset, rfl⟩, hcount.ge⟩

end Written

/-! ### The table -/

section Table

variable {snr : SnNetRouter} {lMin lMax : ℕ}

/-- The levels of a range, in order. -/
def levelRange (lMin lMax : ℕ) : List (Fin snNetRouterLevels) :=
  (List.finRange snNetRouterLevels).filter fun l => lMin ≤ l.val ∧ l.val ≤ lMax

/-- The slots of a range of levels, row by row. -/
def slotRange (lMin lMax : ℕ) : List (Fin snNetRouterLevels × Fin snNetRouterColumns) :=
  (levelRange lMin lMax).flatMap fun l => (List.finRange snNetRouterColumns).map fun c => (l, c)

theorem map_val_levelRange (hlevels : lMax < snNetRouterLevels) :
    (levelRange lMin lMax).map Fin.val = List.Ico lMin (lMax + 1) := by
  have hfilter : levelRange lMin lMax = (List.finRange snNetRouterLevels).filter
      ((fun l => decide (lMin ≤ l ∧ l ≤ lMax)) ∘ Fin.val) := rfl
  rw [hfilter, ← List.filter_map, List.map_coe_finRange_eq_range, ← List.Ico.zero_bot]
  have hsplit : (List.Ico 0 snNetRouterLevels).filter (fun l => decide (lMin ≤ l ∧ l ≤ lMax)) =
      ((List.Ico 0 snNetRouterLevels).filter fun l => lMin ≤ l).filter fun l => l < lMax + 1 := by
    rw [List.filter_filter]
    refine List.filter_congr fun l _ => ?_
    simp only [Nat.lt_succ_iff, Bool.decide_and, Bool.and_comm]
  rw [hsplit, List.Ico.filter_le, List.Ico.filter_lt, Nat.zero_max, Nat.min_eq_right hlevels]

theorem snNetRouterTableGet_eq (snr : SnNetRouter) (l : Fin snNetRouterLevels)
    (c : Fin snNetRouterColumns) : snNetRouterTableGet snr l c = .ok (snr.table l c) := by
  have hin : l.val < snNetRouterLevels ∧ c.val < snNetRouterColumns := ⟨l.isLt, c.isLt⟩
  rw [snNetRouterTableGet, cAssert_of hin.1.le, cAssert_of hin.2.le, ok_bind, ok_bind, dif_pos hin]
  rfl

/-- The loops handle the slots of the range, row by row. -/
theorem queryTableLoop_eq (hlevels : lMax < snNetRouterLevels) (ret : SnNetRouterQuerySer) :
    queryTableLoop snr lMin lMax ret = .ok (storeAll 1 (fun i => .slot i.1.val i.2.val)
      (fun i => snr.table i.1 i.2) (slotRange lMin lMax) ret) := by
  have hrow (ret : SnNetRouterQuerySer) (l : Fin snNetRouterLevels) :
      run (fun ret c => do
        let e ← snNetRouterTableGet snr l c
        return queryStore 1 (.slot l c) e ret) ret (List.range snNetRouterColumns) =
      .ok (storeAll 1 (fun c : Fin snNetRouterColumns => .slot l.val c.val) (snr.table l)
        (List.finRange snNetRouterColumns) ret) := by
    rw [← List.map_coe_finRange_eq_range, run_map]
    refine run_eq_ok_foldl (fun ret c _ => ?_) ret
    rw [snNetRouterTableGet_eq, ok_bind]
    rfl
  rw [queryTableLoop, ← map_val_levelRange hlevels, run_map,
    run_eq_ok_foldl (fun ret l _ => hrow ret l), slotRange, storeAll, List.foldl_flatMap]
  simp only [List.foldl_map, storeAll]

/-- The number of entries in the rows of a range that serialise. -/
def serialisedCount (snr : SnNetRouter) (lMin lMax : ℕ) : ℕ :=
  (slotRange lMin lMax).countP fun i => Serialises (snr.table i.1 i.2)

/-- A table query stores no more records than there is room for: whatever the memory held, the
query returns a result that is not longer than what was allocated. -/
def TableFits (snr : SnNetRouter) (lMin lMax : ℕ) : Prop :=
  ∀ mem, ∃ size ret, snNetRouterQueryTable (some mem) true snr lMin lMax = .ok (size, some ret) ∧
    ret.entriesLen ≤ ret.maxSize

/-- **When a table query fits.** An accepted range has room for one record, and for a row of them
for every level after the first. -/
theorem tableFits_iff (hl : lMin ≤ lMax) (hlevels : lMax < snNetRouterLevels) :
    TableFits snr lMin lMax ↔
      serialisedCount snr lMin lMax ≤ (lMax - lMin) * snNetRouterColumns + 1 := by
  have haccepted : ¬ (lMin ≥ snNetRouterLevels ∨ lMax ≥ snNetRouterLevels ∨ lMax < lMin) := by
    omega
  have hresult (mem : ℕ → SnNetRouterEntrySer) : ∃ size ret,
      snNetRouterQueryTable (some mem) true snr lMin lMax = .ok (size, some ret) ∧
        ret.maxSize = (lMax - lMin) * snNetRouterColumns + 1 ∧
        ret.entriesLen = serialisedCount snr lMin lMax := by
    rw [snNetRouterQueryTable, if_neg haccepted, queryRun, queryTableLoop_eq hlevels, ok_bind,
      if_pos rfl]
    refine ⟨_, _, rfl, storeAll_maxSize _ _ _ _ _, ?_⟩
    rw [storeAll_entriesLen, Nat.zero_add, serialisedCount]
  constructor
  · intro hfits
    obtain ⟨size, ret, hret, hmax, hlen⟩ := hresult fun _ => .zero
    obtain ⟨size', ret', hret', hle⟩ := hfits _
    rw [hret] at hret'
    cases hret'
    rwa [hlen, hmax] at hle
  · intro hle mem
    obtain ⟨size, ret, hret, hmax, hlen⟩ := hresult mem
    exact ⟨size, ret, hret, by rwa [hlen, hmax]⟩

/-- A table query leaves every other record as it was. -/
theorem queryTable_entries_of_notMem (hl : lMin ≤ lMax) (hlevels : lMax < snNetRouterLevels)
    {mem : ℕ → SnNetRouterEntrySer} {size k : ℕ} {ret : SnNetRouterQuerySer}
    (h : snNetRouterQueryTable (some mem) true snr lMin lMax = .ok (size, some ret))
    (hk : k ∉ writtenRecords (fun i => snr.table i.1 i.2) 0 (slotRange lMin lMax)) :
    ret.entries k = mem k := by
  rw [snNetRouterQueryTable, if_neg (by omega), queryRun, queryTableLoop_eq hlevels, ok_bind,
    if_pos rfl] at h
  cases h
  exact storeAll_entries_of_notMem _ _ hk

/-- **When a table query that fits writes behind its memory.** Its result must be full, and a set
entry must follow that does not serialise: it is written into the record behind the last one. -/
theorem tableWrites_behind_iff (hl : lMin ≤ lMax) (hlevels : lMax < snNetRouterLevels)
    (hfits : TableFits snr lMin lMax) :
    (∃ k ∈ writtenRecords (fun i => snr.table i.1 i.2) 0 (slotRange lMin lMax),
        (lMax - lMin) * snNetRouterColumns + 1 ≤ k) ↔
      ∃ done i rest, slotRange lMin lMax = done ++ i :: rest ∧ (snr.table i.1 i.2).IsSet ∧
        ¬ Serialises (snr.table i.1 i.2) ∧
        (done.countP fun i => Serialises (snr.table i.1 i.2)) =
          (lMax - lMin) * snNetRouterColumns + 1 :=
  exists_written_behind_iff ((tableFits_iff hl hlevels).1 hfits)

end Table

/-! ### The leafset -/

section Leafset

variable {snr : SnNetRouter} {pMin pMax : ℤ}

/-- The entry at a position: on the left for negative positions, on the right for positive ones. -/
def SnNetRouter.entryAt (snr : SnNetRouter) (position : ℤ) : SnNetEntry :=
  if position > 0 then leafsetEntry snr.rightLeafset (position - 1).toNat
  else if position < 0 then leafsetEntry snr.leftLeafset (-position - 1).toNat
  else snr.self

theorem read_eq_leafsetEntry (leafset : Leafset) {i : ℕ} (h : i < snNetRouterLeafsetSize) :
    leafset.read i = .ok (leafsetEntry leafset i) := by
  have hi : i < leafset.val.length := leafset.property.symm ▸ h
  simp [leafset.read_of_lt h, leafsetEntry, hi]

theorem snNetRouterLeafsetGet_eq (snr : SnNetRouter) {p : ℤ}
    (hmin : -(snNetRouterLeafsetSize : ℤ) ≤ p) (hmax : p ≤ snNetRouterLeafsetSize) :
    snNetRouterLeafsetGet snr p = .ok (snr.entryAt p) := by
  rw [snNetRouterLeafsetGet, cAssert_of hmax, cAssert_of hmin, ok_bind, ok_bind,
    SnNetRouter.entryAt]
  by_cases hpos : p > 0
  · rw [if_pos hpos, if_pos hpos, read_eq_leafsetEntry _ (by omega)]
  · rw [if_neg hpos, if_neg hpos]
    by_cases hneg : p < 0
    · rw [if_pos hneg, if_pos hneg, read_eq_leafsetEntry _ (by omega)]
    · rw [if_neg hneg, if_neg hneg]
      rfl

/-- The loop handles the positions of the range in order. -/
theorem queryLeafsetLoop_eq (hmin : -(snNetRouterLeafsetSize : ℤ) ≤ pMin)
    (hmax : pMax ≤ snNetRouterLeafsetSize) (ret : SnNetRouterQuerySer) :
    queryLeafsetLoop snr pMin pMax ret =
      .ok (storeAll 0 .position snr.entryAt (Int.range pMin (pMax + 1)) ret) := by
  refine run_eq_ok_foldl (fun ret p hp => ?_) ret
  rw [Int.mem_range_iff] at hp
  rw [snNetRouterLeafsetGet_eq snr (by omega) (by omega), ok_bind]
  rfl

/-- A leafset query stores no more records than there is room for. -/
def LeafsetFits (snr : SnNetRouter) (pMin pMax : ℤ) : Prop :=
  ∀ mem, ∃ size ret, snNetRouterQueryLeafset (some mem) true snr pMin pMax = .ok (size, some ret) ∧
    ret.entriesLen ≤ ret.maxSize

/-- **Leafset queries fit.** An accepted range has room for every position. -/
theorem leafsetFits (hmin : -(snNetRouterLeafsetSize : ℤ) ≤ pMin) (hp : pMin ≤ pMax)
    (hmax : pMax ≤ snNetRouterLeafsetSize) : LeafsetFits snr pMin pMax := by
  intro mem
  have haccepted : ¬ (pMin < -(snNetRouterLeafsetSize : ℤ) ∨ pMax > snNetRouterLeafsetSize ∨
      pMax < pMin) := by
    omega
  rw [snNetRouterQueryLeafset, if_neg haccepted, queryRun, queryLeafsetLoop_eq hmin hmax, ok_bind,
    if_pos rfl]
  refine ⟨_, _, rfl, ?_⟩
  rw [storeAll_entriesLen, storeAll_maxSize, Nat.zero_add]
  refine List.countP_le_length.trans ?_
  rw [Int.range, List.length_map, List.length_range]
  exact Int.toNat_le_toNat (by omega)

/-- A leafset query writes inside its memory. -/
theorem leafsetWrites_inside (hp : pMin ≤ pMax) :
    ∀ k ∈ writtenRecords snr.entryAt 0 (Int.range pMin (pMax + 1)),
      k < (pMax - pMin + 1).toNat := by
  intro k hk
  obtain ⟨done, p, rest, hrange, -, rfl⟩ := mem_writtenRecords.1 hk
  have hlen := congrArg List.length hrange
  rw [Int.range, List.length_map, List.length_range, List.length_append, List.length_cons] at hlen
  have hcount : (done.countP fun p => Serialises (snr.entryAt p)) ≤ done.length :=
    List.countP_le_length
  omega

end Leafset

/-! ### Both queries -/

section Queries

variable {q : Sorter SnNetEntry} {snr : SnNetRouter} {lMin lMax : ℕ}

/-- The column of our own digit at a level. -/
def ownColumn (self : SnNetAddr) (l : Fin snNetRouterLevels) : Fin snNetRouterColumns :=
  ⟨((snNetAddrGetHex self).get ⟨l.val, by rw [length_snNetAddrGetHex]; exact l.isLt⟩).toNat,
    UInt8.lt_iff_toNat_lt.1 (lt_of_mem_bytestringToHexstring (List.get_mem _ _))⟩

/-- A router has no entry in the columns of its own digits. -/
theorem ne_ownColumn (hinv : RouterInv snr) {i : Fin snNetRouterLevels × Fin snNetRouterColumns}
    (hset : (snr.table i.1 i.2).IsSet) : i.2 ≠ ownColumn snr.self.addr i.1 := by
  obtain ⟨hne, hidx⟩ := hinv.tableIndex_eq hset
  obtain ⟨-, -, hdigit⟩ := ((hasIndex_iff hne).2 hidx).digits
  intro hown
  refine hdigit ?_
  rw [hown, ownColumn]
  simp

/-- A row has at most fifteen entries, since none is in the column of our own digit. -/
theorem serialisedCount_le (hinv : RouterInv snr) (hlevels : lMax < snNetRouterLevels) :
    serialisedCount snr lMin lMax ≤ 15 * (lMax + 1 - lMin) := by
  have hrow (l : Fin snNetRouterLevels) :
      ((List.finRange snNetRouterColumns).countP fun c => Serialises (snr.table l c)) ≤ 15 := by
    refine Nat.le_of_lt_succ (lt_of_le_of_ne List.countP_le_length fun hall => ?_)
    have hown := List.countP_eq_length.1 hall (ownColumn snr.self.addr l) (List.mem_finRange _)
    exact ne_ownColumn (i := (l, _)) hinv (of_decide_eq_true hown).1 rfl
  have hlength : (levelRange lMin lMax).length = lMax + 1 - lMin := by
    rw [← List.length_map Fin.val, map_val_levelRange hlevels, List.Ico.length]
  rw [serialisedCount, slotRange, List.countP_flatMap, ← hlength, mul_comm]
  refine (List.sum_le_card_nsmul _ 15 fun n hn => ?_).trans_eq (by rw [List.length_map]; rfl)
  obtain ⟨l, -, rfl⟩ := List.mem_map.1 hn
  rw [Function.comp_apply, List.countP_map]
  exact hrow l

/-- **Queries of many rows fit.** In a reachable state, where no row has an entry in the column of
the router's own digit, a query of fifteen rows or more fits. -/
theorem tableFits_of_reachable (h : Reachable q snr) (hlevels : lMax < snNetRouterLevels)
    (hrows : lMin + 14 ≤ lMax) : TableFits snr lMin lMax := by
  rw [tableFits_iff (by omega) hlevels]
  refine (serialisedCount_le (RouterInv.of_reachable h) hlevels).trans ?_
  change 15 * (lMax + 1 - lMin) ≤ (lMax - lMin) * 16 + 1
  omega

/-- **When the results of queries fit.** For every router, in particular for one reached by
additions, and for every accepted range of levels and of positions: the result of the leafset query
fits, and that of the table query fits exactly when at most `(lMax - lMin) * 16 + 1` entries of its
rows serialise. This is about the records that are stored: a result that fits and is full is still
followed by the record of a set entry that does not serialise, if there is one behind
(`SndNet.tableWrites_behind_iff`). -/
theorem queries_fit_iff (snr : SnNetRouter) (hl : lMin ≤ lMax) (hlevels : lMax < snNetRouterLevels)
    {pMin pMax : ℤ} (hmin : -8 ≤ pMin) (hp : pMin ≤ pMax) (hmax : pMax ≤ 8) :
    (TableFits snr lMin lMax ↔
      serialisedCount snr lMin lMax ≤ (lMax - lMin) * snNetRouterColumns + 1) ∧
    LeafsetFits snr pMin pMax :=
  ⟨tableFits_iff hl hlevels, leafsetFits hmin hp hmax⟩

/-- The network address INET:1.1.1.1:1111. -/
def naddr1111 : SnIoNaddr := ⟨afInet, .padded _ [0x04, 0x57, 1, 1, 1, 1] 0⟩

/-- One record for the first row is enough for the router on 4f5e22 that knows 888888. -/
theorem queries_fit_of_add : ∃ snr,
    routerOn4f5e22 [.add (.ofBytes [0x88, 0x88, 0x88]) (some naddr1111)] = .ok snr ∧
    TableFits snr 0 0 ∧ LeafsetFits snr (-8) 8 := by
  have hobs : (routerOn4f5e22 [.add (.ofBytes [0x88, 0x88, 0x88]) (some naddr1111)]).toOption.map
      (fun snr => serialisedCount snr 0 0) = some 1 := by
    decide +kernel
  obtain ⟨snr, hrun, hcount⟩ := exists_ok_of_toOption_map hobs
  have hlevels : 0 < snNetRouterLevels := by decide
  have hp : (-8 : ℤ) ≤ 8 := by decide
  obtain ⟨htable, hleafset⟩ := queries_fit_iff snr le_rfl hlevels le_rfl hp le_rfl
  exact ⟨snr, hrun, htable.2 hcount.le, hleafset⟩

/-- It is not enough once 4f5e22 knows 988888 as well. -/
theorem queries_not_fit_of_add_add : ∃ snr,
    routerOn4f5e22 [.add (.ofBytes [0x88, 0x88, 0x88]) (some naddr1111),
      .add (.ofBytes [0x98, 0x88, 0x88]) (some naddr1111)] = .ok snr ∧ ¬ TableFits snr 0 0 := by
  have hobs : (routerOn4f5e22 [.add (.ofBytes [0x88, 0x88, 0x88]) (some naddr1111),
      .add (.ofBytes [0x98, 0x88, 0x88]) (some naddr1111)]).toOption.map
      (fun snr => serialisedCount snr 0 0) = some 2 := by
    decide +kernel
  obtain ⟨snr, hrun, hcount⟩ := exists_ok_of_toOption_map hobs
  refine ⟨snr, hrun, fun hfits => ?_⟩
  have hle := (tableFits_iff le_rfl (by decide)).1 hfits
  rw [hcount] at hle
  exact absurd hle (by decide)

end Queries

end SndNet
