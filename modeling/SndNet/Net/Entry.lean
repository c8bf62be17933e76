import SndNet.Io.Naddr
import SndNet.Library.Argmin
import SndNet.Library.Sorter
import SndNet.Net.Addr

/-!
# Entries

An entry pairs an address with the network address at which its node is reached, and carries a flag
that says whether it is in use (`include/net/entry.h`). This file translates the functions of
`src/net/entry.c` that the router calls and gives each of them one specification.

## Main definitions

* `SndNet.SnNetEntry`: an entry.
* `SndNet.snNetEntryCmp`, `SndNet.snNetEntryCmpNeg`: the two comparators handed to `qsort`.
* `SndNet.snNetEntryArrayLen`: the number of leading set entries of an array.
* `SndNet.snNetEntryClosest`: the search for the closest candidate.
* `SndNet.snNetEntryEquals`: equality of entries.

## Main results

* `SndNet.isComparator_snNetEntryCmp`, `SndNet.isComparator_snNetEntryCmpNeg`: both comparators are
  consistent.
* `SndNet.snNetEntryClosest_eq`: the search fails no assertion and finds the first eligible
  candidate at the least distance.
-/

namespace SndNet

open FallibleRun

/-- `sn_net_entry_t`: an entry. -/
structure SnNetEntry where
  /-- Is this entry set? -/
  isSet : UInt8
  /-- SecondNet address. -/
  addr : SnNetAddr
  /-- Traditional network address. -/
  netAddr : SnIoNaddr
  deriving DecidableEq

namespace SnNetEntry

/-- The entry of zero bytes, which `memset` leaves. -/
def zero : SnNetEntry := ⟨0, .zero, .zero⟩

/-- The entry is in use. -/
abbrev IsSet (e : SnNetEntry) : Prop := e.isSet ≠ 0

@[simp] theorem zero_isSet : zero.isSet = 0 := rfl

end SnNetEntry

/-! ### The functions of the source -/

/-- `sn_net_entry_cmp` (`src/net/entry.c`, lines 9–11). -/
def snNetEntryCmp (A B : SnNetEntry) : ℤ := snNetAddrCmp A.addr B.addr

/-- `sn_net_entry_cmp_neg` (`src/net/entry.c`, lines 13–15). -/
def snNetEntryCmpNeg (A B : SnNetEntry) : ℤ := snNetEntryCmp B A

/-- `sn_net_entry_array_len` (`src/net/entry.c`, lines 17–26): the number of set entries before the
first unset one. -/
def snNetEntryArrayLen : List SnNetEntry → ℕ
  | [] => 0
  | e :: arr => if e.IsSet then snNetEntryArrayLen arr + 1 else 0

/-- The test of `sn_net_entry_closest` that skips a candidate too far from `self`, when given. -/
def closestSkip (self : Option SnNetAddr) (minLevel : ℕ) (e : SnNetEntry) : Exec Bool :=
  match self with
  | some self => do
    let (level, _) ← snNetAddrIndex self e.addr
    return level < minLevel
  | none => return false

/-- What `sn_net_entry_closest` does with a candidate that is not skipped: the state holds `*best`
and `min_dist` once a candidate has been taken. -/
def closestTake (dst : SnNetAddr) (best : Option (SnNetEntry × SnNetAddr)) (e : SnNetEntry) :
    Option (SnNetEntry × SnNetAddr) :=
  let tmpDist := snNetAddrDist e.addr dst
  match best with
  | none => some (e, tmpDist)
  | some (b, minDist) =>
    if snNetAddrCmp tmpDist minDist < 0 then some (e, tmpDist) else some (b, minDist)

/-- The loop of `sn_net_entry_closest`. -/
def closestLoop (dst : SnNetAddr) (self : Option SnNetAddr) (minLevel : ℕ) :
    List SnNetEntry → Option (SnNetEntry × SnNetAddr) → Exec (Option (SnNetEntry × SnNetAddr))
  | [], best => return best
  | e :: candidates, best =>
    if e.IsSet then do
      if ← closestSkip self minLevel e then closestLoop dst self minLevel candidates best
      else closestLoop dst self minLevel candidates (closestTake dst best e)
    else closestLoop dst self minLevel candidates best

/-- `sn_net_entry_closest` (`src/net/entry.c`, lines 28–71). The last argument is the content of
`*closest` before the call, of which only the flag is overwritten when no candidate qualifies. -/
def snNetEntryClosest (dst : SnNetAddr) (candidates : List SnNetEntry) (self : Option SnNetAddr)
    (minLevel : ℕ) (closest : SnNetEntry) : Exec SnNetEntry := do
  cAssert (candidates.length > 0)
  match ← closestLoop dst self minLevel candidates none with
  | some (best, _) => return best
  | none => return { closest with isSet := 0 }

/-- `sn_net_entry_equals` (`src/net/entry.c`, lines 103–117): the network addresses are not
compared. -/
def snNetEntryEquals (a b : SnNetEntry) : ℤ :=
  if a.isSet ≠ b.isSet then 0
  else if snNetAddrCmp a.addr b.addr ≠ 0 then 0
  else 1

theorem snNetEntryEquals_eq_one_iff {a b : SnNetEntry} :
    snNetEntryEquals a b = 1 ↔ a.isSet = b.isSet ∧ a.addr = b.addr := by
  rw [snNetEntryEquals, ← snNetAddrCmp_eq_zero_iff]
  by_cases hset : a.isSet = b.isSet
  · by_cases haddr : snNetAddrCmp a.addr b.addr = 0 <;> simp [hset, haddr]
  · simp [hset]

/-! ### The comparators -/

theorem isComparator_snNetEntryCmp : Sorter.IsComparator snNetEntryCmp :=
  Sorter.isComparator_of_iff SnNetEntry.addr fun _ _ => snNetAddrCmp_nonpos_iff

theorem isComparator_snNetEntryCmpNeg : Sorter.IsComparator snNetEntryCmpNeg :=
  Sorter.isComparator_of_iff (fun e => OrderDual.toDual e.addr) fun _ _ => snNetAddrCmp_nonpos_iff

/-! ### The length of an array -/

/-- An array of set entries followed by unset ones has the length of its first part. -/
theorem snNetEntryArrayLen_append {xs ys : List SnNetEntry} (hxs : ∀ e ∈ xs, e.IsSet)
    (hys : ∀ e ∈ ys, ¬ e.IsSet) : snNetEntryArrayLen (xs ++ ys) = xs.length := by
  induction xs with
  | nil =>
    cases ys with
    | nil => rfl
    | cons y ys => exact if_neg (hys y List.mem_cons_self)
  | cons x xs ih =>
    rw [List.cons_append, snNetEntryArrayLen, if_pos (hxs x List.mem_cons_self),
      ih fun e he => hxs e (List.mem_cons_of_mem _ he), List.length_cons]

/-! ### The closest candidate -/

/-- The candidates that the search considers: those that are set and, when `self` is given, share
at least `minLevel` leading digits with it. -/
def Eligible (self : Option SnNetAddr) (minLevel : ℕ) (e : SnNetEntry) : Prop :=
  e.IsSet ∧ ∀ s ∈ self, minLevel ≤ s.level e.addr

instance (self : Option SnNetAddr) (minLevel : ℕ) (e : SnNetEntry) :
    Decidable (Eligible self minLevel e) :=
  match self with
  | none => decidable_of_iff e.IsSet (by simp [Eligible])
  | some s => decidable_of_iff (e.IsSet ∧ minLevel ≤ s.level e.addr) (by simp [Eligible])

/-- The measure that the search minimises. -/
abbrev distTo (dst : SnNetAddr) (e : SnNetEntry) : SnNetAddr := snNetAddrDist e.addr dst

/-- The first eligible candidate at the least distance from `dst`. -/
def closestOf (dst : SnNetAddr) (candidates : List SnNetEntry) (self : Option SnNetAddr)
    (minLevel : ℕ) : Option SnNetEntry :=
  (candidates.filter fun e => Eligible self minLevel e).argmin (distTo dst)

/-- The state of the search after the candidates `done`: their first minimum with its distance. -/
def searchState (dst : SnNetAddr) (done : List SnNetEntry) : Option (SnNetEntry × SnNetAddr) :=
  (done.argmin (distTo dst)).map fun e => (e, distTo dst e)

theorem closestSkip_eq (self : Option SnNetAddr) (minLevel : ℕ) {e : SnNetEntry} (he : e.IsSet) :
    closestSkip self minLevel e = .ok (decide (¬ Eligible self minLevel e)) := by
  cases self with
  | none => simp [closestSkip, Eligible, he]
  | some s => simp [closestSkip, Eligible, he, snNetAddrIndex_eq]

theorem closestTake_searchState (dst : SnNetAddr) (done : List SnNetEntry) (e : SnNetEntry) :
    closestTake dst (searchState dst done) e = searchState dst (done ++ [e]) := by
  rw [searchState, searchState, List.argmin_concat]
  cases done.argmin (distTo dst) with
  | none => rfl
  | some b =>
    by_cases h : distTo dst e < distTo dst b
    · simp [closestTake, snNetAddrCmp_neg_iff, h]
    · simp [closestTake, snNetAddrCmp_neg_iff, h]

theorem closestLoop_eq (dst : SnNetAddr) (self : Option SnNetAddr) (minLevel : ℕ)
    (candidates done : List SnNetEntry) :
    closestLoop dst self minLevel candidates (searchState dst done) =
      .ok (searchState dst (done ++ candidates.filter fun e => Eligible self minLevel e)) := by
  induction candidates generalizing done with
  | nil => simp [closestLoop]
  | cons e candidates ih =>
    by_cases he : Eligible self minLevel e
    · rw [List.filter_cons_of_pos (by simpa using he), List.append_cons, ← ih,
        ← closestTake_searchState, closestLoop, if_pos he.1, closestSkip_eq self minLevel he.1,
        ok_bind]
      simp [he]
    · rw [List.filter_cons_of_neg (by simpa using he), ← ih]
      by_cases hset : e.IsSet
      · rw [closestLoop, if_pos hset, closestSkip_eq self minLevel hset, ok_bind]
        simp [he]
      · rw [closestLoop, if_neg hset]

/-- **The search is a first minimum.** On a non-empty array the search fails no assertion. It
returns the first eligible candidate at the least distance, and an unset entry if there is none. -/
theorem snNetEntryClosest_eq (dst : SnNetAddr) {candidates : List SnNetEntry}
    (hpos : 0 < candidates.length) (self : Option SnNetAddr) (minLevel : ℕ) (closest : SnNetEntry) :
    snNetEntryClosest dst candidates self minLevel closest =
      .ok ((closestOf dst candidates self minLevel).getD { closest with isSet := 0 }) := by
  have h := closestLoop_eq dst self minLevel candidates []
  rw [List.nil_append] at h
  rw [snNetEntryClosest, cAssert_of hpos, ok_bind]
  change (closestLoop dst self minLevel candidates (searchState dst []) >>= _) = _
  rw [h, ok_bind, searchState, closestOf]
  cases (candidates.filter fun e => Eligible self minLevel e).argmin (distTo dst) <;> rfl

end SndNet
