import SndNet.Library.CountedLoop
import SndNet.Net.Entry

/-!
# The counter of the closest search

`sn_net_entry_closest` (`src/net/entry.c`, lines 28–71) counts its candidates with an
`unsigned int`, while the length of the array is a `size_t`, as is the counter of its sibling
`sn_net_entry_array_len`. This file runs the loop with the counter it has. Up to `2 ^ 32 - 1`
candidates it is the search of `SndNet.Net.Entry`, and from `2 ^ 32` candidates on it never ends.

## Main definitions

* `SndNet.snNetEntryClosestFor`: the search, given the number of tests that its loop may make.
* `SndNet.IsFirstClosest`: the first eligible candidate at the least distance.
* `SndNet.FindsFirstClosest`: what the search should do.

## Main results

* `SndNet.snNetEntryClosestFor_eq`: a counter that reaches the length does not change the search.
* `SndNet.findsFirstClosest_iff`: the search does what it should exactly when there are fewer than
  `2 ^ 32` candidates.
-/

namespace SndNet

open CountedLoop FallibleRun

variable {dst : SnNetAddr} {candidates : List SnNetEntry} {self : Option SnNetAddr} {minLevel : ℕ}
  {closest e : SnNetEntry}

/-- The number of bits of an `unsigned int`. -/
abbrev unsignedIntBits : ℕ := 32

/-- What the body of the loop does with one candidate. -/
def closestStep (dst : SnNetAddr) (self : Option SnNetAddr) (minLevel : ℕ)
    (best : Option (SnNetEntry × SnNetAddr)) (e : SnNetEntry) :
    Exec (Option (SnNetEntry × SnNetAddr)) :=
  if e.IsSet then do
    if ← closestSkip self minLevel e then return best
    else return closestTake dst best e
  else return best

/-- The body of the loop of `sn_net_entry_closest`, which reads the candidate at its counter. -/
def closestBody (dst : SnNetAddr) (candidates : List SnNetEntry) (self : Option SnNetAddr)
    (minLevel : ℕ) (i : ℕ) (best : Option (SnNetEntry × SnNetAddr)) :
    Exec (Option (SnNetEntry × SnNetAddr)) := do
  let e ← CArray.read ⟨candidates, rfl⟩ i
  closestStep dst self minLevel best e

/-- `sn_net_entry_closest` (`src/net/entry.c`, lines 28–71) with the counter of its loop: what it
returns, or nothing if the loop is still running after `fuel` tests of its condition. -/
def snNetEntryClosestFor (fuel : ℕ) (dst : SnNetAddr) (candidates : List SnNetEntry)
    (self : Option SnNetAddr) (minLevel : ℕ) (closest : SnNetEntry) :
    Exec (Option SnNetEntry) := do
  cAssert (candidates.length > 0)
  match ← loop unsignedIntBits candidates.length (closestBody dst candidates self minLevel) fuel 0
      none with
  | some (some (best, _)) => return some best
  | some none => return some { closest with isSet := 0 }
  | none => return none

/-! ### The two loops -/

/-- The loop over the list is a fold of the loop's body. -/
theorem closestLoop_eq_foldlM (dst : SnNetAddr) (candidates : List SnNetEntry)
    (self : Option SnNetAddr) (minLevel : ℕ) (best : Option (SnNetEntry × SnNetAddr)) :
    closestLoop dst self minLevel candidates best =
      candidates.foldlM (closestStep dst self minLevel) best := by
  induction candidates generalizing best with
  | nil => rfl
  | cons e candidates ih =>
    rw [closestLoop, List.foldlM_cons, closestStep]
    by_cases hset : e.IsSet
    · rw [if_pos hset, if_pos hset, closestSkip_eq self minLevel hset, ok_bind, ok_bind]
      by_cases he : Eligible self minLevel e
      · simp [he, ih]
      · simp [he, ih]
    · rw [if_neg hset, if_neg hset, ih]
      rfl

/-- The body reads the candidate at its counter and goes on with it. -/
theorem closestBody_eq {i : ℕ} (h : i < candidates.length)
    (best : Option (SnNetEntry × SnNetAddr)) :
    closestBody dst candidates self minLevel i best =
      closestStep dst self minLevel best candidates[i] := by
  rw [closestBody, CArray.read_of_lt _ h]
  rfl

/-- A counter that reaches the length of the array does not change the search. -/
theorem snNetEntryClosestFor_eq (hw : candidates.length < 2 ^ unsignedIntBits) {fuel : ℕ}
    (hfuel : candidates.length < fuel) :
    snNetEntryClosestFor fuel dst candidates self minLevel closest =
      snNetEntryClosest dst candidates self minLevel closest >>= fun e => .ok (some e) := by
  rw [snNetEntryClosestFor, snNetEntryClosest, closestLoop_eq_foldlM,
    loop_eq_foldlM (fun i h best => closestBody_eq h best) hw (Nat.zero_le _)
      (by simpa using hfuel), List.drop_zero]
  cases cAssert (candidates.length > 0) with
  | error fault => rfl
  | ok _ =>
    cases candidates.foldlM (closestStep dst self minLevel) none with
    | error fault => rfl
    | ok best => cases best <;> rfl

/-- From the period of the counter on the search does not end. -/
theorem snNetEntryClosestFor_ne (hw : 2 ^ unsignedIntBits ≤ candidates.length) (fuel : ℕ) :
    snNetEntryClosestFor fuel dst candidates self minLevel closest ≠ .ok (some e) := by
  rw [snNetEntryClosestFor]
  intro h
  obtain ⟨_, -, h⟩ := bind_eq_ok.1 h
  obtain ⟨result, hloop, h⟩ := bind_eq_ok.1 h
  cases result with
  | none => simp at h
  | some best => exact loop_ne_ok_some hw fuel (Nat.two_pow_pos _) _ _ hloop

/-! ### What the search finds -/

/-- The candidate `e` is eligible, nearer than all eligible candidates before it and not farther
than those after it. -/
def IsFirstClosest (dst : SnNetAddr) (candidates : List SnNetEntry) (self : Option SnNetAddr)
    (minLevel : ℕ) (e : SnNetEntry) : Prop :=
  ∃ pre post, candidates = pre ++ e :: post ∧ Eligible self minLevel e ∧
    (∀ c ∈ pre, Eligible self minLevel c →
      snNetAddrCmp (snNetAddrDist e.addr dst) (snNetAddrDist c.addr dst) < 0) ∧
    ∀ c ∈ post, Eligible self minLevel c →
      snNetAddrCmp (snNetAddrDist e.addr dst) (snNetAddrDist c.addr dst) ≤ 0

/-- The search returns, with an unset entry exactly when no candidate is eligible, and otherwise
with the first eligible candidate at the least distance. -/
def FindsFirstClosest (dst : SnNetAddr) (candidates : List SnNetEntry) (self : Option SnNetAddr)
    (minLevel : ℕ) (closest : SnNetEntry) : Prop :=
  ∃ e, (∃ tests, ∀ fuel ≥ tests,
      snNetEntryClosestFor fuel dst candidates self minLevel closest = .ok (some e)) ∧
    (e.isSet = 0 ↔ ¬ ∃ c ∈ candidates, Eligible self minLevel c) ∧
    ((∃ c ∈ candidates, Eligible self minLevel c) → IsFirstClosest dst candidates self minLevel e)

theorem isFirstClosest_of_closestOf (h : closestOf dst candidates self minLevel = some e) :
    IsFirstClosest dst candidates self minLevel e := by
  obtain ⟨pre, post, hl, he, hpre, hpost⟩ := Argmin.argmin_filter_eq_some_iff.1 h
  refine ⟨pre, post, hl, of_decide_eq_true he, fun c hc hmin => ?_, fun c hc hmin => ?_⟩
  · exact snNetAddrCmp_neg_iff.2 (hpre c hc (decide_eq_true hmin))
  · exact snNetAddrCmp_nonpos_iff.2 (hpost c hc (decide_eq_true hmin))

theorem closestOf_eq_none_iff : closestOf dst candidates self minLevel = none ↔
    ¬ ∃ c ∈ candidates, Eligible self minLevel c := by
  simp [closestOf, List.argmin_eq_none]

/-- The search over a list does what it should. -/
theorem findsFirstClosest_of_lt (hpos : 0 < candidates.length)
    (hw : candidates.length < 2 ^ unsignedIntBits) :
    FindsFirstClosest dst candidates self minLevel closest := by
  have hrun (fuel : ℕ) (hfuel : fuel ≥ candidates.length + 1) :
      snNetEntryClosestFor fuel dst candidates self minLevel closest =
        .ok (some ((closestOf dst candidates self minLevel).getD { closest with isSet := 0 })) := by
    rw [snNetEntryClosestFor_eq hw hfuel, snNetEntryClosest_eq dst hpos, ok_bind]
  refine ⟨_, ⟨_, hrun⟩, ?_⟩
  cases h : closestOf dst candidates self minLevel with
  | none =>
    have hnone := closestOf_eq_none_iff.1 h
    exact ⟨iff_of_true rfl hnone, fun hsome => absurd hsome hnone⟩
  | some e =>
    obtain ⟨hmem, he⟩ := List.mem_filter.1 (List.argmin_mem h)
    have hsome : ∃ c ∈ candidates, Eligible self minLevel c := ⟨e, hmem, of_decide_eq_true he⟩
    exact ⟨iff_of_false (of_decide_eq_true he).1 (not_not_intro hsome),
      fun _ => isFirstClosest_of_closestOf h⟩

theorem not_findsFirstClosest_of_le (hw : 2 ^ unsignedIntBits ≤ candidates.length) :
    ¬ FindsFirstClosest dst candidates self minLevel closest := by
  rintro ⟨e, ⟨tests, hrun⟩, -⟩
  exact snNetEntryClosestFor_ne hw tests (hrun tests le_rfl)

/-- **When the closest search is a first minimum.** For a non-empty array of candidates the search
returns, and does what it should, exactly when its counter can reach the length of the array. -/
theorem findsFirstClosest_iff (dst : SnNetAddr) (candidates : List SnNetEntry)
    (hpos : 0 < candidates.length) (self : Option SnNetAddr) (minLevel : ℕ)
    (closest : SnNetEntry) :
    FindsFirstClosest dst candidates self minLevel closest ↔ candidates.length < 2 ^ 32 := by
  constructor
  · intro h
    by_contra hw
    exact not_findsFirstClosest_of_le (not_lt.1 hw) h
  · exact findsFirstClosest_of_lt hpos

/-- Among 10000 to 14000 the search for 12345 does what it should. -/
theorem findsFirstClosest_five : FindsFirstClosest (.ofBytes [0x12, 0x34, 0x50])
    ([0x10, 0x11, 0x12, 0x13, 0x14].map fun b => ⟨1, .ofBytes [b], .zero⟩)
    (some (.ofBytes [0x1f, 0xff, 0xf0])) 1 .zero :=
  (findsFirstClosest_iff _ _ (by decide) _ _ _).2 (by decide)

/-- Among `2 ^ 32` candidates the search never ends. -/
theorem not_findsFirstClosest_replicate : ¬ FindsFirstClosest .zero
    (List.replicate (2 ^ 32) ⟨1, .zero, .zero⟩) none 0 .zero :=
  not_findsFirstClosest_of_le (List.length_replicate).ge

end SndNet
