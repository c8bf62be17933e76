import Mathlib.Order.Interval.Set.Basic
import SndNet.Net.Router.Invariant

/-!
# The range test and the ends of the leafset

`leafset_is_on_range` (`src/net/router.c`, lines 357–380) takes the entry behind the last set one of
each side for its end. So the test answers for the interval between the true ends exactly when the
address that is left in this slot is the one of the last set entry. On a full side the slot does not
exist.

## Main definitions

* `SndNet.SnNetRouter.trueEnd`: the address of the last set entry of a side, or our own.
* `SndNet.Leafset.EndRepeated`: the address of the last set entry is repeated behind it.

## Main results

* `SndNet.leafsetBound_eq_trueEnd_iff`: when the bound of a side is its true end.
* `SndNet.rangeTest_at_iff`: when the range test is right for an address, and what it reads.
* `SndNet.rangeTest_iff_endRepeated`: when the range test is right for every address.
-/

namespace SndNet

open FallibleRun

/-- The address of the last set entry of a side, or our own when the side is empty. -/
def SnNetRouter.trueEnd (snr : SnNetRouter) (right : Bool) : SnNetAddr :=
  ((snr.leafset right).entries.getLast?.map (·.addr)).getD snr.self.addr

/-- Behind the last set entry, if there is one, an unset slot carries the same address. -/
def Leafset.EndRepeated (leafset : Leafset) : Prop :=
  ∀ last ∈ leafset.entries.getLast?, leafset.entries.length < snNetRouterLeafsetSize ∧
    (leafsetEntry leafset leafset.entries.length).addr = last.addr

instance (leafset : Leafset) : Decidable leafset.EndRepeated :=
  inferInstanceAs (Decidable (∀ last ∈ leafset.entries.getLast?, _))

section Range

variable {q : Sorter SnNetEntry} {snr : SnNetRouter}

/-- The bound of a side is its true end exactly when the last address is repeated. -/
theorem leafsetBound_eq_trueEnd_iff (hinv : RouterInv snr) (right : Bool) :
    leafsetBound snr.self (snr.leafset right) = .ok (snr.trueEnd right) ↔
      (snr.leafset right).EndRepeated := by
  rw [(hinv.leafset right).packed.leafsetBound_eq, SnNetRouter.trueEnd, Leafset.EndRepeated]
  rcases List.eq_nil_or_concat (snr.leafset right).entries with hnil | ⟨init, last, hlast⟩
  · simp [hnil]
  · rw [if_neg (by simp [hlast])]
    have hgetLast : (snr.leafset right).entries.getLast? = some last := by
      rw [hlast, List.concat_eq_append, List.getLast?_append_cons]
      rfl
    rw [hgetLast]
    split_ifs with hroom
    · simp [hroom]
    · simp [hroom]

/-- Our own address lies between the true ends. -/
theorem beyond_trueEnd (hinv : RouterInv snr) :
    snr.trueEnd false ≤ snr.self.addr ∧ snr.self.addr ≤ snr.trueEnd true := by
  constructor
  · rw [SnNetRouter.trueEnd]
    cases hlast : (snr.leafset false).entries.getLast? with
    | none => exact le_rfl
    | some last => exact le_of_lt ((hinv.leafset false).beyond last (List.mem_of_getLast? hlast))
  · rw [SnNetRouter.trueEnd]
    cases hlast : (snr.leafset true).entries.getLast? with
    | none => exact le_rfl
    | some last => exact le_of_lt ((hinv.leafset true).beyond last (List.mem_of_getLast? hlast))

/-- What the range test reads: always the left bound, and the right one only for an address that is
not below the left bound. -/
theorem leafsetIsOnRange_eq_ok_iff {addr : SnNetAddr} {b : Bool} :
    leafsetIsOnRange snr addr = .ok b ↔
      ∃ lo, leafsetBound snr.self (snr.leafset false) = .ok lo ∧
        (addr < lo ∧ b = false ∨ lo ≤ addr ∧
          ∃ hi, leafsetBound snr.self (snr.leafset true) = .ok hi ∧ b = decide (addr ≤ hi)) := by
  rw [leafsetIsOnRange, SnNetRouter.leafset_false, SnNetRouter.leafset_true, bind_eq_ok]
  refine exists_congr fun lo => and_congr_right fun _ => ?_
  simp only [snNetAddrCmp_nonpos_iff, pure_eq_ok]
  split_ifs with hle
  · simp only [bind_eq_ok, Except.ok.injEq, hle, not_lt_of_ge hle, false_and, false_or, true_and]
    exact exists_congr fun hi => and_congr_right fun _ => eq_comm
  · rw [Except.ok.injEq, and_iff_right (not_le.1 hle), or_iff_left fun h => hle h.1]
    exact eq_comm

/-- **When the range test is right for an address.** Below the left bound the right side is not
looked at, and the address must lie outside the true ends. Above it the right side must not be
full, and its bound must answer as the true ends do. -/
theorem rangeTest_at_iff {addr : SnNetAddr} : leafsetIsOnRange snr addr =
      .ok (decide (snr.trueEnd false ≤ addr ∧ addr ≤ snr.trueEnd true)) ↔
    ∃ lo, leafsetBound snr.self (snr.leafset false) = .ok lo ∧
      (addr < lo ∧ ¬ (snr.trueEnd false ≤ addr ∧ addr ≤ snr.trueEnd true) ∨ lo ≤ addr ∧
        ∃ hi, leafsetBound snr.self (snr.leafset true) = .ok hi ∧
          (snr.trueEnd false ≤ addr ∧ addr ≤ snr.trueEnd true ↔ addr ≤ hi)) := by
  simp only [leafsetIsOnRange_eq_ok_iff, decide_eq_false_iff_not, decide_eq_decide]

/-- **When the range test is right.** In a reachable state the test stays inside the leafset and
tells for every address whether it lies between the true ends exactly when on both sides the
address of the last set entry, if there is one, is repeated in an unset slot behind it. -/
theorem rangeTest_iff_endRepeated (h : Reachable q snr) :
    (∀ addr, leafsetIsOnRange snr addr =
        .ok (decide (snr.trueEnd false ≤ addr ∧ addr ≤ snr.trueEnd true))) ↔
      ∀ right, (snr.leafset right).EndRepeated := by
  have hinv := RouterInv.of_reachable h
  obtain ⟨hleft, hright⟩ := beyond_trueEnd hinv
  constructor
  · intro htest
    have hself : leafsetIsOnRange snr snr.self.addr = .ok true := by
      rw [htest, decide_eq_true ⟨hleft, hright⟩]
    obtain ⟨lo, hlo, ⟨-, hfalse⟩ | ⟨hle, hi, hhi, htrue⟩⟩ := leafsetIsOnRange_eq_ok_iff.1 hself
    · cases hfalse
    have hle' := of_decide_eq_true htrue.symm
    have hIcc : Set.Icc lo hi = Set.Icc (snr.trueEnd false) (snr.trueEnd true) := by
      refine Set.ext fun addr => ?_
      have heq := (leafsetIsOnRange_of_bounds hlo hhi addr).symm.trans (htest addr)
      exact decide_eq_decide.1 (Except.ok.inj heq)
    obtain ⟨rfl, rfl⟩ := (Set.Icc_eq_Icc_iff (hle.trans hle')).1 hIcc
    rintro (_ | _)
    · exact (leafsetBound_eq_trueEnd_iff hinv false).1 hlo
    · exact (leafsetBound_eq_trueEnd_iff hinv true).1 hhi
  · intro hends
    exact leafsetIsOnRange_of_bounds ((leafsetBound_eq_trueEnd_iff hinv false).2 (hends false))
      ((leafsetBound_eq_trueEnd_iff hinv true).2 (hends true))

/-- The router on 4f5e22 that has added 888888 twice and removed it once still holds it once, with
the other copy unset behind it. -/
theorem rangeTest_of_removed_copy : ∃ snr,
    routerOn4f5e22 [.add (.ofBytes [0x88, 0x88, 0x88]) none,
      .add (.ofBytes [0x88, 0x88, 0x88]) none,
      .remove (.ofBytes [0x88, 0x88, 0x88]) .zero] = .ok snr ∧
    ∀ addr, leafsetIsOnRange snr addr =
      .ok (decide (snr.trueEnd false ≤ addr ∧ addr ≤ snr.trueEnd true)) := by
  have hobs : (routerOn4f5e22 [.add (.ofBytes [0x88, 0x88, 0x88]) none,
      .add (.ofBytes [0x88, 0x88, 0x88]) none,
      .remove (.ofBytes [0x88, 0x88, 0x88]) .zero]).toOption.map
        (fun snr => (decide (snr.leafset false).EndRepeated,
          decide (snr.leafset true).EndRepeated)) = some (true, true) := by
    decide +kernel
  obtain ⟨snr, hrun, hsnr⟩ := exists_ok_of_toOption_map hobs
  obtain ⟨hleft, hright⟩ := Prod.mk.inj hsnr
  refine ⟨snr, hrun, (rangeTest_iff_endRepeated (reachable_routerOn4f5e22 hrun)).2 ?_⟩
  rintro (_ | _)
  · exact of_decide_eq_true hleft
  · exact of_decide_eq_true hright

/-- The range test misses 700000 on the router on 4f5e22 that knows 888888, and reads past the
leafset on one that knows eight addresses above its own. -/
theorem not_rangeTest_of_additions :
    (∃ snr, Reachable (.insertion SnNetEntry) snr ∧
      leafsetIsOnRange snr (.ofBytes [0x70]) = .ok false ∧
      snr.trueEnd false ≤ .ofBytes [0x70] ∧ .ofBytes [0x70] ≤ snr.trueEnd true) ∧
    ∃ snr, Reachable (.insertion SnNetEntry) snr ∧
      leafsetIsOnRange snr (.ofBytes [0x70]) = .error .outOfBounds := by
  constructor
  · have hobs : (routerOn4f5e22 [.add (.ofBytes [0x88, 0x88, 0x88]) none]).toOption.map (fun snr =>
        (leafsetIsOnRange snr (.ofBytes [0x70]), decide (snr.trueEnd false ≤ .ofBytes [0x70]),
          decide (.ofBytes [0x70] ≤ snr.trueEnd true))) = some (.ok false, true, true) := by
      decide +kernel
    obtain ⟨snr, hrun, hsnr⟩ := exists_ok_of_toOption_map hobs
    simp only [Prod.mk.injEq, decide_eq_true_eq] at hsnr
    exact ⟨snr, reachable_routerOn4f5e22 hrun, hsnr⟩
  · have hobs : (routerOn4f5e22 (([0x81, 0x82, 0x83, 0x84, 0x85, 0x86, 0x87, 0x88].map fun b =>
        .add (.ofBytes [b]) none))).toOption.map (fun snr =>
          leafsetIsOnRange snr (.ofBytes [0x70])) = some (.error .outOfBounds) := by
      decide +kernel
    obtain ⟨snr, hrun, hsnr⟩ := exists_ok_of_toOption_map hobs
    exact ⟨snr, reachable_routerOn4f5e22 hrun, hsnr⟩

end Range

end SndNet
