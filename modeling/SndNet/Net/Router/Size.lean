import Mathlib.Data.List.ProdSigma
import SndNet.Net.Router.Table
import SndNet.Net.Router.Text

/-!
# The length of the text of a router

A buffer for the text of a router must have room for a line of every entry of the table, since the
used length is compared with its length only behind the last of them (`src/net/router.c`, lines
184–205). There are at most as many of these lines as there have been additions, because a slot
shows the last addition to it.

## Main definitions

* `SndNet.setSlots`: the slots that have a line.

## Main results

* `SndNet.length_setSlots_le`: a run sets at most as many slots as it has operations.
* `SndNet.length_routerText_le`: the length of the text of a router with some slots set.
-/

namespace SndNet

open Ctype FallibleRun

variable {q : Sorter SnNetEntry} {snr : SnNetRouter} {selfAddr : SnNetAddr}
  {selfNetAddr : Option SnIoNaddr} {ops : List RouterOp}

/-! ### Slots with a line -/

/-- The slots of the table that are set. -/
def setSlots (snr : SnNetRouter) : List (Fin snNetRouterLevels × Fin snNetRouterColumns) :=
  ((List.finRange snNetRouterLevels).product (List.finRange snNetRouterColumns)).filter fun i =>
    (snr.table i.1 i.2).IsSet

theorem mem_setSlots {i : Fin snNetRouterLevels × Fin snNetRouterColumns} :
    i ∈ setSlots snr ↔ (snr.table i.1 i.2).IsSet := by
  rw [setSlots, List.mem_filter, decide_eq_true_eq]
  exact and_iff_right (List.pair_mem_product.2 ⟨List.mem_finRange _, List.mem_finRange _⟩)

theorem nodup_setSlots (snr : SnNetRouter) : (setSlots snr).Nodup :=
  ((List.nodup_finRange _).product (List.nodup_finRange _)).filter _

/-- The line of a slot. -/
def slotLine (snr : SnNetRouter) (i : Fin snNetRouterLevels × Fin snNetRouterColumns) :
    List UInt8 :=
  tableLine i.1 i.2 (entryString (snr.table i.1 i.2) 16)

theorem flatMap_ite_eq_map_filter {ι α : Type} (p : ι → Prop) [DecidablePred p] (f : ι → α)
    (is : List ι) : (is.flatMap fun i => if p i then [f i] else []) =
      (is.filter fun i => p i).map f := by
  induction is with
  | nil => rfl
  | cons i is ih =>
    rw [List.flatMap_cons, ih]
    by_cases hi : p i
    · rw [if_pos hi, List.filter_cons_of_pos (by simpa using hi)]
      rfl
    · rw [if_neg hi, List.filter_cons_of_neg (by simpa using hi)]
      rfl

theorem tableLines_eq (snr : SnNetRouter) : tableLines snr = (setSlots snr).map (slotLine snr) := by
  rw [tableLines, setSlots, List.product, List.filter_flatMap, List.map_flatMap]
  refine congrArg (List.flatMap · _) (funext fun l => ?_)
  rw [List.filter_map, List.map_map]
  exact flatMap_ite_eq_map_filter _ _ _

/-- **At most as many slots are set as there have been operations.** Every set slot shows an
addition, whose address belongs into no other slot. -/
theorem length_setSlots_le
    (hrun : run (routerStep q) (snNetRouterInit selfAddr selfNetAddr) ops = .ok snr) :
    (setSlots snr).length ≤ ops.length := by
  have hshow : ∀ i ∈ setSlots snr, (snr.table i.1 i.2).addr ∈ ops.map RouterOp.addr ∧
      HasIndex selfAddr (snr.table i.1 i.2).addr i := by
    intro i hi
    obtain ⟨x, netAddr, ⟨pre, post, rfl, hindex, -⟩, hent⟩ := slot_of_run hrun (mem_setSlots.1 hi)
    have haddr : (snr.table i.1 i.2).addr = x := congrArg SnNetEntry.addr hent
    rw [haddr]
    exact ⟨List.mem_map.2 ⟨.add x netAddr, by simp, rfl⟩, hindex⟩
  have hnodup : ((setSlots snr).map fun i => (snr.table i.1 i.2).addr).Nodup := by
    refine (nodup_setSlots snr).map_on fun i hi j hj hij => ?_
    have hi' := (hshow i hi).2
    have hj' := (hshow j hj).2
    rw [← hij] at hj'
    exact ((hasIndex_iff hi'.ne).1 hi').symm.trans ((hasIndex_iff hi'.ne).1 hj')
  have hsub : ((setSlots snr).map fun i => (snr.table i.1 i.2).addr) ⊆ ops.map RouterOp.addr := by
    intro x hx
    obtain ⟨i, hi, rfl⟩ := List.mem_map.1 hx
    exact (hshow i hi).1
  have hlen := (List.subperm_of_subset hnodup hsub).length_le
  rwa [List.length_map, List.length_map] at hlen

/-! ### The length of the text -/

theorem snNetEntryArrayLen_le (arr : List SnNetEntry) : snNetEntryArrayLen arr ≤ arr.length := by
  induction arr with
  | nil => rfl
  | cons e arr ih =>
    rw [snNetEntryArrayLen, List.length_cons]
    split_ifs <;> omega

theorem length_entryString_le (sne : SnNetEntry) : (entryString sne 16).length ≤ 44 := by
  have haddr : ((addrText sne.addr).take 16).length ≤ 16 := List.length_take_le _ _
  have hnaddr : (naddrText sne.netAddr).length < 28 := length_naddrText_lt sne.netAddr
  rw [entryString]
  split_ifs
  · decide
  · rw [List.length_append, List.length_append, show (ascii "@").length = 1 by decide]
    omega

theorem length_slotLine_le (snr : SnNetRouter)
    (i : Fin snNetRouterLevels × Fin snNetRouterColumns) : (slotLine snr i).length ≤ 55 := by
  have htwo : ∀ n < 64, ((Decimal.text n).leftpad 2 32).length = 2 := by decide
  have hlevel : ((Decimal.text i.1).leftpad 2 32).length = 2 := htwo _ i.1.isLt
  have hcolumn : ((Decimal.text i.2).leftpad 2 32).length = 2 :=
    htwo _ (i.2.isLt.trans (by decide))
  have hentry := length_entryString_le (snr.table i.1 i.2)
  simp only [slotLine, tableLine, List.length_append, hlevel, hcolumn,
    show (ascii "\t[").length = 2 by decide, show (ascii "][").length = 2 by decide,
    show (ascii "]:").length = 2 by decide, show (ascii "\n").length = 1 by decide]
  omega

/-- Some lines of bounded length. -/
theorem length_flatten_le {lines : List (List UInt8)} {n : ℕ} (h : ∀ s ∈ lines, s.length ≤ n) :
    lines.flatten.length ≤ lines.length * n := by
  induction lines with
  | nil => exact Nat.zero_le _
  | cons s lines ih =>
    obtain ⟨hs, hlines⟩ := List.forall_mem_cons.1 h
    rw [List.flatten_cons, List.length_append, List.length_cons, Nat.succ_mul, Nat.add_comm]
    exact Nat.add_le_add (ih hlines) hs

theorem length_tableLines_le (snr : SnNetRouter) :
    (tableLines snr).flatten.length ≤ (setSlots snr).length * 55 := by
  rw [tableLines_eq, ← List.length_map (slotLine snr)]
  refine length_flatten_le fun s hs => ?_
  obtain ⟨i, -, rfl⟩ := List.mem_map.1 hs
  exact length_slotLine_le snr i

theorem length_leafsetLines_le (leafset : Leafset) :
    (leafsetLines leafset).flatten.length ≤ 368 := by
  have hcount : snNetEntryArrayLen leafset.val ≤ 8 :=
    (snNetEntryArrayLen_le leafset.val).trans leafset.property.le
  have hline : ∀ s ∈ leafsetLines leafset, s.length ≤ 46 := by
    intro s hs
    obtain ⟨i, -, hs⟩ := List.mem_flatMap.1 hs
    obtain rfl := List.mem_singleton.1 hs
    have hentry := length_entryString_le (leafsetEntry leafset i)
    simp only [leafsetLine, List.length_append, show (ascii "\t").length = 1 by decide,
      show (ascii "\n").length = 1 by decide]
    omega
  have hlines := length_flatten_le hline
  rw [leafsetLines, ← List.map_eq_flatMap, List.length_map, List.length_range] at hlines
  rw [leafsetLines, ← List.map_eq_flatMap]
  omega

theorem length_selfLine_le (snr : SnNetRouter) : (selfLine snr).length ≤ 107 := by
  have hentry : (entryString snr.self snNetAddrHexLen).length < 94 :=
    length_entryString_lt _ (by decide)
  simp only [selfLine, List.length_append, show (ascii "Router is at ").length = 13 by decide,
    show (ascii "\n").length = 1 by decide]
  omega

theorem length_leafsetHeading_le {side : String} (hside : (ascii side).length ≤ 5)
    (leafset : Leafset) : (leafsetHeading side leafset).length ≤ 17 := by
  have hdigit : ∀ n ≤ 8, (Decimal.text n).length = 1 := by decide
  have hcount := hdigit _ ((snNetEntryArrayLen_le leafset.val).trans leafset.property.le)
  simp only [leafsetHeading, List.length_append, hcount,
    show (ascii " leafset[").length = 9 by decide, show (ascii "]\n").length = 2 by decide]
  omega

/-- The text in front of the table has at most 877 characters. -/
theorem length_beforeTable_le (snr : SnNetRouter) :
    ((routerGroups snr).take 4).flatten.flatten.length ≤ 877 := by
  have hself := length_selfLine_le snr
  have hleft := length_leafsetHeading_le (show (ascii "Left").length ≤ 5 by decide) snr.leftLeafset
  have hleft' := length_leafsetLines_le snr.leftLeafset
  have hright := length_leafsetHeading_le (show (ascii "Right").length ≤ 5 by decide)
    snr.rightLeafset
  have hright' := length_leafsetLines_le snr.rightLeafset
  simp only [routerGroups, List.take_succ_cons, List.take_zero, List.flatten_cons,
    List.flatten_nil, List.flatten_append, List.append_nil, List.length_append]
  omega

/-- **The length of the text** of a router: the lines of the set slots, and at most 891 characters
more. -/
theorem length_routerText_le (snr : SnNetRouter) :
    (routerText snr).length ≤ 891 + (setSlots snr).length * 55 := by
  have hbefore := length_beforeTable_le snr
  have htable := length_tableLines_le snr
  have hsplit : routerGroups snr = (routerGroups snr).take 4 ++
      [ascii "Routing table\n" :: tableLines snr] := rfl
  rw [routerText, hsplit]
  simp only [List.flatten_append, List.flatten_cons, List.flatten_nil, List.append_nil,
    List.length_append, show (ascii "Routing table\n").length = 14 by decide]
  omega

end SndNet
