import SndNet.Library.Lines
import SndNet.Net.Addr.Hex
import SndNet.Net.Router.Copy
import SndNet.Net.Router.Size

/-!
# Reading the text of a router

The text of a router (`src/net/router.c`, lines 118–208) has a line for itself, one for every entry
of the leafsets and one for every set slot of the table, with sixteen digits of each address. As
long as no network address is printed with a newline, the text can be read back: it shows exactly
which places are set, and what these lines show of their entries. When sixteen digits are enough,
the text tells how the router chooses its next hops.

## Main definitions

* `SndNet.shownEntry`: what is shown of an entry.
* `SndNet.LooksAlike`: routers with the same entries shown at the same places.

## Main results

* `SndNet.routerText_eq_iff`: the text shows what a router looks like.
* `SndNet.LooksAlike.alike`: routers of short addresses that look alike have the same nodes.
-/

namespace SndNet

open BoundedPrint Ctype Lines

variable {snr snr' : SnNetRouter} {e e' : SnNetEntry}

/-! ### Entries -/

/-- What is shown of a set entry: sixteen digits of its address, and its network address. -/
def shownEntry (e : SnNetEntry) : List UInt8 × List UInt8 :=
  ((addrText e.addr).take 16, naddrText e.netAddr)

/-- The text of a set entry is read up to the sign between its two parts. -/
theorem entryString_inj {k : ℕ} (he : e.IsSet) (he' : e'.IsSet) :
    entryString e k = entryString e' k ↔ (addrText e.addr).take k = (addrText e'.addr).take k ∧
      naddrText e.netAddr = naddrText e'.netAddr := by
  have hat : ∀ a : SnNetAddr, 64 ∉ (addrText a).take k := fun a h =>
    notMem_addrText (by decide) a (List.mem_of_mem_take h)
  rw [entryString, if_neg he, entryString, if_neg he', List.append_assoc, List.append_assoc]
  exact append_sep_inj (hat _) (hat _)

theorem entryString_inj_iff (he : e.IsSet) (he' : e'.IsSet) :
    entryString e 16 = entryString e' 16 ↔ shownEntry e = shownEntry e' := by
  rw [entryString_inj he he', shownEntry, shownEntry, Prod.mk.injEq]

theorem newline_notMem_entryString {k : ℕ} (h : 10 ∉ naddrText e.netAddr) :
    10 ∉ entryString e k := by
  rw [entryString]
  split_ifs
  · decide
  · simp only [List.mem_append, not_or]
    exact ⟨⟨fun hmem => notMem_addrText (by decide) _ (List.mem_of_mem_take hmem), by decide⟩, h⟩

/-! ### Lines -/

/-- Every network address of a router is printed on one line. -/
def SnNetRouter.OneLine (snr : SnNetRouter) : Prop :=
  ∀ e, snr.SetEntry e ∨ e = snr.self → 10 ∉ naddrText e.netAddr

theorem isLine_selfLine (h : snr.OneLine) : IsLine (selfLine snr) := by
  refine ⟨ascii "Router is at " ++ entryString snr.self snNetAddrHexLen, ?_, rfl⟩
  simp only [List.mem_append, not_or]
  exact ⟨by decide, newline_notMem_entryString (h _ (Or.inr rfl))⟩

theorem isLine_leafsetHeading {side : String} (leafset : Leafset) (h : 10 ∉ ascii side) :
    IsLine (leafsetHeading side leafset) := by
  refine ⟨ascii side ++ ascii " leafset[" ++ Decimal.text (snNetEntryArrayLen leafset.val) ++
    ascii "]", ?_, ?_⟩
  · simp only [List.mem_append, not_or]
    exact ⟨⟨⟨h, by decide⟩, Decimal.notMem_text (by decide) _⟩, by decide⟩
  · rw [leafsetHeading, List.append_assoc _ (ascii "]")]
    rfl

theorem isLine_leafsetLine {entry : List UInt8} (h : 10 ∉ entry) : IsLine (leafsetLine entry) := by
  refine ⟨ascii "\t" ++ entry, ?_, rfl⟩
  simp only [List.mem_append, not_or]
  exact ⟨by decide, h⟩

theorem newline_notMem_leftpad (n : ℕ) : 10 ∉ (Decimal.text n).leftpad 2 32 := by
  intro h
  rcases List.mem_append.1 h with h | h
  · exact absurd (List.eq_of_mem_replicate h) (by decide)
  · exact Decimal.notMem_text (by decide) n h

theorem isLine_tableLine {level column : ℕ} {entry : List UInt8} (h : 10 ∉ entry) :
    IsLine (tableLine level column entry) := by
  refine ⟨ascii "\t[" ++ (Decimal.text level).leftpad 2 32 ++ ascii "][" ++
    (Decimal.text column).leftpad 2 32 ++ ascii "]:" ++ entry, ?_, rfl⟩
  simp only [List.mem_append, not_or]
  exact ⟨⟨⟨⟨⟨by decide, newline_notMem_leftpad _⟩, by decide⟩, newline_notMem_leftpad _⟩,
    by decide⟩, h⟩

/-- A slot of a packed leafset is set when it is in front, and then holds the entry there. -/
theorem Leafset.Packed.leafsetEntry_isSet_iff {leafset : Leafset} (h : leafset.Packed) {i : ℕ} :
    (leafsetEntry leafset i).IsSet ↔ i < leafset.entries.length := by
  obtain ⟨rest, hval, hrest⟩ := h
  by_cases hi : i < leafset.entries.length
  · refine iff_of_true ?_ hi
    rw [leafsetEntry, hval, List.getD_append _ _ _ _ hi, List.getD_eq_getElem _ _ hi]
    exact Leafset.isSet_of_mem_entries (List.getElem_mem hi)
  · refine iff_of_false ?_ hi
    rw [leafsetEntry, hval, List.getD_append_right _ _ _ _ (Nat.le_of_not_lt hi)]
    by_cases hlt : i - leafset.entries.length < rest.length
    · rw [List.getD_eq_getElem _ _ hlt]
      exact hrest _ (List.getElem_mem hlt)
    · rw [List.getD_eq_default _ _ (Nat.le_of_not_lt hlt)]
      exact fun hset => hset rfl

theorem Leafset.Packed.leafsetEntry_eq {leafset : Leafset} (h : leafset.Packed) {i : ℕ}
    (hi : i < leafset.entries.length) : leafsetEntry leafset i = leafset.entries[i] := by
  obtain ⟨rest, hval, -⟩ := h
  rw [leafsetEntry, hval, List.getD_append _ _ _ _ hi, List.getD_eq_getElem _ _ hi]

/-- The lines of a packed leafset. -/
theorem leafsetLines_eq {leafset : Leafset} (h : leafset.Packed) : leafsetLines leafset =
    leafset.entries.map fun e => leafsetLine (entryString e 16) := by
  rw [leafsetLines, ← List.map_eq_flatMap, h.arrayLen_eq]
  refine List.ext_getElem (by simp) fun i hi _ => ?_
  have hi' : i < leafset.entries.length := by simpa using hi
  rw [List.getElem_map, List.getElem_range, List.getElem_map, h.leafsetEntry_eq hi']

/-- A line of the table shows the slot and the entry. -/
theorem slotLine_inj {i j : Fin snNetRouterLevels × Fin snNetRouterColumns} :
    slotLine snr i = slotLine snr' j ↔
      i = j ∧ entryString (snr.table i.1 i.2) 16 = entryString (snr'.table j.1 j.2) 16 := by
  have htwo : ∀ n < 64, ((Decimal.text n).leftpad 2 32).length = 2 := by decide
  have hcolumn : ∀ c : Fin snNetRouterColumns, ((Decimal.text c).leftpad 2 32).length = 2 :=
    fun c => htwo _ (c.isLt.trans (by decide))
  constructor
  · intro h
    simp only [slotLine, tableLine, List.append_assoc] at h
    obtain ⟨hl, h⟩ := List.append_inj (List.append_cancel_left h)
      ((htwo _ i.1.isLt).trans (htwo _ j.1.isLt).symm)
    obtain ⟨hc, h⟩ := List.append_inj (List.append_cancel_left h)
      ((hcolumn i.2).trans (hcolumn j.2).symm)
    exact ⟨Prod.ext (Fin.ext (Decimal.leftpad_text_inj hl)) (Fin.ext (Decimal.leftpad_text_inj hc)),
      List.append_cancel_right (List.append_cancel_left h)⟩
  · rintro ⟨rfl, h⟩
    rw [slotLine, slotLine, h]

/-! ### Routers that look alike -/

/-- The routers have the same entries shown at the same places. -/
structure LooksAlike (snr snr' : SnNetRouter) : Prop where
  self_addr : snr.self.addr = snr'.self.addr
  self_netAddr : naddrText snr.self.netAddr = naddrText snr'.self.netAddr
  leafset : ∀ right, (snr.leafset right).entries.map shownEntry =
    (snr'.leafset right).entries.map shownEntry
  table : ∀ l c, ((snr.table l c).IsSet ↔ (snr'.table l c).IsSet) ∧
    ((snr.table l c).IsSet → shownEntry (snr.table l c) = shownEntry (snr'.table l c))

/-- The lines of the text. -/
def routerLines (snr : SnNetRouter) : List (List UInt8) :=
  selfLine snr :: leafsetHeading "Left" snr.leftLeafset :: (leafsetLines snr.leftLeafset ++
    leafsetHeading "Right" snr.rightLeafset :: (leafsetLines snr.rightLeafset ++
      ascii "Routing table\n" :: tableLines snr))

theorem flatten_routerLines (snr : SnNetRouter) : (routerLines snr).flatten = routerText snr := by
  simp [routerLines, routerText, routerGroups]

/-- Every line ends with a newline and has no other. -/
theorem isLine_of_mem_routerLines (hinv : RouterInv snr) (h : snr.OneLine) :
    ∀ l ∈ routerLines snr, IsLine l := by
  have hleafset : ∀ right, ∀ l ∈ leafsetLines (snr.leafset right), IsLine l := by
    intro right l hl
    rw [leafsetLines_eq (hinv.leafset right).packed] at hl
    obtain ⟨e, he, rfl⟩ := List.mem_map.1 hl
    exact isLine_leafsetLine (newline_notMem_entryString
      (h e (Or.inl (SnNetRouter.setEntry_of_mem_entries he))))
  have htable : ∀ l ∈ tableLines snr, IsLine l := by
    intro l hl
    rw [tableLines_eq] at hl
    obtain ⟨i, hi, rfl⟩ := List.mem_map.1 hl
    have hset := mem_setSlots.1 hi
    exact isLine_tableLine (newline_notMem_entryString
      (h _ (Or.inl (SnNetRouter.setEntry_iff.2 (Or.inl ⟨hset, _, _, rfl⟩)))))
  have hheading : IsLine (ascii "Routing table\n") := ⟨ascii "Routing table", by decide, rfl⟩
  refine List.forall_mem_cons.2 ⟨isLine_selfLine h, List.forall_mem_cons.2
    ⟨isLine_leafsetHeading _ (by decide), List.forall_mem_append.2 ⟨hleafset false,
      List.forall_mem_cons.2 ⟨isLine_leafsetHeading _ (by decide), List.forall_mem_append.2
        ⟨hleafset true, List.forall_mem_cons.2 ⟨hheading, htable⟩⟩⟩⟩⟩⟩

/-- A heading tells how many lines follow. -/
theorem length_leafsetLines_eq {side : String} {leafset leafset' : Leafset}
    (h : leafsetHeading side leafset = leafsetHeading side leafset') :
    (leafsetLines leafset).length = (leafsetLines leafset').length := by
  have hlen : snNetEntryArrayLen leafset.val = snNetEntryArrayLen leafset'.val :=
    Decimal.text_injective (List.append_cancel_left (List.append_cancel_right h))
  rw [leafsetLines, leafsetLines, ← List.map_eq_flatMap, ← List.map_eq_flatMap, List.length_map,
    List.length_map, hlen]

/-- The lines of the entries of a leafset show these. -/
theorem leafsetLines_inj (hinv : RouterInv snr) (hinv' : RouterInv snr') (right : Bool) :
    leafsetLines (snr.leafset right) = leafsetLines (snr'.leafset right) ↔
      (snr.leafset right).entries.map shownEntry = (snr'.leafset right).entries.map shownEntry := by
  rw [leafsetLines_eq (hinv.leafset right).packed, leafsetLines_eq (hinv'.leafset right).packed]
  have hline : ∀ e ∈ (snr.leafset right).entries, ∀ e' ∈ (snr'.leafset right).entries,
      (leafsetLine (entryString e 16) = leafsetLine (entryString e' 16) ↔
        shownEntry e = shownEntry e') := by
    intro e he e' he'
    rw [leafsetLine, leafsetLine, List.append_left_inj, List.append_right_inj]
    exact entryString_inj_iff (Leafset.isSet_of_mem_entries he) (Leafset.isSet_of_mem_entries he')
  constructor
  · intro h
    rw [List.map_eq_flatMap, List.map_eq_flatMap]
    exact flatMap_eq_of_map_eq (fun e he e' he' heq => by rw [(hline e he e' he').1 heq]) h
  · intro h
    rw [List.map_eq_flatMap, List.map_eq_flatMap]
    exact flatMap_eq_of_map_eq (fun e he e' he' heq => by rw [(hline e he e' he').2 heq]) h

/-- The lines of the table show which slots are set, and with what. -/
theorem tableLines_inj : tableLines snr = tableLines snr' ↔
    ∀ l c, ((snr.table l c).IsSet ↔ (snr'.table l c).IsSet) ∧
      ((snr.table l c).IsSet → shownEntry (snr.table l c) = shownEntry (snr'.table l c)) := by
  rw [tableLines_eq, tableLines_eq]
  constructor
  · intro h
    have hslots : setSlots snr = setSlots snr' := by
      have hpairs : ((setSlots snr).flatMap fun i => [i]) = (setSlots snr').flatMap fun i => [i] :=
        flatMap_eq_of_map_eq (fun i _ j _ heq => by rw [(slotLine_inj.1 heq).1]) h
      rwa [← List.map_eq_flatMap, ← List.map_eq_flatMap, List.map_id', List.map_id'] at hpairs
    rw [← hslots] at h
    intro l c
    have hset : (snr.table l c).IsSet ↔ (snr'.table l c).IsSet := by
      rw [← @mem_setSlots snr (l, c), hslots, mem_setSlots]
    refine ⟨hset, fun hl => ?_⟩
    have hline := List.map_inj_left.1 h (l, c) (mem_setSlots.2 hl)
    exact (entryString_inj_iff hl (hset.1 hl)).1 (slotLine_inj.1 hline).2
  · intro h
    have hslots : setSlots snr = setSlots snr' := by
      rw [setSlots, setSlots]
      exact List.filter_congr fun i _ => decide_eq_decide.2 (h i.1 i.2).1
    rw [← hslots]
    refine List.map_congr_left fun i hi => slotLine_inj.2 ⟨rfl, ?_⟩
    have hset := mem_setSlots.1 hi
    exact (entryString_inj_iff hset ((h i.1 i.2).1.1 hset)).2 ((h i.1 i.2).2 hset)

/-- The line of the own entry shows it whole. -/
theorem selfLine_inj (hinv : RouterInv snr) (hinv' : RouterInv snr') :
    selfLine snr = selfLine snr' ↔ snr.self.addr = snr'.self.addr ∧
      naddrText snr.self.netAddr = naddrText snr'.self.netAddr := by
  have hwhole : ∀ a : SnNetAddr, (addrText a).take snNetAddrHexLen = addrText a := fun a =>
    List.take_of_length_le (length_addrText_le a)
  rw [selfLine, selfLine, List.append_left_inj, List.append_right_inj,
    entryString_inj hinv.self_isSet hinv'.self_isSet, hwhole, hwhole, addrText_injective.eq_iff]

/-- Leafsets that look alike have as many entries. -/
theorem LooksAlike.length_eq (h : LooksAlike snr snr') (right : Bool) :
    (snr.leafset right).entries.length = (snr'.leafset right).entries.length := by
  have hlen := congrArg List.length (h.leafset right)
  rwa [List.length_map, List.length_map] at hlen

theorem leafsetHeading_eq (hinv : RouterInv snr) (hinv' : RouterInv snr') (h : LooksAlike snr snr')
    (side : String) (right : Bool) :
    leafsetHeading side (snr.leafset right) = leafsetHeading side (snr'.leafset right) := by
  rw [leafsetHeading, leafsetHeading, (hinv.leafset right).packed.arrayLen_eq,
    (hinv'.leafset right).packed.arrayLen_eq, h.length_eq]

/-- **The text of a router** shows what the router looks like, and nothing else. -/
theorem routerText_eq_iff (hinv : RouterInv snr) (hinv' : RouterInv snr') (h : snr.OneLine)
    (h' : snr'.OneLine) : routerText snr = routerText snr' ↔ LooksAlike snr snr' := by
  constructor
  · intro htext
    rw [← flatten_routerLines, ← flatten_routerLines] at htext
    have hlines := flatten_lines_inj (isLine_of_mem_routerLines hinv h)
      (isLine_of_mem_routerLines hinv' h') htext
    obtain ⟨hselfLine, hlines⟩ := List.cons.inj hlines
    obtain ⟨hheading, hlines⟩ := List.cons.inj hlines
    obtain ⟨hleft, hlines⟩ := List.append_inj hlines (length_leafsetLines_eq hheading)
    obtain ⟨hheading', hlines⟩ := List.cons.inj hlines
    obtain ⟨hright, hlines⟩ := List.append_inj hlines (length_leafsetLines_eq hheading')
    obtain ⟨hself, hnet⟩ := (selfLine_inj hinv hinv').1 hselfLine
    refine ⟨hself, hnet, fun right => ?_, tableLines_inj.1 (List.cons.inj hlines).2⟩
    cases right with
    | false => exact (leafsetLines_inj hinv hinv' false).1 hleft
    | true => exact (leafsetLines_inj hinv hinv' true).1 hright
  · intro halike
    have hself := (selfLine_inj hinv hinv').2 ⟨halike.self_addr, halike.self_netAddr⟩
    have hleft : leafsetLines snr.leftLeafset = leafsetLines snr'.leftLeafset :=
      (leafsetLines_inj hinv hinv' false).2 (halike.leafset false)
    have hright : leafsetLines snr.rightLeafset = leafsetLines snr'.rightLeafset :=
      (leafsetLines_inj hinv hinv' true).2 (halike.leafset true)
    have hheadingLeft : leafsetHeading "Left" snr.leftLeafset =
        leafsetHeading "Left" snr'.leftLeafset := leafsetHeading_eq hinv hinv' halike "Left" false
    have hheadingRight : leafsetHeading "Right" snr.rightLeafset =
        leafsetHeading "Right" snr'.rightLeafset := leafsetHeading_eq hinv hinv' halike "Right" true
    rw [← flatten_routerLines, ← flatten_routerLines, routerLines, routerLines, hself,
      tableLines_inj.2 halike.table, hleft, hright, hheadingLeft, hheadingRight]

/-! ### Routers that know nobody -/

/-! ### What a router looks like and what it does -/

/-- Every address is shown whole. -/
def SnNetRouter.ShortAddrs (snr : SnNetRouter) : Prop :=
  ∀ e, snr.SetEntry e → (addrText e.addr).length ≤ 16

theorem addr_eq_of_shownEntry (h : shownEntry e = shownEntry e')
    (hshort : (addrText e.addr).length ≤ 16) (hshort' : (addrText e'.addr).length ≤ 16) :
    e.addr = e'.addr := by
  have htext : (addrText e.addr).take 16 = (addrText e'.addr).take 16 := congrArg Prod.fst h
  rw [List.take_of_length_le hshort, List.take_of_length_le hshort'] at htext
  exact addrText_injective htext

/-- **Routers of short addresses that look alike** have the same nodes at the same places. -/
theorem LooksAlike.alike (h : LooksAlike snr snr') (hinv : RouterInv snr) (hinv' : RouterInv snr')
    (hshort : snr.ShortAddrs) (hshort' : snr'.ShortAddrs) : Alike snr snr' := by
  have hleafset : ∀ right i, SameNode (leafsetEntry (snr.leafset right) i)
      (leafsetEntry (snr'.leafset right) i) := by
    intro right i
    have hlen := h.length_eq right
    have hpacked := (hinv.leafset right).packed
    have hpacked' := (hinv'.leafset right).packed
    refine ⟨by rw [hpacked.leafsetEntry_isSet_iff, hpacked'.leafsetEntry_isSet_iff, hlen],
      fun hset => ?_⟩
    have hi := hpacked.leafsetEntry_isSet_iff.1 hset
    have hi' := hlen ▸ hi
    rw [hpacked.leafsetEntry_eq hi, hpacked'.leafsetEntry_eq hi']
    have hshown : shownEntry (snr.leafset right).entries[i] =
        shownEntry (snr'.leafset right).entries[i] := by
      have hget := congrArg (fun l => l[i]?) (h.leafset right)
      simpa [hi, hi'] using hget
    exact addr_eq_of_shownEntry hshown
      (hshort _ (SnNetRouter.setEntry_of_mem_entries (List.getElem_mem hi)))
      (hshort' _ (SnNetRouter.setEntry_of_mem_entries (List.getElem_mem hi')))
  refine ⟨hinv.self_isSet, fun l c => ?_, fun p _ _ => ?_⟩
  · obtain ⟨hset, hshown⟩ := h.table l c
    refine ⟨hset, fun hl => addr_eq_of_shownEntry (hshown hl) (hshort _ ?_) (hshort' _ ?_)⟩
    · exact SnNetRouter.setEntry_iff.2 (Or.inl ⟨hl, l, c, rfl⟩)
    · exact SnNetRouter.setEntry_iff.2 (Or.inl ⟨hset.1 hl, l, c, rfl⟩)
  · rw [SnNetRouter.entryAt, SnNetRouter.entryAt]
    split_ifs
    · exact hleafset true _
    · exact hleafset false _
    · exact ⟨iff_of_true hinv.self_isSet hinv'.self_isSet, fun _ => h.self_addr⟩

end SndNet
