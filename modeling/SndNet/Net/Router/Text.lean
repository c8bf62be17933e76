import SndNet.Io.NaddrText
import SndNet.Library.BoundedPrint
import SndNet.Net.Router.Invariant
import SndNet.Net.Text

/-!
# The router as text

The router is printed into a buffer: a line for ourselves, a heading and a line for each entry of
the two leafsets, and the same for the table (`src/net/router.c`, lines 118–208). The used length is
compared with the length of the buffer after the headings of the leafsets, and after the loops over
their entries and over the table, but not after our own line and not inside the loops.

## Main definitions

* `SndNet.snNetRouterToStr`: the printing of a router.
* `SndNet.routerGroups`, `SndNet.routerText`: the lines between two checks, and the whole text.
* `SndNet.PrintsInBuffer`: the printing respects its buffer.

## Main results

* `SndNet.snNetRouterToStr_eq`: the lines are printed group by group.
* `SndNet.printsInBuffer_iff`: when the printing respects its buffer.
-/

namespace SndNet

open BoundedPrint Ctype CString FallibleRun

/-! ### The functions of the source -/

/-- `SN_NET_ENTRY_PRINTABLE_LEN`. -/
abbrev snNetEntryPrintableLen : ℕ := snNetAddrPrintableLen + 1 + snIoNaddrPrintableLen

/-- What `sn_net_entry_to_str` leaves in its buffer, unless it returns -1. -/
def entryOutStr : EntryText → Option (List UInt8)
  | none =>
    if (ascii "NULL").length < 4 then none
    else some (snprintf snNetEntryPrintableLen (ascii "NULL"))
  | some (addrStr, netAddr) =>
    match snIoNaddrToStr netAddr with
    | none => none
    | some netAddrStr =>
      let outStr := addrStr ++ ascii "@" ++ netAddrStr
      if outStr.length < addrStr.length + netAddrStr.length + 1 then none
      else some (snprintf snNetEntryPrintableLen outStr)

/-- `sn_net_entry_to_str` (`src/net/entry.c`, lines 73–101), with the text in its buffer. -/
def entryToStr (sne : SnNetEntry) (addrPrecision : ℕ) : Exec (Option (List UInt8)) := do
  let text ← snNetEntryToStr sne addrPrecision
  return entryOutStr text

/-- What ends the printing before its end. -/
inductive PrintStop where
  | fault (f : Fault)
  /-- The function returns -1. -/
  | error
  deriving DecidableEq

/-- A computation that prints into a buffer. -/
abbrev PrintM := Traced (Call UInt8) PrintStop

/-- An execution that prints nothing. -/
def execute {α : Type} (x : Exec α) : PrintM α := .lift (x.mapError .fault)

/-- A line with an entry. -/
def printEntry (outStrLen : ℕ) (line : List UInt8 → List UInt8) (usedLen : ℕ) (e : SnNetEntry) :
    PrintM ℕ := do
  match ← execute (entryToStr e 16) with
  | none => .lift (.error .error)
  | some entry => print outStrLen usedLen (line entry)

/-- The line of an entry of a leafset, with the format `"\t%s\n"`. -/
def leafsetLine (entry : List UInt8) : List UInt8 := ascii "\t" ++ entry ++ ascii "\n"

/-- The heading of a leafset, with the format `"… leafset[%lu]\n"`. -/
def leafsetHeading (side : String) (leafset : Leafset) : List UInt8 :=
  ascii side ++ ascii " leafset[" ++ Decimal.text (snNetEntryArrayLen leafset.val) ++ ascii "]\n"

/-- The line of an entry of the table, with the format `"\t[%2u][%2u]:%s\n"`. -/
def tableLine (level column : ℕ) (entry : List UInt8) : List UInt8 :=
  ascii "\t[" ++ (Decimal.text level).leftpad 2 32 ++ ascii "][" ++
    (Decimal.text column).leftpad 2 32 ++ ascii "]:" ++ entry ++ ascii "\n"

/-- The heading and the loop for one leafset. -/
def leafsetToStr (side : String) (leafset : Leafset) (outStrLen usedLen : ℕ) : PrintM ℕ := do
  let usedLen ← print outStrLen usedLen (leafsetHeading side leafset)
  checkRoom outStrLen .error usedLen
  (List.range (snNetEntryArrayLen leafset.val)).foldlM (fun usedLen i =>
    printEntry outStrLen leafsetLine usedLen (leafsetEntry leafset i)) usedLen

/-- The heading and the loops for the table. -/
def tableToStr (snr : SnNetRouter) (outStrLen usedLen : ℕ) : PrintM ℕ := do
  let usedLen ← print outStrLen usedLen (ascii "Routing table\n")
  (List.finRange snNetRouterLevels).foldlM (fun usedLen level =>
    (List.finRange snNetRouterColumns).foldlM (fun usedLen column =>
      if (snr.table level column).IsSet then
        printEntry outStrLen (tableLine level column) usedLen (snr.table level column)
      else return usedLen) usedLen) usedLen

/-- `sn_net_router_to_str` (`src/net/router.c`, lines 118–208). The return value of the first
conversion is not looked at, and `selfStr` is what its buffer holds before. -/
def snNetRouterToStr (selfStr : List UInt8) (snr : SnNetRouter) (outStrLen : ℕ) : PrintM ℤ := do
  let printed ← execute (entryToStr snr.self snNetAddrHexLen)
  let usedLen ← print outStrLen 0
    (ascii "Router is at " ++ printed.getD selfStr ++ ascii "\n")
  let usedLen ← leafsetToStr "Left" snr.leftLeafset outStrLen usedLen
  checkRoom outStrLen .error usedLen
  let usedLen ← leafsetToStr "Right" snr.rightLeafset outStrLen usedLen
  checkRoom outStrLen .error usedLen
  let usedLen ← tableToStr snr outStrLen usedLen
  checkRoom outStrLen .error usedLen
  return 0

/-! ### The text -/

/-- The text of a network address. -/
def naddrText (addr : SnIoNaddr) : List UInt8 := (snIoNaddrToStr addr).getD []

/-- The text of an entry with some digits of its address. -/
def entryString (sne : SnNetEntry) (addrPrecision : ℕ) : List UInt8 :=
  if sne.isSet = 0 then ascii "NULL"
  else (addrText sne.addr).take addrPrecision ++ ascii "@" ++ naddrText sne.netAddr

/-- The lines of the entries of a leafset. -/
def leafsetLines (leafset : Leafset) : List (List UInt8) :=
  (List.range (snNetEntryArrayLen leafset.val)).flatMap fun i =>
    [leafsetLine (entryString (leafsetEntry leafset i) 16)]

/-- The lines of the entries of the table. -/
def tableLines (snr : SnNetRouter) : List (List UInt8) :=
  (List.finRange snNetRouterLevels).flatMap fun level =>
    (List.finRange snNetRouterColumns).flatMap fun column =>
      if (snr.table level column).IsSet then
        [tableLine level column (entryString (snr.table level column) 16)]
      else []

/-- Our own line. -/
def selfLine (snr : SnNetRouter) : List UInt8 :=
  ascii "Router is at " ++ entryString snr.self snNetAddrHexLen ++ ascii "\n"

/-- The lines of the text, in the groups between two checks. -/
def routerGroups (snr : SnNetRouter) : List (List (List UInt8)) :=
  [[selfLine snr, leafsetHeading "Left" snr.leftLeafset], leafsetLines snr.leftLeafset,
    [leafsetHeading "Right" snr.rightLeafset], leafsetLines snr.rightLeafset,
    ascii "Routing table\n" :: tableLines snr]

/-- The complete text. -/
def routerText (snr : SnNetRouter) : List UInt8 := (routerGroups snr).flatten.flatten

/-! ### Entries are always printed -/

theorem exists_snIoNaddrToStr (addr : SnIoNaddr) :
    ∃ s, s.length < snIoNaddrPrintableLen ∧ snIoNaddrToStr addr = some s := by
  have hbound (s : List UInt8) : (snprintf snIoNaddrPrintableLen s).length <
      snIoNaddrPrintableLen := by
    rw [snprintf, List.length_take]
    exact (Nat.min_le_left _ _).trans_lt (by decide)
  have hquad : (DottedQuad.inetNtop addr.sinAddr).length < inetAddrstrlen :=
    Nat.lt_succ_of_le (DottedQuad.length_inetNtop_le (length_sinAddr addr))
  rw [snIoNaddrToStr]
  simp only [if_pos hquad]
  split_ifs
  · exact ⟨_, hbound _, rfl⟩
  · exact ⟨_, hbound _, rfl⟩
  · exact ⟨_, hbound _, rfl⟩

theorem snIoNaddrToStr_eq (addr : SnIoNaddr) : snIoNaddrToStr addr = some (naddrText addr) := by
  obtain ⟨s, -, hs⟩ := exists_snIoNaddrToStr addr
  rw [naddrText, hs, Option.getD_some]

theorem length_naddrText_lt (addr : SnIoNaddr) :
    (naddrText addr).length < snIoNaddrPrintableLen := by
  obtain ⟨s, hlen, hs⟩ := exists_snIoNaddrToStr addr
  rwa [naddrText, hs, Option.getD_some]

theorem length_entryString_lt (sne : SnNetEntry) {addrPrecision : ℕ}
    (h : addrPrecision < snNetAddrPrintableLen) :
    (entryString sne addrPrecision).length < snNetEntryPrintableLen := by
  have hnull : (ascii "NULL").length < snNetEntryPrintableLen := by decide
  have hat : (ascii "@").length = 1 := by decide
  have haddr : ((addrText sne.addr).take addrPrecision).length ≤ addrPrecision :=
    List.length_take_le _ _
  have hnaddr := length_naddrText_lt sne.netAddr
  rw [entryString]
  split_ifs with hset
  · exact hnull
  · have hsize : snNetEntryPrintableLen = snNetAddrPrintableLen + 1 + snIoNaddrPrintableLen := rfl
    rw [List.length_append, List.length_append, hat]
    omega

/-- An entry is printed whole. -/
theorem entryToStr_eq (sne : SnNetEntry) {addrPrecision : ℕ} (hne : addrPrecision ≠ 0)
    (h : addrPrecision < snNetAddrPrintableLen) :
    entryToStr sne addrPrecision = .ok (some (entryString sne addrPrecision)) := by
  have hlen := length_entryString_lt sne h
  rw [entryToStr, snNetEntryToStr, cAssert_of h, ok_bind]
  rw [entryString] at hlen ⊢
  by_cases hset : sne.isSet = 0
  · rw [if_pos hset, if_pos hset]
    rfl
  · rw [if_neg hset] at hlen
    rw [if_neg hset, if_neg hset, snNetAddrToStr_eq, ok_bind, if_pos hne]
    have hwhole : ¬ ((addrText sne.addr).take addrPrecision ++ ascii "@" ++
        naddrText sne.netAddr).length < ((addrText sne.addr).take addrPrecision).length +
          (naddrText sne.netAddr).length + 1 := by
      rw [List.length_append, List.length_append, show (ascii "@").length = 1 by decide]
      omega
    have hout : entryOutStr (some ((addrText sne.addr).take addrPrecision, sne.netAddr)) = some
        ((addrText sne.addr).take addrPrecision ++ ascii "@" ++ naddrText sne.netAddr) := by
      simp only [entryOutStr, snIoNaddrToStr_eq, if_neg hwhole, snprintf_of_lt hlen]
    exact congrArg Except.ok hout

/-! ### The lines are printed group by group -/

theorem execute_entryToStr (sne : SnNetEntry) {addrPrecision : ℕ} (hne : addrPrecision ≠ 0)
    (h : addrPrecision < snNetAddrPrintableLen) :
    execute (entryToStr sne addrPrecision) = pure (some (entryString sne addrPrecision)) := by
  rw [entryToStr_eq sne hne h]
  rfl

section Print

variable {outStrLen usedLen : ℕ}

theorem printEntry_eq (line : List UInt8 → List UInt8) (e : SnNetEntry) :
    printEntry outStrLen line usedLen e =
      printAll outStrLen [line (entryString e 16)] usedLen := by
  rw [printEntry, execute_entryToStr e (by decide) (by decide), pure_bind, printAll_singleton]

theorem leafsetToStr_eq (side : String) (leafset : Leafset) :
    leafsetToStr side leafset outStrLen usedLen = (do
      let usedLen ← print outStrLen usedLen (leafsetHeading side leafset)
      checkRoom outStrLen .error usedLen
      printAll outStrLen (leafsetLines leafset) usedLen) := by
  rw [leafsetToStr]
  refine bind_congr fun usedLen => bind_congr fun _ => ?_
  exact foldlM_eq_printAll outStrLen (fun usedLen i => printEntry_eq _ _) _ usedLen

theorem tableToStr_eq (snr : SnNetRouter) : tableToStr snr outStrLen usedLen =
    printAll outStrLen (ascii "Routing table\n" :: tableLines snr) usedLen := by
  rw [tableToStr, printAll, List.foldlM_cons]
  refine bind_congr fun usedLen => ?_
  refine foldlM_eq_printAll outStrLen (fun usedLen level => ?_) _ usedLen
  refine foldlM_eq_printAll outStrLen (fun usedLen column => ?_) _ usedLen
  split_ifs
  · exact printEntry_eq _ _
  · rfl

end Print

/-- **What the function prints.** The lines of the text, with a check after each group. -/
theorem snNetRouterToStr_eq (selfStr : List UInt8) (snr : SnNetRouter) (outStrLen : ℕ) :
    snNetRouterToStr selfStr snr outStrLen = (do
      let _ ← printGroups outStrLen .error (routerGroups snr) 0
      return 0) := by
  rw [snNetRouterToStr, execute_entryToStr _ (by decide) (by decide), pure_bind, routerGroups]
  simp only [leafsetToStr_eq, tableToStr_eq, printGroups, printAll_singleton,
    printAll_cons outStrLen (selfLine snr), bind_assoc, pure_bind, Option.getD_some]
  rfl

/-! ### The buffer -/

/-- The printing respects its buffer: the size that is left never wraps around, nothing is written
outside, and 0 is returned when the complete text fits with its terminator. -/
structure PrintsInBuffer (selfStr : List UInt8) (snr : SnNetRouter) (outStrLen : ℕ) : Prop where
  noWrap : ∀ c ∈ (snNetRouterToStr selfStr snr outStrLen).events, c.usedLen ≤ outStrLen
  inBounds : ∀ c ∈ (snNetRouterToStr selfStr snr outStrLen).events, ∀ i ∈ c.written, i < outStrLen
  returns : (snNetRouterToStr selfStr snr outStrLen).result = .ok 0 ↔
    (routerText snr).length < outStrLen

section Buffer

variable {selfStr : List UInt8} {snr : SnNetRouter} {outStrLen : ℕ}

/-- The size that is left never wraps around when in each group of lines that is reached all but the
last line fit. -/
theorem noWrap_iff (h : 0 < outStrLen) :
    (∀ c ∈ (snNetRouterToStr selfStr snr outStrLen).events, c.usedLen ≤ outStrLen) ↔
      RoomBeforeLast outStrLen (routerGroups snr) := by
  rw [snNetRouterToStr_eq, Traced.bind_pure]
  exact usedLen_le_iff h

/-- **When the router is printed in its buffer.** In each group of lines that is reached, all but
the last line must fit. -/
theorem printsInBuffer_iff (h : 0 < outStrLen) :
    PrintsInBuffer selfStr snr outStrLen ↔ RoomBeforeLast outStrLen (routerGroups snr) := by
  constructor
  · intro hprints
    exact (noWrap_iff h).1 hprints.noWrap
  · intro hroom
    have hwrap : ∀ c ∈ (snNetRouterToStr selfStr snr outStrLen).events, c.usedLen ≤ outStrLen :=
      (noWrap_iff h).2 hroom
    refine ⟨hwrap, ?_, ?_⟩
    · intro c hc i
      have hsize : c.size = subSize outStrLen c.usedLen := by
        rw [snNetRouterToStr_eq, Traced.bind_pure] at hc
        exact size_eq_of_mem_printGroups hc
      exact Call.lt_of_mem_written hsize (hwrap c hc)
    · rw [snNetRouterToStr_eq, Traced.bind_pure, printGroups_result h, Nat.zero_add]
      change _ ↔ (routerGroups snr).flatten.flatten.length < outStrLen
      split_ifs with hlen
      · exact iff_of_true rfl hlen
      · exact iff_of_false (fun h => nomatch h) hlen

/-- The text of a router with an entry on each side has 142 characters. In a buffer of 130 bytes its
last line is cut off, without a write outside. -/
theorem printsInBuffer_of_add : ∃ snr,
    routerOn4f5e22 [.add (.ofBytes [0x33, 0x33, 0x33]) none,
      .add (.ofBytes [0x88, 0x88, 0x88]) none] = .ok snr ∧
    (leafsetLines snr.leftLeafset).length = 1 ∧ (leafsetLines snr.rightLeafset).length = 1 ∧
    (tableLines snr).length = 2 ∧ (routerText snr).length = 142 ∧ PrintsInBuffer [] snr 130 := by
  have hobs : (routerOn4f5e22 [.add (.ofBytes [0x33, 0x33, 0x33]) none,
      .add (.ofBytes [0x88, 0x88, 0x88]) none]).toOption.map (fun snr =>
      ((leafsetLines snr.leftLeafset).length, (leafsetLines snr.rightLeafset).length,
        (tableLines snr).length, (routerText snr).length,
        decide (RoomBeforeLast 130 (routerGroups snr)))) = some (1, 1, 2, 142, true) := by
    decide +kernel
  obtain ⟨snr, hrun, hsnr⟩ := exists_ok_of_toOption_map hobs
  simp only [Prod.mk.injEq, decide_eq_true_eq] at hsnr
  obtain ⟨hleft, hright, htable, htext, hroom⟩ := hsnr
  exact ⟨snr, hrun, hleft, hright, htable, htext, (printsInBuffer_iff (by decide)).2 hroom⟩

/-- A buffer of one byte is too small for our own line, after which nothing is checked. -/
theorem not_roomBeforeLast_one (snr : SnNetRouter) : ¬ RoomBeforeLast 1 (routerGroups snr) := by
  intro h
  have hself : 13 ≤ (selfLine snr).length := by
    rw [selfLine, List.append_assoc, List.length_append, show (ascii "Router is at ").length = 13
      by decide]
    exact Nat.le_add_right _ _
  have hroom := h [] _ _ rfl (by decide)
  simp only [List.dropLast_cons_cons, List.dropLast_singleton, List.flatten_cons,
    List.flatten_nil, List.append_nil, List.length_nil] at hroom
  omega

theorem not_printsInBuffer_one : ¬ PrintsInBuffer [] (snNetRouterInit .zero none) 1 := fun h =>
  not_roomBeforeLast_one _ ((noWrap_iff (by decide)).1 h.noWrap)

end Buffer

end SndNet
