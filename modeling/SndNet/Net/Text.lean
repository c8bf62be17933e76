import SndNet.Net.Entry
import Mathlib.Data.List.DropRight

/-!
# Addresses and entries as text

Log lines show addresses and entries as text (`src/net/addr.c`, `src/net/entry.c`). The conversion
checks each digit by an assertion. A text is the list of its characters without the terminator; a
network address inside a text is left as it is.

## Main definitions

* `SndNet.snNetAddrToStr`, `SndNet.snNetEntryToStr`: the texts of addresses and entries.

## Main results

* `SndNet.snNetAddrToStr_eq`, `SndNet.snNetEntryToStr_eq`: the conversions fail no assertion.
-/

namespace SndNet

open FallibleRun

/-- `SN_NET_ADDR_PRINTABLE_LEN`. -/
abbrev snNetAddrPrintableLen : ℕ := snNetAddrHexLen + 1

/-- The character of a digit: `'0' + c` below ten and `'W' + c` from ten on. -/
def printableDigit (c : UInt8) : UInt8 := if c < 10 then 48 + c else 87 + c

/-- `hexstring_to_printable` (`src/net/addr.c`, lines 182–202). -/
def hexstringToPrintable : List UInt8 → Exec (List UInt8)
  | [] => return []
  | c :: hexstring => do
    cAssert (c < 16)
    let printable ← hexstringToPrintable hexstring
    return printableDigit c :: printable

/-- `sn_net_addr_to_str` (`src/net/addr.c`, lines 43–58): the digits without trailing zeros. -/
def snNetAddrToStr (sna : SnNetAddr) : Exec (List UInt8) := do
  let outStr ← hexstringToPrintable (snNetAddrGetHex sna)
  return outStr.rdropWhile (· = 48)

/-- The text of an entry: the text of its address and its network address, or `NULL`. -/
abbrev EntryText := Option (List UInt8 × SnIoNaddr)

/-- `sn_net_entry_to_str` (`src/net/entry.c`, lines 73–101). -/
def snNetEntryToStr (sne : SnNetEntry) (addrPrecision : ℕ) : Exec EntryText := do
  cAssert (addrPrecision < snNetAddrPrintableLen)
  if sne.isSet = 0 then return none
  else
    let addrStr ← snNetAddrToStr sne.addr
    let addrStr := if addrPrecision ≠ 0 then addrStr.take addrPrecision else addrStr
    return some (addrStr, sne.netAddr)

/-! ### The conversions do not fail -/

theorem hexstringToPrintable_eq : ∀ {hexstring : List UInt8}, (∀ c ∈ hexstring, c < 16) →
    hexstringToPrintable hexstring = .ok (hexstring.map printableDigit)
  | [], _ => rfl
  | c :: hexstring, h => by
    rw [hexstringToPrintable, cAssert_of (h c List.mem_cons_self), ok_bind,
      hexstringToPrintable_eq fun d hd => h d (List.mem_cons_of_mem _ hd)]
    rfl

/-- The text of an address. -/
def addrText (sna : SnNetAddr) : List UInt8 :=
  ((snNetAddrGetHex sna).map printableDigit).rdropWhile (· = 48)

theorem snNetAddrToStr_eq (sna : SnNetAddr) : snNetAddrToStr sna = .ok (addrText sna) := by
  rw [snNetAddrToStr, snNetAddrGetHex,
    hexstringToPrintable_eq fun c => lt_of_mem_bytestringToHexstring]
  rfl

/-- The text of an entry with all digits of its address. -/
def entryText (sne : SnNetEntry) : EntryText :=
  if sne.isSet = 0 then none else some ((addrText sne.addr).take snNetAddrHexLen, sne.netAddr)

theorem snNetEntryToStr_eq (sne : SnNetEntry) :
    snNetEntryToStr sne snNetAddrHexLen = .ok (entryText sne) := by
  rw [snNetEntryToStr, cAssert_of (by decide), ok_bind, entryText]
  by_cases h : sne.isSet = 0
  · rw [if_pos h, if_pos h]
    rfl
  · rw [if_neg h, if_neg h, snNetAddrToStr_eq]
    rfl

end SndNet
