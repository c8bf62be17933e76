import SndNet.Library.Ctype
import SndNet.Net.Text

/-!
# Addresses from hexadecimal text

An address is written with its hexadecimal digits, where the zeros at the end are left out
(`src/net/addr.c`, lines 43–58 and 182–202), and is read from such a text of any length
(`src/net/addr.c`, lines 19–27 and 204–235). The reader goes through the characters up to the end of
the text or to the sixty-fourth, collects two digits in a byte, and asserts of every character that
it is a letter or a decimal digit. A letter beyond `f` passes this assertion, and its value runs
over into the digit before it.

## Main definitions

* `SndNet.printableToBytestring`, `SndNet.snNetAddrFromHex`: the reader.
* `SndNet.packDigits`: digits, two in a byte.
* `SndNet.AcceptsOnlyHex`, `SndNet.HexFaithful`: the reader accepts hexadecimal texts only, and
  tells different ones apart.

## Main results

* `SndNet.snNetAddrFromHex_eq`: the reader fails its assertion or packs the digits.
* `SndNet.hex_round_trips`: what is written is read back, and what is read is written in lower case
  without the zeros at the end.
* `SndNet.hexFaithful_iff`: the texts on which the reader does what its assertion is for.
-/

namespace SndNet

open FallibleRun Ctype

/-! ### The functions of the source -/

/-- The value that `printable_to_bytestring` adds for a character. -/
def printableValue (c : UInt8) : UInt8 :=
  if isdigit c then c - 48
  else if islower c then c - 97 + 10
  else if isupper c then c - 65 + 10
  else 0

/-- The end of `printable_to_bytestring`, after `i` characters: half a byte is written as well. -/
def printableExit (i : ℕ) (ac : UInt8) (bytestring : CArray UInt8 snNetAddrLen) :
    CArray UInt8 snNetAddrLen :=
  if i % 2 ≠ 0 then bytestring.write (i / 2) ac else bytestring

/-- The loop of `printable_to_bytestring`. The accumulator `ac` wraps around. -/
def printableLoop : List UInt8 → ℕ → UInt8 → CArray UInt8 snNetAddrLen →
    Exec (CArray UInt8 snNetAddrLen)
  | [], i, ac, bytestring => return printableExit i ac bytestring
  | c :: printable, i, ac, bytestring =>
    if c ≠ 0 ∧ i < snNetAddrLen * 2 then do
      cAssert (isalnum c)
      let ac := ac + printableValue c
      if i % 2 ≠ 0 then printableLoop printable (i + 1) 0 (bytestring.write (i / 2) ac)
      else printableLoop printable (i + 1) (ac <<< 4) bytestring
    else return printableExit i ac bytestring

/-- `printable_to_bytestring` (`src/net/addr.c`, lines 204–235). -/
def printableToBytestring (printable : List UInt8) : Exec (CArray UInt8 snNetAddrLen) :=
  printableLoop printable 0 0 (.replicate _ 0)

/-- `sn_net_addr_from_hex` (`src/net/addr.c`, lines 19–27). -/
def snNetAddrFromHex (hexstr : List UInt8) : Exec SnNetAddr := do
  let key ← printableToBytestring hexstr
  return ⟨key⟩

/-! ### What the reader does -/

/-- Digits as bytes, two in a byte, with a zero after the last of an odd number. -/
def packDigits : List UInt8 → List UInt8
  | [] => []
  | [d] => [d <<< 4]
  | d :: e :: ds => (d <<< 4 + e) :: packDigits ds

/-- The characters that are read: up to the end of the text, and at most `n`. -/
def readPart (n : ℕ) (printable : List UInt8) : List UInt8 :=
  (printable.takeWhile (· ≠ 0)).take n

theorem readPart_zero (printable : List UInt8) : readPart 0 printable = [] := List.take_zero

theorem readPart_zero_cons (n : ℕ) (printable : List UInt8) : readPart n (0 :: printable) = [] :=
  List.take_nil

theorem readPart_cons {c : UInt8} (hc : c ≠ 0) (n : ℕ) (printable : List UInt8) :
    readPart (n + 1) (c :: printable) = c :: readPart n printable := by
  rw [readPart, List.takeWhile_cons_of_pos (by simpa using hc), List.take_succ_cons, readPart]

/-- How the reader ends, when the bytes `done` are written, the digits `pending` are waiting and the
characters `cs` come. -/
def packOutcome (done pending cs : List UInt8) : Exec (CArray UInt8 snNetAddrLen) :=
  if cs.all isalnum then .ok (.padded _ (done ++ packDigits (pending ++ cs.map printableValue)) 0)
  else .error .assertionFailed

theorem packOutcome_nil (done pending : List UInt8) :
    packOutcome done pending [] = .ok (.padded _ (done ++ packDigits pending) 0) := by
  rw [packOutcome, if_pos List.all_nil, List.map_nil, List.append_nil]

theorem packOutcome_of_not {c : UInt8} (hc : ¬ isalnum c) (done pending cs : List UInt8) :
    packOutcome done pending (c :: cs) = .error .assertionFailed := by
  rw [packOutcome, if_neg (by simp [hc])]

theorem packOutcome_first {c : UInt8} (hc : isalnum c) (done cs : List UInt8) :
    packOutcome done [] (c :: cs) = packOutcome done [printableValue c] cs := by
  rw [packOutcome, packOutcome, List.all_cons, hc, Bool.true_and, List.map_cons, List.nil_append,
    List.singleton_append]

theorem packOutcome_second {c : UInt8} (hc : isalnum c) (d : UInt8) (done cs : List UInt8) :
    packOutcome done [d] (c :: cs) = packOutcome (done ++ [d <<< 4 + printableValue c]) [] cs := by
  rw [packOutcome, packOutcome, List.all_cons, hc, Bool.true_and, List.map_cons,
    List.singleton_append, packDigits, List.nil_append, List.append_assoc, List.singleton_append]

theorem printableExit_even (done : List UInt8) :
    printableExit (2 * done.length) 0 (.padded _ done 0) =
      .padded _ (done ++ packDigits []) 0 := by
  rw [printableExit, if_neg (by omega), packDigits, List.append_nil]

/-- A digit that is waiting at the end becomes a byte. -/
theorem printableExit_odd (done : List UInt8) (d : UInt8) :
    printableExit (2 * done.length + 1) (d <<< 4) (.padded _ done 0) =
      .padded _ (done ++ packDigits [d]) 0 := by
  rw [printableExit, if_pos (by omega), show (2 * done.length + 1) / 2 = done.length by omega,
    CArray.write_padded, packDigits]

/-- **What the loop does.** At an even index a whole number of bytes is written, and at an odd one
the digit before it is waiting in the accumulator. -/
theorem printableLoop_eq (printable : List UInt8) : ∀ done : List UInt8,
    (done.length ≤ snNetAddrLen → printableLoop printable (2 * done.length) 0 (.padded _ done 0) =
      packOutcome done [] (readPart (snNetAddrHexLen - 2 * done.length) printable)) ∧
    (done.length < snNetAddrLen → ∀ d : UInt8,
      printableLoop printable (2 * done.length + 1) (d <<< 4) (.padded _ done 0) =
        packOutcome done [d] (readPart (snNetAddrHexLen - (2 * done.length + 1)) printable)) := by
  have hlen : snNetAddrHexLen = snNetAddrLen * 2 := rfl
  induction printable with
  | nil =>
    intro done
    refine ⟨fun _ => ?_, fun h d => ?_⟩
    · rw [printableLoop, printableExit_even, readPart, List.takeWhile_nil, List.take_nil,
        packOutcome_nil, pure_eq_ok]
    · rw [printableLoop, printableExit_odd, readPart, List.takeWhile_nil, List.take_nil,
        packOutcome_nil, pure_eq_ok]
  | cons c printable ih =>
    intro done
    refine ⟨fun h => ?_, fun h d => ?_⟩
    · by_cases hc : c = 0
      · rw [printableLoop, if_neg (by simp [hc]), printableExit_even, hc, readPart_zero_cons,
          packOutcome_nil, pure_eq_ok]
      by_cases hfull : done.length = snNetAddrLen
      · have hn : snNetAddrHexLen - 2 * done.length = 0 := by omega
        rw [printableLoop, if_neg (by omega), printableExit_even, hn, readPart_zero,
          packOutcome_nil, pure_eq_ok]
      have hn : snNetAddrHexLen - 2 * done.length =
          (snNetAddrHexLen - (2 * done.length + 1)) + 1 := by
        omega
      rw [printableLoop, if_pos ⟨hc, by omega⟩, hn, readPart_cons hc]
      by_cases halnum : isalnum c
      · rw [cAssert_of halnum, ok_bind, if_neg (by omega), UInt8.zero_add,
          (ih done).2 (by omega), packOutcome_first halnum]
      · rw [cAssert_of_not halnum, error_bind, packOutcome_of_not halnum]
    · by_cases hc : c = 0
      · rw [printableLoop, if_neg (by simp [hc]), printableExit_odd, hc, readPart_zero_cons,
          packOutcome_nil, pure_eq_ok]
      have hn : snNetAddrHexLen - (2 * done.length + 1) =
          (snNetAddrHexLen - 2 * (done.length + 1)) + 1 := by
        omega
      rw [printableLoop, if_pos ⟨hc, by omega⟩, hn, readPart_cons hc]
      by_cases halnum : isalnum c
      · have hdone : 2 * done.length + 1 + 1 =
            2 * (done ++ [d <<< 4 + printableValue c]).length := by
          rw [List.length_append, List.length_singleton]
          omega
        have hroom : snNetAddrHexLen - 2 * (done.length + 1) =
            snNetAddrHexLen - 2 * (done ++ [d <<< 4 + printableValue c]).length := by
          rw [List.length_append, List.length_singleton]
        rw [cAssert_of halnum, ok_bind, if_pos (by omega),
          show (2 * done.length + 1) / 2 = done.length by omega, CArray.write_padded, hdone,
          (ih _).1 (by rw [List.length_append, List.length_singleton]; omega),
          packOutcome_second halnum, hroom]
      · rw [cAssert_of_not halnum, error_bind, packOutcome_of_not halnum]

/-- **What the reader does.** It fails its assertion when one of the characters that it reads is
neither a letter nor a digit, and packs their values otherwise. -/
theorem snNetAddrFromHex_eq (hexstr : List UInt8) : snNetAddrFromHex hexstr =
    if (readPart snNetAddrHexLen hexstr).all isalnum then
      .ok ⟨.padded _ (packDigits ((readPart snNetAddrHexLen hexstr).map printableValue)) 0⟩
    else .error .assertionFailed := by
  have hloop := (printableLoop_eq hexstr []).1 (Nat.zero_le _)
  have hstart : CArray.padded snNetAddrLen ([] : List UInt8) 0 = .replicate _ 0 := rfl
  rw [List.length_nil, Nat.mul_zero, hstart, packOutcome] at hloop
  rw [snNetAddrFromHex, printableToBytestring, hloop, Nat.sub_zero, List.nil_append,
    List.nil_append]
  split_ifs <;> rfl

/-- A text of at most sixty-four characters is read whole. -/
theorem readPart_eq {s : List UInt8} (hs : ∀ c ∈ s, c ≠ 0) (n : ℕ) : readPart n s = s.take n := by
  rw [readPart, List.takeWhile_eq_self_iff.2 fun c hc => by simpa using hs c hc]

/-! ### Digits -/

section Digits

variable {c d e : UInt8}

theorem printableValue_lt (h : isxdigit c) : printableValue c < 16 := by
  grind [isxdigit, printableValue, isdigit, islower, isupper]

/-- A hexadecimal digit is written in lower case. -/
theorem printableDigit_printableValue (h : isxdigit c) :
    printableDigit (printableValue c) = tolower c := by
  grind [isxdigit, printableValue, printableDigit, tolower, isdigit, islower, isupper]

theorem isxdigit_printableDigit (h : d < 16) : isxdigit (printableDigit d) := by
  grind [isxdigit, printableDigit, isdigit]

theorem tolower_printableDigit (h : d < 16) : tolower (printableDigit d) = printableDigit d := by
  grind [printableDigit, tolower, isupper]

theorem printableDigit_injOn (hd : d < 16) (he : e < 16) (h : printableDigit d = printableDigit e) :
    d = e := by
  grind [printableDigit]

/-- The two digits of a byte are found again. -/
theorem shiftLeft_add_div_mod (hd : d < 16) (he : e < 16) :
    (d <<< 4 + e) / 16 = d ∧ (d <<< 4 + e) % 16 = e := by
  rw [UInt8.lt_iff_toNat_lt] at hd he
  have hd' : d.toNat < 16 := hd
  have he' : e.toNat < 16 := he
  have hval : (d <<< 4 + e).toNat = d.toNat * 16 + e.toNat := by
    rw [UInt8.toNat_add, UInt8.toNat_shiftLeft, Nat.shiftLeft_eq]
    change (d.toNat * 16 % 256 + e.toNat) % 256 = _
    omega
  rw [← UInt8.toNat_inj, ← UInt8.toNat_inj, UInt8.toNat_div, UInt8.toNat_mod, hval]
  change (d.toNat * 16 + e.toNat) / 16 = _ ∧ (d.toNat * 16 + e.toNat) % 16 = _
  omega

end Digits

theorem bytestringToHexstring_append (cs ds : List UInt8) : bytestringToHexstring (cs ++ ds) =
    bytestringToHexstring cs ++ bytestringToHexstring ds := by
  induction cs with
  | nil => rfl
  | cons c cs ih => rw [List.cons_append, bytestringToHexstring, bytestringToHexstring, ih,
      List.cons_append, List.cons_append]

theorem bytestringToHexstring_replicate (n : ℕ) :
    bytestringToHexstring (List.replicate n 0) = List.replicate (2 * n) 0 := by
  induction n with
  | zero => rfl
  | succ n ih =>
    rw [List.replicate_succ, bytestringToHexstring, ih, Nat.mul_succ, List.replicate_succ,
      List.replicate_succ]
    rfl

theorem length_packDigits : ∀ ds : List UInt8, (packDigits ds).length = (ds.length + 1) / 2
  | [] => rfl
  | [d] => by rw [packDigits, List.length_singleton, List.length_singleton]
  | _ :: _ :: ds => by
    rw [packDigits, List.length_cons, length_packDigits ds, List.length_cons, List.length_cons]
    omega

/-- The digits of the bytes are the digits that were packed, with a zero after an odd number. -/
theorem bytestringToHexstring_packDigits : ∀ {ds : List UInt8}, (∀ d ∈ ds, d < 16) →
    bytestringToHexstring (packDigits ds) = ds ++ List.replicate (ds.length % 2) 0
  | [], _ => rfl
  | [d], h => by
    obtain ⟨hdiv, hmod⟩ := shiftLeft_add_div_mod (h d List.mem_cons_self) (show (0 : UInt8) < 16 by
      decide)
    rw [UInt8.add_zero] at hdiv hmod
    rw [packDigits, bytestringToHexstring, hdiv, hmod]
    rfl
  | d :: e :: ds, h => by
    obtain ⟨hdiv, hmod⟩ := shiftLeft_add_div_mod (h d List.mem_cons_self)
      (h e (List.mem_cons_of_mem _ List.mem_cons_self))
    have hlen : (d :: e :: ds).length % 2 = ds.length % 2 := by
      rw [List.length_cons, List.length_cons]
      omega
    rw [packDigits, bytestringToHexstring, hdiv, hmod, hlen, bytestringToHexstring_packDigits
      fun c hc => h c (List.mem_cons_of_mem _ (List.mem_cons_of_mem _ hc)), List.cons_append,
      List.cons_append]

/-- The digits of an address that was packed from at most sixty-four digits. -/
theorem snNetAddrGetHex_packDigits {ds : List UInt8} (hlen : ds.length ≤ snNetAddrHexLen)
    (h : ∀ d ∈ ds, d < 16) : snNetAddrGetHex ⟨.padded _ (packDigits ds) 0⟩ =
      ds ++ List.replicate (snNetAddrHexLen - ds.length) 0 := by
  have hhex : snNetAddrHexLen = snNetAddrLen * 2 := rfl
  have hpack := length_packDigits ds
  change bytestringToHexstring ((packDigits ds).take _ ++ _) = _
  rw [List.take_of_length_le (by omega), bytestringToHexstring_append,
    bytestringToHexstring_packDigits h, bytestringToHexstring_replicate, List.append_assoc,
    List.replicate_append_replicate, hpack]
  congr 2
  omega

/-! ### Trailing zeros -/

theorem rdropWhile_append_replicate (l : List UInt8) (n : ℕ) :
    (l ++ List.replicate n 48).rdropWhile (· = 48) = l.rdropWhile (· = 48) := by
  induction n with
  | zero => rw [List.replicate_zero, List.append_nil]
  | succ n ih =>
    rw [List.replicate_succ', ← List.append_assoc, List.rdropWhile_concat_pos _ _ _ (by decide), ih]

/-- A text of known length is determined by what is left without the zeros at its end. -/
theorem eq_append_replicate_of_rdropWhile (l : List UInt8) : l = l.rdropWhile (· = 48) ++
    List.replicate (l.length - (l.rdropWhile (· = 48)).length) 48 := by
  have hsplit : l.rdropWhile (· = 48) ++ l.rtakeWhile (· = 48) = l :=
    List.rdropWhile_append_rtakeWhile
  have hzeros : l.rtakeWhile (· = 48) = List.replicate (l.rtakeWhile (· = 48)).length 48 :=
    List.eq_replicate_of_mem fun c hc => by simpa using List.mem_rtakeWhile_imp hc
  have hlen : (l.rtakeWhile (· = 48)).length = l.length - (l.rdropWhile (· = 48)).length := by
    have hsum := congrArg List.length hsplit
    rw [List.length_append] at hsum
    omega
  rw [← hlen, ← hzeros, hsplit]

theorem lt_of_mem_getHex {a : SnNetAddr} {d : UInt8} (h : d ∈ snNetAddrGetHex a) : d < 16 :=
  lt_of_mem_bytestringToHexstring h

/-- Different addresses have different texts. -/
theorem addrText_injective : Function.Injective addrText := by
  intro a b h
  have hmap : (snNetAddrGetHex a).map printableDigit = (snNetAddrGetHex b).map printableDigit := by
    rw [eq_append_replicate_of_rdropWhile ((snNetAddrGetHex a).map printableDigit),
      eq_append_replicate_of_rdropWhile ((snNetAddrGetHex b).map printableDigit)]
    rw [addrText, addrText] at h
    rw [h, List.length_map, List.length_map, length_snNetAddrGetHex, length_snNetAddrGetHex]
  refine snNetAddrGetHex_injective (List.ext_getElem ?_ fun i hi hi' => ?_)
  · rw [length_snNetAddrGetHex, length_snNetAddrGetHex]
  · have hdigit :
        printableDigit (snNetAddrGetHex a)[i] = printableDigit (snNetAddrGetHex b)[i] := by
      have hget := congrArg (·[i]?) hmap
      rwa [List.getElem?_map, List.getElem?_map, List.getElem?_eq_getElem hi,
        List.getElem?_eq_getElem hi', Option.map_some, Option.map_some, Option.some.injEq] at hget
    exact printableDigit_injOn (lt_of_mem_getHex (List.getElem_mem hi))
      (lt_of_mem_getHex (List.getElem_mem hi')) hdigit

/-! ### Round trips -/

/-- **Reading and writing.** A text of at most sixty-four hexadecimal digits is read, and the
address is written with these digits in lower case, without the zeros at the end. -/
theorem snNetAddrFromHex_of_isxdigit {s : List UInt8} (hlen : s.length ≤ snNetAddrHexLen)
    (hs : ∀ c ∈ s, isxdigit c) : ∃ a, snNetAddrFromHex s = .ok a ∧
      addrText a = (s.map tolower).rdropWhile (· = 48) := by
  have hpart : readPart snNetAddrHexLen s = s := by
    rw [readPart_eq fun c hc => ne_zero_of_isxdigit (hs c hc), List.take_of_length_le hlen]
  have halnum : s.all isalnum := List.all_eq_true.2 fun c hc => isalnum_of_isxdigit (hs c hc)
  have hvalues : ∀ d ∈ s.map printableValue, d < 16 := by
    intro d hd
    obtain ⟨c, hc, rfl⟩ := List.mem_map.1 hd
    exact printableValue_lt (hs c hc)
  have hlower : (s.map printableValue).map printableDigit = s.map tolower := by
    rw [List.map_map]
    exact List.map_congr_left fun c hc => printableDigit_printableValue (hs c hc)
  refine ⟨_, by rw [snNetAddrFromHex_eq, hpart, if_pos halnum], ?_⟩
  rw [addrText, snNetAddrGetHex_packDigits (by rwa [List.length_map]) hvalues, List.map_append,
    hlower, List.map_replicate]
  exact rdropWhile_append_replicate _ _

theorem isxdigit_of_mem_addrText {a : SnNetAddr} {c : UInt8} (h : c ∈ addrText a) :
    isxdigit c ∧ tolower c = c := by
  obtain ⟨d, hd, rfl⟩ := List.mem_map.1 ((List.rdropWhile_prefix _ _).subset h)
  have hlt := lt_of_mem_getHex hd
  exact ⟨isxdigit_printableDigit hlt, tolower_printableDigit hlt⟩

theorem notMem_addrText {c : UInt8} (h : ¬ isxdigit c) (a : SnNetAddr) : c ∉ addrText a :=
  fun hc => h (isxdigit_of_mem_addrText hc).1

theorem length_addrText_le (a : SnNetAddr) : (addrText a).length ≤ snNetAddrHexLen := by
  refine (List.rdropWhile_prefix _ _).length_le.trans ?_
  rw [List.length_map, length_snNetAddrGetHex]

/-- **Writing and reading.** The text of an address is read as the address. -/
theorem snNetAddrFromHex_addrText (a : SnNetAddr) : snNetAddrFromHex (addrText a) = .ok a := by
  obtain ⟨b, hb, htext⟩ := snNetAddrFromHex_of_isxdigit (length_addrText_le a) fun c hc =>
    (isxdigit_of_mem_addrText hc).1
  have hlower : (addrText a).map tolower = addrText a :=
    (List.map_congr_left fun c hc => (isxdigit_of_mem_addrText hc).2).trans (List.map_id _)
  have hba : b = a := addrText_injective (by
    rw [htext, hlower, addrText, List.rdropWhile_idempotent])
  rw [hb, hba]

/-- **Hexadecimal texts and addresses correspond.** Every address is read from its text, and every
text of at most sixty-four hexadecimal digits is written as it was, in lower case and without the
zeros at its end. -/
theorem hex_round_trips :
    (∀ a, (snNetAddrToStr a >>= snNetAddrFromHex) = .ok a) ∧
    ∀ s : List UInt8, s.length ≤ snNetAddrHexLen → (∀ c ∈ s, isxdigit c) →
      (snNetAddrFromHex s >>= snNetAddrToStr) = .ok ((s.map tolower).rdropWhile (· = 48)) := by
  refine ⟨fun a => ?_, fun s hlen hs => ?_⟩
  · rw [snNetAddrToStr_eq, ok_bind, snNetAddrFromHex_addrText]
  · obtain ⟨a, ha, htext⟩ := snNetAddrFromHex_of_isxdigit hlen hs
    rw [ha, ok_bind, snNetAddrToStr_eq, htext]

/-- A text of seven digits in mixed case, with zeros at its end. -/
theorem hex_round_trip_of_mixed :
    (snNetAddrFromHex (ascii "4F5e200") >>= snNetAddrToStr) = .ok (ascii "4f5e2") :=
  (hex_round_trips.2 (ascii "4F5e200") (by decide) (by decide)).trans (congrArg _ (by decide))

/-! ### What the reader accepts -/

/-- The reader fails its assertion unless all of the first sixty-four characters are hexadecimal
digits. -/
def AcceptsOnlyHex (s : List UInt8) : Prop :=
  (∃ a, snNetAddrFromHex s = .ok a) ↔ ∀ c ∈ s.take snNetAddrHexLen, isxdigit c

/-- The reader accepts nothing but hexadecimal digits in two texts, and texts of one length that it
reads whole and as one address are equal up to case. -/
def HexFaithful (s t : List UInt8) : Prop :=
  AcceptsOnlyHex s ∧ AcceptsOnlyHex t ∧
    ∀ a, snNetAddrFromHex s = .ok a → snNetAddrFromHex t = .ok a → s.length = t.length →
      s.length ≤ snNetAddrHexLen → s.map tolower = t.map tolower

/-- Some of the first sixty-four characters are letters beyond `f`, and all of them are letters or
decimal digits. -/
def HasForeignLetter (s : List UInt8) : Prop :=
  (∀ c ∈ s.take snNetAddrHexLen, isalnum c) ∧ ∃ c ∈ s.take snNetAddrHexLen, ¬ isxdigit c

section Accepts

variable {s t : List UInt8}

/-- A text is accepted when its first sixty-four characters are letters and decimal digits. -/
theorem exists_snNetAddrFromHex_iff (hs : IsAscii s) :
    (∃ a, snNetAddrFromHex s = .ok a) ↔ ∀ c ∈ s.take snNetAddrHexLen, isalnum c := by
  have hpart : readPart snNetAddrHexLen s = s.take snNetAddrHexLen :=
    readPart_eq (fun c hc => (UInt8.ne_of_lt (hs c hc).1).symm) _
  rw [snNetAddrFromHex_eq, hpart, ← List.all_eq_true]
  by_cases h : (s.take snNetAddrHexLen).all isalnum
  · rw [if_pos h]
    exact ⟨fun _ => h, fun _ => ⟨_, rfl⟩⟩
  · rw [if_neg h]
    exact ⟨fun ⟨_, ha⟩ => (nomatch ha), fun h' => absurd h' h⟩

theorem acceptsOnlyHex_iff (hs : IsAscii s) : AcceptsOnlyHex s ↔ ¬ HasForeignLetter s := by
  rw [AcceptsOnlyHex, exists_snNetAddrFromHex_iff hs, HasForeignLetter]
  constructor
  · rintro h ⟨halnum, c, hc, hforeign⟩
    exact hforeign (h.1 halnum c hc)
  · intro h
    refine ⟨fun halnum c hc => ?_, fun hhex c hc => isalnum_of_isxdigit (hhex c hc)⟩
    by_contra hforeign
    exact h ⟨halnum, c, hc, hforeign⟩

/-- Texts of one length are determined up to case by what is left without the zeros at the end. -/
theorem map_tolower_eq_of_rdropWhile (hlen : s.length = t.length)
    (h : (s.map tolower).rdropWhile (· = 48) = (t.map tolower).rdropWhile (· = 48)) :
    s.map tolower = t.map tolower := by
  rw [eq_append_replicate_of_rdropWhile (s.map tolower),
    eq_append_replicate_of_rdropWhile (t.map tolower), h, List.length_map, List.length_map, hlen]

/-- **When the reader is faithful.** Two texts of characters of ASCII are told apart, and accepted
exactly when they are hexadecimal, if and only if none of them consists of letters and digits with a
letter beyond `f` among them. -/
theorem hexFaithful_iff (hs : IsAscii s) (ht : IsAscii t) :
    HexFaithful s t ↔ ¬ HasForeignLetter s ∧ ¬ HasForeignLetter t := by
  rw [HexFaithful, acceptsOnlyHex_iff hs, acceptsOnlyHex_iff ht]
  refine ⟨fun h => ⟨h.1, h.2.1⟩, fun ⟨hs', ht'⟩ => ⟨hs', ht', fun a hsa hta hlen hmax => ?_⟩⟩
  have hhex (u : List UInt8) (hu : IsAscii u) (hforeign : ¬ HasForeignLetter u)
      (hread : snNetAddrFromHex u = .ok a) (humax : u.length ≤ snNetAddrHexLen) :
      addrText a = (u.map tolower).rdropWhile (· = 48) := by
    have hdigits := ((acceptsOnlyHex_iff hu).2 hforeign).1 ⟨a, hread⟩
    rw [List.take_of_length_le humax] at hdigits
    obtain ⟨b, hb, htext⟩ := snNetAddrFromHex_of_isxdigit humax hdigits
    rw [hread, Except.ok.injEq] at hb
    rw [hb, htext]
  refine map_tolower_eq_of_rdropWhile hlen ?_
  rw [← hhex s hs hs' hsa hmax, ← hhex t ht ht' hta (hlen ▸ hmax)]

/-- Texts of hexadecimal digits are told apart. -/
theorem hexFaithful_of_digits : HexFaithful (ascii "abCD") (ascii "abce") :=
  (hexFaithful_iff (by decide) (by decide)).2 ⟨by rintro ⟨-, h⟩; revert h; decide, by
    rintro ⟨-, h⟩; revert h; decide⟩

/-- The letter `g` is accepted, and runs over into the digit before it. -/
theorem not_hexFaithful_of_g : snNetAddrFromHex (ascii "0g") = snNetAddrFromHex (ascii "10") ∧
    ¬ HexFaithful (ascii "0g") (ascii "10") := by
  refine ⟨by decide, fun h => ?_⟩
  have hall := h.1.1 ⟨.ofBytes [0x10], by decide⟩
  revert hall
  decide

end Accepts

end SndNet
