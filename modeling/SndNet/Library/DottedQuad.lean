import Mathlib.Algebra.Group.Nat.Defs
import SndNet.Library.Decimal

/-!
# Dotted quads

An IPv4 address is written as four decimal numbers with dots between them. This file has the two
conversions of the C library. `inet_pton` reads what `inet_ntop` writes and nothing else: a number
is at most 255, has at least one digit and no leading zeros.

## Main definitions

* `DottedQuad.inetNtop`, `DottedQuad.inetPton`: the conversions.

## Main results

* `DottedQuad.inetPton_eq_some_iff`: they are inverse to each other.
* `DottedQuad.length_inetNtop_le`: the longest text has fifteen characters.
-/

namespace DottedQuad

open Ctype

/-- The text of one number. -/
def octetText (o : UInt8) : List UInt8 := Decimal.text o.toNat

/-- `inet_ntop` for IPv4: the numbers with dots between them. -/
def inetNtop (octets : List UInt8) : List UInt8 := [46].intercalate (octets.map octetText)

/-- The number that a text shows, if it is written as `inet_ntop` writes it. -/
def readOctet (s : List UInt8) : Option UInt8 :=
  if Decimal.value s < 256 ∧ s = Decimal.text (Decimal.value s) then
    some (.ofNat (Decimal.value s))
  else none

/-- Several numbers. -/
def readOctets : List (List UInt8) → Option (List UInt8)
  | [] => some []
  | s :: ss => do
    let o ← readOctet s
    let os ← readOctets ss
    return o :: os

/-- `inet_pton` for IPv4: the four numbers between the dots. -/
def inetPton (s : List UInt8) : Option (List UInt8) :=
  match readOctets (s.splitOn 46) with
  | some octets => if octets.length = 4 then some octets else none
  | none => none

theorem readOctet_eq_some_iff {s : List UInt8} {o : UInt8} :
    readOctet s = some o ↔ s = octetText o := by
  rw [readOctet, octetText]
  constructor
  · intro h
    split_ifs at h with hs
    obtain rfl := Option.some.inj h
    rw [UInt8.toNat_ofNat', Nat.mod_eq_of_lt hs.1]
    exact hs.2
  · rintro rfl
    rw [Decimal.value_text, if_pos ⟨o.toNat_lt, rfl⟩, UInt8.ofNat_toNat]

theorem readOctets_eq_some_iff : ∀ {ss : List (List UInt8)} {os : List UInt8},
    readOctets ss = some os ↔ ss = os.map octetText
  | [], [] => by simp [readOctets]
  | [], o :: os => by simp [readOctets]
  | s :: ss, os => by
    rw [readOctets]
    cases os with
    | nil => simp [Option.bind_eq_some_iff]
    | cons o os =>
      simp only [bind, Option.bind_eq_some_iff, readOctet_eq_some_iff, readOctets_eq_some_iff, pure,
        Option.some.injEq, List.cons.injEq, List.map_cons]
      exact ⟨fun ⟨_, ho, _, hos, h, h'⟩ => ⟨h ▸ ho, h' ▸ hos⟩,
        fun ⟨h, h'⟩ => ⟨o, h, os, h', rfl, rfl⟩⟩

/-- The text of a number has no dot. -/
theorem not_mem_octetText {c : UInt8} (hc : ¬ isdigit c) (o : UInt8) : c ∉ octetText o :=
  fun h => hc (Decimal.isdigit_of_mem_text _ c h)

/-- **`inet_pton` is inverse to `inet_ntop`.** It reads four numbers exactly from their text. -/
theorem inetPton_eq_some_iff {s octets : List UInt8} :
    inetPton s = some octets ↔ octets.length = 4 ∧ s = inetNtop octets := by
  have hread : inetPton s = some octets ↔
      octets.length = 4 ∧ s.splitOn 46 = octets.map octetText := by
    rw [inetPton, ← readOctets_eq_some_iff]
    cases readOctets (s.splitOn 46) with
    | none => simp
    | some os =>
      simp only [Option.ite_none_right_eq_some, Option.some.injEq]
      exact ⟨fun ⟨h, h'⟩ => ⟨h' ▸ h, h'⟩, fun ⟨h, h'⟩ => ⟨h' ▸ h, h'⟩⟩
  rw [hread]
  refine and_congr_right fun hlen => ⟨fun h => ?_, fun h => ?_⟩
  · rw [inetNtop, ← h, List.intercalate_splitOn]
  · rw [h, inetNtop, List.splitOn_intercalate]
    · intro l hl
      obtain ⟨o, -, rfl⟩ := List.mem_map.1 hl
      exact not_mem_octetText (by decide) o
    · intro h0
      rw [List.map_eq_nil_iff.1 h0] at hlen
      exact absurd hlen (by decide)

section Text

variable {octets : List UInt8}

theorem inetNtop_singleton (o : UInt8) : inetNtop [o] = octetText o := List.intercalate_singleton

theorem inetNtop_cons (o : UInt8) (h : octets ≠ []) :
    inetNtop (o :: octets) = octetText o ++ 46 :: inetNtop octets := by
  rw [inetNtop, List.map_cons, List.intercalate_cons_of_ne_nil (by simpa using h), inetNtop,
    List.append_assoc, List.singleton_append]

/-- A character of a dotted quad is a digit or a dot. -/
theorem of_mem_inetNtop {c : UInt8} (h : c ∈ inetNtop octets) : isdigit c ∨ c = 46 := by
  induction octets with
  | nil => simp [inetNtop] at h
  | cons o os ih =>
    by_cases hos : os = []
    · rw [hos, inetNtop_singleton] at h
      exact Or.inl (Decimal.isdigit_of_mem_text _ c h)
    · rw [inetNtop_cons o hos, List.mem_append, List.mem_cons] at h
      rcases h with h | h | h
      · exact Or.inl (Decimal.isdigit_of_mem_text _ c h)
      · exact Or.inr h
      · exact ih h

theorem inetNtop_ne_nil (h : octets ≠ []) : inetNtop octets ≠ [] := by
  obtain ⟨o, os, rfl⟩ := List.exists_cons_of_ne_nil h
  by_cases hos : os = []
  · rw [hos, inetNtop_singleton]
    exact Decimal.text_ne_nil _
  · rw [inetNtop_cons o hos]
    simp

/-- Every number takes at most three characters and a dot. -/
theorem length_inetNtop_lt (h : octets ≠ []) : (inetNtop octets).length < 4 * octets.length := by
  have hoctet (o : UInt8) : (octetText o).length ≤ 3 :=
    Decimal.length_text_le (by omega) (o.toNat_lt.trans_le (by decide))
  induction octets with
  | nil => exact absurd rfl h
  | cons o os ih =>
    have ho := hoctet o
    by_cases hos : os = []
    · rw [hos, inetNtop_singleton, List.length_singleton]
      omega
    · have ih' := ih hos
      rw [inetNtop_cons o hos, List.length_append, List.length_cons, List.length_cons]
      omega

/-- The longest dotted quad has fifteen characters. -/
theorem length_inetNtop_le (h : octets.length = 4) : (inetNtop octets).length ≤ 15 := by
  have hne : octets ≠ [] := by
    rintro rfl
    exact absurd h (by decide)
  have hlt := length_inetNtop_lt hne
  omega

end Text

end DottedQuad
