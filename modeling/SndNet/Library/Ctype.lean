import Mathlib.Data.List.Basic

/-!
# Characters

A character of a C string is a byte. This file has the character classes of the C library in the
default locale, and texts as lists of bytes. A text does not contain the byte zero, which ends it in
memory.

## Main definitions

* `Ctype.isdigit`, `Ctype.islower`, `Ctype.isupper`, `Ctype.isalnum`, `Ctype.isxdigit`,
  `Ctype.isspace`: the classes.
* `Ctype.tolower`: the lower case letter of an upper case one.
* `Ctype.ascii`: the bytes of a literal.
* `Ctype.IsAscii`: a text of characters of ASCII.
-/

namespace Ctype

/-- A decimal digit. -/
def isdigit (c : UInt8) : Bool := 48 ≤ c && c ≤ 57

/-- A lower case letter. -/
def islower (c : UInt8) : Bool := 97 ≤ c && c ≤ 122

/-- An upper case letter. -/
def isupper (c : UInt8) : Bool := 65 ≤ c && c ≤ 90

/-- A letter or a decimal digit. -/
def isalnum (c : UInt8) : Bool := isdigit c || islower c || isupper c

/-- A hexadecimal digit. -/
def isxdigit (c : UInt8) : Bool := isdigit c || 97 ≤ c && c ≤ 102 || 65 ≤ c && c ≤ 70

/-- A white-space character. -/
def isspace (c : UInt8) : Bool := c = 32 || 9 ≤ c && c ≤ 13

/-- An upper case letter becomes the lower case one, other characters stay. -/
def tolower (c : UInt8) : UInt8 := if isupper c then c + 32 else c

/-- The bytes of a literal. -/
def ascii (s : String) : List UInt8 := s.toList.map fun c => .ofNat c.toNat

/-- What holds of all characters of a text is checked along the text, not along all bytes. -/
instance decidableForallMem (s : List UInt8) (p : UInt8 → Prop) [DecidablePred p] :
    Decidable (∀ c ∈ s, p c) := List.decidableBAll p s

instance decidableExistsMem (s : List UInt8) (p : UInt8 → Prop) [DecidablePred p] :
    Decidable (∃ c ∈ s, p c) := List.decidableBEx p s

/-- A text of characters of ASCII, without the byte that ends it. -/
def IsAscii (s : List UInt8) : Prop := ∀ c ∈ s, 0 < c ∧ c < 128

instance (s : List UInt8) : Decidable (IsAscii s) := inferInstanceAs (Decidable (∀ c ∈ s, _))

theorem isalnum_of_isxdigit {c : UInt8} (h : isxdigit c) : isalnum c := by
  grind [isxdigit, isalnum, isdigit, islower, isupper]

theorem ne_zero_of_isxdigit {c : UInt8} (h : isxdigit c) : c ≠ 0 := by
  grind [isxdigit, isdigit]

theorem ne_zero_of_isdigit {c : UInt8} (h : isdigit c) : c ≠ 0 := by
  grind [isdigit]

end Ctype
