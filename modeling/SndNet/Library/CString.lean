import Mathlib.Data.List.DropRight
import Mathlib.Data.List.TakeWhile
import SndNet.Library.Decimal
import SndNet.Library.Traced

/-!
# Strings in memory

A C string is a pointer into memory, and goes on to the first zero. This file has the functions of
the C library that walk along strings. Memory is the list of the bytes that are known, an offset
into it is a pointer, and each function tells the offsets that it reads and writes: a function that
does not find the zero in time goes on into whatever lies behind, and an access outside the known
memory ends it with an error.

## Main definitions

* `CString.strncasecmp`, `CString.strcmp`: comparison without regard to case, and with it.
* `CString.MemAccess`, `CString.scan`: an access to memory, and the search for a character.
* `CString.text`, `CString.strncpy`, `CString.strtokR`: reading a string, copying it, and cutting a
  token from it.
* `CString.scanHu`, `CString.snprintf`: `sscanf` with `%hu`, and printing into a buffer.

## Main results

* `CString.strcmp_rdropWhile_neg_iff`: comparison without the smallest character at the end.
* `CString.scan_append`: a search goes through what it accepts, one offset after the other.
* `CString.strtokR_of_token`, `CString.strtokR_of_delims`: the first token, or none.
-/

namespace CString

open Ctype

/-! ### Comparison -/

/-- `strncasecmp`: the difference of the first characters that differ in lower case. -/
def strncasecmp : List UInt8 → List UInt8 → ℕ → ℤ
  | _, _, 0 => 0
  | s, t, n + 1 =>
    let c := tolower (s.headD 0)
    let d := tolower (t.headD 0)
    if c ≠ d then (c.toNat : ℤ) - d.toNat
    else if c = 0 then 0
    else strncasecmp s.tail t.tail n

/-- A text starts with a tag, in any case. -/
theorem strncasecmp_eq_zero_iff {s t : List UInt8} (ht : ∀ c ∈ t, tolower c ≠ 0) :
    strncasecmp s t t.length = 0 ↔ (s.take t.length).map tolower = t.map tolower := by
  induction t generalizing s with
  | nil => simp [strncasecmp]
  | cons d t ih =>
    have hd : tolower d ≠ 0 := ht d List.mem_cons_self
    have ih' := ih (s := s.tail) fun c hc => ht c (List.mem_cons_of_mem _ hc)
    cases s with
    | nil =>
      have hne : tolower 0 ≠ tolower d := fun h => hd (h ▸ rfl)
      simp only [List.length_cons, strncasecmp, List.headD_nil, List.headD_cons, ne_eq, hne,
        not_false_eq_true, if_true, List.take_nil, List.map_nil, List.map_cons, List.nil_eq,
        List.cons_ne_nil, iff_false]
      rw [sub_eq_zero, Nat.cast_inj, UInt8.toNat_inj]
      exact hne
    | cons c s =>
      rw [List.length_cons, strncasecmp, List.headD_cons, List.headD_cons, List.take_succ_cons,
        List.map_cons, List.map_cons, List.cons.injEq]
      by_cases hcd : tolower c = tolower d
      · rw [if_neg (not_not.2 hcd), if_neg (hcd ▸ hd), and_iff_right hcd]
        exact ih'
      · rw [if_pos hcd, sub_eq_zero, Nat.cast_inj, UInt8.toNat_inj]
        simp [hcd]

/-- `strcmp`: the difference of the first characters that differ. A text that has come to its end
goes on with its terminating zero. -/
def strcmp : List UInt8 → List UInt8 → ℤ
  | [], t => 0 - ((t.headD 0).toNat : ℤ)
  | c :: s, t =>
    if c ≠ t.headD 0 then (c.toNat : ℤ) - (t.headD 0).toNat
    else if c = 0 then 0
    else strcmp s t.tail

section Strcmp

variable {c d p : UInt8} {s t : List UInt8}

theorem strcmp_cons_of_ne (h : c ≠ d) (s t : List UInt8) :
    strcmp (c :: s) (d :: t) = (c.toNat : ℤ) - d.toNat := if_pos h

theorem strcmp_cons_self (hc : c ≠ 0) (s t : List UInt8) :
    strcmp (c :: s) (c :: t) = strcmp s t := by
  rw [strcmp, List.headD_cons, if_neg (not_not.2 rfl), if_neg hc, List.tail_cons]

theorem strcmp_nil_cons (d : UInt8) (t : List UInt8) : strcmp [] (d :: t) = 0 - (d.toNat : ℤ) := rfl

theorem strcmp_cons_nil (c : UInt8) (s : List UInt8) : strcmp (c :: s) [] = c.toNat := by
  rw [strcmp, List.headD_nil]
  split_ifs with hne hzero
  · exact sub_zero _
  · rw [hzero]
    rfl
  · exact absurd (not_not.1 hne) hzero

/-- Comparison the other way round. -/
theorem strcmp_swap (s t : List UInt8) : strcmp t s = -strcmp s t := by
  induction s generalizing t with
  | nil =>
    cases t with
    | nil => rfl
    | cons d t => rw [strcmp_cons_nil, strcmp_nil_cons, zero_sub, neg_neg]
  | cons c s ih =>
    cases t with
    | nil => rw [strcmp_cons_nil, strcmp_nil_cons, zero_sub]
    | cons d t =>
      by_cases hcd : c = d
      · subst hcd
        by_cases hc : c = 0
        · subst hc
          rfl
        · rw [strcmp_cons_self hc, strcmp_cons_self hc, ih]
      · rw [strcmp_cons_of_ne hcd, strcmp_cons_of_ne (Ne.symm hcd), neg_sub]

/-- What is left of a text is nothing or starts as the text does. -/
theorem rdropWhile_cons (c : UInt8) (s : List UInt8) : (c :: s).rdropWhile (· = p) =
    if c = p ∧ s.rdropWhile (· = p) = [] then [] else c :: s.rdropWhile (· = p) := by
  rw [List.rdropWhile, List.rdropWhile, List.reverse_cons, List.dropWhile_append]
  by_cases h : s.reverse.dropWhile (· = p) = []
  · rw [if_pos (by simp [h]), List.dropWhile_cons, h]
    by_cases hc : c = p
    · simp [hc]
    · simp [hc]
  · rw [if_neg (by simpa using h), if_neg (by simpa using fun _ => h), List.reverse_append]
    rfl

theorem not_strcmp_nil_neg (s : List UInt8) : ¬ strcmp s [] < 0 := by
  cases s with
  | nil => decide
  | cons c s =>
    rw [strcmp_cons_nil]
    omega

theorem strcmp_nil_cons_neg (hd : d ≠ 0) (t : List UInt8) : strcmp [] (d :: t) < 0 := by
  have hne : d.toNat ≠ 0 := fun h => hd (UInt8.toNat_inj.1 h)
  rw [strcmp_nil_cons]
  omega

/-- The same first character on both sides does not matter, whether it is left out on one side, on
both or on none. -/
theorem strcmp_rdropWhile_cons_self (hc : c ≠ 0) (ht : ∀ e ∈ t, e ≠ 0) :
    strcmp ((c :: s).rdropWhile (· = p)) ((c :: t).rdropWhile (· = p)) < 0 ↔
      strcmp (s.rdropWhile (· = p)) (t.rdropWhile (· = p)) < 0 := by
  rw [rdropWhile_cons, rdropWhile_cons]
  split_ifs with hleft hright hright
  · rw [hleft.2, hright.2]
  · -- The left text has come to its end, the right one has not.
    obtain ⟨e, t', het⟩ := List.exists_cons_of_ne_nil fun h => hright ⟨hleft.1, h⟩
    have he : e ∈ t := (List.rdropWhile_prefix _ t).subset (het ▸ List.mem_cons_self)
    rw [hleft.2, het]
    exact iff_of_true (strcmp_nil_cons_neg hc _) (strcmp_nil_cons_neg (ht e he) _)
  · rw [hright.2]
    exact iff_of_false (not_strcmp_nil_neg _) (not_strcmp_nil_neg _)
  · rw [strcmp_cons_self hc]

/-- Different first characters decide also when the smaller one is left out. -/
theorem strcmp_rdropWhile_cons_of_ne (hcd : c ≠ d) (hc : p ≤ c) (hd : p ≤ d) (hd0 : d ≠ 0) :
    strcmp ((c :: s).rdropWhile (· = p)) ((d :: t).rdropWhile (· = p)) < 0 ↔
      (c.toNat : ℤ) - d.toNat < 0 := by
  rw [rdropWhile_cons, rdropWhile_cons]
  rcases UInt8.lt_or_lt_of_ne hcd with hlt | hgt
  · have hright : ¬ (d = p ∧ t.rdropWhile (· = p) = []) := fun h =>
      UInt8.ne_of_lt (UInt8.lt_of_le_of_lt hc hlt) h.1.symm
    have hsub : (c.toNat : ℤ) - d.toNat < 0 := by
      rw [UInt8.lt_iff_toNat_lt] at hlt
      omega
    rw [if_neg hright]
    split_ifs
    · exact iff_of_true (strcmp_nil_cons_neg hd0 _) hsub
    · rw [strcmp_cons_of_ne hcd]
  · have hleft : ¬ (c = p ∧ s.rdropWhile (· = p) = []) := fun h =>
      UInt8.ne_of_lt (UInt8.lt_of_le_of_lt hd hgt) h.1.symm
    have hsub : ¬ (c.toNat : ℤ) - d.toNat < 0 := by
      rw [UInt8.lt_iff_toNat_lt] at hgt
      omega
    rw [if_neg hleft]
    split_ifs
    · exact iff_of_false (not_strcmp_nil_neg _) hsub
    · rw [strcmp_cons_of_ne hcd]

/-- **Comparison without the smallest character at the end.** Leaving it out of two texts of one
length does not change which one comes first. -/
theorem strcmp_rdropWhile_neg_iff (hp : p ≠ 0) (hlen : s.length = t.length)
    (hs : ∀ c ∈ s, p ≤ c) (ht : ∀ c ∈ t, p ≤ c) :
    strcmp (s.rdropWhile (· = p)) (t.rdropWhile (· = p)) < 0 ↔ strcmp s t < 0 := by
  have hne {c : UInt8} (hc : p ≤ c) : c ≠ 0 := fun h =>
    hp (UInt8.le_antisymm (h ▸ hc) (UInt8.zero_le))
  induction s generalizing t with
  | nil =>
    cases t with
    | nil => rfl
    | cons d t => simp at hlen
  | cons c s ih =>
    cases t with
    | nil => simp at hlen
    | cons d t =>
      obtain ⟨hc, hs'⟩ := List.forall_mem_cons.1 hs
      obtain ⟨hd, ht'⟩ := List.forall_mem_cons.1 ht
      by_cases hcd : c = d
      · subst hcd
        rw [strcmp_rdropWhile_cons_self (hne hc) fun e he => hne (ht' e he),
          strcmp_cons_self (hne hc)]
        exact ih (by simpa using hlen) hs' ht'
      · rw [strcmp_rdropWhile_cons_of_ne hcd hc hd (hne hd), strcmp_cons_of_ne hcd]

end Strcmp

/-- `snprintf` of a text into a buffer of `size` bytes: the text that is there afterwards. -/
def snprintf (size : ℕ) (s : List UInt8) : List UInt8 := s.take (size - 1)

/-- A text that is shorter than the buffer is printed whole. -/
theorem snprintf_of_lt {size : ℕ} {s : List UInt8} (h : s.length < size) : snprintf size s = s := by
  rw [snprintf, List.take_of_length_le (by omega)]

/-! ### Access to memory -/

/-- An access to memory at an offset. -/
inductive MemAccess where
  | read (offset : ℕ)
  | write (offset : ℕ)
  deriving DecidableEq

/-- The offset of an access. -/
def MemAccess.offset : MemAccess → ℕ
  | read offset => offset
  | write offset => offset

@[simp] theorem MemAccess.offset_read (i : ℕ) : (read i).offset = i := rfl

@[simp] theorem MemAccess.offset_write (i : ℕ) : (write i).offset = i := rfl

section Memory

variable {ε : Type} (overrun : ε)

/-- The offset of the first byte that does not satisfy `p`, in the memory from the offset `i` on. -/
def scan (p : UInt8 → Bool) : List UInt8 → ℕ → Traced MemAccess ε ℕ
  | [], i => do
    .emit (.read i)
    .lift (.error overrun)
  | c :: mem, i => do
    .emit (.read i)
    if p c then scan p mem (i + 1) else return i

/-- The byte at an offset. -/
def readByte (mem : List UInt8) (i : ℕ) : Traced MemAccess ε UInt8 := do
  .emit (.read i)
  match mem[i]? with
  | some c => return c
  | none => .lift (.error overrun)

/-- The string at an offset. -/
def text (mem : List UInt8) (i : ℕ) : Traced MemAccess ε (List UInt8) := do
  let stop ← scan overrun (· ≠ 0) (mem.drop i) i
  return (mem.drop i).take (stop - i)

/-- `strncpy` of `n` bytes of the memory from the offset `i` on: after the first zero no further
byte is read, and zeros are written. -/
def strncpy : List UInt8 → ℕ → ℕ → Traced MemAccess ε (List UInt8)
  | _, _, 0 => return []
  | [], i, _ + 1 => do
    .emit (.read i)
    .lift (.error overrun)
  | c :: mem, i, n + 1 => do
    .emit (.read i)
    if c = 0 then return List.replicate (n + 1) 0
    else do
      let cs ← strncpy mem (i + 1) n
      return c :: cs

/-- `strtok_r` at the offset `s`, with one character as the delimiter: the memory in which the token
ends with a zero, the offset of the token, if any, and the offset at which the next call starts. -/
def strtokR (delim : UInt8) (mem : List UInt8) (s : ℕ) :
    Traced MemAccess ε (List UInt8 × Option ℕ × ℕ) := do
  let start ← scan overrun (· = delim) (mem.drop s) s
  if mem.getD start 0 = 0 then return (mem, none, start)
  else
    let stop ← scan overrun (fun c => c ≠ delim ∧ c ≠ 0) (mem.drop start) start
    if mem.getD stop 0 = 0 then return (mem, some start, stop)
    else do
      .emit (.write stop)
      return (mem.set stop 0, some start, stop + 1)

/-! ### Searches -/

variable {p : UInt8 → Bool} {l rest : List UInt8}

/-- A search goes through what it accepts. -/
theorem scan_append (hl : ∀ c ∈ l, p c) (rest : List UInt8) (i : ℕ) :
    scan overrun p (l ++ rest) i =
      ⟨(List.range' i l.length).map .read ++ (scan overrun p rest (i + l.length)).events,
        (scan overrun p rest (i + l.length)).result⟩ := by
  induction l generalizing i with
  | nil => rfl
  | cons c l ih =>
    have hlen : i + (c :: l).length = i + 1 + l.length := by rw [List.length_cons]; omega
    rw [List.cons_append, scan, if_pos (hl c List.mem_cons_self),
      ih (fun d hd => hl d (List.mem_cons_of_mem _ hd)) (i + 1), Traced.emit_bind, hlen,
      List.length_cons, List.range'_succ]
    rfl

theorem scan_stop {c : UInt8} (hc : ¬ p c) (rest : List UInt8) (i : ℕ) :
    scan overrun p (c :: rest) i = ⟨[.read i], .ok i⟩ := by
  rw [scan, if_neg hc]
  rfl

/-- The first byte is always read. -/
theorem read_mem_scan (mem : List UInt8) (i : ℕ) : .read i ∈ (scan overrun p mem i).events := by
  cases mem with
  | nil => exact List.mem_cons_self
  | cons c mem => exact List.mem_cons_self

/-- A search that ends. -/
theorem scan_eq (hl : ∀ c ∈ l, p c) {c : UInt8} (hc : ¬ p c) (rest : List UInt8) (i : ℕ) :
    scan overrun p (l ++ c :: rest) i =
      ⟨(List.range' i (l.length + 1)).map .read, .ok (i + l.length)⟩ := by
  rw [scan_append overrun hl, scan_stop overrun hc, List.range'_1_concat, List.map_append,
    List.map_singleton]

theorem getD_append_length (pre rest : List UInt8) (c d : UInt8) :
    (pre ++ c :: rest).getD pre.length d = c := by
  simp

theorem offset_le_of_mem_reads {i n : ℕ} {a : MemAccess}
    (h : a ∈ (List.range' i (n + 1)).map .read) : a.offset ≤ i + n := by
  obtain ⟨j, hj, rfl⟩ := List.mem_map.1 h
  have := (List.mem_range'_1.1 hj).2
  rw [MemAccess.offset_read]
  omega

/-! ### Strings and tokens -/

variable {pre a t : List UInt8} {delim c : UInt8}

/-- A string that ends with a zero is read up to it. -/
theorem text_eq (ht : ∀ c ∈ t, c ≠ 0) (pre rest : List UInt8) :
    text overrun (pre ++ (t ++ 0 :: rest)) pre.length =
      ⟨(List.range' pre.length (t.length + 1)).map .read, .ok t⟩ := by
  have hscan := scan_eq overrun (p := (· ≠ 0)) (l := t) (by simpa using ht) (c := 0)
    (by decide) rest pre.length
  rw [text, List.drop_left, hscan, Traced.mk_ok_bind, Nat.add_sub_cancel_left, List.take_left,
    Traced.pure_eq, List.append_nil]

/-- A copy of a string that ends with a zero is padded with zeros, or cut. -/
theorem strncpy_eq (ht : ∀ c ∈ t, c ≠ 0) (rest : List UInt8) (i n : ℕ) :
    strncpy overrun (t ++ 0 :: rest) i n = ⟨(List.range' i (min n (t.length + 1))).map .read,
      .ok (t.take n ++ List.replicate (n - t.length) 0)⟩ := by
  induction n generalizing t i with
  | zero =>
    rw [Nat.zero_min, List.take_zero, Nat.zero_sub, List.replicate_zero]
    cases t <;> rfl
  | succ n ih =>
    cases t with
    | nil =>
      rw [List.nil_append, strncpy, if_pos rfl, Traced.emit_bind]
      simp
    | cons c t =>
      have hc : c ≠ 0 := ht c List.mem_cons_self
      rw [List.cons_append, strncpy, if_neg hc, ih fun d hd => ht d (List.mem_cons_of_mem _ hd)]
      simp [List.range'_succ, Nat.add_min_add_right]

/-- A copy has the length that was asked for. -/
theorem length_of_strncpy {mem cs : List UInt8} {i n : ℕ}
    (h : (strncpy overrun mem i n).result = .ok cs) : cs.length = n := by
  induction n generalizing mem i cs with
  | zero =>
    rw [strncpy] at h
    cases h
    rfl
  | succ n ih =>
    cases mem with
    | nil => cases h
    | cons c mem =>
      rw [strncpy, Traced.emit_bind] at h
      split_ifs at h with hc
      · cases h
        exact List.length_replicate
      · cases hrest : strncpy overrun mem (i + 1) n with
        | mk events result =>
          rw [hrest] at h
          cases result with
          | error e => cases h
          | ok cs' =>
            cases h
            rw [List.length_cons, ih (by rw [hrest])]

/-- A copy that fails has reached the end of the known memory. -/
theorem read_mem_strncpy_of_error {mem : List UInt8} {i n : ℕ} {e : ε}
    (h : (strncpy overrun mem i n).result = .error e) :
    .read (i + mem.length) ∈ (strncpy overrun mem i n).events := by
  induction n generalizing mem i with
  | zero =>
    rw [strncpy] at h
    cases h
  | succ n ih =>
    cases mem with
    | nil => exact List.mem_cons_self
    | cons c mem =>
      rw [strncpy, Traced.emit_bind] at h ⊢
      by_cases hc : c = 0
      · rw [if_pos hc] at h
        cases h
      · rw [if_neg hc] at h ⊢
        cases hrest : strncpy overrun mem (i + 1) n with
        | mk events result =>
          rw [hrest] at h
          cases result with
          | ok cs' => cases h
          | error e' =>
            have hread : MemAccess.read (i + 1 + mem.length) ∈
                (strncpy overrun mem (i + 1) n).events := ih (by rw [hrest]; exact h)
            rw [hrest] at hread
            rw [List.length_cons, show i + (mem.length + 1) = i + 1 + mem.length by omega]
            exact List.mem_cons_of_mem _ hread

/-- **A token.** After some delimiters a row of other characters is the token, and it is cut off by
a zero. -/
theorem strtokR_of_token (ha : ∀ c ∈ a, c = delim) (hne : t ≠ [])
    (ht : ∀ c ∈ t, c ≠ delim ∧ c ≠ 0) (hc : c = delim ∨ c = 0) (pre rest : List UInt8) :
    ∃ events, strtokR overrun delim (pre ++ (a ++ (t ++ c :: rest))) pre.length =
      ⟨events, .ok (pre ++ (a ++ (t ++ 0 :: rest)), some (pre.length + a.length),
        pre.length + a.length + t.length + if c = 0 then 0 else 1)⟩ ∧
      ∀ x ∈ events, x.offset ≤ pre.length + a.length + t.length := by
  obtain ⟨d, t', htd⟩ := List.exists_cons_of_ne_nil hne
  have hd : d ≠ delim ∧ d ≠ 0 := ht d (htd ▸ List.mem_cons_self)
  have hstart := scan_eq overrun (p := (· = delim)) (l := a) (by simpa using ha)
    (c := d) (by simpa using hd.1) (t' ++ c :: rest) pre.length
  have hstop := scan_eq overrun (p := fun c => c ≠ delim ∧ c ≠ 0) (l := t)
    (by simpa using ht) (c := c) (by rcases hc with rfl | rfl <;> simp) rest
    (pre.length + a.length)
  have hmem : pre ++ (a ++ (t ++ c :: rest)) = (pre ++ a) ++ d :: (t' ++ c :: rest) := by
    simp [htd]
  have hmem' : pre ++ (a ++ (t ++ c :: rest)) = (pre ++ a ++ t) ++ c :: rest := by simp
  have hgetStart : (pre ++ (a ++ (t ++ c :: rest))).getD (pre.length + a.length) 0 = d := by
    rw [hmem, ← List.length_append, getD_append_length]
  have hgetStop :
      (pre ++ (a ++ (t ++ c :: rest))).getD (pre.length + a.length + t.length) 0 = c := by
    rw [hmem', ← List.length_append, ← List.length_append, getD_append_length]
  have hdropStart : (pre ++ (a ++ (t ++ c :: rest))).drop (pre.length + a.length) =
      t ++ c :: rest := by
    rw [← List.append_assoc, ← List.length_append, List.drop_left]
  have hset : (pre ++ (a ++ (t ++ c :: rest))).set (pre.length + a.length + t.length) 0 =
      pre ++ (a ++ (t ++ 0 :: rest)) := by
    rw [hmem', ← List.length_append, ← List.length_append, List.set_append_right _ _ le_rfl,
      Nat.sub_self, List.set_cons_zero]
    simp
  have hreads : ∀ x ∈ (List.range' pre.length (a.length + 1)).map MemAccess.read ++
      (List.range' (pre.length + a.length) (t.length + 1)).map .read,
      x.offset ≤ pre.length + a.length + t.length := by
    intro x hx
    rcases List.mem_append.1 hx with hx | hx
    · exact (offset_le_of_mem_reads hx).trans (Nat.le_add_right _ _)
    · exact offset_le_of_mem_reads hx
  have hscan : a ++ (t ++ c :: rest) = a ++ d :: (t' ++ c :: rest) := by simp [htd]
  rw [strtokR, List.drop_left, hscan, hstart, Traced.mk_ok_bind, ← hscan, hgetStart, if_neg hd.2,
    hdropStart, hstop, Traced.mk_ok_bind, hgetStop]
  by_cases hc0 : c = 0
  · rw [if_pos hc0, if_pos hc0, hc0]
    refine ⟨_, rfl, fun x hx => hreads x ?_⟩
    simpa using hx
  · rw [if_neg hc0, if_neg hc0, Traced.emit_bind, hset]
    refine ⟨_, rfl, fun x hx => ?_⟩
    simp only [Traced.pure_eq, ← List.append_assoc] at hx
    rcases List.mem_append.1 hx with hx | hx
    · exact hreads x hx
    · rw [List.mem_singleton.1 hx, MemAccess.offset_write]

/-- No token is left when there are delimiters only. -/
theorem strtokR_of_delims (hdelim : delim ≠ 0) (ha : ∀ c ∈ a, c = delim) (pre rest : List UInt8) :
    strtokR overrun delim (pre ++ (a ++ 0 :: rest)) pre.length =
      ⟨(List.range' pre.length (a.length + 1)).map .read,
        .ok (pre ++ (a ++ 0 :: rest), none, pre.length + a.length)⟩ := by
  have hstart := scan_eq overrun (p := (· = delim)) (l := a) (by simpa using ha)
    (c := 0) (by simpa using hdelim.symm) rest pre.length
  have hget : (pre ++ (a ++ 0 :: rest)).getD (pre.length + a.length) 0 = 0 := by
    rw [← List.append_assoc, ← List.length_append, getD_append_length]
  rw [strtokR, List.drop_left, hstart, Traced.mk_ok_bind, hget, if_pos rfl, Traced.pure_eq,
    List.append_nil]

end Memory

/-! ### Numbers -/

/-- The sign in front of a number: whether it is a minus, and the rest. -/
def splitSign : List UInt8 → Bool × List UInt8
  | c :: s => if c = 45 then (true, s) else if c = 43 then (false, s) else (false, c :: s)
  | [] => (false, [])

/-- What `strtoul` makes of a sign and a number, in sixty-four bits. -/
def strtoul (minus : Bool) (v : ℕ) : ℕ :=
  if v ≥ 2 ^ 64 then 2 ^ 64 - 1 else if minus then (2 ^ 64 - v) % 2 ^ 64 else v

/-- `sscanf` with `%hu`: after white space and a sign a row of digits, whose number is cut to
sixteen bits. What follows the digits does not matter. -/
def scanHu (s : List UInt8) : Option UInt16 :=
  let (minus, t) := splitSign (s.dropWhile isspace)
  let digits := t.takeWhile isdigit
  if digits = [] then none else some (.ofNat (strtoul minus (Decimal.value digits)))

/-- A row of digits is read as its number. -/
theorem scanHu_of_digits {s : List UInt8} (hne : s ≠ []) (hs : ∀ c ∈ s, isdigit c) :
    scanHu s = some (.ofNat (strtoul false (Decimal.value s))) := by
  obtain ⟨c, s', rfl⟩ := List.exists_cons_of_ne_nil hne
  have hc : ¬ isspace c ∧ c ≠ 45 ∧ c ≠ 43 := by
    have := hs c List.mem_cons_self
    grind [isdigit, isspace]
  have htake : (c :: s').takeWhile isdigit = c :: s' := List.takeWhile_eq_self_iff.2 hs
  rw [scanHu, List.dropWhile_cons_of_neg hc.1, splitSign, if_neg hc.2.1, if_neg hc.2.2]
  simp only [htake, if_neg (List.cons_ne_nil c s')]

/-- A text starts with a number, after white space and a sign. -/
def StartsNumber (s : List UInt8) : Prop := ∃ ws sign d rest, (∀ c ∈ ws, isspace c) ∧
  (sign = [] ∨ sign = [45] ∨ sign = [43]) ∧ isdigit d ∧ s = ws ++ (sign ++ d :: rest)

theorem exists_scanHu_iff_head {s : List UInt8} : (∃ v, scanHu s = some v) ↔
    ∃ d rest, isdigit d ∧ (splitSign (s.dropWhile isspace)).2 = d :: rest := by
  rw [scanHu]
  cases h : (splitSign (s.dropWhile isspace)).2 with
  | nil => simp [h]
  | cons d rest =>
    by_cases hd : isdigit d
    · simp [h, hd]
    · simp [h, hd]

/-- A number is read exactly where one starts. -/
theorem exists_scanHu_iff {s : List UInt8} : (∃ v, scanHu s = some v) ↔ StartsNumber s := by
  rw [exists_scanHu_iff_head]
  constructor
  · rintro ⟨d, rest, hd, hsign⟩
    have hsplit := List.takeWhile_append_dropWhile (p := isspace) (l := s)
    have hws : ∀ c ∈ s.takeWhile isspace, isspace c := fun c hc => List.mem_takeWhile_imp hc
    rw [← hsplit]
    cases hs : s.dropWhile isspace with
    | nil =>
      rw [hs] at hsign
      cases hsign
    | cons c t =>
      rw [hs, splitSign] at hsign
      split_ifs at hsign with hminus hplus
      · have ht : t = d :: rest := hsign
        exact ⟨_, [45], d, rest, hws, by simp, hd, by rw [hminus, ht]; rfl⟩
      · have ht : t = d :: rest := hsign
        exact ⟨_, [43], d, rest, hws, by simp, hd, by rw [hplus, ht]; rfl⟩
      · have ht : c :: t = d :: rest := hsign
        exact ⟨_, [], d, rest, hws, by simp, hd, by rw [ht]; rfl⟩
  · rintro ⟨ws, sign, d, rest, hws, hsign, hd, rfl⟩
    have hdigit : d ≠ 45 ∧ d ≠ 43 ∧ ¬ isspace d := by grind [isdigit, isspace]
    refine ⟨d, rest, hd, ?_⟩
    rw [List.dropWhile_append_of_pos hws]
    rcases hsign with rfl | rfl | rfl
    · rw [List.nil_append, List.dropWhile_cons_of_neg hdigit.2.2, splitSign, if_neg hdigit.1,
        if_neg hdigit.2.1]
    · rfl
    · rfl

end CString
