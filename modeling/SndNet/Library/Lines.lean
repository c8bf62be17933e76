import Mathlib.Data.List.TakeWhile

/-!
# Lines and words

A program that reads commands from a stream calls `fgets` for the next line and `strtok` for the
words of the line. `fgets` stops behind a newline or when its buffer is full, so that a line which
is too long comes in several pieces. `strtok` skips delimiters, takes what follows up to the next
delimiter, and goes on behind that delimiter in the next call. A program that prints a record prints
a line for every field.

## Main definitions

* `Lines.fgets`: the next line of a stream, and what is left of the stream.
* `Lines.fgetsAll`: the lines of a stream.
* `Lines.strtok`: the next word of a text, and what is left of the text.
* `Lines.labelled`: the line of a field.

## Main results

* `Lines.fgetsAll_line`: a line that fits into the buffer is read whole.
* `Lines.flatten_fgetsAll`: the lines of a stream make up the stream.
* `Lines.strtok_of_word`, `Lines.infix_of_strtok`: the first word of a text, and that a word is a
  piece of it.
* `Lines.labelled_append_inj`: the fields of a record are read off its lines.
-/

namespace Lines

/-! ### Lines -/

/-- At most `n` characters of a stream, up to the first newline, and what is left of the stream. -/
def fgets : ℕ → List UInt8 → List UInt8 × List UInt8
  | 0, s => ([], s)
  | _ + 1, [] => ([], [])
  | n + 1, c :: s => if c = 10 then ([c], s) else ((c :: (fgets n s).1), (fgets n s).2)

/-- The lines of a stream, for as long as `fuel` lasts. -/
def fgetsFuel (n : ℕ) : ℕ → List UInt8 → List (List UInt8)
  | 0, _ => []
  | fuel + 1, s => if s = [] then [] else (fgets n s).1 :: fgetsFuel n fuel (fgets n s).2

/-- The lines of a stream, until its end. A line has a character at least. -/
def fgetsAll (n : ℕ) (s : List UInt8) : List (List UInt8) := fgetsFuel n s.length s

variable {n fuel : ℕ} {s t r l delims : List UInt8} {d : UInt8}

theorem fgets_append (n : ℕ) (s : List UInt8) : (fgets n s).1 ++ (fgets n s).2 = s := by
  induction n generalizing s with
  | zero => rfl
  | succ n ih =>
    cases s with
    | nil => rfl
    | cons c s =>
      rw [fgets]
      split_ifs
      · rfl
      · exact congrArg (List.cons c) (ih s)

theorem length_fgets_lt (hs : s ≠ []) : (fgets (n + 1) s).2.length < s.length := by
  have hne : (fgets (n + 1) s).1 ≠ [] := by
    cases s with
    | nil => exact absurd rfl hs
    | cons c s =>
      rw [fgets]
      split_ifs <;> exact List.cons_ne_nil _ _
  have hlen := congrArg List.length (fgets_append (n + 1) s)
  rw [List.length_append] at hlen
  have hpos := List.length_pos_iff.2 hne
  omega

/-- More fuel than characters changes nothing. -/
theorem fgetsFuel_eq (h : s.length ≤ fuel) : fgetsFuel (n + 1) fuel s = fgetsAll (n + 1) s := by
  have hfuel : ∀ {fuel fuel' : ℕ} {s : List UInt8}, s.length ≤ fuel → s.length ≤ fuel' →
      fgetsFuel (n + 1) fuel s = fgetsFuel (n + 1) fuel' s := by
    intro fuel
    induction fuel with
    | zero =>
      intro fuel' s h _
      obtain rfl := List.length_eq_zero_iff.1 (Nat.le_zero.1 h)
      cases fuel' <;> rfl
    | succ fuel ih =>
      intro fuel' s h h'
      cases fuel' with
      | zero =>
        obtain rfl := List.length_eq_zero_iff.1 (Nat.le_zero.1 h')
        rfl
      | succ fuel' =>
        rw [fgetsFuel, fgetsFuel]
        split_ifs with hs
        · rfl
        · have hlt := length_fgets_lt (n := n) hs
          exact congrArg _ (ih (by omega) (by omega))
  exact hfuel h le_rfl

theorem fgetsAll_of_ne (hs : s ≠ []) :
    fgetsAll (n + 1) s = (fgets (n + 1) s).1 :: fgetsAll (n + 1) (fgets (n + 1) s).2 := by
  have hlt := length_fgets_lt (n := n) hs
  obtain ⟨fuel, hfuel⟩ : ∃ fuel, s.length = fuel + 1 := ⟨s.length - 1, by omega⟩
  rw [fgetsAll, hfuel, fgetsFuel, if_neg hs, fgetsFuel_eq (by omega)]

theorem fgets_line (hl : ∀ c ∈ l, c ≠ 10) (hlen : l.length < n) (s : List UInt8) :
    fgets n (l ++ 10 :: s) = (l ++ [10], s) := by
  induction l generalizing n with
  | nil =>
    obtain ⟨n, rfl⟩ : ∃ k, n = k + 1 := ⟨n - 1, by simp at hlen; omega⟩
    rfl
  | cons c l ih =>
    obtain ⟨n, rfl⟩ : ∃ k, n = k + 1 := ⟨n - 1, by simp at hlen; omega⟩
    have hlen' : l.length < n := by simpa using hlen
    rw [List.cons_append, fgets, if_neg (hl c List.mem_cons_self),
      ih (fun c hc => hl c (List.mem_cons_of_mem _ hc)) hlen']
    rfl

/-- **A line that fits into the buffer is read whole.** -/
theorem fgetsAll_line (hl : ∀ c ∈ l, c ≠ 10) (hlen : l.length < n) (s : List UInt8) :
    fgetsAll n (l ++ 10 :: s) = (l ++ [10]) :: fgetsAll n s := by
  obtain ⟨n, rfl⟩ : ∃ k, n = k + 1 := ⟨n - 1, by omega⟩
  rw [fgetsAll_of_ne (by simp), fgets_line hl hlen]

/-- The lines of a stream make up the stream. -/
theorem flatten_fgetsAll (n : ℕ) (s : List UInt8) : (fgetsAll (n + 1) s).flatten = s := by
  induction hk : s.length using Nat.strong_induction_on generalizing s with
  | _ k ih =>
    by_cases hs : s = []
    · subst hs
      rfl
    · have hlt := length_fgets_lt (n := n) hs
      rw [fgetsAll_of_ne hs, List.flatten_cons, ih _ (hk ▸ hlt) _ rfl, fgets_append]

theorem length_fgets_le (n : ℕ) (s : List UInt8) : (fgets n s).1.length ≤ n := by
  induction n generalizing s with
  | zero => exact le_rfl
  | succ n ih =>
    cases s with
    | nil => exact Nat.zero_le _
    | cons c s =>
      rw [fgets]
      split_ifs
      · exact Nat.succ_le_succ (Nat.zero_le _)
      · exact Nat.succ_le_succ (ih s)

/-- A line is not longer than the buffer. -/
theorem length_le_of_mem_fgetsAll (hl : l ∈ fgetsAll n s) : l.length ≤ n := by
  have hfuel : ∀ fuel s, l ∈ fgetsFuel n fuel s → l.length ≤ n := by
    intro fuel
    induction fuel with
    | zero => exact fun s h => absurd h List.not_mem_nil
    | succ fuel ih =>
      intro s h
      rw [fgetsFuel] at h
      split_ifs at h
      · exact absurd h List.not_mem_nil
      · rcases List.mem_cons.1 h with rfl | h
        · exact length_fgets_le n s
        · exact ih _ h
  exact hfuel _ s hl

/-- A line is a piece of the stream. -/
theorem infix_of_mem_fgetsAll (hl : l ∈ fgetsAll (n + 1) s) : l <:+: s := by
  rw [← flatten_fgetsAll n s]
  obtain ⟨pre, post, hsplit⟩ := List.append_of_mem hl
  rw [hsplit, List.flatten_append, List.flatten_cons]
  exact ⟨pre.flatten, post.flatten, by rw [List.append_assoc]⟩

/-! ### Words -/

/-- `strtok`: the first word of a text, and what follows the delimiter behind it. -/
def strtok (delims s : List UInt8) : Option (List UInt8 × List UInt8) :=
  let s := s.dropWhile (· ∈ delims)
  if s = [] then none else some (s.takeWhile (· ∉ delims), (s.dropWhile (· ∉ delims)).drop 1)

/-- A word in front of a delimiter is the first word. -/
theorem strtok_of_word (hne : t ≠ []) (ht : ∀ c ∈ t, c ∉ delims) (hd : d ∈ delims)
    (r : List UInt8) : strtok delims (t ++ d :: r) = some (t, r) := by
  have hskip : (t ++ d :: r).dropWhile (· ∈ delims) = t ++ d :: r := by
    cases t with
    | nil => exact absurd rfl hne
    | cons c t =>
      exact List.dropWhile_cons_of_neg (by simpa using ht c List.mem_cons_self)
  have htake : (t ++ d :: r).takeWhile (· ∉ delims) = t := by
    rw [List.takeWhile_append_of_pos (by simpa using ht),
      List.takeWhile_cons_of_neg (by simpa using hd), List.append_nil]
  have hdrop : (t ++ d :: r).dropWhile (· ∉ delims) = d :: r := by
    rw [List.dropWhile_append_of_pos (by simpa using ht),
      List.dropWhile_cons_of_neg (by simpa using hd)]
  rw [strtok, hskip, if_neg (by simp), htake, hdrop]
  rfl

/-- A word is a piece of the text that has a character and no delimiter, and what is left is a piece
of the text too. -/
theorem infix_of_strtok (h : strtok delims s = some (t, r)) :
    t <:+: s ∧ r <:+ s ∧ t ≠ [] ∧ ∀ c ∈ t, c ∉ delims := by
  rw [strtok] at h
  split_ifs at h with hs
  obtain ⟨rfl, rfl⟩ := Prod.mk.inj (Option.some.inj h)
  have hsuffix : s.dropWhile (· ∈ delims) <:+ s := List.dropWhile_suffix _
  refine ⟨(List.takeWhile_prefix _).isInfix.trans hsuffix.isInfix,
    ((List.drop_suffix _ _).trans (List.dropWhile_suffix _)).trans hsuffix, ?_, ?_⟩
  · obtain ⟨c, s', hc⟩ := List.exists_cons_of_ne_nil hs
    have hhead : c ∉ delims := by
      have := List.head_dropWhile_not (· ∈ delims) hs
      simpa [hc] using this
    rw [hc, List.takeWhile_cons_of_pos (by simpa using hhead)]
    exact List.cons_ne_nil _ _
  · intro c hc
    simpa using List.mem_takeWhile_imp hc

/-! ### Fields -/

/-- The line of a field. -/
def labelled (label value : List UInt8) : List UInt8 := label ++ (value ++ [10])

theorem length_labelled (label value : List UInt8) :
    (labelled label value).length = label.length + value.length + 1 := by
  rw [labelled, List.length_append, List.length_append, List.length_singleton, Nat.add_assoc]

/-- What stands in front of the first separator. -/
theorem append_sep_inj {c : UInt8} (hs : c ∉ s) (ht : c ∉ t) {u v : List UInt8} :
    s ++ c :: u = t ++ c :: v ↔ s = t ∧ u = v := by
  have hfront : ∀ {w : List UInt8}, c ∉ w → ∀ u, (w ++ c :: u).takeWhile (· ≠ c) = w := by
    intro w hw u
    have hpos : ∀ d ∈ w, decide (d ≠ c) := fun d hd => decide_eq_true fun h => hw (h ▸ hd)
    rw [List.takeWhile_append_of_pos hpos, List.takeWhile_cons_of_neg (by simp), List.append_nil]
  refine ⟨fun h => ?_, fun ⟨hst, huv⟩ => by rw [hst, huv]⟩
  have hst : s = t := by rw [← hfront hs u, h, hfront ht v]
  subst hst
  exact ⟨rfl, List.tail_eq_of_cons_eq (List.append_cancel_left h)⟩

/-- **The fields of a record** are read off its lines when they have no newline. -/
theorem labelled_append_inj {label : List UInt8} (hs : 10 ∉ s) (ht : 10 ∉ t) {u v : List UInt8} :
    labelled label s ++ u = labelled label t ++ v ↔ s = t ∧ u = v := by
  simp only [labelled, List.append_assoc, List.singleton_append, List.append_cancel_left_eq]
  exact append_sep_inj hs ht

/-! ### Texts of many lines -/

/-- A line with its newline. -/
def IsLine (l : List UInt8) : Prop := ∃ s, 10 ∉ s ∧ l = s ++ [10]

/-- **A text is read line by line.** -/
theorem flatten_lines_inj {ls ls' : List (List UInt8)} (h : ∀ l ∈ ls, IsLine l)
    (h' : ∀ l ∈ ls', IsLine l) (hflat : ls.flatten = ls'.flatten) : ls = ls' := by
  induction ls generalizing ls' with
  | nil =>
    cases ls' with
    | nil => rfl
    | cons l' ls' =>
      obtain ⟨s, -, rfl⟩ := h' _ List.mem_cons_self
      simp at hflat
  | cons l ls ih =>
    obtain ⟨⟨s, hs, rfl⟩, hls⟩ := List.forall_mem_cons.1 h
    cases ls' with
    | nil => simp at hflat
    | cons l' ls' =>
      obtain ⟨⟨t, ht, rfl⟩, hls'⟩ := List.forall_mem_cons.1 h'
      simp only [List.flatten_cons, List.append_assoc, List.singleton_append] at hflat
      obtain ⟨rfl, hrest⟩ := (append_sep_inj hs ht).1 hflat
      rw [ih hls hls' hrest]

/-- Lists of lines that read alike tell the same. -/
theorem flatMap_eq_of_map_eq {ι κ α β : Type} {f : ι → α} {f' : κ → α} {g : ι → List β}
    {g' : κ → List β} {is : List ι} {js : List κ}
    (h : ∀ i ∈ is, ∀ j ∈ js, f i = f' j → g i = g' j) (hmap : is.map f = js.map f') :
    is.flatMap g = js.flatMap g' := by
  induction is generalizing js with
  | nil =>
    obtain rfl := List.map_eq_nil_iff.1 hmap.symm
    rfl
  | cons i is ih =>
    obtain ⟨j, js, rfl, hij, hrest⟩ := List.map_eq_cons_iff.1 hmap.symm
    rw [List.flatMap_cons, List.flatMap_cons,
      h i List.mem_cons_self j List.mem_cons_self hij.symm,
      ih (fun i hi j hj => h i (List.mem_cons_of_mem _ hi) j (List.mem_cons_of_mem _ hj))
        hrest.symm]

end Lines
