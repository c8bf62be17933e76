import Mathlib.Algebra.Group.Nat.Defs
import SndNet.Library.Traced

/-!
# Printing into a buffer

A text is printed piece by piece into a buffer of a given length, with `snprintf`: each piece goes
to where the last one ended, and the size that is left is the length of the buffer less what the
pieces so far have or would have taken. The pieces come in groups, and it is only after a group that
a text which is too long ends the printing. Inside a group the size may wrap around, and the next
piece is then written behind the buffer.

## Main definitions

* `BoundedPrint.Call`: a call of `snprintf`, and the offsets that it writes.
* `BoundedPrint.printGroups`: printing with a check after each group.
* `BoundedPrint.RoomBeforeLast`: in each group that is reached, all but the last piece fit.
* `BoundedPrint.Call.store`, `BoundedPrint.fill`: the buffer after some calls.

## Main results

* `BoundedPrint.printGroups_result`: the printing succeeds when the whole text fits.
* `BoundedPrint.usedLen_le_iff`: the size never wraps around exactly when `RoomBeforeLast` holds.
* `BoundedPrint.Call.lt_of_mem_written`: a call whose size has not wrapped around stays in the
  buffer.
* `BoundedPrint.exists_fill_printGroups`: the buffer holds a text that fits.
-/

namespace BoundedPrint

variable {α ε : Type}

/-- A call of `snprintf` at an offset of the buffer, with the size that it is given. -/
structure Call (α : Type) where
  usedLen : ℕ
  size : ℕ
  text : List α

/-- The offsets that a call writes: the text as far as it fits, and the terminator. -/
def Call.written (c : Call α) : List ℕ :=
  if c.size = 0 then [] else List.range' c.usedLen (min c.text.length (c.size - 1) + 1)

/-- Unsigned subtraction in sixty-four bits. -/
def subSize (len used : ℕ) : ℕ := if used ≤ len then len - used else 2 ^ 64 - (used - len)

section Print

variable (outLen : ℕ) (stop : ε)

/-- A piece that is printed: the length used afterwards, which counts it in full. -/
def print (usedLen : ℕ) (text : List α) : Traced (Call α) ε ℕ :=
  ⟨[⟨usedLen, subSize outLen usedLen, text⟩], .ok (usedLen + text.length)⟩

/-- A group of pieces. -/
def printAll (texts : List (List α)) (usedLen : ℕ) : Traced (Call α) ε ℕ :=
  texts.foldlM (print outLen) usedLen

/-- The check after a group. -/
def checkRoom (usedLen : ℕ) : Traced (Call α) ε Unit :=
  .lift (if outLen ≤ usedLen then .error stop else .ok ())

/-- All groups, with a check after each. -/
def printGroups : List (List (List α)) → ℕ → Traced (Call α) ε ℕ
  | [], usedLen => return usedLen
  | texts :: groups, usedLen => do
    let usedLen ← printAll outLen texts usedLen
    checkRoom outLen stop usedLen
    printGroups groups usedLen

/-! ### One group -/

/-- The calls that print a group. -/
def calls : ℕ → List (List α) → List (Call α)
  | _, [] => []
  | usedLen, text :: texts =>
    ⟨usedLen, subSize outLen usedLen, text⟩ :: calls (usedLen + text.length) texts

theorem printAll_eq (texts : List (List α)) (usedLen : ℕ) :
    (printAll outLen texts usedLen : Traced (Call α) ε ℕ) =
      ⟨calls outLen usedLen texts, .ok (usedLen + texts.flatten.length)⟩ := by
  rw [printAll]
  induction texts generalizing usedLen with
  | nil => rfl
  | cons text texts ih =>
    rw [List.foldlM_cons, print, Traced.mk_ok_bind, ih, List.flatten_cons, List.length_append,
      ← Nat.add_assoc]
    rfl

theorem printAll_cons (text : List α) (texts : List (List α)) (usedLen : ℕ) :
    (printAll outLen (text :: texts) usedLen : Traced (Call α) ε ℕ) =
      print outLen usedLen text >>= printAll outLen texts := by
  rw [printAll, List.foldlM_cons]
  rfl

theorem printAll_singleton (text : List α) (usedLen : ℕ) :
    (printAll outLen [text] usedLen : Traced (Call α) ε ℕ) = print outLen usedLen text := by
  rw [printAll_cons]
  exact bind_pure _

/-- **The loop rule.** A loop whose rounds each print some pieces prints the pieces of all
rounds. -/
theorem foldlM_eq_printAll {ι : Type} {f : ℕ → ι → Traced (Call α) ε ℕ}
    {texts : ι → List (List α)} (h : ∀ usedLen i, f usedLen i = printAll outLen (texts i) usedLen)
    (items : List ι) (usedLen : ℕ) :
    items.foldlM f usedLen = printAll outLen (items.flatMap texts) usedLen := by
  induction items generalizing usedLen with
  | nil => rfl
  | cons i items ih =>
    rw [List.foldlM_cons, List.flatMap_cons, h, printAll, printAll, List.foldlM_append]
    exact bind_congr ih

theorem size_eq_of_mem_calls {texts : List (List α)} {usedLen : ℕ} {c : Call α}
    (h : c ∈ calls outLen usedLen texts) : c.size = subSize outLen c.usedLen := by
  induction texts generalizing usedLen with
  | nil => cases h
  | cons text texts ih =>
    rcases List.mem_cons.1 h with rfl | h
    · rfl
    · exact ih h

/-- A group is printed without a wrap when all but its last piece fit. -/
theorem usedLen_le_of_mem_calls_iff {texts : List (List α)} {usedLen : ℕ} (h : usedLen ≤ outLen) :
    (∀ c ∈ calls outLen usedLen texts, c.usedLen ≤ outLen) ↔
      usedLen + texts.dropLast.flatten.length ≤ outLen := by
  induction texts generalizing usedLen with
  | nil => simpa [calls] using h
  | cons text texts ih =>
    rw [calls, List.forall_mem_cons, and_iff_right h]
    cases texts with
    | nil => simpa [calls] using h
    | cons text' texts =>
      rw [List.dropLast_cons_cons, List.flatten_cons, List.length_append, ← Nat.add_assoc]
      by_cases hle : usedLen + text.length ≤ outLen
      · exact ih hle
      · refine iff_of_false (fun hall => hle (hall _ List.mem_cons_self)) (by omega)

end Print

/-! ### All groups -/

/-- In each group that is reached, all but the last piece fit into the buffer. -/
def RoomBeforeLast (outLen : ℕ) (groups : List (List (List α))) : Prop :=
  ∀ done texts rest, groups = done ++ texts :: rest → done.flatten.flatten.length < outLen →
    done.flatten.flatten.length + texts.dropLast.flatten.length ≤ outLen

instance (outLen : ℕ) (groups : List (List (List α))) : Decidable (RoomBeforeLast outLen groups) :=
  decidable_of_iff _ (FallibleRun.forall_split_iff (p := fun done texts =>
    done.flatten.flatten.length < outLen →
      done.flatten.flatten.length + texts.dropLast.flatten.length ≤ outLen)).symm

/-- A buffer for the whole text is large enough. -/
theorem roomBeforeLast_of_le {outLen : ℕ} {groups : List (List (List α))}
    (h : groups.flatten.flatten.length ≤ outLen) : RoomBeforeLast outLen groups := by
  intro done texts rest heq _
  have hlast : texts.dropLast.flatten ++ (texts.drop (texts.length - 1)).flatten =
      texts.flatten := by
    rw [← List.flatten_append, List.dropLast_eq_take, List.take_append_drop]
  rw [heq] at h
  simp only [List.flatten_append, List.flatten_cons, ← hlast, List.length_append] at h
  omega

section Groups

variable {outLen : ℕ} {stop : ε} {groups : List (List (List α))} {usedLen : ℕ}

theorem printGroups_cons_of_le {texts : List (List α)}
    (h : outLen ≤ usedLen + texts.flatten.length) :
    printGroups outLen stop (texts :: groups) usedLen =
      ⟨calls outLen usedLen texts, .error stop⟩ := by
  rw [printGroups, printAll_eq, Traced.mk_ok_bind, checkRoom, if_pos h, Traced.lift_error_bind,
    List.append_nil]

theorem printGroups_cons_of_lt {texts : List (List α)}
    (h : usedLen + texts.flatten.length < outLen) :
    printGroups outLen stop (texts :: groups) usedLen =
      ⟨calls outLen usedLen texts ++
        (printGroups outLen stop groups (usedLen + texts.flatten.length)).events,
        (printGroups outLen stop groups (usedLen + texts.flatten.length)).result⟩ := by
  rw [printGroups, printAll_eq, Traced.mk_ok_bind, checkRoom, if_neg (Nat.not_le.2 h),
    Traced.lift_ok_bind]

/-- **What is returned.** The printing ends with the length of the text when this is shorter than
the buffer, and is stopped otherwise. -/
theorem printGroups_result (h : usedLen < outLen) :
    (printGroups outLen stop groups usedLen).result =
      if usedLen + groups.flatten.flatten.length < outLen then
        .ok (usedLen + groups.flatten.flatten.length) else .error stop := by
  induction groups generalizing usedLen with
  | nil => exact (if_pos h).symm
  | cons texts groups ih =>
    rw [List.flatten_cons, List.flatten_append, List.length_append, ← Nat.add_assoc]
    by_cases hle : outLen ≤ usedLen + texts.flatten.length
    · rw [printGroups_cons_of_le hle, if_neg (by omega)]
    · rw [printGroups_cons_of_lt (Nat.not_le.1 hle), ih (Nat.not_le.1 hle)]

theorem size_eq_of_mem_printGroups {c : Call α}
    (h : c ∈ (printGroups outLen stop groups usedLen).events) :
    c.size = subSize outLen c.usedLen := by
  induction groups generalizing usedLen with
  | nil => cases h
  | cons texts groups ih =>
    by_cases hle : outLen ≤ usedLen + texts.flatten.length
    · rw [printGroups_cons_of_le hle] at h
      exact size_eq_of_mem_calls outLen h
    · rw [printGroups_cons_of_lt (Nat.not_le.1 hle)] at h
      rcases List.mem_append.1 h with h | h
      · exact size_eq_of_mem_calls outLen h
      · exact ih h

/-- What holds of every group and the groups before it holds of the first one and, with this one in
front, of the others. -/
theorem forall_split_cons {β : Type} {P : List β → β → Prop} {first : β} {l : List β} :
    (∀ done x rest, first :: l = done ++ x :: rest → P done x) ↔
      P [] first ∧ ∀ done x rest, l = done ++ x :: rest → P (first :: done) x := by
  constructor
  · intro h
    exact ⟨h [] first l rfl, fun done x rest heq => h (first :: done) x rest (congrArg _ heq)⟩
  · rintro ⟨hfirst, hrest⟩ done x rest heq
    cases done with
    | nil =>
      cases heq
      exact hfirst
    | cons first' done =>
      cases heq
      exact hrest done x rest rfl

theorem usedLen_le_iff_of_lt (h : usedLen < outLen) :
    (∀ c ∈ (printGroups outLen stop groups usedLen).events, c.usedLen ≤ outLen) ↔
      ∀ done texts rest, groups = done ++ texts :: rest →
        usedLen + done.flatten.flatten.length < outLen →
        usedLen + done.flatten.flatten.length + texts.dropLast.flatten.length ≤ outLen := by
  induction groups generalizing usedLen with
  | nil => simp [printGroups]
  | cons first groups ih =>
    have hlen (done : List (List (List α))) : usedLen + (first :: done).flatten.flatten.length =
        usedLen + first.flatten.length + done.flatten.flatten.length := by
      rw [List.flatten_cons, List.flatten_append, List.length_append, Nat.add_assoc]
    rw [forall_split_cons]
    simp only [hlen, List.flatten_nil, List.length_nil, Nat.add_zero, h, forall_const]
    rw [← usedLen_le_of_mem_calls_iff outLen (Nat.le_of_lt h)]
    by_cases hle : outLen ≤ usedLen + first.flatten.length
    · rw [printGroups_cons_of_le hle]
      exact (and_iff_left fun done texts rest _ hlt => absurd hlt (by omega)).symm
    · rw [printGroups_cons_of_lt (Nat.not_le.1 hle), List.forall_mem_append,
        ih (Nat.not_le.1 hle)]

/-- **When the size never wraps around.** -/
theorem usedLen_le_iff (h : 0 < outLen) :
    (∀ c ∈ (printGroups outLen stop groups 0).events, c.usedLen ≤ outLen) ↔
      RoomBeforeLast outLen groups := by
  simpa only [RoomBeforeLast, Nat.zero_add] using usedLen_le_iff_of_lt h

/-- A call whose size has not wrapped around stays in the buffer. -/
theorem Call.lt_of_mem_written {c : Call α} (hsize : c.size = subSize outLen c.usedLen)
    (h : c.usedLen ≤ outLen) {i : ℕ} (hi : i ∈ c.written) : i < outLen := by
  rw [subSize, if_pos h] at hsize
  rw [written] at hi
  split_ifs at hi with hzero
  · cases hi
  · have := (List.mem_range'_1.1 hi).2
    omega

/-- A call whose size has wrapped around writes behind the buffer. -/
theorem Call.mem_written_of_lt {c : Call α} (hsize : c.size = subSize outLen c.usedLen)
    (h : outLen < c.usedLen) (hmax : c.usedLen < 2 ^ 64) : c.usedLen ∈ c.written := by
  rw [subSize, if_neg (by omega)] at hsize
  rw [written, if_neg (by omega), List.mem_range'_1]
  omega

theorem usedLen_le_of_mem_calls {texts : List (List α)} {c : Call α}
    (h : c ∈ calls outLen usedLen texts) : c.usedLen ≤ usedLen + texts.flatten.length := by
  induction texts generalizing usedLen with
  | nil => cases h
  | cons text texts ih =>
    rw [List.flatten_cons, List.length_append]
    rcases List.mem_cons.1 h with rfl | h
    · exact Nat.le_add_right _ _
    · have hle := ih h
      omega

/-- No call begins behind the whole text. -/
theorem usedLen_le_of_mem_printGroups {c : Call α}
    (h : c ∈ (printGroups outLen stop groups usedLen).events) :
    c.usedLen ≤ usedLen + groups.flatten.flatten.length := by
  induction groups generalizing usedLen with
  | nil => cases h
  | cons texts groups ih =>
    rw [List.flatten_cons, List.flatten_append, List.length_append]
    by_cases hle : outLen ≤ usedLen + texts.flatten.length
    · rw [printGroups_cons_of_le hle] at h
      have := usedLen_le_of_mem_calls h
      omega
    · rw [printGroups_cons_of_lt (Nat.not_le.1 hle)] at h
      rcases List.mem_append.1 h with h | h
      · have := usedLen_le_of_mem_calls h
        omega
      · have := ih h
        omega

theorem calls_append (texts texts' : List (List α)) (usedLen : ℕ) :
    calls outLen usedLen (texts ++ texts') =
      calls outLen usedLen texts ++ calls outLen (usedLen + texts.flatten.length) texts' := by
  induction texts generalizing usedLen with
  | nil => rfl
  | cons text texts ih =>
    rw [List.cons_append, calls, calls, ih, List.cons_append, List.flatten_cons, List.length_append,
      Nat.add_assoc]

/-- A text that fits is printed whole. -/
theorem printGroups_events_of_lt (h : usedLen + groups.flatten.flatten.length < outLen) :
    (printGroups outLen stop groups usedLen).events = calls outLen usedLen groups.flatten := by
  induction groups generalizing usedLen with
  | nil => rfl
  | cons texts groups ih =>
    rw [List.flatten_cons, List.flatten_append, List.length_append, ← Nat.add_assoc] at h
    rw [printGroups_cons_of_lt (by omega), ih h, List.flatten_cons, calls_append]

end Groups

/-! ### What the buffer holds -/

section Buffer

/-- The buffer after a call: the text as far as it fits, and the terminator. -/
def Call.store (nul : α) (c : Call α) (buffer : List α) : List α :=
  if c.size = 0 then buffer
  else buffer.take c.usedLen ++ c.text.take (c.size - 1) ++
    nul :: buffer.drop (c.usedLen + min c.text.length (c.size - 1) + 1)

/-- The buffer after some calls. -/
def fill (nul : α) (buffer : List α) (cs : List (Call α)) : List α :=
  cs.foldl (fun buffer c => c.store nul buffer) buffer

variable {outLen : ℕ} {stop : ε} {groups : List (List (List α))} {texts : List (List α)}

/-- A piece that fits goes behind the text in the buffer. -/
theorem exists_store (nul : α) {done text : List α} (h : done.length + text.length < outLen)
    (rest : List α) : ∃ rest', (Call.mk done.length (subSize outLen done.length) text).store nul
      (done ++ rest) = done ++ text ++ nul :: rest' := by
  have hsize : subSize outLen done.length = outLen - done.length := if_pos (by omega)
  have hfits : text.length ≤ outLen - done.length - 1 := by omega
  have hpos : ¬ outLen - done.length = 0 := by omega
  rw [Call.store, hsize, if_neg hpos, List.take_left, List.take_of_length_le hfits]
  exact ⟨_, rfl⟩

/-- **Pieces that fit** go behind the text in the buffer. -/
theorem exists_fill_calls (nul : α) {done rest : List α} (hne : texts ≠ [])
    (h : done.length + texts.flatten.length < outLen) :
    ∃ rest', fill nul (done ++ rest) (calls outLen done.length texts) =
      done ++ texts.flatten ++ nul :: rest' := by
  induction texts generalizing done rest with
  | nil => exact absurd rfl hne
  | cons text texts ih =>
    rw [List.flatten_cons, List.length_append, ← Nat.add_assoc] at h
    obtain ⟨rest', hstore⟩ :=
      exists_store nul (show done.length + text.length < outLen by omega) rest
    rw [calls, fill, List.foldl_cons, hstore, ← List.length_append]
    by_cases hnil : texts = []
    · subst hnil
      exact ⟨rest', by simp [calls]⟩
    · obtain ⟨rest'', hfill⟩ := @ih (done ++ text) (nul :: rest') hnil
        (by rwa [List.length_append])
      refine ⟨rest'', ?_⟩
      rw [List.flatten_cons, ← List.append_assoc done]
      exact hfill

/-- **What the buffer holds** after a text that fits: the text, with its terminator. -/
theorem exists_fill_printGroups (nul : α) (hne : groups.flatten ≠ [])
    (h : groups.flatten.flatten.length < outLen) (buffer : List α) :
    ∃ rest, fill nul buffer (printGroups outLen stop groups 0).events =
      groups.flatten.flatten ++ nul :: rest := by
  rw [printGroups_events_of_lt (by omega)]
  exact @exists_fill_calls α outLen _ nul [] buffer hne (by simpa using h)

end Buffer

end BoundedPrint
