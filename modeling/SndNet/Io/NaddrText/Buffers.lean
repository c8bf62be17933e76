import SndNet.Io.NaddrText.RoundTrip

/-!
# The buffers of the parser

The parser fills its copy with `strncpy`, which leaves no zero behind a string that is too long, and
then takes the copy for a string. A path is copied from the second byte of the path in the address
on, with the size of the whole path as the bound (`src/io/naddr.c`, lines 42 and 57–75).

## Main definitions

* `SndNet.StaysInBuffers`: the parser stays in its copy and in the address.
* `SndNet.TokensInCopy`: two tokens end inside the copy.

## Main results

* `SndNet.not_staysInBuffers_unix`: with a path it never stays there.
* `SndNet.staysInBuffers_iff`: when it does.
-/

namespace SndNet

open CString Ctype

/-- The size of the array `copy_str` of the branch that is taken. -/
def copyStrSize (str : List UInt8) : ℕ :=
  if HasTag "INET" str then snIoNaddrPrintableLen else snIoNaddrMaxPathLen

/-- The parser accesses the bytes of its copy only, and writes the sixteen bytes of the address
only. -/
def StaysInBuffers (stack : List UInt8) (addr : SnIoNaddr) (str : List UInt8) : Prop :=
  ∀ x ∈ (snIoNaddrFromStr stack addr str).events, x.Within (copyStrSize str - 1)

/-- The first characters of a string that fit into the copy have, behind the tag and its separator,
two tokens that each end with a colon. -/
def TokensInCopy (str : List UInt8) : Prop := ∃ a t b u rest, Colons a ∧ Token t ∧ Colons b ∧
  Token u ∧ (str.take snIoNaddrPrintableLen).drop 5 = a ++ (t ++ 58 :: (b ++ (u ++ 58 :: rest)))

section Buffers

variable {stack str : List UInt8} (addr : SnIoNaddr)

/-! ### Paths -/

/-- Copying a path goes beyond the copy or beyond the address. -/
theorem exists_beyond_local {mem : List UInt8} (hmem : 14 ≤ mem.length) :
    ∃ x ∈ (snIoNaddrLocal addr mem 5).events, ¬ x.Within 13 := by
  obtain ⟨c, hread⟩ : ∃ c, readByte Fault.outOfBounds mem 5 = ⟨[.read 5], .ok c⟩ := by
    rw [readByte, List.getElem?_eq_getElem (by omega)]
    exact ⟨_, rfl⟩
  have hmax : snIoNaddrMaxPathLen = 14 := rfl
  rw [snIoNaddrLocal, hread]
  simp only [storeFamily_eq, clearData, storeData_eq, Traced.mk_ok_bind, Traced.mapEvents_mk, hmax]
  cases hcopy : strncpy Fault.outOfBounds (mem.drop 6) 6 14 with
  | mk events result =>
    cases result with
    | error e =>
      -- no zero ends the path, and the bytes behind the copy are read
      have hend : 6 + (mem.drop 6).length = mem.length := by
        rw [List.length_drop]
        omega
      have hlast : .read (6 + (mem.drop 6).length) ∈
          (strncpy Fault.outOfBounds (mem.drop 6) 6 14).events :=
        read_mem_strncpy_of_error _ (e := e) (by rw [hcopy])
      rw [hcopy, hend] at hlast
      have hlast' : NaddrAccess.str (.read mem.length) ∈ events.map .str :=
        List.mem_map_of_mem hlast
      refine ⟨.str (.read mem.length), ?_, Nat.not_le.2 hmem⟩
      rw [Traced.mapEvents_mk, Traced.mk_error_bind]
      simp only [List.mem_append]
      exact Or.inr (Or.inr (Or.inr (Or.inr hlast')))
    | ok cs =>
      -- the copy fills fourteen bytes from the second on
      have hresult : (strncpy Fault.outOfBounds (mem.drop 6) 6 14).result = .ok cs := by
        rw [hcopy]
      have hlen := length_of_strncpy _ hresult
      refine ⟨.addr 16, ?_, Nat.lt_irrefl 16⟩
      simp [hlen]

/-! ### Tokens -/

/-- A search for a token that does not end goes beyond the copy. -/
theorem read_mem_strtokR {a t : List UInt8} (ha : Colons a) (ht : ∀ c ∈ t, c ≠ 58 ∧ c ≠ 0)
    (pre rest : List UInt8) : .read (pre.length + a.length + t.length) ∈
      (strtokR Fault.outOfBounds 58 (pre ++ (a ++ (t ++ rest))) pre.length).events := by
  have hcolon : ∀ c ∈ a, decide (c = 58) = true := by simpa [Colons] using ha
  rw [strtokR, List.drop_left, Traced.mem_events_bind]
  cases t with
  | nil =>
    refine Or.inl ?_
    rw [scan_append _ hcolon]
    exact List.mem_append_right _ (read_mem_scan _ _ _)
  | cons d t =>
    have hd := ht d List.mem_cons_self
    have hstart := scan_eq Fault.outOfBounds hcolon (c := d) (by simpa using hd.1) (t ++ rest)
      pre.length
    have hget : (pre ++ (a ++ (d :: t ++ rest))).getD (pre.length + a.length) 0 = d := by
      rw [← List.append_assoc, ← List.length_append, List.cons_append, getD_append_length]
    have hdrop : (pre ++ (a ++ (d :: t ++ rest))).drop (pre.length + a.length) =
        d :: t ++ rest := by
      rw [← List.append_assoc, ← List.length_append, List.drop_left]
    refine Or.inr ⟨pre.length + a.length, by rw [List.cons_append, hstart], ?_⟩
    rw [hget, if_neg hd.2, hdrop, Traced.mem_events_bind,
      scan_append _ (by simpa using ht)]
    exact Or.inl (List.mem_append_right _ (read_mem_scan _ _ _))

/-- The copy of a long string, behind the tag and its separator. -/
theorem exists_split_long (h : snIoNaddrPrintableLen ≤ str.length) (stack : List UInt8) :
    ∃ pre, (CArray.padded snIoNaddrPrintableLen str 0).val ++ stack =
      pre ++ ((str.take snIoNaddrPrintableLen).drop 5 ++ stack) ∧ pre.length = 5 ∧
      ((str.take snIoNaddrPrintableLen).drop 5).length = 23 := by
  have hlen : (str.take snIoNaddrPrintableLen).length = 28 := List.length_take_of_le h
  refine ⟨(str.take snIoNaddrPrintableLen).take 5, ?_, ?_, ?_⟩
  · have hfull : (CArray.padded snIoNaddrPrintableLen str 0).val =
        str.take snIoNaddrPrintableLen := by
      change str.take snIoNaddrPrintableLen ++
        List.replicate (snIoNaddrPrintableLen - str.length) 0 = _
      rw [Nat.sub_eq_zero_of_le h, List.replicate_zero, List.append_nil]
    rw [hfull, ← List.append_assoc, List.take_append_drop]
  · rw [List.length_take, hlen]
    rfl
  · rw [List.length_drop, hlen]

theorem mem_fromStrInet_first {mem : List UInt8} {x : MemAccess}
    (h : x ∈ (strtokR Fault.outOfBounds 58 mem 5).events) :
    .str x ∈ (fromStrInet addr mem).events := by
  rw [fromStrInet, Traced.mem_events_bind]
  exact Or.inl (List.mem_map_of_mem h)

theorem mem_fromStrInet_second {mem mem' : List UInt8} {events : List MemAccess} {i j : ℕ}
    (hfirst : strtokR Fault.outOfBounds 58 mem 5 = ⟨events, .ok (mem', some i, j)⟩) {x : MemAccess}
    (h : x ∈ (strtokR Fault.outOfBounds 58 mem' j).events) :
    .str x ∈ (fromStrInet addr mem).events := by
  rw [fromStrInet, hfirst, Traced.mapEvents_mk, Traced.mk_ok_bind]
  refine List.mem_append_right _ ?_
  dsimp only
  rw [Traced.mem_events_bind]
  exact Or.inl (List.mem_map_of_mem h)

/-- Two searches in a memory whose tokens do not both end in front of the stack go beyond the
copy. -/
theorem exists_beyond_inet {pre v : List UInt8} (hpre : pre.length = 5) (hv0 : ∀ c ∈ v, c ≠ 0)
    (hv : ¬ ∃ a t b u rest, Colons a ∧ Token t ∧ Colons b ∧ Token u ∧
      v = a ++ (t ++ 58 :: (b ++ (u ++ 58 :: rest)))) (stack : List UInt8) :
    .str (.read (5 + v.length)) ∈ (fromStrInet addr (pre ++ (v ++ stack))).events := by
  rcases nextToken_cases v with ⟨ha, -⟩ | ⟨a, t, ha, ht, rfl, -⟩ | ⟨a, t, r, ha, ht, rfl, -⟩
  · have hread := read_mem_strtokR (t := []) ha (by simp) pre stack
    rw [hpre] at hread
    exact mem_fromStrInet_first addr hread
  · have hread := read_mem_strtokR ha
      (fun c hc => ⟨ht.2 c hc, hv0 c (List.mem_append_right _ hc)⟩) pre stack
    rw [hpre] at hread
    rw [List.length_append, ← Nat.add_assoc, List.append_assoc a]
    exact mem_fromStrInet_first addr hread
  · obtain ⟨b, u, hb, hu, rfl⟩ : ∃ b u, Colons b ∧ (∀ c ∈ u, c ≠ 58) ∧ r = b ++ u := by
      rcases nextToken_cases r with ⟨hb, -⟩ | ⟨b, u, hb, hu, rfl, -⟩ | ⟨b, u, r', hb, hu, rfl, -⟩
      · exact ⟨r, [], hb, by simp, (List.append_nil r).symm⟩
      · exact ⟨b, u, hb, hu.2, rfl⟩
      · exact absurd ⟨a, t, b, u, r', ha, ht, hb, hu, rfl⟩ hv
    obtain ⟨events, hfirst, -⟩ := strtokR_of_token Fault.outOfBounds ha ht.1
      (fun c hc => ⟨ht.2 c hc, hv0 c (by simp [hc])⟩) (Or.inl rfl) pre (b ++ (u ++ stack))
    have hsplit : pre ++ (a ++ (t ++ 58 :: (b ++ u)) ++ stack) =
        pre ++ (a ++ (t ++ 58 :: (b ++ (u ++ stack)))) := by
      simp
    have hmem : pre ++ (a ++ (t ++ 0 :: (b ++ (u ++ stack)))) =
        (pre ++ (a ++ (t ++ [0]))) ++ (b ++ (u ++ stack)) := by
      simp
    have hnext : (pre ++ (a ++ (t ++ [0]))).length = 5 + a.length + t.length + 1 := by
      simp [hpre, Nat.add_assoc]
    have hread := read_mem_strtokR hb (fun c hc => ⟨hu c hc, hv0 c (by simp [hc])⟩)
      (pre ++ (a ++ (t ++ [0]))) stack
    have hend : 5 + (a ++ (t ++ 58 :: (b ++ u))).length =
        5 + a.length + t.length + 1 + b.length + u.length := by
      simp only [List.length_append, List.length_cons]
      omega
    rw [hpre, if_neg (by decide), hmem] at hfirst
    rw [hnext] at hread
    rw [hsplit, hend]
    exact mem_fromStrInet_second addr hfirst hread

/-! ### All strings -/

theorem not_hasTag_unix (h : HasTag "INET" str) : ¬ HasTag "UNIX" str := by
  rw [hasTag_iff (by decide) (by decide)] at h ⊢
  rw [h]
  decide

/-- With a path the parser never stays in its buffers. -/
theorem not_staysInBuffers_unix (h : HasTag "UNIX" str) : ¬ StaysInBuffers stack addr str := by
  have hinet : ¬ HasTag "INET" str := fun hinet => not_hasTag_unix hinet h
  have hcopy : 14 ≤ ((CArray.padded snIoNaddrMaxPathLen str 0).val ++ stack).length := by
    rw [List.length_append, Subtype.property (CArray.padded snIoNaddrMaxPathLen str 0)]
    exact Nat.le_add_right _ _
  obtain ⟨x, hx, hbeyond⟩ := exists_beyond_local addr hcopy
  intro hstay
  rw [StaysInBuffers, snIoNaddrFromStr, if_neg hinet, if_pos h, copyStrSize, if_neg hinet] at hstay
  exact hbeyond (hstay x hx)

/-- **When the parser stays in its buffers.** A string must not have the tag of a path, and one with
the tag of a dotted quad must be shorter than the copy or have two tokens that end inside it. -/
theorem staysInBuffers_iff (hs : ∀ c ∈ str, c ≠ 0) : StaysInBuffers stack addr str ↔
    ¬ HasTag "UNIX" str ∧
      (HasTag "INET" str → str.length < snIoNaddrPrintableLen ∨ TokensInCopy str) := by
  by_cases hinet : HasTag "INET" str
  · have hsize : copyStrSize str - 1 = 27 := by
      rw [copyStrSize, if_pos hinet]
      rfl
    rw [and_iff_right (not_hasTag_unix hinet), imp_iff_right hinet]
    by_cases hlen : str.length < snIoNaddrPrintableLen
    · refine iff_of_true (fun x hx => ?_) (Or.inl hlen)
      rw [hsize]
      exact (snIoNaddrFromStr_inet addr hinet hs hlen).2 x hx
    · rw [or_iff_right hlen, StaysInBuffers, hsize, snIoNaddrFromStr, if_pos hinet]
      obtain ⟨pre, hsplit, hpre, hv⟩ := exists_split_long (Nat.not_lt.1 hlen) stack
      have hv0 : ∀ c ∈ (str.take snIoNaddrPrintableLen).drop 5, c ≠ 0 := fun c hc =>
        hs c (List.mem_of_mem_take (List.mem_of_mem_drop hc))
      rw [hsplit]
      constructor
      · intro hstay
        by_contra htokens
        have hread := exists_beyond_inet addr hpre hv0 htokens stack
        rw [hv] at hread
        exact absurd (hstay _ hread) (Nat.not_le.2 (by decide))
      · rintro ⟨a, t, b, u, rest, ha, ht, hb, hu, heq⟩
        rw [heq] at hv hv0 ⊢
        have htokens := (fromStrInet_of_tokens addr hpre ha ht (fun c hc => hv0 c (by simp [hc])) hb
          hu (fun c hc => hv0 c (by simp [hc])) (Or.inl rfl) (rest ++ stack)).2
        simp only [List.length_append, List.length_cons] at hv
        simp only [List.append_assoc, List.cons_append]
        exact fun x hx => (htokens x hx).mono (by omega)
  · by_cases hunix : HasTag "UNIX" str
    · exact iff_of_false (not_staysInBuffers_unix addr hunix) fun h => h.1 hunix
    · refine iff_of_true (fun x hx => ?_) ⟨hunix, fun h => absurd h hinet⟩
      rw [snIoNaddrFromStr, if_neg hinet, if_neg hunix] at hx
      exact absurd hx List.not_mem_nil

theorem staysInBuffers_of_long :
    StaysInBuffers [] .zero (ascii "INET:127.0.0.1:80:and whatever follows") := by
  refine (staysInBuffers_iff .zero (by decide)).2 ⟨by decide, fun _ => Or.inr ?_⟩
  exact ⟨[], ascii "127.0.0.1", [], ascii "80", ascii "and whatev", by simp [Colons],
    ⟨by decide, by decide⟩, by simp [Colons], ⟨by decide, by decide⟩, by decide⟩

/-- A short path is written with a seventeenth byte. -/
theorem not_staysInBuffers_path : ¬ StaysInBuffers [] .zero (ascii "UNIX:/tmp/sn") :=
  not_staysInBuffers_unix .zero (by decide)

end Buffers

end SndNet
