import SndNet.Io.NaddrText

/-!
# Tokens of a network address

The parser of network addresses cuts two tokens from the characters behind the tag and its separator
(`src/io/naddr.c`, lines 51–71). A string that is shorter than the buffer ends with a zero there,
and the parser does not go beyond it.

## Main definitions

* `SndNet.nextToken`: the first token of a text, and what follows it.
* `SndNet.inetFromText`: what the parser makes of the characters from the fifth on.

## Main results

* `SndNet.nextToken_cases`: what a text looks like in front of its first token.
* `SndNet.snIoNaddrFromStr_inet`: what the parser does with a short string.
-/

namespace SndNet

open CString Ctype DottedQuad FallibleRun

/-! ### Tokens -/

/-- The first token of a text, and what follows the delimiter behind it. -/
def nextToken (s : List UInt8) : Option (List UInt8 × List UInt8) :=
  let s := s.dropWhile (· = 58)
  if s = [] then none else some (s.takeWhile (· ≠ 58), (s.dropWhile (· ≠ 58)).drop 1)

/-- A row of colons. -/
def Colons (a : List UInt8) : Prop := ∀ c ∈ a, c = 58

/-- A token: not empty, and without a colon. -/
def Token (t : List UInt8) : Prop := t ≠ [] ∧ ∀ c ∈ t, c ≠ 58

/-- What a text looks like in front of its first token. -/
theorem nextToken_cases (s : List UInt8) :
    (Colons s ∧ nextToken s = none) ∨
    (∃ a t, Colons a ∧ Token t ∧ s = a ++ t ∧ nextToken s = some (t, [])) ∨
    ∃ a t r, Colons a ∧ Token t ∧ s = a ++ (t ++ 58 :: r) ∧ nextToken s = some (t, r) := by
  have hsplit := List.takeWhile_append_dropWhile (p := (· = 58)) (l := s)
  have hcolons : Colons (s.takeWhile (· = 58)) := fun c hc => by
    simpa using List.mem_takeWhile_imp hc
  rw [nextToken]
  cases hv : s.dropWhile (· = 58) with
  | nil =>
    rw [hv, List.append_nil] at hsplit
    exact Or.inl ⟨hsplit ▸ hcolons, rfl⟩
  | cons d v =>
    have hd : d ≠ 58 := by
      have hne : s.dropWhile (· = 58) ≠ [] := hv ▸ List.cons_ne_nil _ _
      simpa [hv] using List.head_dropWhile_not _ hne
    have htoken : Token ((d :: v).takeWhile (· ≠ 58)) := by
      refine ⟨?_, fun c hc => by simpa using List.mem_takeWhile_imp hc⟩
      rw [List.takeWhile_cons_of_pos (by simpa using hd)]
      exact List.cons_ne_nil _ _
    have hsplit' := List.takeWhile_append_dropWhile (p := (· ≠ 58)) (l := d :: v)
    rw [hv] at hsplit
    cases hw : (d :: v).dropWhile (· ≠ 58) with
    | nil =>
      rw [hw, List.append_nil] at hsplit'
      refine Or.inr (Or.inl ⟨_, _, hcolons, htoken, ?_, ?_⟩)
      · rw [hsplit', hsplit]
      · rw [if_neg (List.cons_ne_nil _ _), List.drop_nil]
    | cons e r =>
      have he : e = 58 := by
        have hne : (d :: v).dropWhile (· ≠ 58) ≠ [] := hw ▸ List.cons_ne_nil _ _
        have hnot := List.head_dropWhile_not _ hne
        simp only [hw, List.head_cons] at hnot
        simpa using hnot
      rw [hw, he] at hsplit'
      refine Or.inr (Or.inr ⟨_, _, r, hcolons, htoken, ?_, ?_⟩)
      · rw [hsplit', hsplit]
      · rw [if_neg (List.cons_ne_nil _ _), List.drop_one, List.tail_cons]

/-! ### What the parser does -/

section NextToken

variable {a t : List UInt8}

theorem dropWhile_colons (ha : Colons a) (ht : Token t) (r : List UInt8) :
    (a ++ (t ++ r)).dropWhile (· = 58) = t ++ r := by
  obtain ⟨d, t', rfl⟩ := List.exists_cons_of_ne_nil ht.1
  have hd : d ≠ 58 := ht.2 d List.mem_cons_self
  rw [List.dropWhile_append_of_pos fun c hc => by simpa using ha c hc, List.cons_append,
    List.dropWhile_cons_of_neg (by simpa using hd)]

/-- A token that ends with a colon. -/
theorem nextToken_of_colon (ha : Colons a) (ht : Token t) (r : List UInt8) :
    nextToken (a ++ (t ++ 58 :: r)) = some (t, r) := by
  have hne : t ++ 58 :: r ≠ [] := List.append_ne_nil_of_left_ne_nil ht.1 _
  have hall : ∀ c ∈ t, decide (c ≠ 58) = true := by simpa using ht.2
  rw [nextToken, dropWhile_colons ha ht]
  simp only [if_neg hne]
  rw [List.takeWhile_append_of_pos hall, List.dropWhile_append_of_pos hall,
    List.takeWhile_cons_of_neg (by decide), List.dropWhile_cons_of_neg (by decide),
    List.append_nil, List.drop_one, List.tail_cons]

/-- A token that ends with the text. -/
theorem nextToken_of_end (ha : Colons a) (ht : Token t) : nextToken (a ++ t) = some (t, []) := by
  have hdrop := dropWhile_colons ha ht []
  rw [List.append_nil] at hdrop
  have hall : ∀ c ∈ t, decide (c ≠ 58) = true := by simpa using ht.2
  rw [nextToken, hdrop]
  simp only [if_neg ht.1]
  rw [List.takeWhile_eq_self_iff.2 hall, List.dropWhile_eq_nil_iff.2 hall, List.drop_nil]

end NextToken

/-- What the parser makes of its two tokens. -/
def inetFromTokens (addr : SnIoNaddr) (ipv4 port : List UInt8) : ℤ × SnIoNaddr :=
  match scanHu port with
  | none => (-1, addr)
  | some nport =>
    match inetPton ipv4 with
    | none => (-1, inetNaddr nport [])
    | some octets => (0, inetNaddr nport octets)

/-- What the parser makes of the characters from the fifth on, when it finds them in its copy. -/
def inetFromText (addr : SnIoNaddr) (s : List UInt8) : ℤ × SnIoNaddr :=
  match nextToken s with
  | none => (-1, addr)
  | some (ipv4, s) =>
    match nextToken s with
    | none => (-1, addr)
    | some (port, _) => inetFromTokens addr ipv4 port

section FromStr

variable {stack str : List UInt8} (addr : SnIoNaddr)

/-- A copy that is longer than a string without zeros has a zero behind the string, and the
characters from the fifth on in front of it. -/
theorem exists_split_copy (h : 4 ≤ str.length) {n : ℕ} (hn : str.length < n) (hn5 : 5 < n)
    (stack : List UInt8) : ∃ pre rest,
    (CArray.padded n str 0).val ++ stack = pre ++ (str.drop 5 ++ 0 :: rest) ∧ pre.length = 5 ∧
      5 + (str.drop 5).length < n := by
  have hcopy : (CArray.padded n str 0).val = str ++ 0 :: List.replicate (n - str.length - 1) 0 := by
    change str.take n ++ List.replicate (n - str.length) 0 = _
    rw [List.take_of_length_le hn.le, ← List.replicate_succ]
    congr 2
    omega
  by_cases h5 : 5 ≤ str.length
  · refine ⟨str.take 5, List.replicate (n - str.length - 1) 0 ++ stack, ?_, ?_, ?_⟩
    · rw [hcopy, ← List.append_assoc (str.take 5), List.take_append_drop, List.append_assoc,
        List.cons_append]
    · rw [List.length_take, Nat.min_eq_left h5]
    · rw [List.length_drop]
      omega
  · have hdrop : str.drop 5 = [] := List.drop_eq_nil_of_le (by omega)
    obtain ⟨k, hk⟩ : ∃ k, n - str.length - 1 = k + 1 := ⟨n - str.length - 2, by omega⟩
    refine ⟨str ++ [0], List.replicate k 0 ++ stack, ?_, ?_, ?_⟩
    · rw [hcopy, hk, hdrop, List.replicate_succ]
      simp
    · rw [List.length_append, List.length_singleton]
      omega
    · rw [hdrop, List.length_nil]
      omega

/-- A tag is the first four characters, in any case. -/
theorem hasTag_iff {tag : String} (hlen : (ascii tag).length = 4)
    (hne : ∀ c ∈ ascii tag, tolower c ≠ 0) :
    HasTag tag str ↔ (str.take 4).map tolower = (ascii tag).map tolower := by
  have h := strncasecmp_eq_zero_iff (s := str) hne
  rw [hlen] at h
  exact h

/-- A string with a tag has its four characters. -/
theorem length_of_hasTag {tag : String} (htag : HasTag tag str) (hlen : (ascii tag).length = 4)
    (hne : ∀ c ∈ ascii tag, tolower c ≠ 0) : 4 ≤ str.length := by
  have hlength := congrArg List.length ((hasTag_iff hlen hne).1 htag)
  rw [List.length_map, List.length_map, List.length_take, hlen] at hlength
  omega

/-- Without a first token the string is rejected. -/
theorem fromStrInet_of_no_first {mem mem' : List UInt8} {events : List MemAccess} {i : ℕ}
    (hfirst : strtokR Fault.outOfBounds 58 mem 5 = ⟨events, .ok (mem', none, i)⟩) :
    fromStrInet addr mem = ⟨events.map .str, .ok (-1, addr)⟩ := by
  rw [fromStrInet, hfirst, Traced.mapEvents_mk, Traced.mk_ok_bind]
  dsimp only
  rw [Traced.pure_eq, List.append_nil]

/-- Without a second token the string is rejected. -/
theorem fromStrInet_of_no_second {mem mem₁ mem₂ : List UInt8} {events₁ events₂ : List MemAccess}
    {i j k : ℕ}
    (hfirst : strtokR Fault.outOfBounds 58 mem 5 = ⟨events₁, .ok (mem₁, some i, j)⟩)
    (hsecond : strtokR Fault.outOfBounds 58 mem₁ j = ⟨events₂, .ok (mem₂, none, k)⟩) :
    fromStrInet addr mem = ⟨events₁.map .str ++ events₂.map .str, .ok (-1, addr)⟩ := by
  rw [fromStrInet, hfirst, Traced.mapEvents_mk, Traced.mk_ok_bind]
  dsimp only
  rw [hsecond, Traced.mapEvents_mk, Traced.mk_ok_bind]
  dsimp only
  rw [Traced.pure_eq, List.append_nil]

/-- The first branch on a memory with two tokens, of which the second ends with a colon or with a
zero: what lies behind is not reached. -/
theorem fromStrInet_of_tokens {pre a t b u : List UInt8} {c : UInt8} (hpre : pre.length = 5)
    (ha : Colons a) (ht : Token t) (ht0 : ∀ c ∈ t, c ≠ 0) (hb : Colons b) (hu : Token u)
    (hu0 : ∀ c ∈ u, c ≠ 0) (hc : c = 58 ∨ c = 0) (tail : List UInt8) :
    (fromStrInet addr (pre ++ (a ++ (t ++ 58 :: (b ++ (u ++ c :: tail)))))).result =
      .ok (inetFromTokens addr t u) ∧
    ∀ x ∈ (fromStrInet addr (pre ++ (a ++ (t ++ 58 :: (b ++ (u ++ c :: tail)))))).events,
      x.Within (5 + a.length + t.length + 1 + b.length + u.length) := by
  obtain ⟨events₁, hfirst, hevents₁⟩ := strtokR_of_token Fault.outOfBounds ha ht.1
    (fun d hd => ⟨ht.2 d hd, ht0 d hd⟩) (Or.inl rfl) pre (b ++ (u ++ c :: tail))
  have hmem₁ : pre ++ (a ++ (t ++ 0 :: (b ++ (u ++ c :: tail)))) =
      (pre ++ a ++ t ++ [0]) ++ (b ++ (u ++ c :: tail)) := by
    simp
  have hpre₁ : (pre ++ a ++ t ++ [0]).length = 5 + a.length + t.length + 1 := by
    simp [hpre, Nat.add_assoc]
  obtain ⟨events₂, hsecond, hevents₂⟩ := strtokR_of_token Fault.outOfBounds hb hu.1
    (fun d hd => ⟨hu.2 d hd, hu0 d hd⟩) hc (pre ++ a ++ t ++ [0]) tail
  have hmem₂ : (pre ++ a ++ t ++ [0]) ++ (b ++ (u ++ 0 :: tail)) =
      (pre ++ a ++ t ++ [0] ++ b) ++ (u ++ 0 :: tail) := by
    simp
  have hport := text_eq Fault.outOfBounds hu0 (pre ++ a ++ t ++ [0] ++ b) tail
  have hpre₂ : (pre ++ a ++ t ++ [0] ++ b).length = 5 + a.length + t.length + 1 + b.length := by
    rw [List.length_append, hpre₁]
  have hpre₃ : (pre ++ a).length = 5 + a.length := by
    simp [hpre]
  have hmem₃ : (pre ++ a ++ t ++ [0]) ++ (b ++ (u ++ 0 :: tail)) =
      (pre ++ a) ++ (t ++ 0 :: (b ++ (u ++ 0 :: tail))) := by
    simp
  rw [hpre] at hfirst hevents₁
  rw [hpre₁] at hsecond hevents₂
  rw [hpre₂] at hport
  rw [fromStrInet, hfirst, Traced.mapEvents_mk, Traced.mk_ok_bind, if_neg (by decide)]
  dsimp only
  rw [hmem₁, hsecond, Traced.mapEvents_mk, Traced.mk_ok_bind]
  dsimp only
  rw [hmem₂, hport, Traced.mapEvents_mk, Traced.mk_ok_bind, ← hmem₂, inetFromTokens]
  have hwithin₁ := within_map_str hevents₁
    (show 5 + a.length + t.length ≤ 5 + a.length + t.length + 1 + b.length + u.length by omega)
  have hwithin₂ := within_map_str hevents₂ le_rfl
  have hwithin₃ := within_reads (5 + a.length + t.length + 1 + b.length) u.length
  cases hscan : scanHu u with
  | none =>
    refine ⟨rfl, ?_⟩
    simp only [Traced.pure_eq, List.append_nil, List.forall_mem_append]
    exact ⟨hwithin₁, hwithin₂, hwithin₃⟩
  | some nport =>
    obtain ⟨hresult, hwithin₄⟩ := snIoNaddrIpv4_eq addr ht0 (pre ++ a)
      (b ++ (u ++ 0 :: tail)) nport
    rw [hpre₃, ← hmem₃] at hresult hwithin₄
    refine ⟨hresult, ?_⟩
    simp only [List.forall_mem_append]
    exact ⟨hwithin₁, hwithin₂, hwithin₃, fun x hx => (hwithin₄ x hx).mono (by omega)⟩

/-- In a text that ends with a zero, the first token ends with a colon or with this zero. -/
theorem closedToken_cases (r rest : List UInt8) : (Colons r ∧ nextToken r = none) ∨
    ∃ b u c tail r', Colons b ∧ Token u ∧ (c = 58 ∨ c = 0) ∧ u ⊆ r ∧
      b.length + u.length ≤ r.length ∧ r ++ 0 :: rest = b ++ (u ++ c :: tail) ∧
      nextToken r = some (u, r') := by
  rcases nextToken_cases r with ⟨hb, htok⟩ | ⟨b, u, hb, hu, rfl, htok⟩ |
    ⟨b, u, r', hb, hu, rfl, htok⟩
  · exact Or.inl ⟨hb, htok⟩
  · exact Or.inr ⟨b, u, 0, rest, [], hb, hu, Or.inr rfl, List.subset_append_right b u, by simp,
      by simp, htok⟩
  · refine Or.inr ⟨b, u, 58, r' ++ 0 :: rest, r', hb, hu, Or.inl rfl, by simp, ?_, by simp, htok⟩
    simp only [List.length_append, List.length_cons]
    omega

/-- The first branch on a memory in which a text without zeros ends with a zero. -/
theorem fromStrInet_eq {pre s : List UInt8} (hpre : pre.length = 5) (hs : ∀ c ∈ s, c ≠ 0)
    (rest : List UInt8) :
    (fromStrInet addr (pre ++ (s ++ 0 :: rest))).result = .ok (inetFromText addr s) ∧
      ∀ x ∈ (fromStrInet addr (pre ++ (s ++ 0 :: rest))).events, x.Within (5 + s.length) := by
  have hzero {l : List UInt8} (hl : l ⊆ s) : ∀ c ∈ l, c ≠ 0 := fun c hc => hs c (hl hc)
  rw [inetFromText]
  rcases nextToken_cases s with ⟨ha, htok⟩ | ⟨a, t, ha, ht, rfl, htok⟩ |
    ⟨a, t, r, ha, ht, rfl, htok⟩
  · have hfirst := strtokR_of_delims Fault.outOfBounds (by decide) ha pre rest
    rw [hpre] at hfirst
    rw [htok, fromStrInet_of_no_first addr hfirst]
    exact ⟨rfl, within_reads 5 s.length⟩
  · obtain ⟨events, hfirst, hevents⟩ := strtokR_of_token Fault.outOfBounds ha ht.1
      (fun d hd => ⟨ht.2 d hd, hzero (List.subset_append_right a t) d hd⟩) (Or.inr rfl) pre rest
    have hmem : pre ++ (a ++ (t ++ 0 :: rest)) = (pre ++ (a ++ t)) ++ ([] ++ 0 :: rest) := by simp
    have hlen : (pre ++ (a ++ t)).length = 5 + a.length + t.length := by simp [hpre, Nat.add_assoc]
    have hsecond := strtokR_of_delims (a := []) Fault.outOfBounds (show (58 : UInt8) ≠ 0 by decide)
      (by simp) (pre ++ (a ++ t)) rest
    rw [hpre, if_pos rfl, Nat.add_zero, hmem] at hfirst
    rw [hpre] at hevents
    rw [hlen] at hsecond
    rw [htok, List.append_assoc a, hmem, fromStrInet_of_no_second addr hfirst hsecond]
    refine ⟨rfl, ?_⟩
    rw [List.forall_mem_append, List.length_append, ← Nat.add_assoc]
    exact ⟨within_map_str hevents le_rfl, within_reads _ _⟩
  · rw [htok]
    dsimp only
    have hbound : 5 + (a ++ (t ++ 58 :: r)).length = 5 + a.length + t.length + 1 + r.length := by
      rw [List.length_append, List.length_append, List.length_cons]
      omega
    have hsplit : pre ++ (a ++ (t ++ 58 :: r) ++ 0 :: rest) =
        pre ++ (a ++ (t ++ 58 :: (r ++ 0 :: rest))) := by
      simp
    rw [hsplit, hbound]
    rcases closedToken_cases r rest with ⟨hb, htok'⟩ |
      ⟨b, u, c, tail, r', hb, hu, hc, hsub, hlen, hclosed, htok'⟩
    · obtain ⟨events, hfirst, hevents⟩ := strtokR_of_token Fault.outOfBounds ha ht.1
        (fun d hd => ⟨ht.2 d hd, hzero (by simp) d hd⟩) (Or.inl rfl) pre (r ++ 0 :: rest)
      have hmem : pre ++ (a ++ (t ++ 0 :: (r ++ 0 :: rest))) =
          (pre ++ (a ++ (t ++ [0]))) ++ (r ++ 0 :: rest) := by
        simp
      have hlen : (pre ++ (a ++ (t ++ [0]))).length = 5 + a.length + t.length + 1 := by
        simp [hpre, Nat.add_assoc]
      have hsecond := strtokR_of_delims Fault.outOfBounds (by decide) hb (pre ++ (a ++ (t ++ [0])))
        rest
      rw [hpre, if_neg (by decide), hmem] at hfirst
      rw [hpre] at hevents
      rw [hlen] at hsecond
      rw [htok', fromStrInet_of_no_second addr hfirst hsecond]
      refine ⟨rfl, ?_⟩
      rw [List.forall_mem_append]
      exact ⟨within_map_str hevents (by omega), within_reads _ _⟩
    · have hu0 : ∀ c ∈ u, c ≠ 0 := hzero fun c hc => by simp [hsub hc]
      have htokens := fromStrInet_of_tokens addr hpre ha ht (hzero (by simp)) hb hu hu0 hc tail
      rw [htok', hclosed]
      exact ⟨htokens.1, fun x hx => (htokens.2 x hx).mono (by omega)⟩

/-- **What the parser does with a short string.** It reads two tokens, and goes no further than the
zero behind the string. -/
theorem snIoNaddrFromStr_inet (htag : HasTag "INET" str) (hs : ∀ c ∈ str, c ≠ 0)
    (hlen : str.length < snIoNaddrPrintableLen) :
    (snIoNaddrFromStr stack addr str).result = .ok (inetFromText addr (str.drop 5)) ∧
      ∀ x ∈ (snIoNaddrFromStr stack addr str).events, x.Within (snIoNaddrPrintableLen - 1) := by
  have hfour := length_of_hasTag htag (by decide) (by decide)
  obtain ⟨pre, rest, hsplit, hpre, hroom⟩ := exists_split_copy hfour hlen (by decide) stack
  obtain ⟨hresult, hwithin⟩ := fromStrInet_eq addr hpre
    (fun c hc => hs c (List.mem_of_mem_drop hc)) rest
  rw [snIoNaddrFromStr, if_pos htag, hsplit]
  exact ⟨hresult, fun x hx => (hwithin x hx).mono (by omega)⟩

end FromStr

end SndNet
