import SndNet.Io.NaddrText.Tokens

/-!
# Network addresses written and parsed

The text of an address with a dotted quad is parsed back as the address. For a path this depends on
its length: the parser copies the first fourteen characters of the text, tag included, and takes the
path from this copy (`src/io/naddr.c`, lines 72–77), so that from nine characters on it meets no
zero and goes on into the memory behind the copy.

## Main definitions

* `SndNet.UnixRoundTrips`: a path is written and parsed back.

## Main results

* `SndNet.inet_round_trips`: all dotted quads and ports are parsed back.
* `SndNet.unixRoundTrips_iff`: the paths that are parsed back are those of at most eight characters.
-/

namespace SndNet

open CString Ctype DottedQuad

/-! ### Dotted quads -/

section Inet

variable {octets : List UInt8}

theorem ne_zero_of_mem_inetNtop {c : UInt8} (h : c ∈ inetNtop octets) : c ≠ 0 ∧ c ≠ 58 := by
  rcases of_mem_inetNtop h with h | h
  · grind [isdigit]
  · rw [h]
    decide

theorem token_inetNtop (h : octets.length = 4) : Token (inetNtop octets) := by
  refine ⟨inetNtop_ne_nil ?_, fun c hc => (ne_zero_of_mem_inetNtop hc).2⟩
  rintro rfl
  exact absurd h (by decide)

theorem token_of_digits {s : List UInt8} (hne : s ≠ []) (hs : ∀ c ∈ s, isdigit c) : Token s :=
  ⟨hne, fun c hc => by have := hs c hc; grind [isdigit]⟩

/-- Digits whose number has sixteen bits are read as this number. -/
theorem scanHu_of_value {s : List UInt8} (hne : s ≠ []) (hs : ∀ c ∈ s, isdigit c) {port : UInt16}
    (hport : Decimal.value s = port.toNat) : scanHu s = some port := by
  have hlt : port.toNat < 2 ^ 64 := port.toNat_lt.trans (by decide)
  rw [scanHu_of_digits hne hs, hport, strtoul, if_neg (by omega), if_neg (by decide),
    UInt16.ofNat_toNat]

/-- A dotted quad, a colon and digits are an address. -/
theorem inetFromText_of_quad (h : octets.length = 4) {s : List UInt8} (hne : s ≠ [])
    (hs : ∀ c ∈ s, isdigit c) {port : UInt16} (hport : Decimal.value s = port.toNat)
    (addr : SnIoNaddr) :
    inetFromText addr (inetNtop octets ++ 58 :: s) = (0, inetNaddr port octets) := by
  have hfirst : nextToken (inetNtop octets ++ 58 :: s) = some (inetNtop octets, s) :=
    nextToken_of_colon (a := []) (by simp [Colons]) (token_inetNtop h) s
  have hsecond : nextToken s = some (s, []) :=
    nextToken_of_end (a := []) (by simp [Colons]) (token_of_digits hne hs)
  have hpton : inetPton (inetNtop octets) = some octets := inetPton_eq_some_iff.2 ⟨h, rfl⟩
  simp only [inetFromText, hfirst, hsecond, inetFromTokens, scanHu_of_value hne hs hport, hpton]

/-- **Dotted quads are parsed back.** The address of any four numbers and any port is printed whole,
and its text is parsed back as the same sixteen bytes. -/
theorem inet_round_trips (octets : CArray UInt8 4) (port : UInt16) (addr addr' : SnIoNaddr)
    (stack : List UInt8) : ∃ a,
    (snIoNaddrIpv4 addr (inetNtop octets.val ++ [0]) 0 port).result = .ok (0, a) ∧
    snIoNaddrToStr a =
      some (ascii "INET:" ++ inetNtop octets.val ++ ascii ":" ++ Decimal.text port.toNat) ∧
    (ascii "INET:" ++ inetNtop octets.val ++ ascii ":" ++ Decimal.text port.toNat).length <
      snIoNaddrPrintableLen ∧
    (snIoNaddrFromStr stack addr' (ascii "INET:" ++ inetNtop octets.val ++ ascii ":" ++
      Decimal.text port.toNat)).result = .ok (0, a) := by
  have hpton : inetPton (inetNtop octets.val) = some octets.val :=
    inetPton_eq_some_iff.2 ⟨octets.property, rfl⟩
  have hlen : (inetText port octets.val).length < snIoNaddrPrintableLen :=
    (length_inetText_le octets.property port).trans_lt (by decide)
  have hquad : ∀ c ∈ inetNtop octets.val, c ≠ 0 := fun c hc => (ne_zero_of_mem_inetNtop hc).1
  have hnum := Decimal.isdigit_of_mem_text port.toNat
  have hzero : ∀ c ∈ inetText port octets.val, c ≠ 0 := by
    intro c hc
    rw [inetText, List.mem_append, List.mem_append, List.mem_append] at hc
    rcases hc with ((hc | hc) | hc) | hc
    · revert c
      decide
    · exact hquad c hc
    · revert c
      decide
    · exact ne_zero_of_isdigit (hnum c hc)
  refine ⟨inetNaddr port octets.val, ?_, snIoNaddrToStr_inet octets.property port, hlen, ?_⟩
  · have hbuild := (snIoNaddrIpv4_eq addr hquad [] [] port).1
    rwa [hpton] at hbuild
  · have htag : HasTag "INET" (inetText port octets.val) := rfl
    have hdrop : (inetText port octets.val).drop 5 =
        inetNtop octets.val ++ 58 :: Decimal.text port.toNat := by
      rw [inetText, List.append_assoc, List.append_assoc]
      rfl
    have hparse : (snIoNaddrFromStr stack addr' (inetText port octets.val)).result = _ :=
      (snIoNaddrFromStr_inet addr' htag hzero hlen).1
    rw [hdrop, inetFromText_of_quad octets.property (Decimal.text_ne_nil _) hnum
      (Decimal.value_text _)] at hparse
    exact hparse

end Inet

/-! ### Paths -/

/-- A path is written and parsed back, whatever lies in memory behind the parser's copy. -/
def UnixRoundTrips (path : List UInt8) : Prop := ∀ stack addr addr', ∃ a,
  (snIoNaddrLocal addr (path ++ [0]) 0).result = .ok (0, a) ∧
  snIoNaddrToStr a = some (ascii "UNIX:" ++ path) ∧
  (snIoNaddrFromStr stack addr' (ascii "UNIX:" ++ path)).result = .ok (0, a)

section Unix

variable {stack path t : List UInt8} {c : UInt8} (addr : SnIoNaddr)

theorem snIoNaddrFromStr_unix (stack path : List UInt8) :
    snIoNaddrFromStr stack addr (ascii "UNIX:" ++ path) =
      snIoNaddrLocal addr ((CArray.padded snIoNaddrMaxPathLen (ascii "UNIX:" ++ path) 0).val ++
        stack) 5 := by
  have htake : (ascii "UNIX:" ++ path).take 4 = ascii "UNIX" := by
    rw [List.take_append_of_le_length (by decide)]
    rfl
  have hinet : ¬ HasTag "INET" (ascii "UNIX:" ++ path) := by
    rw [hasTag_iff (by decide) (by decide), htake]
    decide
  have hunix : HasTag "UNIX" (ascii "UNIX:" ++ path) := by
    rw [hasTag_iff (by decide) (by decide), htake]
  rw [snIoNaddrFromStr, if_neg hinet, if_pos hunix]

/-- A path of at most eight characters ends with a zero in the copy. -/
theorem fromStr_of_short (ht : ∀ d ∈ t, d ≠ 0) (hlen : t.length ≤ 7) :
    (snIoNaddrFromStr stack addr (ascii "UNIX:" ++ c :: t)).result =
      .ok (0, unixNaddr c t) := by
  have htag : (ascii "UNIX:").length = 5 := by decide
  have hstr : (ascii "UNIX:" ++ c :: t).length = t.length + 6 := by
    rw [List.length_append, List.length_cons, htag]
    omega
  have hfour : 4 ≤ (ascii "UNIX:" ++ c :: t).length := by omega
  have hroom : (ascii "UNIX:" ++ c :: t).length < snIoNaddrMaxPathLen := by
    rw [hstr]
    change t.length + 6 < 14
    omega
  obtain ⟨pre, rest, hsplit, hpre, -⟩ := exists_split_copy hfour hroom (by decide) stack
  have hdrop : (ascii "UNIX:" ++ c :: t).drop 5 = c :: t := List.drop_left' htag
  rw [snIoNaddrFromStr_unix, hsplit, hdrop, ← hpre]
  exact snIoNaddrLocal_eq addr ht pre rest

/-- Of a longer path nine characters are left, and the memory behind the copy is read next. -/
theorem fromStr_of_long (ht : ∀ d ∈ t, d ≠ 0) (hlen : 8 ≤ t.length) {x : UInt8} (hx : x ≠ 0) :
    (snIoNaddrFromStr [x, 0] addr (ascii "UNIX:" ++ c :: t)).result =
      .ok (0, unixNaddr c (t.take 8 ++ [x])) := by
  have hcopy : (CArray.padded snIoNaddrMaxPathLen (ascii "UNIX:" ++ c :: t) 0).val ++ [x, 0] =
      ascii "UNIX:" ++ c :: ((t.take 8 ++ [x]) ++ 0 :: []) := by
    have hfull : snIoNaddrMaxPathLen - (ascii "UNIX:" ++ c :: t).length = 0 := by
      rw [List.length_append, List.length_cons]
      exact Nat.sub_eq_zero_of_le (by
        change 14 ≤ 5 + (t.length + 1)
        omega)
    change (ascii "UNIX:" ++ c :: t).take 14 ++ List.replicate (14 - _) 0 ++ [x, 0] = _
    rw [hfull, List.replicate_zero, List.append_nil, List.append_assoc]
    rfl
  have hlong : ∀ d ∈ t.take 8 ++ [x], d ≠ 0 := by
    intro d hd
    rcases List.mem_append.1 hd with hd | hd
    · exact ht d (List.mem_of_mem_take hd)
    · rw [List.mem_singleton.1 hd]
      exact hx
  rw [snIoNaddrFromStr_unix, hcopy]
  exact snIoNaddrLocal_eq addr hlong (ascii "UNIX:") []

theorem unixNaddr_ne (hlen : 8 ≤ t.length) {x : UInt8} (hx : x ≠ t.getD 8 0) :
    unixNaddr c (t.take 8 ++ [x]) ≠ unixNaddr c t := by
  intro h
  have hget := congrArg (fun a : SnIoNaddr => a.saData.val.getD 9 0) h
  simp only [unixNaddr, CArray.getD_padded _ (show 9 < 14 by decide), List.getD_cons_succ] at hget
  have hlast : (t.take 8 ++ [x]).getD 8 0 = x := by
    have htake : (t.take 8).length = 8 := List.length_take_of_le hlen
    rw [List.getD_eq_getElem?_getD, List.getElem?_append_right htake.le, htake]
    rfl
  exact hx (hlast.symm.trans hget)

/-- A path of nine or more characters is lost when behind the copy lies neither a zero nor the
character that was cut off. -/
theorem not_unixRoundTrips (ht : ∀ d ∈ t, d ≠ 0) (hlen : 8 ≤ t.length) :
    ¬ UnixRoundTrips (c :: t) := by
  intro h
  obtain ⟨x, hx, hne⟩ : ∃ x : UInt8, x ≠ 0 ∧ x ≠ t.getD 8 0 := by
    by_cases h1 : t.getD 8 0 = 1
    · exact ⟨2, by decide, by rw [h1]; decide⟩
    · exact ⟨1, by decide, Ne.symm h1⟩
  obtain ⟨a, hbuild, -, hparse⟩ := h [x, 0] .zero .zero
  have hlocal : (snIoNaddrLocal .zero (c :: t ++ [0]) 0).result =
      .ok (0, unixNaddr c t) := snIoNaddrLocal_eq _ ht [] []
  rw [hlocal, Except.ok.injEq, Prod.mk.injEq] at hbuild
  rw [fromStr_of_long _ ht hlen hx, Except.ok.injEq, Prod.mk.injEq, ← hbuild.2] at hparse
  exact unixNaddr_ne hlen hne hparse.2

/-- **Which paths are parsed back.** A path of one to thirteen characters comes back exactly when it
has at most eight. -/
theorem unixRoundTrips_iff (hne : path ≠ []) (hpath : ∀ d ∈ path, d ≠ 0)
    (hlen : path.length ≤ 13) : UnixRoundTrips path ↔ path.length ≤ 8 := by
  obtain ⟨c, t, rfl⟩ := List.exists_cons_of_ne_nil hne
  have hc : c ≠ 0 := hpath c List.mem_cons_self
  have ht : ∀ d ∈ t, d ≠ 0 := fun d hd => hpath d (List.mem_cons_of_mem _ hd)
  rw [List.length_cons] at hlen ⊢
  constructor
  · intro h
    by_contra hlong
    exact not_unixRoundTrips ht (by omega) h
  · intro h stack addr addr'
    exact ⟨unixNaddr c t, snIoNaddrLocal_eq addr ht [] [], snIoNaddrToStr_unix hc ht (by omega),
      fromStr_of_short addr' ht (by omega)⟩

theorem unixRoundTrips_of_tmp : UnixRoundTrips (ascii "/tmp/sn") :=
  (unixRoundTrips_iff (by decide) (by decide) (by decide)).2 (by decide)

/-- The nine characters of `/tmp/sock` are not parsed back. -/
theorem not_unixRoundTrips_sock : ¬ UnixRoundTrips (ascii "/tmp/sock") :=
  not_unixRoundTrips (c := 47) (t := ascii "tmp/sock") (by decide) (by decide)

end Unix

end SndNet
