import SndNet.Io.NaddrText.RoundTrip

/-!
# The grammar of network addresses

An address with a dotted quad is the tag, a colon, the quad, a colon and the port. The parser puts
up with more: it skips the character behind the tag whatever it is, its tokens may be surrounded by
further colons, and `sscanf` takes the port from the front of its token, after white space and a
sign, and cuts it to sixteen bits (`src/io/naddr.c`, lines 51–71).

## Main definitions

* `SndNet.InetGrammar`: the grammar.
* `SndNet.InetParts`: the parts of a text that the parser accepts.
* `SndNet.InetParts.Strict`: these parts are those of the grammar.

## Main results

* `SndNet.exists_inetParts_iff`: what is accepted has such parts, and nothing else does.
* `SndNet.parsesGrammar_iff`: a string is parsed by the grammar unless the parser puts up with it.
-/

namespace SndNet

open CString Ctype DottedQuad

/-! ### Grammar -/

/-- The tag in any case, a colon, a dotted quad, a colon and a port in decimal. -/
def InetGrammar (s : List UInt8) (port : UInt16) (octets : CArray UInt8 4) : Prop :=
  ∃ tag digits, tag.map tolower = (ascii "INET").map tolower ∧ digits ≠ [] ∧
    (∀ c ∈ digits, isdigit c) ∧ Decimal.value digits = port.toNat ∧
    s = tag ++ 58 :: (inetNtop octets.val ++ 58 :: digits)

/-- A string is accepted exactly when it is one of the grammar, and then the address has its port
and its four numbers. -/
def ParsesGrammar (s : List UInt8) : Prop := ∀ stack addr,
  ((∃ a, (snIoNaddrFromStr stack addr s).result = .ok (0, a)) ↔
    ∃ port octets, InetGrammar s port octets) ∧
  ∀ port octets, InetGrammar s port octets →
    (snIoNaddrFromStr stack addr s).result = .ok (0, inetNaddr port octets.val)

/-! ### Accepted texts -/

/-- The parts of a text that is accepted: colons, a dotted quad, colons behind the one that ends the
quad, a token that starts with a number, and nothing or a colon and anything. -/
structure InetParts where
  /-- The colons in front of the quad. -/
  front : List UInt8
  colons_front : Colons front
  /-- The numbers of the quad. -/
  octets : CArray UInt8 4
  /-- The colons in front of the port, without the one that ends the quad. -/
  between : List UInt8
  colons_between : Colons between
  /-- The token of the port. -/
  port : List UInt8
  token_port : Token port
  startsNumber_port : StartsNumber port
  /-- What follows the port. -/
  rest : List UInt8
  rest_cases : rest = [] ∨ ∃ r, rest = 58 :: r

namespace InetParts

/-- The text with these parts. -/
def text (p : InetParts) : List UInt8 :=
  p.front ++ (inetNtop p.octets.val ++ 58 :: (p.between ++ (p.port ++ p.rest)))

/-- The parts are those of the grammar: nothing stands between them or behind them but the two
colons, and the port is a row of digits with sixteen bits. -/
structure Strict (p : InetParts) (s : List UInt8) : Prop where
  separator : s[4]? = some 58
  front : p.front = []
  between : p.between = []
  digits : ∀ c ∈ p.port, isdigit c
  value : Decimal.value p.port < 2 ^ 16
  rest : p.rest = []

variable (p : InetParts)

theorem nextToken_text :
    nextToken p.text = some (inetNtop p.octets.val, p.between ++ (p.port ++ p.rest)) :=
  nextToken_of_colon p.colons_front (token_inetNtop p.octets.property) _

theorem nextToken_port : ∃ r, nextToken (p.between ++ (p.port ++ p.rest)) = some (p.port, r) := by
  rcases p.rest_cases with h | ⟨r, h⟩
  · rw [h, List.append_nil]
    exact ⟨[], nextToken_of_end p.colons_between p.token_port⟩
  · rw [h]
    exact ⟨r, nextToken_of_colon p.colons_between p.token_port r⟩

/-- A text with such parts is accepted. -/
theorem inetFromText_text (addr : SnIoNaddr) : (inetFromText addr p.text).1 = 0 := by
  obtain ⟨r, hport⟩ := p.nextToken_port
  obtain ⟨nport, hscan⟩ := exists_scanHu_iff.2 p.startsNumber_port
  have hpton : inetPton (inetNtop p.octets.val) = some p.octets.val :=
    inetPton_eq_some_iff.2 ⟨p.octets.property, rfl⟩
  simp only [inetFromText, p.nextToken_text, hport, inetFromTokens, hscan, hpton]

end InetParts

/-- Two tokens make an address when the one is a dotted quad and the other starts with a number. -/
theorem of_inetFromTokens_eq_zero {addr : SnIoNaddr} {t u : List UInt8}
    (h : (inetFromTokens addr t u).1 = 0) :
    StartsNumber u ∧ ∃ octets : CArray UInt8 4, t = inetNtop octets.val := by
  have hneg : (-1 : ℤ) ≠ 0 := by decide
  rw [inetFromTokens] at h
  cases hscan : scanHu u with
  | none =>
    rw [hscan] at h
    exact absurd h hneg
  | some nport =>
    rw [hscan] at h
    cases hpton : inetPton t with
    | none =>
      rw [hpton] at h
      exact absurd h hneg
    | some octets =>
      obtain ⟨hlen, ht⟩ := inetPton_eq_some_iff.1 hpton
      exact ⟨exists_scanHu_iff.1 ⟨nport, hscan⟩, ⟨octets, hlen⟩, ht⟩

/-- What is accepted has such parts, and nothing else does. -/
theorem exists_inetParts_iff (addr : SnIoNaddr) (v : List UInt8) :
    (inetFromText addr v).1 = 0 ↔ ∃ p : InetParts, v = p.text := by
  have hneg : (-1 : ℤ) ≠ 0 := by decide
  constructor
  · intro h
    rw [inetFromText] at h
    rcases nextToken_cases v with ⟨-, hfirst⟩ | ⟨a, t, -, -, -, hfirst⟩ |
      ⟨a, t, w, ha, ht, rfl, hfirst⟩
    · rw [hfirst] at h
      exact absurd h hneg
    · rw [hfirst] at h
      exact absurd h hneg
    · rw [hfirst] at h
      dsimp only at h
      rcases nextToken_cases w with ⟨-, hsecond⟩ | ⟨b, u, hb, hu, rfl, hsecond⟩ |
        ⟨b, u, r, hb, hu, rfl, hsecond⟩
      · rw [hsecond] at h
        exact absurd h hneg
      · rw [hsecond] at h
        obtain ⟨hnum, octets, rfl⟩ := of_inetFromTokens_eq_zero h
        exact ⟨⟨a, ha, octets, b, hb, u, hu, hnum, [], Or.inl rfl⟩, by simp [InetParts.text]⟩
      · rw [hsecond] at h
        obtain ⟨hnum, octets, rfl⟩ := of_inetFromTokens_eq_zero h
        exact ⟨⟨a, ha, octets, b, hb, u, hu, hnum, 58 :: r, Or.inr ⟨r, rfl⟩⟩, rfl⟩
  · rintro ⟨p, rfl⟩
    exact p.inetFromText_text addr

section Grammar

variable {s : List UInt8} {p : InetParts} {port : UInt16} {octets : CArray UInt8 4}

/-- What follows the tag of a string of the grammar. -/
theorem InetGrammar.exists_drop (h : InetGrammar s port octets) : s[4]? = some 58 ∧
    ∃ digits, digits ≠ [] ∧ (∀ c ∈ digits, isdigit c) ∧ Decimal.value digits = port.toNat ∧
      s.drop 5 = inetNtop octets.val ++ 58 :: digits := by
  obtain ⟨tag, digits, htag, hne, hdigits, hvalue, rfl⟩ := h
  have hfour : tag.length = 4 := by
    have hlen := congrArg List.length htag
    rwa [List.length_map, List.length_map] at hlen
  refine ⟨?_, digits, hne, hdigits, hvalue, ?_⟩
  · rw [List.getElem?_append_right hfour.le, hfour]
    rfl
  · have hfive : (tag ++ [58]).length = 5 := by
      rw [List.length_append, hfour, List.length_singleton]
    rw [List.append_cons, List.drop_left' hfive]

/-- A string of the grammar has the parts of the grammar only. -/
theorem InetGrammar.strict (h : InetGrammar s port octets) (hp : s.drop 5 = p.text) :
    p.Strict s := by
  obtain ⟨hsep, digits, -, hdigits, hvalue, hdrop⟩ := h.exists_drop
  rw [hdrop] at hp
  have htoken := token_inetNtop octets.property
  have hfirst : nextToken p.text = some (inetNtop octets.val, digits) :=
    hp ▸ nextToken_of_colon (a := []) (by simp [Colons]) htoken digits
  rw [p.nextToken_text, Option.some.injEq, Prod.mk.injEq] at hfirst
  have hnil {l : List UInt8} (hl : ∀ c ∈ l, c = 58) (hsub : l ⊆ digits) : l = [] := by
    refine List.eq_nil_iff_forall_not_mem.2 fun c hc => ?_
    have hdigit := hdigits c (hsub hc)
    rw [hl c hc] at hdigit
    exact absurd hdigit (by decide)
  have hbetween : p.between = [] := hnil p.colons_between
    (hfirst.2 ▸ List.subset_append_left _ _)
  have hrest : p.rest = [] := by
    rcases p.rest_cases with h | ⟨r, h⟩
    · exact h
    · have hcolon : (58 : UInt8) ∈ digits := by
        rw [← hfirst.2, h]
        simp
      exact absurd (hdigits 58 hcolon) (by decide)
  have hport : p.port = digits := by
    rw [← hfirst.2, hbetween, hrest, List.append_nil, List.nil_append]
  have hfront : p.front = [] := by
    cases hcons : p.front with
    | nil => rfl
    | cons c l =>
      have hc : c = 58 := p.colons_front c (hcons ▸ List.mem_cons_self)
      obtain ⟨d, q, hquad⟩ := List.exists_cons_of_ne_nil htoken.1
      rw [InetParts.text, hcons, hquad, List.cons_append, List.cons_append, List.cons.injEq] at hp
      exact absurd (hp.1.trans hc) (htoken.2 d (hquad ▸ List.mem_cons_self))
  refine ⟨hsep, hfront, hbetween, hport ▸ hdigits, ?_, hrest⟩
  rw [hport, hvalue]
  exact port.toNat_lt

/-- A string with the tag and the parts of the grammar is a string of the grammar. -/
theorem InetParts.Strict.inetGrammar (h : p.Strict s) (htag : HasTag "INET" s)
    (hp : s.drop 5 = p.text) :
    InetGrammar s (.ofNat (Decimal.value p.port)) p.octets := by
  refine ⟨s.take 4, p.port, (hasTag_iff (by decide) (by decide)).1 htag, p.token_port.1, h.digits,
    ?_, ?_⟩
  · rw [UInt16.toNat_ofNat', Nat.mod_eq_of_lt h.value]
  · have htext : p.text = inetNtop p.octets.val ++ 58 :: p.port := by
      rw [InetParts.text, h.front, h.between, h.rest, List.nil_append, List.nil_append,
        List.append_nil]
    obtain ⟨hlt, hget⟩ := List.getElem?_eq_some_iff.1 h.separator
    rw [← htext, ← hp, ← hget, List.getElem_cons_drop hlt, List.take_append_drop]

/-- A short string with the tag is accepted when it has such parts. -/
theorem exists_accepted_iff (htag : HasTag "INET" s) (hs : ∀ c ∈ s, c ≠ 0)
    (hlen : s.length < snIoNaddrPrintableLen) (stack : List UInt8) (addr : SnIoNaddr) :
    (∃ a, (snIoNaddrFromStr stack addr s).result = .ok (0, a)) ↔
      ∃ p : InetParts, s.drop 5 = p.text := by
  rw [← exists_inetParts_iff addr, (snIoNaddrFromStr_inet addr htag hs hlen).1]
  constructor
  · rintro ⟨a, ha⟩
    rw [Except.ok.injEq] at ha
    rw [ha]
  · intro h
    exact ⟨(inetFromText addr (s.drop 5)).2, by rw [← h]⟩

/-- **Which strings are parsed by the grammar.** They are the ones that are not accepted at all or
whose parts are those of the grammar: a character other than a colon behind the tag, further colons,
a port that is not a row of digits or has more than sixteen bits, and anything behind the port are
put up with, where the grammar has no place for them. -/
theorem parsesGrammar_iff (htag : HasTag "INET" s) (hs : ∀ c ∈ s, c ≠ 0)
    (hlen : s.length < snIoNaddrPrintableLen) :
    ParsesGrammar s ↔ ∀ p : InetParts, s.drop 5 = p.text → p.Strict s := by
  have haccept := exists_accepted_iff htag hs hlen
  constructor
  · intro h p hp
    obtain ⟨port, octets, hgrammar⟩ := (h [] .zero).1.1 ((haccept _ _).2 ⟨p, hp⟩)
    exact hgrammar.strict hp
  · intro h stack addr
    have hparse {port : UInt16} {octets : CArray UInt8 4} (hg : InetGrammar s port octets) :
        (snIoNaddrFromStr stack addr s).result = .ok (0, inetNaddr port octets.val) := by
      obtain ⟨-, digits, hne, hdigits, hvalue, hdrop⟩ := hg.exists_drop
      rw [(snIoNaddrFromStr_inet addr htag hs hlen).1, hdrop,
        inetFromText_of_quad octets.property hne hdigits hvalue]
    refine ⟨⟨?_, ?_⟩, fun port octets => hparse⟩
    · intro ha
      obtain ⟨p, hp⟩ := (haccept stack addr).1 ha
      exact ⟨_, _, (h p hp).inetGrammar htag hp⟩
    · rintro ⟨port, octets, hg⟩
      exact ⟨_, hparse hg⟩

theorem parsesGrammar_of_localhost : ParsesGrammar (ascii "inet:127.0.0.1:80") := by
  refine (parsesGrammar_iff (by decide) (by decide) (by decide)).2 fun p hp => ?_
  have hgrammar : InetGrammar (ascii "inet:127.0.0.1:80") 80 ⟨[127, 0, 0, 1], rfl⟩ :=
    ⟨ascii "inet", ascii "80", by decide, by decide, by decide, by decide, by decide⟩
  exact hgrammar.strict hp

/-- The port of `INET:1.2.3.4:65616` is too large for sixteen bits, and becomes 80. -/
theorem not_parsesGrammar_overflow : ¬ ParsesGrammar (ascii "INET:1.2.3.4:65616") := by
  intro h
  have hnum : StartsNumber (ascii "65616") :=
    ⟨[], [], 54, ascii "5616", by simp, Or.inl rfl, by decide, rfl⟩
  let p : InetParts := ⟨[], by simp [Colons], ⟨[1, 2, 3, 4], rfl⟩, [], by simp [Colons],
    ascii "65616", ⟨by decide, by decide⟩, hnum, [], Or.inl rfl⟩
  have hp : (ascii "INET:1.2.3.4:65616").drop 5 = p.text := rfl
  have haccept := exists_accepted_iff (s := ascii "INET:1.2.3.4:65616") (by decide) (by decide)
    (by decide) [] .zero
  obtain ⟨port, octets, hgrammar⟩ := (h [] .zero).1.1 (haccept.2 ⟨p, hp⟩)
  have hvalue : ¬ Decimal.value (ascii "65616") < 2 ^ 16 := by decide
  exact hvalue (hgrammar.strict hp).value

end Grammar

end SndNet
