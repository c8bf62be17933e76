import SndNet.Io.NaddrText.RoundTrip
import SndNet.Prototype.Session

/-!
# Commands on the console

A command of the prototype names nodes by the texts that the program itself prints: an address by
its digits, and a network address by its family and what belongs to it. A user who types these texts
gets what the command says, with exactly the addresses meant, provided that the texts are not empty
and have no blanks, that a path has at most eight characters, and that the line fits into its
buffer.

## Main definitions

* `SndNet.Command.line`: the line to be typed for a command.
* `SndNet.Command.Typable`: the commands that can be typed.

## Main results

* `SndNet.commandLoop_eq_perform`: the console performs the commands that are typed.
* `SndNet.typed_of_mem_commandLoop`: the node sends what has been typed, and nothing else.
-/

namespace SndNet

open BoundedPrint Ctype CString DottedQuad Lines

variable (S : SignScheme) (q : Sorter SnNetEntry)

/-! ### Commands as they are typed -/

namespace Command

/-- A command as it is typed. -/
def text : Command → List UInt8
  | quit => ascii "quit"
  | send dst payload => ascii "send" ++ 32 :: (addrText dst ++ 32 :: payload)
  | insert addr netAddr => ascii "insert" ++ 32 :: (addrText addr ++ 32 :: naddrText netAddr)
  | showRouter => ascii "show"

/-- The line of a command. -/
def line (command : Command) : List UInt8 := command.text ++ [10]

end Command

/-- A character of a word. -/
def IsPlain (c : UInt8) : Prop := c ≠ 0 ∧ c ∉ blanks

instance (c : UInt8) : Decidable (IsPlain c) := inferInstanceAs (Decidable (_ ∧ _))

/-- The network addresses that can be typed: four numbers and a port, or a path of at most eight
characters. -/
inductive TypableNaddr : SnIoNaddr → Prop
  | inet {octets : List UInt8} (h : octets.length = 4) (port : UInt16) :
      TypableNaddr (inetNaddr port octets)
  | unix {c : UInt8} {t : List UInt8} (h : ∀ d ∈ c :: t, IsPlain d) (hlen : t.length ≤ 7) :
      TypableNaddr (unixNaddr c t)

/-- The commands that can be typed. -/
def Command.Typable : Command → Prop
  | quit => True
  | send dst payload => dst ≠ .zero ∧ payload ≠ [] ∧ (∀ c ∈ payload, c ≠ 0 ∧ c ≠ 10) ∧
      payload.length + (addrText dst).length ≤ 1016
  | insert addr netAddr => addr ≠ .zero ∧ TypableNaddr netAddr
  | showRouter => True

/-! ### The texts of addresses -/

theorem addrText_ne_nil {a : SnNetAddr} (h : a ≠ .zero) : addrText a ≠ [] := by
  intro hnil
  have hzero : addrText .zero = [] := by decide
  exact h (addrText_injective (hnil.trans hzero.symm))

theorem isPlain_of_mem_addrText {a : SnNetAddr} {c : UInt8} (h : c ∈ addrText a) : IsPlain c := by
  have hdigit := (isxdigit_of_mem_addrText h).1
  refine ⟨ne_zero_of_isxdigit hdigit, fun hc => ?_⟩
  rcases List.mem_cons.1 hc with rfl | hc
  · exact absurd hdigit (by decide)
  · obtain rfl := List.mem_singleton.1 hc
    exact absurd hdigit (by decide)

theorem isPlain_of_mem_inetText {octets : List UInt8} {port : UInt16} {c : UInt8}
    (h : c ∈ inetText port octets) : IsPlain c := by
  have htag : ∀ c ∈ ascii "INET:", IsPlain c := by decide
  have hcolon : ∀ c ∈ ascii ":", IsPlain c := by decide
  have hdigit : ∀ {c : UInt8}, isdigit c → IsPlain c := by
    intro c hc
    refine ⟨ne_zero_of_isdigit hc, fun hmem => ?_⟩
    rcases List.mem_cons.1 hmem with rfl | hmem
    · exact absurd hc (by decide)
    · obtain rfl := List.mem_singleton.1 hmem
      exact absurd hc (by decide)
  rw [inetText, List.mem_append, List.mem_append, List.mem_append] at h
  rcases h with ((h | h) | h) | h
  · exact htag c h
  · rcases of_mem_inetNtop h with h | rfl
    · exact hdigit h
    · decide
  · exact hcolon c h
  · exact hdigit (Decimal.isdigit_of_mem_text _ c h)

theorem fromStr_inetText {octets : List UInt8} (h : octets.length = 4) (port : UInt16)
    (stack : List UInt8) (addr : SnIoNaddr) :
    (snIoNaddrFromStr stack addr (inetText port octets)).result =
      .ok (0, inetNaddr port octets) := by
  have hzero : ∀ c ∈ inetText port octets, c ≠ 0 := fun c hc => (isPlain_of_mem_inetText hc).1
  have hlen : (inetText port octets).length < snIoNaddrPrintableLen :=
    (length_inetText_le h port).trans_lt (by decide)
  have hdrop : (inetText port octets).drop 5 =
      inetNtop octets ++ 58 :: Decimal.text port.toNat := by
    rw [inetText, List.append_assoc, List.append_assoc]
    rfl
  have htag : HasTag "INET" (inetText port octets) := rfl
  have hread : (snIoNaddrFromStr stack addr (inetText port octets)).result = _ :=
    (snIoNaddrFromStr_inet addr htag hzero hlen).1
  rw [hdrop, inetFromText_of_quad h (Decimal.text_ne_nil _) (Decimal.isdigit_of_mem_text _)
    (Decimal.value_text _)] at hread
  exact hread

/-- A network address that can be typed is a word that is read back. -/
theorem TypableNaddr.spec {netAddr : SnIoNaddr} (h : TypableNaddr netAddr) :
    naddrText netAddr ≠ [] ∧ (∀ c ∈ naddrText netAddr, IsPlain c) ∧ ∀ stack addr,
      (snIoNaddrFromStr stack addr (naddrText netAddr)).result = .ok (0, netAddr) := by
  cases h with
  | @inet octets hlen port =>
    have htext : naddrText (inetNaddr port octets) = inetText port octets := by
      rw [naddrText, snIoNaddrToStr_inet hlen, Option.getD_some]
    rw [htext]
    refine ⟨?_, fun c => isPlain_of_mem_inetText, fun stack addr =>
      fromStr_inetText hlen port stack addr⟩
    rw [inetText, List.append_assoc, List.append_assoc]
    exact List.cons_ne_nil _ _
  | @unix c t hplain hlen =>
    obtain ⟨hc, ht⟩ := List.forall_mem_cons.1 hplain
    have hzero : ∀ d ∈ t, d ≠ 0 := fun d hd => (ht d hd).1
    have htext : naddrText (unixNaddr c t) = ascii "UNIX:" ++ c :: t := by
      rw [naddrText, snIoNaddrToStr_unix hc.1 hzero (by omega), Option.getD_some]
    have htag : ∀ c ∈ ascii "UNIX:", IsPlain c := by decide
    rw [htext]
    exact ⟨List.cons_ne_nil _ _, List.forall_mem_append.2 ⟨htag, hplain⟩, fun stack addr =>
      fromStr_of_short addr hzero hlen⟩

/-! ### Lines -/

variable {S q} {ans : LineAnswers} {sns : SnNode}

/-- A round for a line with a command and more words. -/
theorem commandStep_of_word {word rest : List UInt8} {d : UInt8} (hne : word ≠ [])
    (hword : ∀ c ∈ word, IsPlain c) (hd : d ∈ blanks) (hrest : ∀ c ∈ rest, c ≠ 0) :
    commandStep S q ans sns (word ++ d :: rest) =
      if strcmp word (ascii "quit") = 0 then return .quit sns
      else if strcmp word (ascii "send") = 0 then sendCommand S ans sns rest
      else if strcmp word (ascii "insert") = 0 then insertCommand q ans sns rest
      else if strcmp word (ascii "show") = 0 then showCommand ans sns
      else return .next sns := by
  have hd0 : d ≠ 0 := by
    rintro rfl
    exact absurd hd (by decide)
  have hzero : ∀ c ∈ word ++ d :: rest, c ≠ 0 :=
    List.forall_mem_append.2 ⟨fun c hc => (hword c hc).1, List.forall_mem_cons.2 ⟨hd0, hrest⟩⟩
  have hline : cString (word ++ d :: rest) = word ++ d :: rest :=
    List.takeWhile_eq_self_iff.2 fun c hc => by simpa using hzero c hc
  rw [commandStep, hline, strtok_of_word hne (fun c hc => (hword c hc).2) hd]

theorem sendCommand_eq {dst : SnNetAddr} {payload : List UInt8} (hdst : dst ≠ .zero)
    (hne : payload ≠ []) (hpayload : ∀ c ∈ payload, c ≠ 0 ∧ c ≠ 10) :
    sendCommand S ans sns (addrText dst ++ 32 :: (payload ++ [10])) =
      (Command.send dst payload).perform S q ans sns := by
  have hword : ∀ c ∈ addrText dst, c ∉ blanks := fun c hc => (isPlain_of_mem_addrText hc).2
  have hline : ∀ c ∈ payload, c ∉ newline := by
    intro c hc hmem
    exact (hpayload c hc).2 (List.mem_singleton.1 hmem)
  rw [sendCommand, strtok_of_word (addrText_ne_nil hdst) hword (by decide)]
  simp only [snNetAddrFromHex_addrText, Traced.lift_ok_bind]
  rw [strtok_of_word hne hline (by decide)]
  rfl

theorem insertCommand_eq {addr : SnNetAddr} {netAddr : SnIoNaddr} (haddr : addr ≠ .zero)
    (hnaddr : TypableNaddr netAddr) :
    insertCommand q ans sns (addrText addr ++ 32 :: (naddrText netAddr ++ [10])) =
      (Command.insert addr netAddr).perform S q ans sns := by
  obtain ⟨hne, hplain, hread⟩ := hnaddr.spec
  have hword : ∀ c ∈ addrText addr, c ∉ blanks := fun c hc => (isPlain_of_mem_addrText hc).2
  rw [insertCommand, strtok_of_word (addrText_ne_nil haddr) hword (by decide)]
  simp only
  rw [strtok_of_word hne (fun c hc => (hplain c hc).2) (by decide)]
  simp only [snNetAddrFromHex_addrText, hread, Traced.lift_ok_bind]
  rfl

/-- **A line does what it says.** -/
theorem commandStep_line {command : Command} (h : command.Typable) :
    commandStep S q ans sns command.line = command.perform S q ans sns := by
  cases command with
  | quit => exact commandStep_of_word (by decide) (by decide) (by decide) (by decide)
  | send dst payload =>
    obtain ⟨hdst, hne, hpayload, -⟩ := h
    have hrest : ∀ c ∈ addrText dst ++ 32 :: (payload ++ [10]), c ≠ 0 := by
      refine List.forall_mem_append.2 ⟨fun c hc => (isPlain_of_mem_addrText hc).1,
        List.forall_mem_cons.2 ⟨by decide, List.forall_mem_append.2 ⟨fun c hc =>
          (hpayload c hc).1, by decide⟩⟩⟩
    have hline : (Command.send dst payload).line =
        ascii "send" ++ 32 :: (addrText dst ++ 32 :: (payload ++ [10])) := by
      simp [Command.line, Command.text]
    rw [hline, commandStep_of_word (by decide) (by decide) (by decide) hrest,
      if_neg (by decide), if_pos (by decide), sendCommand_eq hdst hne hpayload]
  | insert addr netAddr =>
    obtain ⟨haddr, hnaddr⟩ := h
    have hrest : ∀ c ∈ addrText addr ++ 32 :: (naddrText netAddr ++ [10]), c ≠ 0 := by
      refine List.forall_mem_append.2 ⟨fun c hc => (isPlain_of_mem_addrText hc).1,
        List.forall_mem_cons.2 ⟨by decide, List.forall_mem_append.2 ⟨fun c hc =>
          (hnaddr.spec.2.1 c hc).1, by decide⟩⟩⟩
    have hline : (Command.insert addr netAddr).line =
        ascii "insert" ++ 32 :: (addrText addr ++ 32 :: (naddrText netAddr ++ [10])) := by
      simp [Command.line, Command.text]
    rw [hline, commandStep_of_word (by decide) (by decide) (by decide) hrest,
      if_neg (by decide), if_neg (by decide), if_pos (by decide), insertCommand_eq haddr hnaddr]
  | showRouter => exact commandStep_of_word (by decide) (by decide) (by decide) (by decide)

/-- The text of a command has no newline and fits into the buffer. -/
theorem Command.Typable.text_spec {command : Command} (h : command.Typable) :
    (∀ c ∈ command.text, c ≠ 10) ∧ command.text.length < 1023 := by
  have hplain : ∀ {c : UInt8}, IsPlain c → c ≠ 10 := by
    rintro c hc rfl
    exact absurd hc (by decide)
  cases command with
  | quit => exact ⟨by decide, by decide⟩
  | send dst payload =>
    obtain ⟨-, -, hpayload, hlen⟩ := h
    refine ⟨List.forall_mem_append.2 ⟨by decide, List.forall_mem_cons.2 ⟨by decide,
      List.forall_mem_append.2 ⟨fun c hc => hplain (isPlain_of_mem_addrText hc),
        List.forall_mem_cons.2 ⟨by decide, fun c hc => (hpayload c hc).2⟩⟩⟩⟩, ?_⟩
    have hword : (ascii "send").length = 4 := by decide
    simp only [Command.text, List.length_append, List.length_cons, hword]
    omega
  | insert addr netAddr =>
    obtain ⟨-, hnaddr⟩ := h
    refine ⟨List.forall_mem_append.2 ⟨by decide, List.forall_mem_cons.2 ⟨by decide,
      List.forall_mem_append.2 ⟨fun c hc => hplain (isPlain_of_mem_addrText hc),
        List.forall_mem_cons.2 ⟨by decide, fun c hc => hplain (hnaddr.spec.2.1 c hc)⟩⟩⟩⟩, ?_⟩
    have hword : (ascii "insert").length = 6 := by decide
    have haddr : (addrText addr).length ≤ 64 := length_addrText_le addr
    have hnaddr : (naddrText netAddr).length < 28 := length_naddrText_lt netAddr
    simp only [Command.text, List.length_append, List.length_cons, hword]
    omega
  | showRouter => exact ⟨by decide, by decide⟩

/-! ### Sessions -/

/-- The lines of a session are the lines of its commands. -/
theorem fgetsAll_flatMap_line {commands : List Command} (h : ∀ c ∈ commands, c.Typable) :
    fgetsAll 1023 (commands.flatMap Command.line) = commands.map Command.line := by
  induction commands with
  | nil => rfl
  | cons command commands ih =>
    obtain ⟨hcommand, hrest⟩ := List.forall_mem_cons.1 h
    obtain ⟨hline, hlen⟩ := hcommand.text_spec
    rw [List.flatMap_cons, Command.line, List.append_assoc, List.singleton_append,
      fgetsAll_line hline hlen, ih hrest]
    rfl

/-- Loops whose rounds do the same. -/
theorem promptLoop_map {ι κ : Type} {step : LineAnswers → SnNode → ι → ConsoleM Control}
    {step' : LineAnswers → SnNode → κ → ConsoleM Control} {f : κ → ι} {is : List κ}
    (h : ∀ i ∈ is, ∀ ans sns, step ans sns (f i) = step' ans sns i) (ans : ℕ → LineAnswers)
    (k : ℕ) (sns : SnNode) :
    promptLoop step ans k sns (is.map f) = promptLoop step' ans k sns is := by
  induction is generalizing k sns with
  | nil => rfl
  | cons i is ih =>
    obtain ⟨hi, his⟩ := List.forall_mem_cons.1 h
    rw [List.map_cons, promptLoop, promptLoop, hi]
    refine bind_congr fun _ => bind_congr fun control => ?_
    cases control with
    | next sns => exact ih his (k + 1) sns
    | quit sns => rfl
    | ret code => rfl

variable (S q)

/-- **The console performs the commands that are typed**, one after the other. -/
theorem commandLoop_eq_perform (ans : ℕ → LineAnswers) (sns : SnNode) {commands : List Command}
    (h : ∀ c ∈ commands, c.Typable) :
    commandLoop S q ans sns (commands.flatMap Command.line) =
      promptLoop (Command.perform S q) ans 0 sns commands := by
  rw [commandLoop, fgetsAll_flatMap_line h]
  exact promptLoop_map (fun command hcommand ans sns => commandStep_line (h command hcommand))
    ans 0 sns

/-- The node on 4f5e22 is told of a node at 1.1.1.1, sends a message to it and quits. -/
theorem commandLoop_eq_perform_of_insert : ∃ commands : List Command, commands.length = 3 ∧
    commandLoop .plain (.insertion SnNetEntry) (fun _ => .ideal) senderNode
        (commands.flatMap Command.line) =
      promptLoop (Command.perform .plain (.insertion SnNetEntry)) (fun _ => .ideal) 0 senderNode
        commands := by
  refine ⟨[.insert receiverAddr (inetNaddr 1111 [1, 1, 1, 1]), .send receiverAddr (ascii "hello"),
    .quit], rfl, commandLoop_eq_perform _ _ _ _ ?_⟩
  simp only [List.forall_mem_cons]
  exact ⟨⟨by decide, .inet rfl 1111⟩, ⟨by decide, by decide, by decide, by decide⟩, trivial,
    fun _ h => absurd h List.not_mem_nil⟩

variable {S q}

/-- A session that inserts nodes. -/
theorem commandLoop_insert {router : SnNetRouter} (ans : ℕ → LineAnswers) {sns : SnNode}
    {order : List (SnNetAddr × SnIoNaddr)}
    (htypable : ∀ p ∈ order, (Command.insert p.1 p.2).Typable)
    (hrun : FallibleRun.run (routerStep q) sns.router (order.map fun p => .add p.1 (some p.2)) =
      .ok router) :
    (commandLoop S q ans sns ((order.map fun p => .insert p.1 p.2).flatMap Command.line)).result =
      .ok (.next { sns with router := router }) := by
  rw [commandLoop_eq_perform S q ans sns (List.forall_mem_map.2 htypable)]
  generalize 0 = k
  clear htypable
  induction order generalizing k sns with
  | nil =>
    obtain rfl := Except.ok.inj hrun
    rfl
  | cons p order ih =>
    obtain ⟨s, hs, hrest⟩ := FallibleRun.bind_eq_ok.1 hrun
    have hadd : snNetRouterAdd q sns.router p.1 (some p.2) = .ok s := hs
    have hround : ((Command.insert p.1 p.2).perform S q (ans k) sns).result =
        .ok (.next { sns with router := s }) := by
      rw [perform_insert, hadd]
      rfl
    rw [List.map_cons, promptLoop_cons_of_next hround]
    exact @ih { sns with router := s } hrest (k + 1)

/-- **The node sends what has been typed**, and does nothing else, whatever the input is: each of
its acts is part of a call of `sn_node_send` with a piece of a line of the input, made by the node
that the lines before this one have left. -/
theorem typed_of_mem_commandLoop {ans : ℕ → LineAnswers} {stdin : List UInt8}
    {w : UseEvent NodeResource}
    (h : .node w ∈ (commandLoop S q ans sns stdin).events) :
    ∃ done line rest sns₁ dst payload w', w = .node w' ∧
      fgetsAll 1023 stdin = done ++ line :: rest ∧
      (promptLoop (commandStep S q) ans 0 sns done).result = .ok (.next sns₁) ∧
      Inserted q sns (done.countP isInsert) sns₁ ∧ payload <:+: line ∧ payload <:+: stdin ∧
      payload.length ≤ 1023 ∧
      w' ∈ (snNodeSend S (ans done.length).env sns₁ dst payload).events := by
  rcases exists_round_of_mem h with hprompt | ⟨done, line, rest, sns₁, hlines, hdone, hw⟩
  · cases hprompt
  rw [Nat.zero_add] at hw
  obtain ⟨dst, payload, w', rfl, hpayload, hw'⟩ :=
    (isRound_commandStep S q (ans done.length) sns₁ line).exists_send hw
  have hline : line ∈ fgetsAll 1023 stdin :=
    hlines ▸ List.mem_append_right _ List.mem_cons_self
  exact ⟨done, line, rest, sns₁, dst, payload, w', rfl, hlines, hdone,
    inserted_of_promptLoop hdone rfl, hpayload, hpayload.trans (infix_of_mem_fgetsAll hline),
    hpayload.length_le.trans (length_le_of_mem_fgetsAll hline), hw'⟩

/-- The network address of a node is typed, and then a message for it. The message is sent there. -/
theorem typed_of_mem_commandLoop_hello : ∃ d, ∃ stdin : List UInt8,
    d.dst = inetNaddr 1111 [1, 1, 1, 1] ∧
    .node (.node (.send d)) ∈ (commandLoop .plain (.insertion SnNetEntry) (fun _ => .ideal)
      senderNode stdin).events ∧
    ∃ done line rest sns₁ dst payload, fgetsAll 1023 stdin = done ++ line :: rest ∧
      (promptLoop (commandStep .plain (.insertion SnNetEntry)) (fun _ => .ideal) 0 senderNode
        done).result = .ok (.next sns₁) ∧ payload <:+: line ∧
      .send d ∈ (snNodeSend .plain .ideal sns₁ dst payload).events := by
  have htypable : ∀ c ∈ [Command.insert receiverAddr (inetNaddr 1111 [1, 1, 1, 1]),
      .send receiverAddr (ascii "hello")], c.Typable := by
    simp only [List.forall_mem_cons]
    exact ⟨⟨by decide, .inet rfl 1111⟩, ⟨by decide, by decide, by decide, by decide⟩,
      fun _ h => absurd h List.not_mem_nil⟩
  have hobs : (snNetRouterAdd (.insertion SnNetEntry) senderNode.router receiverAddr
      (some (inetNaddr 1111 [1, 1, 1, 1]))).toOption.map (fun router =>
        ({ senderNode with router := router } : SnNode).nexthop .ideal receiverAddr) =
      some ⟨1, receiverAddr, inetNaddr 1111 [1, 1, 1, 1]⟩ := by
    decide +kernel
  obtain ⟨router, hadd, hnext⟩ := FallibleRun.exists_ok_of_toOption_map hobs
  obtain ⟨bytes, line, hevents⟩ : ∃ bytes line, (snNodeSend .plain .ideal
      { senderNode with router := router } receiverAddr (ascii "hello")).events =
        [.send ⟨inetNaddr 1111 [1, 1, 1, 1], bytes⟩, .log line] := by
    have hsent := snNodeSend_of_nexthop .plain .ideal { senderNode with router := router } rfl
      (by rw [hnext]; decide) (fun _ => rfl) (ascii "hello")
    rw [hnext] at hsent
    exact ⟨_, _, hsent⟩
  have hmem : .node (.node (.send ⟨inetNaddr 1111 [1, 1, 1, 1], bytes⟩)) ∈
      (commandLoop .plain (.insertion SnNetEntry) (fun _ => .ideal) senderNode
        ([Command.insert receiverAddr (inetNaddr 1111 [1, 1, 1, 1]),
          .send receiverAddr (ascii "hello")].flatMap Command.line)).events := by
    rw [commandLoop_eq_perform _ _ _ _ htypable]
    refine mem_promptLoop_cons.2 (Or.inr (Or.inr ⟨{ senderNode with router := router }, ?_,
      mem_promptLoop_cons.2 (Or.inr (Or.inl ?_))⟩))
    · rw [perform_insert, hadd]
      rfl
    · rw [perform_send, show LineAnswers.ideal.env = .ideal from rfl, hevents]
      exact List.mem_map_of_mem List.mem_cons_self
  obtain ⟨done, line, rest, sns₁, dst, payload, w', hw, hlines, hdone, -, hpayload, -, -, hsent⟩ :=
    typed_of_mem_commandLoop hmem
  obtain rfl := UseEvent.node.inj hw
  exact ⟨_, _, rfl, hmem, done, line, rest, sns₁, dst, payload, hlines, hdone, hpayload, hsent⟩

end SndNet
