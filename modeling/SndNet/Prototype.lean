import SndNet.Library.Lines
import SndNet.Net.Addr.Hex
import SndNet.Net.Router.Text
import SndNet.Node.Lifecycle

/-!
# The prototype

The prototype starts a node at a port and reads commands from a console (`prototype/main.c`): to
send a message, to insert a node into the router, to show the router, and to quit. A command is a
line, which `fgets` reads into a buffer of 1024 bytes, and its words are cut with `strtok`. This
file translates the program.

What the system answers is part of the arguments, as are the bytes that memory holds before it is
written. The background thread runs beside the loop, and does not change the router.

## Main definitions

* `SndNet.ConsoleEvent`: what the program does.
* `SndNet.commandStep`, `SndNet.commandLoop`: one round of the loop over the lines, and the loop.
* `SndNet.prototypeMain`: the program.
* `SndNet.Command`, `SndNet.Command.perform`: what a user may want, and what then happens.

## Main results

* `SndNet.isRound_commandStep`: what a line does.
-/

namespace SndNet

open BoundedPrint Ctype CString Lines Resources

variable (S : SignScheme) (q : Sorter SnNetEntry)

/-! ### What the program does and is told -/

/-- What the program does. -/
inductive ConsoleEvent where
  /-- Text on the standard output. -/
  | out (text : List UInt8)
  /-- Text on the standard error output. -/
  | err (text : List UInt8)
  /-- The node acts, or its resources are acquired and released. -/
  | node (w : UseEvent NodeResource)
  /-- The buffer for the text of the router is allocated or freed. -/
  | buffer (e : ResourceEvent Unit)

/-- A part of the program. -/
abbrev ConsoleM := Traced ConsoleEvent Fault

/-- The size of the buffer for the text of the router. -/
abbrev showBufferLen : ℕ := 30000

/-- What the system answers in one round of the loop, and what memory holds before it. -/
structure LineAnswers where
  env : Environment
  /-- The network address before it is read. -/
  snRaddr : SnIoNaddr
  /-- The memory behind the copy of the text of a network address. -/
  stack : List UInt8
  /-- Whether the buffer for the text of the router is allocated. -/
  malloc : Bool
  /-- The buffer before the router is printed. -/
  buffer : CArray UInt8 showBufferLen
  /-- The text of the own address before the router is printed. -/
  selfStr : List UInt8

/-- A system that does what it is asked for, with zeros in memory. -/
def LineAnswers.ideal : LineAnswers where
  env := .ideal
  snRaddr := .zero
  stack := []
  malloc := true
  buffer := .replicate _ 0
  selfStr := []

/-- What the system answers to the program. -/
structure MainAnswers where
  /-- What `sn_init` returns. -/
  init : ℤ
  pk : SnCryptoSignPubkey
  sk : SnCryptoSignKey
  port : PortAnswers
  line : ℕ → LineAnswers
  /-- The calls of `close` that are interrupted at the end, and have released the socket or not. -/
  interrupts : List Bool

/-- How the program goes on after a line. -/
inductive Control where
  | next (sns : SnNode)
  /-- The loop is left. -/
  | quit (sns : SnNode)
  /-- `main` returns. -/
  | ret (code : ℤ)

/-! ### The commands -/

/-- The delimiters of words. -/
def blanks : List UInt8 := ascii " \n"

/-- The delimiter of a payload. -/
def newline : List UInt8 := ascii "\n"

/-- The text of the router in the buffer of the command `show` (`prototype/main.c`, line 109).
What the printing returns is not looked at, and a write outside the buffer stops the program. -/
def shownText (ans : LineAnswers) (snr : SnNetRouter) : Exec (List UInt8) :=
  let printed := snNetRouterToStr ans.selfStr snr showBufferLen
  match printed.result with
  | .error (.fault f) => .error f
  | _ =>
    if printed.events.all fun c => c.written.all fun i => i < showBufferLen then
      .ok (cString (fill 0 ans.buffer.val printed.events))
    else .error .outOfBounds

/-- The command `send` (`prototype/main.c`, lines 55–76), with the rest of its line. -/
def sendCommand (ans : LineAnswers) (sns : SnNode) (rest : List UInt8) : ConsoleM Control := do
  match strtok blanks rest with
  | none =>
    .emit (.out (ascii "send <dst> <src> <payload>\n"))
    return .next sns
  | some (dst, rest) =>
    let snDst ← .lift (snNetAddrFromHex dst)
    match strtok newline rest with
    | none =>
      .emit (.out (ascii "send <dst> <payload>\n"))
      return .next sns
    | some (payload, _) =>
      let _ ← (snNodeSend S ans.env sns snDst payload).mapEvents fun w => .node (.node w)
      return .next sns

/-- The command `insert` (`prototype/main.c`, lines 78–101). What the reading of the network address
returns is not looked at. -/
def insertCommand (ans : LineAnswers) (sns : SnNode) (rest : List UInt8) : ConsoleM Control := do
  match strtok blanks rest with
  | none =>
    .emit (.out (ascii "insert <sn_net_addr> <addr(type:ip:port)>\n"))
    return .next sns
  | some (addr, rest) =>
    match strtok blanks rest with
    | none =>
      .emit (.out (ascii "insert <sn_net_addr> <addr(type:ip:port)>\n"))
      return .next sns
    | some (raddr, _) =>
      let snNetAddr ← .lift (snNetAddrFromHex addr)
      let read ← .lift (snIoNaddrFromStr ans.stack ans.snRaddr raddr).result
      let router ← .lift (snNetRouterAdd q sns.router snNetAddr (some read.2))
      return .next { sns with router := router }

/-- The command `show` (`prototype/main.c`, lines 103–114). -/
def showCommand (ans : LineAnswers) (sns : SnNode) : ConsoleM Control := do
  if ans.malloc then
    .emit (.buffer (.acquire ()))
    let text ← .lift (shownText ans sns.router)
    .emit (.out (text ++ ascii "\n"))
    .emit (.buffer (.release ()))
    return .next sns
  else return .ret 1

/-- One round of the loop (`prototype/main.c`, lines 46–114), after a line has been read. -/
def commandStep (ans : LineAnswers) (sns : SnNode) (line : List UInt8) : ConsoleM Control := do
  match strtok blanks (cString line) with
  | none => return .next sns
  | some (command, rest) =>
    if strcmp command (ascii "quit") = 0 then return .quit sns
    else if strcmp command (ascii "send") = 0 then sendCommand S ans sns rest
    else if strcmp command (ascii "insert") = 0 then insertCommand q ans sns rest
    else if strcmp command (ascii "show") = 0 then showCommand ans sns
    else return .next sns

/-! ### The program -/

/-- A loop with a prompt in front of every round, and one in front of the end of the input. -/
def promptLoop {ι : Type} (step : LineAnswers → SnNode → ι → ConsoleM Control)
    (ans : ℕ → LineAnswers) : ℕ → SnNode → List ι → ConsoleM Control
  | _, sns, [] => do
    .emit (.out (ascii "> "))
    return .next sns
  | k, sns, i :: is => do
    .emit (.out (ascii "> "))
    match ← step (ans k) sns i with
    | .next sns => promptLoop step ans (k + 1) sns is
    | control => return control

/-- The loop over the lines of the input (`prototype/main.c`, lines 45–115). -/
def commandLoop (ans : ℕ → LineAnswers) (sns : SnNode) (stdin : List UInt8) : ConsoleM Control :=
  promptLoop (commandStep S q) ans 0 sns (fgetsAll 1023 stdin)

/-- What follows the loop (`prototype/main.c`, lines 117–119), or a `return` inside it. -/
def afterLoop (interrupts : List Bool) : Control → ConsoleM ℤ
  | .ret code => return code
  | .next sns | .quit sns => do
    (snNodeDestroy interrupts sns).mapEvents .node
    return 0

/-- `main` with a node (`prototype/main.c`, lines 41–119). -/
def runNode (ans : MainAnswers) (sns : SnNode) (stdin : List UInt8) : ConsoleM ℤ := do
  let selfAddrStr ← .lift (snNetAddrToStr ⟨ans.pk.pk⟩)
  .emit (.out (ascii "Initialized @ " ++ selfAddrStr ++ ascii "\n"))
  let control ← commandLoop S q ans.line sns stdin
  afterLoop ans.interrupts control

/-- `main` (`prototype/main.c`, lines 15–120). -/
def prototypeMain (ans : MainAnswers) (argv : List (List UInt8)) (stdin : List UInt8) :
    ConsoleM ℤ := do
  match argv[1]? with
  | none =>
    .emit (.err (ascii "Usage: " ++ argv.headD [] ++ ascii " <port>\n"))
    return 1
  | some arg =>
    match scanHu arg with
    | none => return -1
    | some port =>
      if ans.init = -1 then return -1
      else
        match ← (snNodeAtPort S ans.port (some ans.sk) (some ans.pk) port true).mapEvents .node with
        | none =>
          .emit (.err (ascii "Error initializing\n"))
          return 1
        | some sns => runNode S q ans sns stdin

/-! ### What a line does -/

/-- What a user wants the node to do. -/
inductive Command where
  | quit
  | send (dst : SnNetAddr) (payload : List UInt8)
  | insert (addr : SnNetAddr) (netAddr : SnIoNaddr)
  | showRouter

/-- What a command does. -/
def Command.perform (ans : LineAnswers) (sns : SnNode) : Command → ConsoleM Control
  | .quit => return .quit sns
  | .send dst payload => do
    let _ ← (snNodeSend S ans.env sns dst payload).mapEvents fun w => .node (.node w)
    return .next sns
  | .insert addr netAddr => do
    let router ← .lift (snNetRouterAdd q sns.router addr (some netAddr))
    return .next { sns with router := router }
  | .showRouter => showCommand ans sns

variable {S q} {ans : LineAnswers} {sns : SnNode} {line rest : List UInt8}

theorem perform_send (dst : SnNetAddr) (payload : List UInt8) :
    (Command.send dst payload).perform S q ans sns =
      ⟨(snNodeSend S ans.env sns dst payload).events.map fun w => .node (.node w),
        (snNodeSend S ans.env sns dst payload).result.map fun _ => .next sns⟩ :=
  Traced.bind_pure _ _

theorem perform_insert (addr : SnNetAddr) (netAddr : SnIoNaddr) :
    (Command.insert addr netAddr).perform S q ans sns =
      ⟨[], (snNetRouterAdd q sns.router addr (some netAddr)).map fun router =>
        .next { sns with router := router }⟩ := Traced.bind_pure _ _

theorem perform_showRouter : Command.showRouter.perform S q ans sns =
    if ans.malloc then
      match shownText ans sns.router with
      | .ok text => ⟨[.buffer (.acquire ()), .out (text ++ ascii "\n"), .buffer (.release ())],
          .ok (.next sns)⟩
      | .error e => ⟨[.buffer (.acquire ())], .error e⟩
    else ⟨[], .ok (.ret 1)⟩ := by
  rw [Command.perform, showCommand]
  split_ifs
  · rcases shownText ans sns.router with e | text
    · rfl
    · rfl
  · rfl

/-- The lines whose command is `insert`. -/
def isInsert (line : List UInt8) : Bool :=
  match strtok blanks (cString line) with
  | none => false
  | some (command, _) => strcmp command (ascii "insert") = 0

/-- What a round of the loop can be: it performs a command, prints how a command is used, does
nothing, or stops the program at an address that cannot be read. -/
inductive IsRound (S : SignScheme) (q : Sorter SnNetEntry) (ans : LineAnswers) (sns : SnNode)
    (line : List UInt8) : ConsoleM Control → Prop
  | quit : IsRound S q ans sns line (Command.quit.perform S q ans sns)
  | send (dst : SnNetAddr) {payload : List UInt8} (h : payload <:+: line) :
      IsRound S q ans sns line ((Command.send dst payload).perform S q ans sns)
  | insert (addr : SnNetAddr) (netAddr : SnIoNaddr) (h : isInsert line) :
      IsRound S q ans sns line ((Command.insert addr netAddr).perform S q ans sns)
  | showRouter : IsRound S q ans sns line (Command.showRouter.perform S q ans sns)
  | usage (text : List UInt8) : IsRound S q ans sns line ⟨[.out text], .ok (.next sns)⟩
  | nothing : IsRound S q ans sns line ⟨[], .ok (.next sns)⟩
  | stop (e : Fault) : IsRound S q ans sns line ⟨[], .error e⟩

theorem isRound_sendCommand (hrest : rest <:+ cString line) :
    IsRound S q ans sns line (sendCommand S ans sns rest) := by
  rw [sendCommand]
  rcases hword : strtok blanks rest with _ | ⟨dst, rest'⟩
  · exact .usage _
  simp only
  rcases snNetAddrFromHex dst with e | snDst
  · exact .stop e
  rw [Traced.lift_ok_bind]
  rcases hpayload : strtok newline rest' with _ | ⟨payload, rest''⟩
  · exact .usage _
  · have hsuffix : rest' <:+ cString line := (infix_of_strtok hword).2.1.trans hrest
    have hline : cString line <+: line := List.takeWhile_prefix _
    exact .send snDst (((infix_of_strtok hpayload).1.trans hsuffix.isInfix).trans hline.isInfix)

theorem isRound_insertCommand (hinsert : isInsert line) :
    IsRound S q ans sns line (insertCommand q ans sns rest) := by
  rw [insertCommand]
  rcases strtok blanks rest with _ | ⟨addr, rest'⟩
  · exact .usage _
  simp only
  rcases strtok blanks rest' with _ | ⟨raddr, rest''⟩
  · exact .usage _
  simp only
  rcases snNetAddrFromHex addr with e | snNetAddr
  · exact .stop e
  rw [Traced.lift_ok_bind]
  rcases (snIoNaddrFromStr ans.stack ans.snRaddr raddr).result with e | read
  · exact .stop e
  · exact .insert snNetAddr read.2 hinsert

/-- **What a line does.** -/
theorem isRound_commandStep (S : SignScheme) (q : Sorter SnNetEntry) (ans : LineAnswers)
    (sns : SnNode) (line : List UInt8) :
    IsRound S q ans sns line (commandStep S q ans sns line) := by
  rw [commandStep]
  rcases hword : strtok blanks (cString line) with _ | ⟨command, rest⟩
  · exact .nothing
  simp only
  split_ifs with hquit hsend hinsert hshow
  · exact .quit
  · exact isRound_sendCommand (infix_of_strtok hword).2.1
  · exact isRound_insertCommand (by simpa [isInsert, hword] using hinsert)
  · exact .showRouter
  · exact .nothing

end SndNet
