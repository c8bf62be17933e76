import SndNet.Net.Packet
import SndNet.Net.Router
import SndNet.Util.Closure

/-!
# The node

A node receives packets in a background thread, checks their signatures, forwards those that have
a next hop, and delivers the others to the handler of their type (`src/node.c`, `src/handler.c`).
A handler may send a packet of its own, which takes the same way. This file translates the node
from its start to the background loop.

What the system answers to a call is part of an environment. The texts of log lines are kept as the
data they show. All forward handlers of `src/handler.c` are null, so that `forward` has no handler
to call.

## Main definitions

* `SndNet.SnNode`: the state of a node.
* `SndNet.Environment`: the answers of the system.
* `SndNet.NodeEvent`: what a node does to the world around it.
* `SndNet.forward`, `SndNet.deliver`, `SndNet.snNodeSendTyped`: the way of a packet.
* `SndNet.backgroundStep`, `SndNet.background`: one round of the background loop and the loop.
* `SndNet.snNodeAtSocket`: the start of a node.
-/

namespace SndNet

open SnWireNetHeader

/-! ### The log -/

/-- A line of the log, with the data that its format shows. A missing network address stands for
the node itself. -/
inductive LogLine where
  | badSignedMsg (sentFrom : SnIoNaddr) (header : HeaderText)
  | packetWithoutTtl (cameFrom : Option SnIoNaddr) (src dst : List UInt8)
  | errorSendingPacket (cameFrom : Option SnIoNaddr)
  | packetForward (cameFrom : Option SnIoNaddr) (header : HeaderText) (forwardedTo : EntryText)
  | packetDeliver (cameFrom : Option SnIoNaddr) (header : HeaderText) (payload : List UInt8)
  | errorWhileStartingThread
  deriving DecidableEq

/-- An argument of a log callback. -/
inductive LogArg where
  | name (name : String)
  | line (line : LogLine)
  deriving DecidableEq

/-- `sn_named_log_callback` (`src/callbacks.c`, lines 21–27). -/
def snNamedLogCallback (argv : List LogArg) : Exec Unit := cAssert (argv.length ≥ 2)

/-- A closure that is called with a line of the log. -/
abbrev LogClosure := SnUtilClosure LogArg (Exec Unit)

/-! ### The state of a node -/

/-- `sn_node_t`: the state of a node, as far as the functions of this file use it. -/
structure SnNode where
  /-- Node SecondNet address. -/
  self : SnNetAddr
  /-- Node secret key. -/
  sk : SnCryptoSignKey
  /-- Routing state. -/
  router : SnNetRouter
  /-- Listening socket. -/
  socket : ℤ
  /-- Are signatures active? -/
  sign : Bool
  /-- Are signature checks active? -/
  checkSign : Bool
  /-- General upcall, with the value it returns. -/
  upcall : Option (List UInt8 → ℤ)
  /-- Callback for logging. -/
  logClosure : LogClosure
  /-- A node only exists on an open socket. -/
  socket_ne : socket ≠ snIoSockInvalid
  /-- The callback for logging accepts every line. -/
  log_ok : ∀ line, snUtilClosureCall logClosure [.line line] = .ok ()

/-- What the system answers during one call of a function of the node. One call allocates at most
one packet of a type. -/
structure Environment where
  /-- Whether the allocation of a received packet succeeds. -/
  recvMalloc : Bool
  /-- Whether the allocation of a packet of some type succeeds. -/
  packMalloc : UInt8 → Bool
  /-- Whether the system accepts a datagram. -/
  sendto : SnIoNaddr → List UInt8 → Bool
  /-- The answer of `leafset_is_on_range`, which may depend on memory outside the leafsets. -/
  onRange : SnNetRouter → SnNetAddr → Bool
  /-- The memory behind a packet. -/
  heap : ℕ → UInt8
  onRange_eq : ∀ snr addr b, leafsetIsOnRange snr addr = .ok b → onRange snr addr = b

/-- What a node does to the world around it. -/
inductive NodeEvent where
  | log (line : LogLine)
  | send (datagram : Datagram)
  | upcall (msg : List UInt8)
  deriving DecidableEq

/-- A function of the node. -/
abbrev NodeM := Traced NodeEvent Fault

variable (S : SignScheme) (env : Environment)

/-- `sn_node_log` (`src/node.c`, lines 187–199). -/
def snNodeLog (sns : SnNode) (line : LogLine) : NodeM Unit := do
  .lift (snUtilClosureCall sns.logClosure [.line line])
  .emit (.log line)

/-- `sn_node_upcall` (`src/node.c`, lines 153–166). -/
def snNodeUpcall (sns : SnNode) (msg : List UInt8) : NodeM ℤ :=
  match sns.upcall with
  | some up => do
    .emit (.upcall msg)
    return up msg
  | none => return -1

/-- `sn_net_router_nexthop` on the router of a node, with the range test answered by the
environment. -/
def nodeNexthop (sns : SnNode) (dst : SnNetAddr) : Exec SnNetEntry :=
  snNetRouterNexthopFrom (env.onRange sns.router dst) sns.router dst

/-! ### The way of a packet -/

/-- The part of a payload before its first zero, which `%s` shows. -/
def cString (payload : List UInt8) : List UInt8 := payload.takeWhile (· ≠ 0)

/-- `deliver_user_handler` (`src/handler.c`, lines 40–47). -/
def deliverUserHandler (sns : SnNode) (packet : SnNetPacket) : NodeM ℤ :=
  snNodeUpcall sns packet.message

/-- `deliver_reply_handler` (`src/handler.c`, lines 49–58). -/
def deliverReplyHandler : NodeM ℤ := do
  .lift (cAssert False)
  return 1

/-- The bytes of a ping message, `sizeof(*ping)` of them from the payload on, whatever the payload's
length. -/
def pingBytes (packet : SnNetPacket) : List UInt8 :=
  (List.range snWirePingMsgSize).map fun i =>
    packet.payload.getD i (env.heap (i - packet.payload.length))

/-- The packet of a node with its signature, when signatures are active
(`src/node.c`, lines 218–219). -/
def signIfActive (sns : SnNode) (packet : SnNetPacket) : SnNetPacket :=
  if sns.sign then snNetPacketSign S packet sns.sk else packet

@[simp] theorem signIfActive_type (sns : SnNode) (packet : SnNetPacket) :
    (signIfActive S sns packet).header.type = packet.header.type := by
  rw [signIfActive]
  split_ifs <;> rfl

theorem type_of_snNetPacketPack {malloc : Bool} {dst src : SnNetAddr} {type : UInt8}
    {payload : List UInt8} {packet : SnNetPacket}
    (h : snNetPacketPack malloc dst src type payload = some packet) :
    packet.header.type = type := by
  rw [snNetPacketPack] at h
  split_ifs at h
  exact Option.some.inj h ▸ rfl

/-- How often a packet of some type can still cause another packet: a ping is answered by a reply,
and a reply by nothing. -/
def answersLeft (type : UInt8) : ℕ := if type = snWireNetTypeReply then 0 else 1

mutual

/-- `forward` (`src/node.c`, lines 283–356). -/
def forward (sns : SnNode) (packet : SnNetPacket) (remAddr : Option SnIoNaddr) : NodeM ℤ := do
  let src := snNetPacketGetSrc packet
  let srcStr ← .lift (snNetAddrToStr src)
  let dst := snNetPacketGetDst packet
  let dstStr ← .lift (snNetAddrToStr dst)
  if packet.header.ttl = 0 then
    snNodeLog sns (.packetWithoutTtl remAddr srcStr dstStr)
    return -1
  else
    let packet' := packet.decTtl
    let nexthop ← .lift (nodeNexthop env sns dst)
    let nhStr ← .lift (snNetEntryToStr nexthop snNetAddrHexLen)
    if nexthop.IsSet then
      if packet'.header.type ≥ snWireNetTypes then return -1
      else
        let sent ← (snNetPacketSend env.sendto packet' sns.socket nexthop.netAddr).mapEvents .send
        if sent = -1 then
          snNodeLog sns (.errorSendingPacket remAddr)
          return -1
        else
          let packetStr ← .lift (snNetPacketHeaderToStr packet')
          snNodeLog sns (.packetForward remAddr packetStr nhStr)
          return 0
    else deliver sns packet' remAddr
termination_by (answersLeft packet.header.type, 3)

/-- `deliver` (`src/node.c`, lines 248–281), with the handlers of `sn_default_deliver_handlers`
(`src/handler.c`, lines 28–32) in the order of their types. -/
def deliver (sns : SnNode) (packet : SnNetPacket) (remAddr : Option SnIoNaddr) : NodeM ℤ := do
  let packetStr ← .lift (snNetPacketHeaderToStr packet)
  snNodeLog sns (.packetDeliver remAddr packetStr (cString packet.payload))
  if packet.header.type ≥ snWireNetTypes then return -1
  else if packet.header.type = snWireNetTypeUser then deliverUserHandler sns packet
  else if packet.header.type = snWireNetTypeReply then deliverReplyHandler
  else deliverPingHandler sns packet
termination_by (answersLeft packet.header.type, 2)
decreasing_by
  rw [answersLeft, if_neg (by assumption)]
  exact Prod.Lex.right _ Nat.one_lt_two

/-- `deliver_ping_handler` (`src/handler.c`, lines 60–72). -/
def deliverPingHandler (sns : SnNode) (packet : SnNetPacket) : NodeM ℤ :=
  snNodeSendTyped sns (snNetPacketGetSrc packet) snWireNetTypeReply (pingBytes env packet)
termination_by (1, 1)
decreasing_by exact Prod.Lex.left _ _ (by decide)

/-- `sn_node_send_typed` (`src/node.c`, lines 205–227). -/
def snNodeSendTyped (sns : SnNode) (dst : SnNetAddr) (type : UInt8) (payload : List UInt8) :
    NodeM ℤ := do
  .lift (cAssert (type < snWireNetTypes))
  match h : snNetPacketPack (env.packMalloc type) dst sns.self type payload with
  | none => return -1
  | some packet =>
    let ret ← forward sns (signIfActive S sns packet) none
    if ret = -1 then return -1 else return 0
termination_by (answersLeft type, 4)
decreasing_by
  rw [signIfActive_type, type_of_snNetPacketPack h]
  exact Prod.Lex.right _ (by decide)

end

/-- `sn_node_send` (`src/node.c`, lines 201–203). -/
def snNodeSend (sns : SnNode) (dst : SnNetAddr) (payload : List UInt8) : NodeM ℤ :=
  snNodeSendTyped S env sns dst snWireNetTypeUser payload

/-! ### The background loop -/

/-- One round of the loop of `background` (`src/node.c`, lines 366–390) with `datagram` from the
network address `remAddr` as the next datagram of the socket. -/
def backgroundStep (sns : SnNode) (remAddr : SnIoNaddr) (datagram : List UInt8) : NodeM Unit := do
  match ← .lift (snNetPacketRecv env.recvMalloc sns.socket datagram) with
  | .packet packet =>
    if sns.checkSign ∧ snNetPacketCheckSign S packet ≠ 0 then
      let packetStr ← .lift (snNetPacketHeaderToStr packet)
      snNodeLog sns (.badSignedMsg remAddr packetStr)
    else
      let _ ← forward S env sns packet (some remAddr)
  | .kept => return
  | .dropped => return

/-- What a round of the background loop meets: the state of the node, which the other thread may
have changed since the last round, the answers of the system, and the next datagram. -/
structure Round where
  sns : SnNode
  env : Environment
  remAddr : SnIoNaddr
  datagram : List UInt8

/-- `background` (`src/node.c`, lines 358–394) for as long as datagrams come in. -/
def background (rounds : List Round) : NodeM Unit :=
  rounds.forM fun r => backgroundStep S r.env r.sns r.remAddr r.datagram

/-! ### The start of a node -/

/-- The default log closure, `sn_named_log_callback` with the name of the library. -/
def defaultLogClosure : LogClosure :=
  (snUtilClosureInitCurried snNamedLogCallback [.name "sndnet"]).2

theorem defaultLogClosure_ok (line : LogLine) :
    snUtilClosureCall defaultLogClosure [.line line] = .ok () := rfl

/-- What the system answers while a node starts. -/
structure StartAnswers where
  /-- The name of the socket, if `getsockname` finds it. -/
  sockGetName : Option SnIoNaddr
  /-- Whether the vector of reply listeners is allocated. -/
  vecInit : Bool
  /-- Whether the background thread starts. -/
  pthreadCreate : Bool
  /-- The memory of the secret key before the start. -/
  junk : SnCryptoSignKey

/-- `sn_node_at_socket` (`src/node.c`, lines 45–104): the node, unless -1 is returned. -/
def snNodeAtSocket (ans : StartAnswers) (sk : Option SnCryptoSignKey)
    (pk : Option SnCryptoSignPubkey) (socket : ℤ) (checkSign : Bool) : NodeM (Option SnNode) := do
  .lift (cAssert (sk.isSome ∨ pk.isSome))
  if hsocket : socket ≠ snIoSockInvalid then
    let self? : Option SnNetAddr :=
      match pk, sk with
      | some pk, _ => some ⟨pk.pk⟩
      | none, some sk => some ⟨(snCryptoSignPkFromSk S sk).pk⟩
      | none, none => none
    match self?, ans.sockGetName with
    | some self, some selfNet =>
      if ans.vecInit then
        let sns : SnNode :=
          { self := self
            sk := sk.getD ans.junk
            router := snNetRouterInit self (some selfNet)
            socket := socket
            sign := sk.isSome
            checkSign := checkSign
            upcall := none
            logClosure := defaultLogClosure
            socket_ne := hsocket
            log_ok := defaultLogClosure_ok }
        if ans.pthreadCreate then return some sns
        else
          snNodeLog sns .errorWhileStartingThread
          return none
      else return none
    | _, _ => return none
  else .lift (.error .assertionFailed)

/-! ### An example -/

/-- A system on which every call succeeds. -/
def Environment.ideal : Environment where
  recvMalloc := true
  packMalloc _ := true
  sendto _ _ := true
  onRange snr addr := (leafsetIsOnRange snr addr).toOption.getD false
  heap _ := 0
  onRange_eq snr addr b h := by rw [h]; rfl

/-- A node that signs and checks under the scheme `SignScheme.plain`, on a given router. -/
def SnNode.plain (router : SnNetRouter) (upcall : Option (List UInt8 → ℤ)) : SnNode where
  self := router.self.addr
  sk := ⟨.padded _ router.self.addr.key.val 0⟩
  router := router
  socket := 3
  sign := true
  checkSign := true
  upcall := upcall
  logClosure := defaultLogClosure
  socket_ne := by decide
  log_ok := defaultLogClosure_ok

end SndNet
