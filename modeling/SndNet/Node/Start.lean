import SndNet.Node.Abort

/-!
# The start of a node

`sn_node_at_socket` (`src/node.c`, lines 45–104) sets up a node from its keys and starts the
background loop. This file states what a started node is: its address is the given public key or
the one that belongs to the secret key, its router is initialised and has no entries, and nobody
listens to its messages. A node that knows nobody sends nothing, whatever it receives, and the
first ping aborts it.

## Main definitions

* `SndNet.Started`: a node as it is when the background loop begins.

## Main results

* `SndNet.snNodeAtSocket_eq`: what a start does in each case.
* `SndNet.Started.checkSign_setTtl`: the packets of a started node pass the check.
* `SndNet.Started.send_not_mem_background`: a started node sends nothing.
* `SndNet.Started.result_eq_error_iff`: the datagrams that abort a started node.
-/

namespace SndNet

open FallibleRun

variable {S : SignScheme} {env : Environment} {ans : StartAnswers} {sk : Option SnCryptoSignKey}
  {pk : Option SnCryptoSignPubkey} {socket : ℤ} {checkSign : Bool} {sns : SnNode}
  {packet : SnNetPacket}

/-- The address that a node takes: the given public key, or else that of its secret key. -/
def takenAddress (S : SignScheme) (sk : Option SnCryptoSignKey) (pk : Option SnCryptoSignPubkey) :
    Option SnNetAddr :=
  match pk, sk with
  | some pk, _ => some ⟨pk.pk⟩
  | none, some sk => some ⟨(snCryptoSignPkFromSk S sk).pk⟩
  | none, none => none

theorem exists_takenAddress (hkeys : sk.isSome ∨ pk.isSome) :
    ∃ self, takenAddress S sk pk = some self := by
  cases pk with
  | some key => exact ⟨_, rfl⟩
  | none =>
    cases sk with
    | some key => exact ⟨_, rfl⟩
    | none => simp at hkeys

/-- A node as it is when the background loop begins. -/
structure Started (S : SignScheme) (sk : Option SnCryptoSignKey) (pk : Option SnCryptoSignPubkey)
    (socket : ℤ) (checkSign : Bool) (sns : SnNode) : Prop where
  self_eq : takenAddress S sk pk = some sns.self
  sk_eq : ∀ key, sk = some key → sns.sk = key
  sign_eq : sns.sign = sk.isSome
  checkSign_eq : sns.checkSign = checkSign
  socket_eq : sns.socket = socket
  upcall_eq : sns.upcall = none
  router_eq : ∃ selfNet, sns.router = snNetRouterInit sns.self selfNet

/-- **The start of a node.** With a key and an open socket it returns a started node when the
system lets it. -/
theorem snNodeAtSocket_eq (hkeys : sk.isSome ∨ pk.isSome) (hsocket : socket ≠ snIoSockInvalid) :
    ∃ sns, Started S sk pk socket checkSign sns ∧
      snNodeAtSocket S ans sk pk socket checkSign =
        if ans.sockGetName.isSome ∧ ans.vecInit then
          if ans.pthreadCreate then ⟨[], .ok (some sns)⟩
          else ⟨[.log .errorWhileStartingThread], .ok none⟩
        else ⟨[], .ok none⟩ := by
  obtain ⟨self, hself⟩ := exists_takenAddress (S := S) hkeys
  let node (selfNet : Option SnIoNaddr) : SnNode :=
    { self := self
      sk := sk.getD ans.junk
      router := snNetRouterInit self selfNet
      socket := socket
      sign := sk.isSome
      checkSign := checkSign
      upcall := none
      logClosure := defaultLogClosure
      socket_ne := hsocket
      log_ok := defaultLogClosure_ok }
  refine ⟨node ans.sockGetName, ⟨hself, ?_, rfl, rfl, rfl, rfl, _, rfl⟩, ?_⟩
  · rintro key rfl
    rfl
  · unfold snNodeAtSocket
    rw [cAssert_of hkeys, Traced.lift_ok_bind, dif_pos hsocket]
    -- With the keys at hand the address is computed, and only the answers of the system are left.
    cases pk <;> cases sk <;> cases hself
    all_goals
      cases ans.sockGetName with
      | none => rfl
      | some selfNet =>
        cases ans.vecInit with
        | false => rfl
        | true => cases ans.pthreadCreate <;> rfl

/-- A start fails an assertion exactly when it is given neither key or no open socket. -/
theorem snNodeAtSocket_result_eq_error_iff {f : Fault} :
    (snNodeAtSocket S ans sk pk socket checkSign).result = .error f ↔
      f = .assertionFailed ∧ (¬ (sk.isSome ∨ pk.isSome) ∨ socket = snIoSockInvalid) := by
  by_cases hkeys : sk.isSome ∨ pk.isSome
  · by_cases hsocket : socket = snIoSockInvalid
    · unfold snNodeAtSocket
      rw [cAssert_of hkeys, Traced.lift_ok_bind, dif_neg (not_not.2 hsocket)]
      exact ⟨fun h => ⟨(Except.error.inj h).symm, Or.inr hsocket⟩, fun h => h.1 ▸ rfl⟩
    · obtain ⟨sns, -, heq⟩ := @snNodeAtSocket_eq S ans sk pk socket checkSign hkeys hsocket
      rw [heq]
      split_ifs <;> simp [hkeys, hsocket]
  · unfold snNodeAtSocket
    rw [cAssert_of_not hkeys, Traced.lift_error_bind]
    exact ⟨fun h => ⟨(Except.error.inj h).symm, Or.inl hkeys⟩, fun h => h.1 ▸ rfl⟩

/-! ### A router without entries -/

theorem entries_init (selfAddr : SnNetAddr) (selfNetAddr : Option SnIoNaddr) (right : Bool) :
    ((snNetRouterInit selfAddr selfNetAddr).leafset right).entries = [] := by
  cases right <;> rfl

/-- An initialised router has no entries. -/
theorem not_setEntry_init (selfAddr : SnNetAddr) (selfNetAddr : Option SnIoNaddr)
    (e : SnNetEntry) : ¬ (snNetRouterInit selfAddr selfNetAddr).SetEntry e := by
  rw [SnNetRouter.setEntry_iff]
  rintro (⟨hset, l, c, rfl⟩ | ⟨right, hmem⟩)
  · exact hset rfl
  · rw [entries_init] at hmem
    exact absurd hmem List.not_mem_nil

/-- A node that sends knows a next hop. -/
theorem exists_nexthop_of_send_mem_forward {remAddr : Option SnIoNaddr} {d : Datagram}
    (h : NodeEvent.send d ∈ (forward S env sns packet remAddr).events) :
    ∃ dst, (sns.nexthop env dst).IsSet := by
  rw [forward_eq] at h
  split_ifs at h with httl hset
  · simp at h
  · exact ⟨_, hset⟩
  · rw [deliver_eq, handle] at h
    split_ifs at h with hlarge huser hreply
    · simp at h
    · rw [deliverUserHandler, snNodeUpcall] at h
      cases hup : sns.upcall <;> simp [hup] at h
    · simp at h
    · -- The reply that answers a ping goes through `forward` and is not answered.
      rw [deliverPingHandler_eq] at h
      split_ifs at h
      · rw [forward_eq] at h
        split_ifs at h with httl' hset'
        · simp at h
        · exact ⟨_, hset'⟩
        · rw [deliver_eq, handle_replyPacket] at h
          simp at h
      · simp at h

namespace Started

variable (h : Started S sk pk socket checkSign sns)
include h

/-- The router of a started node is reachable. -/
theorem reachable (q : Sorter SnNetEntry) : Reachable q sns.router := by
  obtain ⟨selfNet, hrouter⟩ := h.router_eq
  rw [hrouter]
  exact .init q sns.self selfNet

/-- A started node has no next hop. -/
theorem not_nexthop_isSet (env : Environment) (dst : SnNetAddr) :
    ¬ (sns.nexthop env dst).IsSet := by
  obtain ⟨selfNet, hrouter⟩ := h.router_eq
  have hinv : RouterInv sns.router := hrouter ▸ RouterInv.init sns.self selfNet
  have hempty : ∀ e, ¬ sns.router.SetEntry e := hrouter ▸ not_setEntry_init sns.self selfNet
  rw [SnNode.nexthop_eq env sns hinv.self_isSet, nexthopOf_of_not_setEntry hinv hempty]
  exact fun hne => hne rfl

/-- A node that takes the address of its secret key signs packets that pass the check. -/
theorem checkSign_setTtl (hsk : sk.isSome) (hpk : pk = none) (dst : SnNetAddr) (type : UInt8)
    (payload : List UInt8) (ttl : UInt8) :
    snNetPacketCheckSign S ((originPacket S sns dst type payload).setTtl ttl) = 0 := by
  obtain ⟨key, rfl⟩ := Option.isSome_iff_exists.1 hsk
  subst hpk
  have hself : (⟨(snCryptoSignPkFromSk S key).pk⟩ : SnNetAddr) = sns.self :=
    Option.some.inj h.self_eq
  refine snNetPacketCheckSign_originPacket h.sign_eq ?_ dst type payload ttl
  rw [h.sk_eq key rfl, ← hself]

/-- **A node that knows nobody sends nothing**, whatever it receives. -/
theorem send_not_mem_background {rounds : List Round} (hrounds : ∀ r ∈ rounds, r.sns = sns)
    (d : Datagram) : NodeEvent.send d ∉ (background S rounds).events := by
  intro hd
  obtain ⟨r, hr, hd⟩ := Traced.exists_mem_of_mem_forM hd
  rw [hrounds r hr, backgroundStep_eq] at hd
  split at hd
  next packet _ =>
    split_ifs at hd
    · simp at hd
    · obtain ⟨dst, hdst⟩ := exists_nexthop_of_send_mem_forward hd
      exact h.not_nexthop_isSet _ dst hdst
  next => simp at hd

/-- **The first ping aborts a node.** The datagrams that abort a started node are the replies and
the pings. -/
theorem result_eq_error_iff {remAddr : SnIoNaddr} {d : List UInt8} {f : Fault}
    (hrecv : snNetPacketRecv env.recvMalloc sns.socket d = .ok (.packet packet))
    (haccept : sns.checkSign → snNetPacketCheckSign S packet = 0) :
    (backgroundStep S env sns remAddr d).result = .error f ↔ f = .assertionFailed ∧
      packet.header.ttl ≠ 0 ∧ (packet.header.type = snWireNetTypeReply ∨
        packet.header.type = snWireNetTypePing ∧ env.packMalloc snWireNetTypeReply) := by
  rw [background_result_eq_error_iff hrecv haccept, ReachesReplyHandler]
  simp only [h.not_nexthop_isSet, not_false_eq_true, true_and, and_true]

end Started

end SndNet
