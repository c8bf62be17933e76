import SndNet.Net.Router.Safety

/-!
# The routing table and its history

`sn_net_router_set` (`src/net/router.c`, lines 382–400) overwrites the slot of an address whoever
held it before, and both additions and removals write through it. So a slot shows the last
operation on it: a set entry is the one of the most recent addition with the index of the slot.

## Main definitions

* `SndNet.HasIndex`: the slot that an address has with respect to our own.
* `SndNet.LastAdd`: the most recent addition to a slot in a history.

## Main results

* `SndNet.slot_of_run`: a set slot after a run shows its last addition.
* `SndNet.table_invariant`: the digits of an address in the table, and its history.
-/

namespace SndNet

open FallibleRun

variable {q : Sorter SnNetEntry} {snr : SnNetRouter} {self selfAddr x : SnNetAddr}
  {selfNetAddr netAddr : Option SnIoNaddr} {ops : List RouterOp} {op : RouterOp}
  {i : Fin snNetRouterLevels × Fin snNetRouterColumns}

/-! ### Indices -/

/-- The index of `x` with respect to `self`, as `sn_net_addr_index` computes it, is the slot `i`. -/
def HasIndex (self x : SnNetAddr) (i : Fin snNetRouterLevels × Fin snNetRouterColumns) : Prop :=
  self.level x = i.1 ∧ (self.column x).toNat = i.2

theorem hasIndex_iff (h : self ≠ x) : HasIndex self x i ↔ tableIndex h = i := by
  rw [HasIndex, tableIndex, Prod.ext_iff, Fin.ext_iff, Fin.ext_iff]

/-- Our own address has no slot. -/
theorem HasIndex.ne (h : HasIndex self x i) : self ≠ x :=
  SnNetAddr.level_lt_iff.1 (h.1 ▸ i.1.isLt)

/-- An address has the digits of our own up to its level, and then a digit that ours does not
have there. -/
theorem HasIndex.digits (h : HasIndex self x i) :
    (snNetAddrGetHex x).take i.1.val = (snNetAddrGetHex self).take i.1.val ∧
      (snNetAddrGetHex x)[i.1.val]?.map UInt8.toNat = some i.2.val ∧
      (snNetAddrGetHex self)[i.1.val]?.map UInt8.toNat ≠ some i.2.val := by
  obtain ⟨hlt, hcol⟩ := SnNetAddr.column_eq_getElem h.ne
  have hlt' : self.level x < (snNetAddrGetHex self).length := by
    rw [length_snNetAddrGetHex]
    exact SnNetAddr.level_lt_iff.2 h.ne
  rw [← h.1, ← h.2, List.getElem?_eq_getElem hlt, List.getElem?_eq_getElem hlt', hcol]
  refine ⟨?_, rfl, ?_⟩
  · exact ((DigitWord.le_commonPrefix_iff _ _ _).1 le_rfl).2.2.symm
  · rw [Option.map_some, Ne, Option.some.injEq, UInt8.toNat_inj]
    intro heq
    refine lt_irrefl (self.level x) (DigitWord.commonPrefix_lt_of_getElem_eq ?_ le_rfl hlt' hlt heq)
    rw [DigitWord.commonPrefix_self]
    exact hlt'.le

/-! ### Histories -/

/-- In the history `ops` of a node, the last of the additions with the index `i` is the one of `x`
with the network address `netAddr`. -/
def LastAdd (self : SnNetAddr) (i : Fin snNetRouterLevels × Fin snNetRouterColumns)
    (ops : List RouterOp) (x : SnNetAddr) (netAddr : Option SnIoNaddr) : Prop :=
  ∃ pre post, ops = pre ++ .add x netAddr :: post ∧ HasIndex self x i ∧
    ∀ y netAddr', .add y netAddr' ∈ post → ¬ HasIndex self y i

theorem LastAdd.concat_self (h : HasIndex self x i) :
    LastAdd self i (ops ++ [.add x netAddr]) x netAddr :=
  ⟨ops, [], rfl, h, by simp⟩

theorem LastAdd.concat_of_not (h : LastAdd self i ops x netAddr)
    (hop : ¬ HasIndex self op.addr i) : LastAdd self i (ops ++ [op]) x netAddr := by
  obtain ⟨pre, post, rfl, hx, hpost⟩ := h
  refine ⟨pre, post ++ [op], by simp, hx, fun y netAddr' hy => ?_⟩
  rcases List.mem_append.1 hy with hy | hy
  · exact hpost y netAddr' hy
  · obtain rfl := List.mem_singleton.1 hy
    exact hop

/-- **A set slot shows its last addition.** -/
theorem slot_of_run (hrun : run (routerStep q) (snNetRouterInit selfAddr selfNetAddr) ops = .ok snr)
    (hset : (snr.table i.1 i.2).IsSet) : ∃ x netAddr, LastAdd selfAddr i ops x netAddr ∧
      snr.table i.1 i.2 = (RouterOp.add x netAddr).entry := by
  induction ops using List.reverseRecOn generalizing snr with
  | nil =>
    obtain rfl := Except.ok.inj hrun
    exact absurd rfl hset
  | append_singleton ops op ih =>
    obtain ⟨s, hpre, hstep⟩ := run_concat_eq_ok.1 hrun
    obtain ⟨hne, -, rfl⟩ := routerStep_eq_ok_iff.1 hstep
    have hself : s.self.addr = selfAddr := by rw [self_of_run hpre]; rfl
    have hidx : HasIndex selfAddr op.addr i ↔ tableIndex hne = i := by
      rw [← hself]
      exact hasIndex_iff hne
    rw [SnNetRouter.after_table_apply] at hset ⊢
    by_cases hi : i = tableIndex hne
    · -- The operation wrote the slot, so it was an addition.
      rw [if_pos hi] at hset ⊢
      cases op with
      | add x netAddr => exact ⟨x, netAddr, .concat_self (hidx.2 hi.symm), rfl⟩
      | remove x junk => exact absurd rfl hset
    · rw [if_neg hi] at hset ⊢
      obtain ⟨x, netAddr, hlast, hent⟩ := ih hpre hset
      exact ⟨x, netAddr, hlast.concat_of_not fun h => hi (hidx.1 h).symm, hent⟩

/-- **The routing table invariant.** After any history that returns, a set entry at a level and a
column shares exactly that many leading digits with our own address, has the column as its next
digit, which is not ours, and has the address and the network address of the most recent addition
with that index. -/
theorem table_invariant
    (hrun : run (routerStep q) (snNetRouterInit selfAddr selfNetAddr) ops = .ok snr)
    (l : Fin snNetRouterLevels) (c : Fin snNetRouterColumns) (hset : (snr.table l c).IsSet) :
    (snNetAddrGetHex (snr.table l c).addr).take l.val = (snNetAddrGetHex selfAddr).take l.val ∧
    (snNetAddrGetHex (snr.table l c).addr)[l.val]?.map UInt8.toNat = some c.val ∧
    (snNetAddrGetHex selfAddr)[l.val]?.map UInt8.toNat ≠ some c.val ∧
    ∃ netAddr, LastAdd selfAddr (l, c) ops (snr.table l c).addr netAddr ∧
      (snr.table l c).netAddr = netAddr.getD .zero := by
  obtain ⟨x, netAddr, hlast, hent⟩ := slot_of_run (i := (l, c)) hrun hset
  have hx : (snr.table l c).addr = x := congrArg SnNetEntry.addr hent
  have hnet : (snr.table l c).netAddr = netAddr.getD .zero := congrArg SnNetEntry.netAddr hent
  have hindex : HasIndex selfAddr x (l, c) := by
    obtain ⟨_, _, _, h, _⟩ := hlast
    exact h
  obtain ⟨htake, hdigit, hne⟩ := hindex.digits
  rw [hx]
  exact ⟨htake, hdigit, hne, netAddr, hlast, hnet⟩

/-- The nodes on 333333 and 3c0000 compete for a slot of 4f5e22. The later one is removed, and the
other one is added again. -/
def competingOps : List RouterOp :=
  [.add (.ofBytes [0x33, 0x33, 0x33]) none, .add (.ofBytes [0x3c]) (some ⟨2, .padded _ [1] 0⟩),
    .remove (.ofBytes [0x3c]) .zero,
    .add (.ofBytes [0x33, 0x33, 0x33]) (some ⟨2, .padded _ [2] 0⟩)]

/-- The removal unsets the slot, and after the last addition it has the network address of this
addition. -/
theorem table_invariant_of_add : ∃ snr, routerOn4f5e22 competingOps = .ok snr ∧
    ((routerOn4f5e22 (competingOps.take 3)).toOption.map fun snr => (snr.table 0 3).isSet) =
      some 0 ∧
    (snr.table 0 3).addr = .ofBytes [0x33, 0x33, 0x33] ∧
    ∃ netAddr, LastAdd (.ofBytes [0x4f, 0x5e, 0x22]) (0, 3) competingOps
      (snr.table 0 3).addr netAddr ∧ (snr.table 0 3).netAddr = netAddr.getD .zero := by
  have hobs : (routerOn4f5e22 competingOps).toOption.map (fun snr =>
      ((snr.table 0 3).isSet, (snr.table 0 3).addr)) = some (1, .ofBytes [0x33, 0x33, 0x33]) := by
    decide +kernel
  obtain ⟨snr, hrun, hsnr⟩ := exists_ok_of_toOption_map hobs
  obtain ⟨hset, haddr⟩ := Prod.mk.inj hsnr
  exact ⟨snr, hrun, by decide +kernel, haddr,
    (table_invariant hrun 0 3 (by simp [hset])).2.2.2⟩

end SndNet
