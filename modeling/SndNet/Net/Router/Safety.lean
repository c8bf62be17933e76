import SndNet.Net.Router.Invariant

/-!
# Which membership operations are safe

`sn_net_router_set` (`src/net/router.c`, lines 382–400) indexes the table with the level and column
of an address and asserts that the slot does not hold the node's own address. The own address has
level 64 and column 255, outside the table. An unset slot carries the address of zero bytes, so a
node with that address fails the assertion at its first operation.

## Main results

* `SndNet.Reachable.exists_routerStep_iff`: the operations that succeed in a reachable state.
* `SndNet.exists_run_iff`: the histories that succeed.
-/

namespace SndNet

open FallibleRun

variable {q : Sorter SnNetEntry} {snr snr' : SnNetRouter} {op : RouterOp}

/-- A slot never holds our own address, unless it is the address of zero bytes. -/
theorem SlotInv.addr_ne {selfAddr : SnNetAddr}
    {i : Fin snNetRouterLevels × Fin snNetRouterColumns} {e : SnNetEntry}
    (h : SlotInv selfAddr i e) (hself : selfAddr ≠ .zero) : selfAddr ≠ e.addr := by
  rcases h with rfl | ⟨hne, -⟩
  · exact hself
  · exact hne

/-- A node with the address of zero bytes fails the assertion at its first operation. -/
theorem routerStep_init_zero (selfNetAddr : Option SnIoNaddr) :
    ¬ ∃ snr', routerStep q (snNetRouterInit .zero selfNetAddr) op = .ok snr' := by
  rintro ⟨snr', h⟩
  obtain ⟨hne, hslot, -⟩ := routerStep_eq_ok_iff.1 h
  exact hslot rfl

/-- A router that has carried out an operation does not have the address of zero bytes. -/
theorem ne_zero_of_run {selfAddr : SnNetAddr} {selfNetAddr : Option SnIoNaddr}
    {ops : List RouterOp} (hrun : run (routerStep q) (snNetRouterInit selfAddr selfNetAddr) ops =
      .ok snr) (hops : ops ≠ []) : selfAddr ≠ .zero := by
  rintro rfl
  cases ops with
  | nil => exact hops rfl
  | cons op ops =>
    obtain ⟨s, hs, -⟩ := bind_eq_ok.1 hrun
    exact routerStep_init_zero selfNetAddr ⟨s, hs⟩

/-- **The operations that succeed.** In a reachable state an operation succeeds exactly when the
router's own address is neither the address of the operation nor the address of zero bytes. -/
theorem Reachable.exists_routerStep_iff (h : Reachable q snr) :
    (∃ snr', routerStep q snr op = .ok snr') ↔
      snr.self.addr ≠ .zero ∧ snr.self.addr ≠ op.addr := by
  have hinv := RouterInv.of_reachable h
  obtain ⟨selfAddr, selfNetAddr, ops, hrun⟩ := h
  have hself : snr.self.addr = selfAddr := by rw [self_of_run hrun]; rfl
  constructor
  · rintro ⟨snr', hstep⟩
    refine ⟨?_, (routerStep_eq_ok_iff.1 hstep).1⟩
    rw [hself]
    exact ne_zero_of_run (run_concat_eq_ok.2 ⟨snr, hrun, hstep⟩) (by simp)
  · rintro ⟨hzero, hne⟩
    exact ⟨_, routerStep_eq_ok_iff.2 ⟨hne, (hinv.slot _ _).addr_ne hzero, rfl⟩⟩

/-- After initialisation every sequence of operations with other addresses succeeds, unless our own
is the address of zero bytes. -/
theorem exists_run_of_ne_zero {selfAddr : SnNetAddr} (hzero : selfAddr ≠ .zero)
    (selfNetAddr : Option SnIoNaddr) {ops : List RouterOp} (hops : ∀ op ∈ ops, op.addr ≠ selfAddr) :
    ∃ snr, run (routerStep q) (snNetRouterInit selfAddr selfNetAddr) ops = .ok snr := by
  have hstep : ∀ s op, op ∈ ops → Reachable q s ∧ s.self.addr = selfAddr →
      ∃ s', routerStep q s op = .ok s' ∧ Reachable q s' ∧ s'.self.addr = selfAddr := by
    rintro s op hop ⟨hreach, rfl⟩
    obtain ⟨s', hs'⟩ := hreach.exists_routerStep_iff.2 ⟨hzero, (hops op hop).symm⟩
    refine ⟨s', hs', hreach.step hs', ?_⟩
    obtain ⟨_, -, rfl⟩ := routerStep_eq_ok_iff.1 hs'
    rw [SnNetRouter.after_self]
  obtain ⟨snr, hrun, -⟩ := exists_run_eq_ok (fun s => Reachable q s ∧ s.self.addr = selfAddr) hstep
    ⟨Reachable.init q selfAddr selfNetAddr, rfl⟩
  exact ⟨snr, hrun⟩

/-- The operations of a run that succeeds are about other addresses. -/
theorem addr_ne_of_run {selfAddr : SnNetAddr} {selfNetAddr : Option SnIoNaddr}
    {ops : List RouterOp} (hrun : run (routerStep q) (snNetRouterInit selfAddr selfNetAddr) ops =
      .ok snr) (hop : op ∈ ops) : op.addr ≠ selfAddr := by
  obtain ⟨pre, post, rfl⟩ := List.append_of_mem hop
  obtain ⟨s, hpre, hpost⟩ := run_append_eq_ok.1 hrun
  obtain ⟨s', hs', -⟩ := bind_eq_ok.1 hpost
  have hself : s.self.addr = selfAddr := by rw [self_of_run hpre]; rfl
  rw [← hself]
  exact (routerStep_eq_ok_iff.1 hs').1.symm

/-- **The histories that succeed.** After initialisation every call of a sequence of membership
operations stays inside the table and passes its assertion exactly when the sequence is empty, or
the node's address is not the address of zero bytes and no operation is about the node itself. -/
theorem exists_run_iff (q : Sorter SnNetEntry) (selfAddr : SnNetAddr)
    (selfNetAddr : Option SnIoNaddr) (ops : List RouterOp) :
    (∃ snr, run (routerStep q) (snNetRouterInit selfAddr selfNetAddr) ops = .ok snr) ↔
      ops = [] ∨ (selfAddr ≠ .zero ∧ ∀ op ∈ ops, op.addr ≠ selfAddr) := by
  refine ⟨fun ⟨snr, hrun⟩ => ?_, ?_⟩
  · by_cases hops : ops = []
    · exact Or.inl hops
    · exact Or.inr ⟨ne_zero_of_run hrun hops, fun op => addr_ne_of_run hrun⟩
  · rintro (rfl | ⟨hzero, hne⟩)
    · exact ⟨_, rfl⟩
    · exact exists_run_of_ne_zero hzero selfNetAddr hne

/-- The router on 4f5e22 that adds its own address leaves the table. -/
theorem not_exists_run_add_self :
    ¬ ∃ snr, routerOn4f5e22 [.add (.ofBytes [0x4f, 0x5e, 0x22]) none] = .ok snr := by
  rintro ⟨snr, h⟩
  obtain ⟨s, hs, -⟩ := bind_eq_ok.1 h
  exact (routerStep_eq_ok_iff.1 hs).1 rfl

end SndNet
