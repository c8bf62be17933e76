import SndNet.Net.Addr.Distance
import SndNet.Net.Router.Direct

/-!
# When the nearest neighbour is chosen

For a destination between the ends of the leafsets the router should choose, among itself and its
leafsets, a node at the least distance on the ring. The search (`src/net/router.c`, lines 61–116)
takes the first entry at the least `sn_net_addr_dist` (`src/net/addr.c`, lines 76–103), which is
not that distance: it is off by one for a node below the destination, and by more when a borrow is
lost. So a node below can overtake one above that is nearer by one. Moreover the range test, which
reads the entry after the last set one, can miss a destination between the ends, for which the slot
of the table answers. This file says when the choice is a nearest node all the same.

## Main definitions

* `SndNet.Nearest`: an address of a candidate at the least distance on the ring.
* `SndNet.InRange`: a destination between the least and the greatest address of the candidates.
* `SndNet.Overtaken`: the only nearest node is overtaken by one that is farther by one.
* `SndNet.NearestReached`: what the state must be like for a nearest node to be chosen.

## Main results

* `SndNet.nearest_argmin_iff`: the search of the leafsets finds a nearest node exactly when none is
  overtaken, as long as no borrow is lost.
* `SndNet.nexthop_nearest`: when the choice is a nearest node.
-/

namespace SndNet

open FallibleRun

variable {q : Sorter SnNetEntry} {snr : SnNetRouter}

/-- The destination lies between the least and the greatest address of the candidates. -/
def InRange (snr : SnNetRouter) (dst : SnNetAddr) : Prop :=
  (∃ c ∈ candidates snr, c.addr ≤ dst) ∧ ∃ c ∈ candidates snr, dst ≤ c.addr

/-- A candidate has this address, and none is nearer to the destination on the ring. -/
def Nearest (snr : SnNetRouter) (dst x : SnNetAddr) : Prop :=
  (∃ c ∈ candidates snr, c.addr = x) ∧ ∀ c ∈ candidates snr, x.ringDist dst ≤ c.addr.ringDist dst

/-- The answer names a nearest node, and is unset exactly when that node is the router's own. -/
def PicksNearest (snr : SnNetRouter) (dst : SnNetAddr) (e : SnNetEntry) : Prop :=
  Nearest snr dst e.addr ∧ (e.isSet = 0 ↔ e.addr = snr.self.addr)

instance (snr : SnNetRouter) (dst : SnNetAddr) : Decidable (InRange snr dst) :=
  inferInstanceAs (Decidable (_ ∧ _))

instance (snr : SnNetRouter) (dst x : SnNetAddr) : Decidable (Nearest snr dst x) :=
  inferInstanceAs (Decidable (_ ∧ _))

@[simp] theorem dropSelf_addr (self e : SnNetEntry) : (dropSelf self e).addr = e.addr := by
  rw [dropSelf]
  split <;> rfl

/-- The answer of either branch carries the address of the first best entry searched. -/
theorem exists_argmin_searched (snr : SnNetRouter) (onRange : Bool) (dst : SnNetAddr) :
    ∃ m, (searched onRange snr dst).argmin (distTo dst) = some m ∧
      (nexthopOf onRange snr dst).addr = m.addr := by
  have hbest (xs : List SnNetEntry) : ∃ m, (snr.self :: xs).argmin (distTo dst) = some m ∧
      (bestOf snr.self dst xs).addr = m.addr := by
    obtain ⟨m, hm⟩ : ∃ m, (snr.self :: xs).argmin (distTo dst) = some m :=
      Argmin.exists_argmin (List.cons_ne_nil _ _)
    exact ⟨m, hm, by rw [bestOf, hm, Option.getD_some, dropSelf_addr]⟩
  cases onRange with
  | true => exact hbest _
  | false =>
    simp only [searched, nexthopOf, Bool.false_eq_true, if_false]
    by_cases h : snr.self.addr = dst
    · rw [dif_pos h, dif_pos h]
      exact ⟨snr.self, rfl, rfl⟩
    · rw [dif_neg h, dif_neg h]
      by_cases hslot : (snr.slotOf h).IsSet
      · rw [if_pos hslot, if_pos hslot]
        exact ⟨snr.slotOf h, rfl, rfl⟩
      · rw [if_neg hslot, if_neg hslot]
        exact hbest _

/-- An answer is unset exactly when it carries our own address. -/
theorem nexthopOf_isSet_eq_zero_iff (hinv : RouterInv snr) (onRange : Bool) (dst : SnNetAddr) :
    (nexthopOf onRange snr dst).isSet = 0 ↔ (nexthopOf onRange snr dst).addr = snr.self.addr := by
  rcases nexthopOf_cases hinv onRange dst with hself | hprog
  · rw [hself]
    exact iff_of_true rfl rfl
  · obtain ⟨hne, hone⟩ := hinv.setEntry hprog.setEntry
    rw [hone]
    exact iff_of_false (by decide) hne

/-! ### The search of the leafsets -/

/-- No borrow is lost between the destination and a candidate. -/
def KeepsBorrows (snr : SnNetRouter) (dst : SnNetAddr) : Prop :=
  ∀ c ∈ candidates snr, ¬ LosesBorrow 31 c.addr.val dst.val

/-- The only nearest node lies above the destination on the ring, and a node in front of it in the
leafsets lies below, farther by one. -/
def Overtaken (snr : SnNetRouter) (dst : SnNetAddr) : Prop :=
  ∃ u ∈ candidates snr, u.addr.arc dst < halfRing ∧
    (∀ c ∈ candidates snr, Nearest snr dst c.addr ↔ c.addr = u.addr) ∧
    ∃ v ∈ candidates snr,
      snr.self.addr.searchPlace v.addr < snr.self.addr.searchPlace u.addr ∧
      dst.arc v.addr = u.addr.arc dst + 1

instance (snr : SnNetRouter) (dst : SnNetAddr) : Decidable (KeepsBorrows snr dst) :=
  inferInstanceAs (Decidable (∀ c ∈ candidates snr, _))

instance (snr : SnNetRouter) (dst : SnNetAddr) : Decidable (Overtaken snr dst) :=
  inferInstanceAs (Decidable (∃ u ∈ candidates snr, _))

/-- Some candidate is a nearest one. -/
theorem exists_nearest (snr : SnNetRouter) (dst : SnNetAddr) :
    ∃ n ∈ candidates snr, Nearest snr dst n.addr := by
  obtain ⟨n, hn⟩ := Argmin.exists_argmin (f := fun c : SnNetEntry => c.addr.ringDist dst)
    (List.cons_ne_nil snr.self (onRangeEntries snr))
  have hmem : n ∈ candidates snr := List.argmin_mem hn
  exact ⟨n, hmem, ⟨n, hmem, rfl⟩, fun c hc => List.le_of_mem_argmin hc hn⟩

/-- What is computed and what is meant differ by at most one when no borrow is lost: by nothing
above the destination, by one below. -/
theorem dist_of_kept {c dst : SnNetAddr} (h : ¬ LosesBorrow 31 c.val dst.val) :
    c.arc dst < halfRing ∧ (snNetAddrDist c dst).val = c.arc dst ∧ c.ringDist dst = c.arc dst ∨
      halfRing ≤ c.arc dst ∧ (snNetAddrDist c dst).val + 1 = c.ringDist dst ∧
        c.ringDist dst = dst.arc c := by
  have hlt := c.arc_lt dst
  rw [val_snNetAddrDist_of_kept h, c.ringDist_eq_ite]
  rcases lt_or_ge (c.arc dst) halfRing with hup | hup
  · rw [if_neg (not_le.2 hup), if_pos hup]
    exact Or.inl ⟨hup, rfl, rfl⟩
  · have hne : c ≠ dst := by
      rintro rfl
      rw [SnNetAddr.arc_self] at hup
      exact absurd hup (by decide)
    have hsum := SnNetAddr.arc_add_arc hne
    rw [if_pos hup, if_neg (not_lt.2 hup)]
    exact Or.inr ⟨hup, by omega, by omega⟩

/-- **The search of the leafsets** finds a nearest node exactly when none is overtaken. -/
theorem nearest_argmin_iff (hinv : RouterInv snr) {dst : SnNetAddr} (hkeep : KeepsBorrows snr dst)
    {m : SnNetEntry} (hm : (candidates snr).argmin (distTo dst) = some m) :
    Nearest snr dst m.addr ↔ ¬ Overtaken snr dst := by
  have hmem : m ∈ candidates snr := List.argmin_mem hm
  have hwin : ∀ c ∈ candidates snr,
      (snNetAddrDist m.addr dst).val < (snNetAddrDist c.addr dst).val ∨
        (snNetAddrDist m.addr dst).val = (snNetAddrDist c.addr dst).val ∧
          snr.self.addr.searchPlace m.addr ≤ snr.self.addr.searchPlace c.addr := fun c hc =>
    (Argmin.lt_or_rank_le (pairwise_candidates hinv) hm hc).imp_right
      (And.imp_left (congrArg SnNetAddr.val))
  have hdist := fun c hc => dist_of_kept (hkeep c hc)
  constructor
  · rintro hnearest ⟨u, hu, hup, honly, v, hv, hplace, harc⟩
    -- The winner would be `u`, but `v` is as good and stands in front of it.
    have hmu := (honly m hmem).1 hnearest
    have hsum : v.addr.arc dst + dst.arc v.addr = ringSize := by
      refine SnNetAddr.arc_add_arc fun hvd => ?_
      rw [hvd, SnNetAddr.arc_self] at harc
      omega
    have hwinv := hwin v hv
    have hdistm := hdist m hmem
    have hdistv := hdist v hv
    rw [hmu] at hwinv hdistm
    rw [ringSize_eq] at hsum
    omega
  · intro hno
    by_contra hfar
    have hrange : ∀ n, Nearest snr dst n → n.ringDist dst < m.addr.ringDist dst := by
      intro n hn
      by_contra hle
      exact hfar ⟨⟨m, hmem, rfl⟩, fun c hc => (not_lt.1 hle).trans (hn.2 c hc)⟩
    obtain ⟨u, hu, hnearest⟩ := exists_nearest snr dst
    have hequal : ∀ n, Nearest snr dst n → n.ringDist dst = u.addr.ringDist dst := by
      intro n hn
      obtain ⟨c, hc, rfl⟩ := hn.1
      exact le_antisymm (hn.2 u hu) (hnearest.2 c hc)
    -- A nearest node below the destination would have won.
    have hup : ∀ c ∈ candidates snr, Nearest snr dst c.addr → c.addr.arc dst < halfRing := by
      intro c hc hn
      have hlt := hrange c.addr hn
      have hwinc := hwin c hc
      have hdistc := hdist c hc
      have hdistm := hdist m hmem
      omega
    have honly : ∀ c ∈ candidates snr, Nearest snr dst c.addr ↔ c.addr = u.addr := by
      intro c hc
      refine ⟨fun hn => (SnNetAddr.arc_inj (b := dst)).1 ?_, fun h => h ▸ hnearest⟩
      have hupc := hup c hc hn
      have hupu := hup u hu hnearest
      have hdistc := hdist c hc
      have hdistu := hdist u hu
      have heq := hequal c.addr hn
      omega
    refine hno ⟨u, hu, hup u hu hnearest, honly, m, hmem, ?_, ?_⟩
    · have hne : snr.self.addr.searchPlace m.addr ≠ snr.self.addr.searchPlace u.addr := fun h =>
        hfar ((honly m hmem).2 (SnNetAddr.searchPlace_inj.1 h))
      have hlt := hrange u.addr hnearest
      have hupu := hup u hu hnearest
      have hwinu := hwin u hu
      have hdistu := hdist u hu
      have hdistm := hdist m hmem
      omega
    · have hlt := hrange u.addr hnearest
      have hupu := hup u hu hnearest
      have hwinu := hwin u hu
      have hdistu := hdist u hu
      have hdistm := hdist m hmem
      omega

/-! ### The choice of the router -/

/-- What the state must be like for a nearest node to be chosen: on range no borrow is lost and no
nearest node overtaken, off range the destination is our own address or a nearest node has its
slot. -/
def NearestReached (snr : SnNetRouter) (dst : SnNetAddr) : Prop :=
  leafsetIsOnRange snr dst = .ok true ∧ KeepsBorrows snr dst ∧ ¬ Overtaken snr dst ∨
    leafsetIsOnRange snr dst = .ok false ∧ ∀ h : snr.self.addr ≠ dst,
      (snr.slotOf h).IsSet ∧ Nearest snr dst (snr.slotOf h).addr

/-- **When the nearest neighbour is chosen.** In a reachable state the next hop for `dst`, in
particular for a `dst` between the least and the greatest address of the node and its leafsets, is
a nearest of these nodes if it is reached. A nearest node that is not reached so is chosen only when
a borrow is lost for some candidate, or when the range test misses `dst` and its slot is unset. -/
theorem nexthop_nearest (h : Reachable q snr) (dst : SnNetAddr) :
    (NearestReached snr dst → ∃ e, snNetRouterNexthop snr dst = .ok e ∧ PicksNearest snr dst e) ∧
    ((∃ e, snNetRouterNexthop snr dst = .ok e ∧ PicksNearest snr dst e) →
      NearestReached snr dst ∨
        leafsetIsOnRange snr dst = .ok true ∧ ¬ KeepsBorrows snr dst ∨
        leafsetIsOnRange snr dst = .ok false ∧
          ∃ h : snr.self.addr ≠ dst, ¬ (snr.slotOf h).IsSet) := by
  have hinv := RouterInv.of_reachable h
  have hpicks : ∀ onRange, PicksNearest snr dst (nexthopOf onRange snr dst) ↔
      Nearest snr dst (nexthopOf onRange snr dst).addr := fun onRange =>
    and_iff_left (nexthopOf_isSet_eq_zero_iff hinv onRange dst)
  have hon : KeepsBorrows snr dst →
      (Nearest snr dst (nexthopOf true snr dst).addr ↔ ¬ Overtaken snr dst) := by
    intro hkeep
    obtain ⟨m, hm, haddr⟩ := exists_argmin_searched snr true dst
    rw [haddr]
    exact nearest_argmin_iff hinv hkeep hm
  have hslot : ∀ hne : snr.self.addr ≠ dst, (snr.slotOf hne).IsSet →
      nexthopOf false snr dst = snr.slotOf hne := fun hne hset => by
    rw [nexthopOf, if_neg Bool.false_ne_true, dif_neg hne, if_pos hset]
  rw [exists_nexthop_iff hinv.self_isSet]
  constructor
  · rintro (⟨hrange, hkeep, hno⟩ | ⟨hrange, hreached⟩)
    · exact ⟨true, hrange, (hpicks true).2 ((hon hkeep).2 hno)⟩
    · refine ⟨false, hrange, (hpicks false).2 ?_⟩
      by_cases hne : snr.self.addr = dst
      · rw [nexthopOf, if_neg Bool.false_ne_true, dif_pos hne]
        refine ⟨⟨snr.self, List.mem_cons_self, rfl⟩, fun c _ => ?_⟩
        have hzero : snr.self.addr.ringDist dst = 0 :=
          (RingDistance.dist_eq_zero_iff snr.self.addr.val_lt dst.val_lt).2 (congrArg _ hne)
        exact hzero.le.trans (Nat.zero_le _)
      · rw [hslot hne (hreached hne).1]
        exact (hreached hne).2
  · rintro ⟨onRange, hrange, hnearest⟩
    rw [hpicks] at hnearest
    cases onRange with
    | true =>
      by_cases hkeep : KeepsBorrows snr dst
      · exact Or.inl (Or.inl ⟨hrange, hkeep, (hon hkeep).1 hnearest⟩)
      · exact Or.inr (Or.inl ⟨hrange, hkeep⟩)
    | false =>
      by_cases hset : ∃ hne : snr.self.addr ≠ dst, ¬ (snr.slotOf hne).IsSet
      · exact Or.inr (Or.inr ⟨hrange, hset⟩)
      · refine Or.inl (Or.inr ⟨hrange, fun hne => ?_⟩)
        have hset' : (snr.slotOf hne).IsSet := not_not.1 fun h => hset ⟨hne, h⟩
        rw [hslot hne hset'] at hnearest
        exact ⟨hset', hnearest⟩

/-- The router on 4f5e22 that knows 333333 and 222222 finds the range test right for 2b0000 and
chooses the nearer of the two, and when it knows 888888 in addition, it chooses this one for 888888,
which the range test misses, by its slot. -/
theorem nexthop_nearest_of_add :
    (∃ snr e, routerOn4f5e22 [.add (.ofBytes [0x33, 0x33, 0x33]) none,
        .add (.ofBytes [0x22, 0x22, 0x22]) none] = .ok snr ∧
      InRange snr (.ofBytes [0x2b]) ∧ snNetRouterNexthop snr (.ofBytes [0x2b]) = .ok e ∧
      PicksNearest snr (.ofBytes [0x2b]) e) ∧
    ∃ snr e, routerOn4f5e22 [.add (.ofBytes [0x33, 0x33, 0x33]) none,
        .add (.ofBytes [0x22, 0x22, 0x22]) none, .add (.ofBytes [0x88, 0x88, 0x88]) none] =
          .ok snr ∧
      InRange snr (.ofBytes [0x88, 0x88, 0x88]) ∧
      snNetRouterNexthop snr (.ofBytes [0x88, 0x88, 0x88]) = .ok e ∧
      PicksNearest snr (.ofBytes [0x88, 0x88, 0x88]) e := by
  constructor
  · have hobs : (routerOn4f5e22 [.add (.ofBytes [0x33, 0x33, 0x33]) none,
        .add (.ofBytes [0x22, 0x22, 0x22]) none]).toOption.map (fun snr =>
          (decide (InRange snr (.ofBytes [0x2b])), leafsetIsOnRange snr (.ofBytes [0x2b]),
            decide (KeepsBorrows snr (.ofBytes [0x2b])),
            decide (¬ Overtaken snr (.ofBytes [0x2b])))) =
        some (true, .ok true, true, true) := by
      decide +kernel
    obtain ⟨snr, hrun, hsnr⟩ := exists_ok_of_toOption_map hobs
    simp only [Prod.mk.injEq, decide_eq_true_eq] at hsnr
    obtain ⟨hin, hrange, hkeep, hno⟩ := hsnr
    obtain ⟨e, hnexthop, hpicks⟩ := (nexthop_nearest (reachable_routerOn4f5e22 hrun) _).1
      (Or.inl ⟨hrange, hkeep, hno⟩)
    exact ⟨snr, e, hrun, hin, hnexthop, hpicks⟩
  · have hobs : (routerOn4f5e22 [.add (.ofBytes [0x33, 0x33, 0x33]) none,
        .add (.ofBytes [0x22, 0x22, 0x22]) none,
        .add (.ofBytes [0x88, 0x88, 0x88]) none]).toOption.map (fun snr =>
          (decide (InRange snr (.ofBytes [0x88, 0x88, 0x88])),
            leafsetIsOnRange snr (.ofBytes [0x88, 0x88, 0x88]),
            decide (∀ h : snr.self.addr ≠ .ofBytes [0x88, 0x88, 0x88], (snr.slotOf h).IsSet ∧
              Nearest snr (.ofBytes [0x88, 0x88, 0x88]) (snr.slotOf h).addr))) =
        some (true, .ok false, true) := by
      decide +kernel
    obtain ⟨snr, hrun, hsnr⟩ := exists_ok_of_toOption_map hobs
    simp only [Prod.mk.injEq, decide_eq_true_eq] at hsnr
    obtain ⟨hin, hrange, hslot⟩ := hsnr
    obtain ⟨e, hnexthop, hpicks⟩ := (nexthop_nearest (reachable_routerOn4f5e22 hrun) _).1
      (Or.inr ⟨hrange, hslot⟩)
    exact ⟨snr, e, hrun, hin, hnexthop, hpicks⟩

/-- The nearest neighbour is not always chosen: for 888889, which lies in their range, the router
on 4f5e22 that knows 888888 and 898888 chooses 898888. The range test misses 888889, and both
addresses share one slot. -/
theorem nexthop_not_nearest : ∃ snr, Reachable (.insertion SnNetEntry) snr ∧
    InRange snr (.ofBytes [0x88, 0x88, 0x89]) ∧
    ∃ e, snNetRouterNexthop snr (.ofBytes [0x88, 0x88, 0x89]) = .ok e ∧
      ¬ PicksNearest snr (.ofBytes [0x88, 0x88, 0x89]) e := by
  have hobs : (routerOn4f5e22 [.add (.ofBytes [0x88, 0x88, 0x88]) none,
      .add (.ofBytes [0x89, 0x88, 0x88]) none]).toOption.map (fun snr =>
        (decide (InRange snr (.ofBytes [0x88, 0x88, 0x89])),
          (snNetRouterNexthop snr (.ofBytes [0x88, 0x88, 0x89])).toOption.map fun e =>
            decide (Nearest snr (.ofBytes [0x88, 0x88, 0x89]) e.addr))) =
      some (true, some false) := by
    decide +kernel
  obtain ⟨snr, hrun, hsnr⟩ := exists_ok_of_toOption_map hobs
  simp only [Prod.mk.injEq, decide_eq_true_eq] at hsnr
  obtain ⟨e, he, hnot⟩ := exists_ok_of_toOption_map hsnr.2
  exact ⟨snr, reachable_routerOn4f5e22 hrun, hsnr.1, e, he,
    fun h => of_decide_eq_false hnot h.1⟩

end SndNet
