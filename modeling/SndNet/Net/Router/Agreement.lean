import Mathlib.Data.Finset.Max
import SndNet.Net.Router.Mesh

/-!
# Routing agreement

In a network in which everyone knows everyone (`SndNet.Mesh`), packets for one destination should
end at one node, wherever they start, and pass no node twice. The two measures that the nodes mix,
shared digits off range and distance on range, can disagree: the greatest node of a network sends a
packet to a node that is closer but shares fewer digits, and gets it back. This file says for which
networks and destinations routing agrees whatever the orders of the additions are.

## Main definitions

* `SndNet.Mesh.Agrees`: all walks for a destination end at one node and pass no node twice.
* `SndNet.NoReturn`: the greatest node does not get back what it sends away.
* `SndNet.routeRank`: a rank that drops at every hop.

## Main results

* `SndNet.Mesh.agrees_of_noReturn`: a network with one resting node and no return agrees.
* `SndNet.routing_agreement_iff`: when routing agrees.
-/

namespace SndNet

open FallibleRun

variable {q : Sorter SnNetEntry} {V : Finset SnNetAddr} {mesh : Mesh V} {dst v w : SnNetAddr}

/-- All packets for `dst` end at one node, wherever they start, and pass no node twice. -/
def Mesh.Agrees (q : Sorter SnNetEntry) (mesh : Mesh V) (dst : SnNetAddr) : Prop :=
  ∃ f, ∀ s ∈ V, ∃ path, Walk (mesh.hop q dst) s path f ∧ path.Nodup

/-- When the greatest node is on range and not among the closest nodes, the greatest of these
shares at least as many digits with the destination as it does. -/
def NoReturn (V : Finset SnNetAddr) (dst : SnNetAddr) : Prop :=
  ∀ a ∈ V, (∀ w ∈ V, w ≤ a) → dst ≤ a → a ∉ closestNodes V dst →
    ∀ g ∈ closestNodes V dst, (∀ w ∈ closestNodes V dst, w ≤ g) → a.level dst ≤ g.level dst

/-! ### Orders of addition -/

namespace Mesh

/-- The network whose nodes add each other in the given orders, without network addresses. -/
def ofOrder (order : SnNetAddr → List SnNetAddr) (hnodup : ∀ v ∈ V, (order v).Nodup)
    (hmem : ∀ v ∈ V, ∀ x, x ∈ order v ↔ x ∈ V ∧ x ≠ v) : Mesh V where
  netAddr _ := none
  order v := (order v).map fun x => (x, none)
  nodup v hv := by simpa [List.map_map, Function.comp_def] using hnodup v hv
  mem_order v hv x := by simpa [List.map_map, Function.comp_def] using hmem v hv x

/-- Every node can be the last that another one adds. -/
theorem exists_last {a g : SnNetAddr} (ha : a ∈ V) (hne : a ≠ g) :
    ∃ mesh : Mesh V, ∃ order, mesh.order g = order ++ [(a, none)] := by
  have hrest : ∀ v x, x ∈ (V.erase v).toList ↔ x ∈ V ∧ x ≠ v := fun v x => by
    rw [Finset.mem_toList, Finset.mem_erase, and_comm]
  refine ⟨ofOrder (fun v => if v = g then ((V.erase g).erase a).toList ++ [a]
    else (V.erase v).toList) (fun v _ => ?_) (fun v _ x => ?_),
    ((V.erase g).erase a).toList.map fun x => (x, none), ?_⟩
  · split_ifs
    · refine List.nodup_append.2 ⟨Finset.nodup_toList _, List.nodup_singleton a, ?_⟩
      intro x hx y hy heq
      rw [List.mem_singleton.1 hy] at heq
      exact Finset.ne_of_mem_erase (Finset.mem_toList.1 hx) heq
    · exact Finset.nodup_toList _
  · split_ifs with hvg
    · subst hvg
      rw [List.mem_append, Finset.mem_toList, List.mem_singleton, Finset.mem_erase,
        Finset.mem_erase]
      by_cases hxa : x = a
      · subst hxa
        simp [ha, hne]
      · simp [hxa, and_comm]
    · exact hrest v x
  · simp only [ofOrder, if_true, List.map_append, List.map_singleton]

instance : Nonempty (Mesh V) :=
  ⟨ofOrder (fun v => (V.erase v).toList) (fun _ _ => Finset.nodup_toList _) fun v _ x => by
    rw [Finset.mem_toList, Finset.mem_erase, and_comm]⟩

end Mesh

/-! ### The closest nodes -/

theorem exists_greatest_closest (dst : SnNetAddr) (hV : V.Nonempty) :
    ∃ g ∈ closestNodes V dst, ∀ w ∈ closestNodes V dst, w ≤ g := by
  obtain ⟨u, hu, hmin⟩ := V.exists_min_image (fun v => snNetAddrDist v dst) hV
  exact (closestNodes V dst).exists_max_image id ⟨u, mem_closestNodes.2 ⟨hu, hmin⟩⟩

/-- For the address of zero bytes a packet rests at every node among the closest. -/
theorem rests_of_closest_zero (hv : v ∈ closestNodes V .zero) : Rests V .zero v := by
  rw [Rests]
  split_ifs with hon
  · exact hv
  · -- The least node shares the most digits with the address of zero bytes.
    obtain ⟨hmem, hmin⟩ := mem_closestNodes.1 hv
    have hleast : ∀ w ∈ V, v ≤ w := fun w hw =>
      not_lt.1 fun hlt => hon (Or.inr ⟨rfl, w, hw, hlt⟩)
    exact mem_closestNodes.2 ⟨mem_deepestNodes.2 ⟨hmem, fun w hw =>
      SnNetAddr.level_zero_anti (hleast w hw)⟩, fun w hw => hmin w (mem_deepestNodes.1 hw).1⟩

/-- Without return, a packet rests at the closest of the deepest nodes. -/
theorem rests_of_closest_deepest (hreturn : NoReturn V dst) (hdst : dst ≠ .zero)
    (hv : v ∈ closestNodes (deepestNodes V dst) dst) : Rests V dst v := by
  rw [Rests]
  split_ifs with hon
  · obtain ⟨hdeep, hmin⟩ := mem_closestNodes.1 hv
    obtain ⟨hmem, hlevel⟩ := mem_deepestNodes.1 hdeep
    obtain ⟨hmax, hle⟩ := hon.resolve_right fun h => hdst h.1
    by_contra hnot
    -- The greatest closest node is as deep, hence not closer.
    obtain ⟨g, hg, hgreatest⟩ := exists_greatest_closest dst ⟨v, hmem⟩
    obtain ⟨hgV, hgmin⟩ := mem_closestNodes.1 hg
    have hgdeep : g ∈ deepestNodes V dst := mem_deepestNodes.2 ⟨hgV, fun w hw =>
      (hlevel w hw).trans (hreturn v hmem hmax hle hnot g hg hgreatest)⟩
    exact hnot (mem_closestNodes.2 ⟨hmem, fun w hw => (hmin g hgdeep).trans (hgmin w hw)⟩)
  · exact hv

/-! ### A rank -/

/-- A rank that drops at every hop: zero where a packet rests, and otherwise lower for nodes that
share more digits with the destination, with the nodes on range above their level. -/
def routeRank (V : Finset SnNetAddr) (dst v : SnNetAddr) : ℕ :=
  if Rests V dst v then 0
  else if dst = .zero then (if OnRange V dst v then 1 else 2)
  else 1 + 2 * (snNetAddrHexLen - v.level dst) + if OnRange V dst v then 1 else 0

theorem routeRank_pos (h : ¬ Rests V dst v) : 0 < routeRank V dst v := by
  rw [routeRank, if_neg h]
  split_ifs <;> omega

/-- The rank drops at every hop. -/
theorem routeRank_lt (hzero : SnNetAddr.zero ∉ V) (htwo : 1 < V.card)
    (hcard : V.card ≤ snNetRouterLeafsetSize) (hreturn : NoReturn V dst) (hv : v ∈ V)
    (hhop : mesh.hop q dst v = .ok (some w)) : w ∈ V ∧ routeRank V dst w < routeRank V dst v := by
  obtain ⟨hrest, hw, hspec⟩ := mesh.of_hop_eq_some hv hzero htwo hcard hhop
  refine ⟨hw, ?_⟩
  by_cases hrest' : Rests V dst w
  · rw [routeRank, if_pos hrest']
    exact routeRank_pos hrest
  by_cases hdst : dst = .zero
  · subst hdst
    by_cases hon : OnRange V .zero v
    · rw [if_pos hon] at hspec
      exact absurd (rests_of_closest_zero hspec) hrest'
    · -- Only the least node is off range, and all others are on range.
      have hne : w ≠ v := by
        rintro rfl
        have hdeep : w ∈ deepestNodes V .zero := mem_deepestNodes.2 ⟨hv, fun u hu =>
          SnNetAddr.level_zero_anti (not_lt.1 fun hlt => hon (Or.inr ⟨rfl, u, hu, hlt⟩))⟩
        rw [if_neg hon, if_pos hdeep] at hspec
        exact hrest (by rwa [Rests, if_neg hon])
      have hlt : v < w := lt_of_le_of_ne
        (not_lt.1 fun hlt => hon (Or.inr ⟨rfl, w, hw, hlt⟩)) hne.symm
      have hon' : OnRange V .zero w := Or.inr ⟨rfl, v, hv, hlt⟩
      rw [routeRank, routeRank, if_neg hrest, if_neg hrest', if_pos rfl, if_pos rfl, if_pos hon',
        if_neg hon]
      omega
  · have hle := SnNetAddr.level_le w dst
    rw [routeRank, routeRank, if_neg hrest, if_neg hrest', if_neg hdst, if_neg hdst]
    by_cases hon : OnRange V dst v
    · -- The greatest node sends to the greatest closest node.
      obtain ⟨hmax, hle'⟩ := hon.resolve_right fun h => hdst h.1
      rw [if_pos hon] at hspec
      have hclosest : v ∉ closestNodes V dst := fun h => hrest (by rwa [Rests, if_pos hon])
      have hlevel := hreturn v hv hmax hle' hclosest w hspec fun u hu =>
        mesh.le_of_hop_greatest hv hzero htwo hcard hmax hle' hhop hu
      have hoff' : ¬ OnRange V dst w := fun hon' => hrest' (by rwa [Rests, if_pos hon'])
      rw [if_pos hon, if_neg hoff']
      omega
    · rw [if_neg hon] at hspec
      by_cases hdeep : v ∈ deepestNodes V dst
      · rw [if_pos hdeep] at hspec
        exact absurd (rests_of_closest_deepest hreturn hdst hspec) hrest'
      · rw [if_neg hdeep] at hspec
        rw [if_neg hon]
        split_ifs <;> omega

/-! ### Agreement -/

/-- A network of one node or none agrees. -/
theorem Mesh.agrees_of_card_le_one (hcard : V.card ≤ 1) (mesh : Mesh V) (dst : SnNetAddr) :
    mesh.Agrees q dst := by
  rcases V.eq_empty_or_nonempty with rfl | ⟨v, hv⟩
  · exact ⟨.zero, fun s hs => absurd hs (Finset.notMem_empty s)⟩
  · have hadded : mesh.added v = [] := by
      have hlen := mesh.length_added hv
      exact List.length_eq_zero_iff.1 (by omega)
    obtain ⟨snr, hrouter⟩ : ∃ snr, mesh.router q v = .ok snr :=
      ⟨_, by rw [Mesh.router, List.map_eq_nil_iff.1 hadded]; rfl⟩
    have hbuilt := Mesh.built hrouter
    rw [hadded] at hbuilt
    have hside : ∀ right, sideEntries snr right [] = [] := fun _ => rfl
    have hempty : ∀ e, ¬ snr.SetEntry e := by
      intro e he
      rcases SnNetRouter.setEntry_iff.1 he with ⟨hset, l, c, rfl⟩ | ⟨right, hmem⟩
      · exact absurd (hbuilt.slot_mem l c hset) List.not_mem_nil
      · rw [hbuilt.mem_entries_iff (by simp [hside])] at hmem
        exact absurd hmem.1 List.not_mem_nil
    have hstop : mesh.hop q dst v = .ok none := by
      rw [Mesh.hop_eq hrouter (hbuilt.leafsetIsOnRange_of_room (by simp [hside]) dst),
        nexthopOf_of_not_setEntry hbuilt.inv hempty, moveTo_unset]
    refine ⟨v, fun s hs => ?_⟩
    obtain rfl : s = v := Finset.card_le_one.1 hcard s hs v hv
    exact ⟨[s], .stop hstop, List.nodup_singleton s⟩

/-- **A network with one resting node and no return agrees.** -/
theorem Mesh.agrees_of_noReturn (hzero : SnNetAddr.zero ∉ V) (htwo : 1 < V.card)
    (hcard : V.card ≤ snNetRouterLeafsetSize)
    (hone : (V.filter fun v => Rests V dst v).card = 1) (hreturn : NoReturn V dst)
    (mesh : Mesh V) : mesh.Agrees q dst := by
  obtain ⟨f, hf⟩ := Finset.card_eq_one.1 hone
  refine ⟨f, fun s hs => ?_⟩
  have hstep : ∀ v, v ∈ V → ∃ o, mesh.hop q dst v = .ok o ∧
      ∀ w ∈ o, w ∈ V ∧ routeRank V dst w < routeRank V dst v := by
    intro v hv
    obtain ⟨o, ho⟩ := mesh.exists_hop q dst hv hzero htwo hcard
    refine ⟨o, ho, fun w hw => ?_⟩
    rw [Option.mem_def.1 hw] at ho
    exact routeRank_lt hzero htwo hcard hreturn hv ho
  obtain ⟨path, f', hwalk, hnodup, hf', -⟩ := Walk.exists_of_rank (routeRank V dst) hstep hs
  have hrest : Rests V dst f' := (mesh.hop_eq_none_iff hf' hzero htwo hcard).1 hwalk.next_end
  have hmem : f' ∈ V.filter fun v => Rests V dst v := Finset.mem_filter.2 ⟨hf', hrest⟩
  rw [hf, Finset.mem_singleton] at hmem
  exact ⟨path, hmem ▸ hwalk, hnodup⟩

/-- A network that contains the address of zero bytes and another node does not agree. -/
theorem Mesh.not_agrees_of_zero (hzero : SnNetAddr.zero ∈ V) (htwo : 1 < V.card) (mesh : Mesh V) :
    ¬ mesh.Agrees q dst := by
  rintro ⟨f, hf⟩
  obtain ⟨path, hwalk, -⟩ := hf .zero hzero
  obtain ⟨o, ho⟩ := hwalk.exists_next
  obtain ⟨snr, hrouter, -⟩ := bind_eq_ok.1 ho
  refine ne_zero_of_run hrouter (fun hnil => ?_) rfl
  have hlen := mesh.length_added hzero
  rw [Mesh.added, List.map_eq_nil_iff.1 hnil] at hlen
  exact absurd hlen.symm htwo.ne'

/-- A network of more than eight nodes does not agree. -/
theorem Mesh.not_agrees_of_card (hzero : SnNetAddr.zero ∉ V)
    (hcard : snNetRouterLeafsetSize < V.card) (mesh : Mesh V) : ¬ mesh.Agrees q dst := by
  rintro ⟨f, hf⟩
  obtain ⟨a, ha, hmax⟩ := V.exists_max_image id (Finset.card_pos.1 (by omega))
  obtain ⟨snr, hrouter⟩ : ∃ snr, mesh.router q a = .ok snr :=
    Mesh.exists_router ha hzero
  obtain ⟨path, hwalk, -⟩ := hf a ha
  obtain ⟨o, ho⟩ := hwalk.exists_next
  simp [Mesh.hop_of_full ha hmax hcard hrouter] at ho

/-- In a network that agrees there is one node where packets rest. -/
theorem Mesh.card_rests_of_agrees (hzero : SnNetAddr.zero ∉ V) (htwo : 1 < V.card)
    (hcard : V.card ≤ snNetRouterLeafsetSize) {mesh : Mesh V} (h : mesh.Agrees q dst) :
    (V.filter fun v => Rests V dst v).card = 1 := by
  obtain ⟨f, hf⟩ := h
  obtain ⟨s, hs⟩ : V.Nonempty := Finset.card_pos.1 (by omega)
  obtain ⟨path, hwalk, -⟩ := hf s hs
  have hfV : f ∈ V := hwalk.end_mem (fun v w hv hhop =>
    (Mesh.of_hop_eq_some hv hzero htwo hcard hhop).2.1) hs
  refine Finset.card_eq_one.2 ⟨f, ?_⟩
  ext v
  rw [Finset.mem_filter, Finset.mem_singleton]
  constructor
  · rintro ⟨hv, hrest⟩
    obtain ⟨path', hwalk', -⟩ := hf v hv
    exact (Walk.stop ((Mesh.hop_eq_none_iff hv hzero htwo hcard).2 hrest)).end_unique hwalk'
  · rintro rfl
    exact ⟨hfV, (Mesh.hop_eq_none_iff hfV hzero htwo hcard).1 hwalk.next_end⟩

/-- When the networks over some nodes agree whatever the orders of the additions are, the greatest
node does not get back what it sends away. -/
theorem noReturn_of_agrees (hzero : SnNetAddr.zero ∉ V) (htwo : 1 < V.card)
    (hcard : V.card ≤ snNetRouterLeafsetSize) (h : ∀ mesh : Mesh V, mesh.Agrees q dst) :
    NoReturn V dst := by
  intro a ha hmax hle hnot g hg hgreatest
  by_contra hlevel
  rw [not_le] at hlevel
  obtain ⟨hgV, -⟩ := mem_closestNodes.1 hg
  have hne : a ≠ g := fun heq => hnot (heq ▸ hg)
  have hdst : dst ≠ .zero := by
    rintro rfl
    exact absurd (SnNetAddr.level_zero_anti (hmax g hgV)) (not_le.2 hlevel)
  have hon : OnRange V dst a := Or.inl ⟨hmax, hle⟩
  have hoff : ¬ OnRange V dst g := by
    rintro (⟨hmax', -⟩ | ⟨hzero', -⟩)
    · exact hne (le_antisymm (hmax' a ha) (hmax g hgV))
    · exact hdst hzero'
  -- The closest node adds the greatest last, and they send packets to and fro.
  obtain ⟨mesh, order, horder⟩ := Mesh.exists_last ha hne
  have hback : mesh.hop q dst g = .ok (some a) :=
    Mesh.hop_of_last hgV hzero htwo hcard hoff horder hlevel
  have hforth : mesh.hop q dst a = .ok (some g) := by
    obtain ⟨o, ho⟩ := mesh.exists_hop q dst ha hzero htwo hcard
    cases o with
    | none =>
      have hrest := (Mesh.hop_eq_none_iff ha hzero htwo hcard).1 ho
      rw [Rests, if_pos hon] at hrest
      exact absurd hrest hnot
    | some w =>
      obtain ⟨-, -, hspec⟩ := Mesh.of_hop_eq_some ha hzero htwo hcard ho
      rw [if_pos hon] at hspec
      rw [ho, le_antisymm (hgreatest w hspec)
        (Mesh.le_of_hop_greatest ha hzero htwo hcard hmax hle ho hg)]
  have hendless : ∀ v, (v = a ∨ v = g) →
      ∃ w, (w = a ∨ w = g) ∧ mesh.hop q dst v = .ok (some w) := by
    rintro v (rfl | rfl)
    · exact ⟨g, Or.inr rfl, hforth⟩
    · exact ⟨a, Or.inl rfl, hback⟩
  obtain ⟨f, hf⟩ := h mesh
  obtain ⟨path, hwalk, -⟩ := hf a ha
  exact Walk.not_of_endless hendless (Or.inl rfl) hwalk

/-- **When routing agrees.** For a set of nodes and a destination, all networks over the nodes
agree, whatever the orders in which the nodes add each other, exactly when there is at most one
node, or there are at most eight, none of them with the address of zero bytes, a packet rests at
exactly one of them, and the greatest does not get back what it sends away. -/
theorem routing_agreement_iff (q : Sorter SnNetEntry) (V : Finset SnNetAddr) (dst : SnNetAddr) :
    (∀ mesh : Mesh V, mesh.Agrees q dst) ↔ V.card ≤ 1 ∨
      V.card ≤ snNetRouterLeafsetSize ∧ SnNetAddr.zero ∉ V ∧
        (V.filter fun v => Rests V dst v).card = 1 ∧ NoReturn V dst := by
  constructor
  · intro h
    by_cases hone : V.card ≤ 1
    · exact Or.inl hone
    · have htwo : 1 < V.card := not_le.1 hone
      obtain ⟨mesh⟩ : Nonempty (Mesh V) := inferInstance
      have hzero : SnNetAddr.zero ∉ V := fun hzero => mesh.not_agrees_of_zero hzero htwo (h mesh)
      have hcard : V.card ≤ snNetRouterLeafsetSize :=
        not_lt.1 fun hlt => mesh.not_agrees_of_card hzero hlt (h mesh)
      exact Or.inr ⟨hcard, hzero, Mesh.card_rests_of_agrees hzero htwo hcard (h mesh),
        noReturn_of_agrees hzero htwo hcard h⟩
  · rintro (hone | ⟨hcard, hzero, hrests, hreturn⟩) mesh
    · exact mesh.agrees_of_card_le_one hone dst
    · by_cases hone : V.card ≤ 1
      · exact mesh.agrees_of_card_le_one hone dst
      · exact mesh.agrees_of_noReturn hzero (not_le.1 hone) hcard hrests hreturn

/-- The network of 6f and 7f, which add each other. -/
def mesh6f7f : Mesh {.ofBytes [0x6f], .ofBytes [0x7f]} :=
  .ofOrder (fun v => if v = .ofBytes [0x6f] then [.ofBytes [0x7f]] else [.ofBytes [0x6f]])
    (fun v _ => by split_ifs <;> exact List.nodup_singleton _)
    fun v hv x => by
      have hne : SnNetAddr.ofBytes [0x6f] ≠ .ofBytes [0x7f] := by decide
      rcases Finset.mem_insert.1 hv with rfl | hv
      · rw [if_pos rfl, List.mem_singleton, Finset.mem_insert, Finset.mem_singleton]
        exact ⟨fun h => ⟨Or.inr h, h ▸ hne.symm⟩, fun h => h.1.resolve_left h.2⟩
      · rw [Finset.mem_singleton.1 hv, if_neg hne.symm, List.mem_singleton, Finset.mem_insert,
          Finset.mem_singleton]
        exact ⟨fun h => ⟨Or.inl h, h ▸ hne⟩, fun h => h.1.resolve_right h.2⟩

/-- Routing does not always agree: 6f and 7f send a packet for 70 to and fro. -/
theorem not_agrees_mesh6f7f : ¬ mesh6f7f.Agrees (.insertion SnNetEntry) (.ofBytes [0x70]) := by
  have hforth : mesh6f7f.hop (.insertion SnNetEntry) (.ofBytes [0x70]) (.ofBytes [0x6f]) =
      .ok (some (.ofBytes [0x7f])) := by
    have hobs : (mesh6f7f.hop (.insertion SnNetEntry) (.ofBytes [0x70])
        (.ofBytes [0x6f])).toOption.map id = some (some (.ofBytes [0x7f])) := by decide +kernel
    obtain ⟨o, ho, rfl⟩ := exists_ok_of_toOption_map hobs
    exact ho
  have hback : mesh6f7f.hop (.insertion SnNetEntry) (.ofBytes [0x70]) (.ofBytes [0x7f]) =
      .ok (some (.ofBytes [0x6f])) := by
    have hobs : (mesh6f7f.hop (.insertion SnNetEntry) (.ofBytes [0x70])
        (.ofBytes [0x7f])).toOption.map id = some (some (.ofBytes [0x6f])) := by decide +kernel
    obtain ⟨o, ho, rfl⟩ := exists_ok_of_toOption_map hobs
    exact ho
  have hendless : ∀ v, (v = .ofBytes [0x6f] ∨ v = .ofBytes [0x7f]) →
      ∃ w, (w = .ofBytes [0x6f] ∨ w = .ofBytes [0x7f]) ∧
        mesh6f7f.hop (.insertion SnNetEntry) (.ofBytes [0x70]) v = .ok (some w) := by
    rintro v (rfl | rfl)
    · exact ⟨_, Or.inr rfl, hforth⟩
    · exact ⟨_, Or.inl rfl, hback⟩
  rintro ⟨f, hf⟩
  obtain ⟨path, hwalk, -⟩ := hf (.ofBytes [0x6f]) (Finset.mem_insert_self _ _)
  exact Walk.not_of_endless hendless (Or.inl rfl) hwalk

end SndNet
