import SndNet.Net.Router.Built
import SndNet.Net.Router.Reading
import SndNet.Net.Router.Removal
import SndNet.Prototype.Commands

/-!
# Showing the router

The command `show` prints the router into a buffer of 30000 bytes (`prototype/main.c`, lines
103–114). Whether the text fits depends on how many nodes have been inserted since the start.

## Main results

* `SndNet.shownText_eq`: a text that fits is shown whole.
* `SndNet.show_prints`: the command after at most 529 insertions.
* `SndNet.routes_of_shown`: what is shown tells how a router routes.
-/

namespace SndNet

open BoundedPrint Ctype CString DottedQuad FallibleRun Lines

/-! ### The characters of the text -/

/-- A text without a zero. -/
def NoZero (s : List UInt8) : Prop := ∀ c ∈ s, c ≠ 0

instance (s : List UInt8) : Decidable (NoZero s) := decidableForallMem s _

theorem NoZero.append {s t : List UInt8} (hs : NoZero s) (ht : NoZero t) : NoZero (s ++ t) :=
  List.forall_mem_append.2 ⟨hs, ht⟩

theorem noZero_decimal (n : ℕ) : NoZero (Decimal.text n) := fun c hc =>
  ne_zero_of_isdigit (Decimal.isdigit_of_mem_text n c hc)

theorem noZero_leftpad (n : ℕ) : NoZero ((Decimal.text n).leftpad 2 32) := by
  intro c hc
  rcases List.mem_append.1 hc with hc | hc
  · rw [List.eq_of_mem_replicate hc]
    decide
  · exact noZero_decimal n c hc

theorem noZero_inetNtop (octets : List UInt8) : NoZero (inetNtop octets) := by
  intro c hc
  rcases of_mem_inetNtop hc with hc | rfl
  · exact ne_zero_of_isdigit hc
  · decide

theorem noZero_naddrText (addr : SnIoNaddr) : NoZero (naddrText addr) := by
  have htake : ∀ {s : List UInt8}, NoZero s → NoZero (snprintf snIoNaddrPrintableLen s) :=
    fun hs c hc => hs c (List.mem_of_mem_take hc)
  have hquad : (inetNtop addr.sinAddr).length < inetAddrstrlen :=
    Nat.lt_succ_of_le (length_inetNtop_le (length_sinAddr addr))
  rw [naddrText, snIoNaddrToStr, if_pos hquad]
  split_ifs
  · exact htake ((((by decide : NoZero (ascii "INET:")).append (noZero_inetNtop _)).append
      (by decide)).append (noZero_decimal _))
  · refine htake ((by decide : NoZero (ascii "UNIX:")).append fun c hc => ?_)
    simpa using List.mem_takeWhile_imp hc
  · exact htake (by decide)

theorem noZero_entryString (sne : SnNetEntry) (addrPrecision : ℕ) :
    NoZero (entryString sne addrPrecision) := by
  rw [entryString]
  split_ifs
  · decide
  · have haddr : NoZero ((addrText sne.addr).take addrPrecision) := fun c hc =>
      ne_zero_of_isxdigit (isxdigit_of_mem_addrText (List.mem_of_mem_take hc)).1
    exact (haddr.append (by decide)).append (noZero_naddrText _)

theorem noZero_leafsetLines (leafset : Leafset) : NoZero (leafsetLines leafset).flatten := by
  intro c hc
  obtain ⟨line, hline, hc⟩ := List.mem_flatten.1 hc
  obtain ⟨i, -, hline⟩ := List.mem_flatMap.1 hline
  obtain rfl := List.mem_singleton.1 hline
  exact (((by decide : NoZero (ascii "\t")).append (noZero_entryString _ _)).append
    (by decide)) c hc

theorem noZero_tableLines (snr : SnNetRouter) : NoZero (tableLines snr).flatten := by
  intro c hc
  obtain ⟨line, hline, hc⟩ := List.mem_flatten.1 hc
  rw [tableLines_eq] at hline
  obtain ⟨i, -, rfl⟩ := List.mem_map.1 hline
  have hslot : NoZero (slotLine snr i) := ((((((by decide : NoZero (ascii "\t[")).append
    (noZero_leftpad _)).append (by decide)).append (noZero_leftpad _)).append (by decide)).append
    (noZero_entryString _ _)).append (by decide)
  exact hslot c hc

/-- The text of a router is a text. -/
theorem noZero_routerText (snr : SnNetRouter) : NoZero (routerText snr) := by
  have hself : NoZero (selfLine snr) := ((by decide : NoZero (ascii "Router is at ")).append
    (noZero_entryString _ _)).append (by decide)
  have hheading : ∀ {side : String} (leafset : Leafset), NoZero (ascii side) →
      NoZero (leafsetHeading side leafset) := fun leafset hside =>
    ((hside.append (by decide)).append (noZero_decimal _)).append (by decide)
  have hleft := hheading snr.leftLeafset (by decide : NoZero (ascii "Left"))
  have hright := hheading snr.rightLeafset (by decide : NoZero (ascii "Right"))
  simp only [routerText, routerGroups, List.flatten_cons, List.flatten_nil, List.flatten_append,
    List.append_nil]
  exact (hself.append hleft).append ((noZero_leafsetLines _).append (hright.append
    ((noZero_leafsetLines _).append ((by decide : NoZero (ascii "Routing table\n")).append
      (noZero_tableLines snr)))))

/-! ### What is shown -/

/-- **A text that fits is shown whole.** -/
theorem shownText_eq {snr : SnNetRouter} (ans : LineAnswers)
    (h : (routerText snr).length < showBufferLen) :
    shownText ans snr = .ok (routerText snr) := by
  have hlen : (routerGroups snr).flatten.flatten.length < showBufferLen := h
  have hprint := snNetRouterToStr_eq ans.selfStr snr showBufferLen
  rw [Traced.bind_pure] at hprint
  have hwrap : ∀ c ∈ (printGroups showBufferLen PrintStop.error (routerGroups snr) 0).events,
      c.usedLen ≤ showBufferLen := (usedLen_le_iff (by decide)).2 (roomBeforeLast_of_le hlen.le)
  have hbounds : ((printGroups showBufferLen PrintStop.error (routerGroups snr) 0).events.all
      fun c => c.written.all fun i => i < showBufferLen) := by
    refine List.all_eq_true.2 fun c hc => List.all_eq_true.2 fun i hi => decide_eq_true ?_
    exact Call.lt_of_mem_written (size_eq_of_mem_printGroups hc) (hwrap c hc) hi
  have hne : (routerGroups snr).flatten ≠ [] := List.cons_ne_nil _ _
  obtain ⟨rest, hfill⟩ :=
    @exists_fill_printGroups _ _ _ PrintStop.error _ 0 hne hlen ans.buffer.val
  have hstring : cString (routerText snr ++ 0 :: rest) = routerText snr := by
    rw [cString, List.takeWhile_append_of_pos fun c hc => by simpa using noZero_routerText snr c hc,
      List.takeWhile_cons_of_neg (by decide), List.append_nil]
  simp only [shownText, hprint, printGroups_result (show 0 < showBufferLen by decide), Nat.zero_add,
    if_pos hlen, Except.map, if_pos hbounds]
  rw [hfill]
  exact congrArg Except.ok hstring

/-! ### Sessions -/

/-- **The command `show`** prints the whole router, in every session in which at most 529 nodes have
been inserted. -/
theorem show_prints (S : SignScheme) (q : Sorter SnNetEntry) {start : PortAnswers}
    {sk : SnCryptoSignKey} {pk : SnCryptoSignPubkey} {port : UInt16} {sns sns' : SnNode}
    (hstart : (snNodeAtPort S start (some sk) (some pk) port true).result = .ok (some sns))
    {ans : ℕ → LineAnswers} {stdin : List UInt8}
    (hloop : (commandLoop S q ans sns stdin).result = .ok (.next sns'))
    (hcount : (fgetsAll 1023 stdin).countP isInsert ≤ 529) {a : LineAnswers} (hmalloc : a.malloc) :
    commandStep S q a sns' (ascii "show\n") =
      ⟨[.buffer (.acquire ()), .out (routerText sns'.router ++ ascii "\n"), .buffer (.release ())],
        .ok (.next sns')⟩ := by
  obtain ⟨order, hlen, router, hrun, rfl⟩ := inserted_of_promptLoop hloop rfl
  obtain ⟨_, hstarted⟩ := started_of_snNodeAtPort rfl hstart
  obtain ⟨selfNet, hrouter⟩ := hstarted.router_eq
  rw [hrouter] at hrun
  have hslots := length_setSlots_le hrun
  rw [List.length_map] at hslots
  have htext := length_routerText_le router
  have hfits : (routerText router).length < showBufferLen := by
    change _ < 30000
    omega
  have hstep : commandStep S q a { sns with router := router } (ascii "show\n") =
      showCommand a { sns with router := router } := rfl
  rw [hstep, showCommand, if_pos hmalloc, shownText_eq a hfits]
  rfl

/-- Two nodes are inserted. The command between them has no network address. -/
def typedInsertions : List UInt8 :=
  ascii "insert 0088 INET:1.1.1.1:1111\ninsert 777777\n" ++
    ascii "insert 888888 INET:2.2.2.2:2222\n"

/-- The router is shown with one of these nodes on each side. -/
theorem show_prints_of_insert : ∃ sns sns',
    (snNodeAtPort .plain .ideal (some ⟨.padded _ [1] 0⟩) (some ⟨.padded _ [1] 0⟩) 0 true).result =
      .ok (some sns) ∧
    (commandLoop .plain (.insertion SnNetEntry) (fun _ => .ideal) sns typedInsertions).result =
      .ok (.next sns') ∧
    (sns'.router.leafset false).entries.length = 1 ∧
    (sns'.router.leafset true).entries.length = 1 ∧
    commandStep .plain (.insertion SnNetEntry) .ideal sns' (ascii "show\n") =
      ⟨[.buffer (.acquire ()), .out (routerText sns'.router ++ ascii "\n"), .buffer (.release ())],
        .ok (.next sns')⟩ := by
  have hobs : (snNodeAtPort .plain .ideal (some ⟨.padded _ [1] 0⟩) (some ⟨.padded _ [1] 0⟩) 0
      true).result.toOption.map (fun started => started.map fun sns =>
        (commandLoop .plain (.insertion SnNetEntry) (fun _ => .ideal) sns
          typedInsertions).result.toOption.map fun control => control.next?.map fun sns' =>
            ((sns'.router.leafset false).entries.length,
              (sns'.router.leafset true).entries.length)) = some (some (some (some (1, 1)))) := by
    decide +kernel
  obtain ⟨started, hsns, hstarted⟩ := exists_ok_of_toOption_map hobs
  obtain ⟨sns, rfl, hsession⟩ := Option.map_eq_some_iff.1 hstarted
  obtain ⟨control, hloop, hcontrol⟩ := exists_ok_of_toOption_map hsession
  obtain ⟨sns', hnext, hlengths⟩ := Option.map_eq_some_iff.1 hcontrol
  obtain rfl := Control.next?_eq_some_iff.1 hnext
  obtain ⟨hleft, hright⟩ := Prod.mk.inj hlengths
  exact ⟨sns, sns', hsns, hloop, hleft, hright, show_prints .plain (.insertion SnNetEntry) hsns
    hloop (by decide) rfl⟩

/-! ### What is shown and what is done -/

/-- **What is shown tells how a router routes.** Two routers whose texts fit, and whose network
addresses have no newlines in their texts, show the same exactly when they have the same entries
shown at the same places. If moreover sixteen digits are enough for every address, they choose the
same next hops for every destination. -/
theorem routes_of_shown {q q' : Sorter SnNetEntry} {snr snr' : SnNetRouter} (h : Reachable q snr)
    (h' : Reachable q' snr') (hline : snr.OneLine) (hline' : snr'.OneLine)
    (hfits : (routerText snr).length < showBufferLen)
    (hfits' : (routerText snr').length < showBufferLen) (ans ans' : LineAnswers) :
    (shownText ans snr = shownText ans' snr' ↔ LooksAlike snr snr') ∧
    (LooksAlike snr snr' → snr.ShortAddrs → snr'.ShortAddrs → ∀ onRange dst, ∃ e e',
      snNetRouterNexthopFrom onRange snr dst = .ok e ∧
        snNetRouterNexthopFrom onRange snr' dst = .ok e' ∧ SameNode e e') := by
  have hinv := RouterInv.of_reachable h
  have hinv' := RouterInv.of_reachable h'
  constructor
  · rw [shownText_eq ans hfits, shownText_eq ans' hfits', Except.ok.injEq]
    exact routerText_eq_iff hinv hinv' hline hline'
  · intro hlooks hshort hshort' onRange dst
    exact ⟨_, _, snNetRouterNexthopFrom_eq hinv.self_isSet onRange dst,
      snNetRouterNexthopFrom_eq hinv'.self_isSet onRange dst,
      (hlooks.alike hinv hinv' hshort hshort').nexthopOf onRange dst⟩

/-- Two nodes, with some bytes behind the network address of the second. -/
def shownNodes (behind : UInt8) : List (SnNetAddr × Option SnIoNaddr) :=
  [(receiverAddr, some (inetNaddr 1111 [1, 1, 1, 1])),
    (.ofBytes [0x33], some ⟨afInet, .padded _ (htons 2222 ++ [2, 2, 2, 2]) behind⟩)]

/-- Routers to which the two nodes have been added in either order, and with other bytes that are
not shown. -/
theorem routes_of_shown_of_add : ∃ snr snr',
    routerOn4f5e22 ((shownNodes 0).map fun p => .add p.1 p.2) = .ok snr ∧
    routerOn4f5e22 ((shownNodes 7).reverse.map fun p => .add p.1 p.2) = .ok snr' ∧
    (snr.table 0 3).IsSet ∧ snr.table 0 3 ≠ snr'.table 0 3 ∧
    shownText .ideal snr = shownText .ideal snr' ∧
    ∀ onRange dst, ∃ e e', snNetRouterNexthopFrom onRange snr dst = .ok e ∧
      snNetRouterNexthopFrom onRange snr' dst = .ok e' ∧ SameNode e e' := by
  have hobs : (routerOn4f5e22 ((shownNodes 0).map fun p => .add p.1 p.2) >>= fun snr =>
      routerOn4f5e22 ((shownNodes 7).reverse.map fun p => .add p.1 p.2) >>= fun snr' =>
        .ok (decide (((snr.table 0 3).isSet ≠ 0 ∧ snr.table 0 3 ≠ snr'.table 0 3) ∧
          routerText snr = routerText snr' ∧ (routerText snr).length < showBufferLen))) =
      .ok true := by
    decide +kernel
  obtain ⟨snr, hrun, hrest⟩ := bind_eq_ok.1 hobs
  obtain ⟨snr', hrun', htrue⟩ := bind_eq_ok.1 hrest
  obtain ⟨⟨hset, hne⟩, htext, hfits⟩ := of_decide_eq_true (Except.ok.inj htrue)
  have hfits' : (routerText snr').length < showBufferLen := htext ▸ hfits
  -- Both routers know these two nodes only.
  have hplain : ∀ {order : List (SnNetAddr × Option SnIoNaddr)} {s : SnNetRouter},
      routerOn4f5e22 (order.map fun p => .add p.1 p.2) = .ok s →
      order.length ≤ snNetRouterLeafsetSize →
      (∀ a ∈ order, 10 ∉ naddrText (RouterOp.add a.1 a.2).entry.netAddr ∧
        (addrText (RouterOp.add a.1 a.2).entry.addr).length ≤ 16) → s.OneLine ∧ s.ShortAddrs := by
    intro order s hs hlen horder
    have hentries : ∀ e, s.SetEntry e → 10 ∉ naddrText e.netAddr ∧ (addrText e.addr).length ≤ 16 :=
      Built.forall_setEntry hs hlen horder
    refine ⟨?_, fun e he => (hentries e he).2⟩
    rintro e (he | rfl)
    · exact (hentries e he).1
    · rw [self_of_run hs]
      decide
  obtain ⟨hline, hshort⟩ := hplain hrun (by decide) (by decide +kernel)
  obtain ⟨hline', hshort'⟩ := hplain hrun' (by decide) (by decide +kernel)
  obtain ⟨hshown, hroutes⟩ := routes_of_shown (reachable_routerOn4f5e22 hrun)
    (reachable_routerOn4f5e22 hrun') hline hline' hfits hfits' .ideal .ideal
  have hsame : shownText .ideal snr = shownText .ideal snr' := by
    rw [shownText_eq _ hfits, shownText_eq _ hfits', htext]
  exact ⟨snr, snr', hrun, hrun', hset, hne, hsame, hroutes (hshown.1 hsame) hshort hshort'⟩

end SndNet
