import SndNet.Net.Router.Built
import SndNet.Prototype.Show

/-!
# A router that is too large to be shown

The table of a router has room for 960 nodes, and the lines of 600 of them do not fit into the
30000 bytes of the command `show` (`prototype/main.c`, lines 103–114). The length used is compared
with the length of the buffer only behind the last line of the table (`src/net/router.c`, lines
184–205), so that the size that is left wraps around before, and the next line is written behind the
buffer.

## Main definitions

* `SndNet.farDigits`, `SndNet.farAddr`: addresses for the slots of the first levels of the table.
* `SndNet.farCommands`: the commands that insert them.

## Main results

* `SndNet.shownText_of_not_room`: a text without room is written behind the buffer.
* `SndNet.show_overflows`: 600 commands after which the router cannot be shown.
-/

namespace SndNet

open BoundedPrint Ctype DottedQuad FallibleRun

variable {S : SignScheme} {q : Sorter SnNetEntry} {snr : SnNetRouter}

/-! ### A text without room -/

/-- The table has 1024 slots. -/
theorem length_setSlots_le_card (snr : SnNetRouter) : (setSlots snr).length ≤ 1024 := by
  refine (List.length_filter_le _ _).trans_eq ((List.length_product _ _).trans ?_)
  rw [List.length_finRange, List.length_finRange]
  rfl

/-- **A text without room** in front of its last line is written behind the buffer. -/
theorem shownText_of_not_room (ans : LineAnswers)
    (h : ¬ RoomBeforeLast showBufferLen (routerGroups snr)) :
    shownText ans snr = .error .outOfBounds := by
  have hprint := snNetRouterToStr_eq ans.selfStr snr showBufferLen
  rw [Traced.bind_pure] at hprint
  obtain ⟨c, hc, hlt⟩ : ∃ c ∈ (printGroups showBufferLen PrintStop.error
      (routerGroups snr) 0).events, showBufferLen < c.usedLen := by
    by_contra hnone
    have hle : ∀ c ∈ (printGroups showBufferLen PrintStop.error (routerGroups snr) 0).events,
        c.usedLen ≤ showBufferLen := fun c hc => Nat.le_of_not_lt fun hlt => hnone ⟨c, hc, hlt⟩
    exact h ((usedLen_le_iff (by decide)).1 hle)
  have hmax : c.usedLen < 2 ^ 64 := by
    have hle : c.usedLen ≤ 0 + (routerText snr).length := usedLen_le_of_mem_printGroups hc
    have htext := length_routerText_le snr
    have hslots := length_setSlots_le_card snr
    omega
  have hbounds : ¬ ((printGroups showBufferLen PrintStop.error (routerGroups snr) 0).events.all
      fun c => c.written.all fun i => i < showBufferLen) := by
    intro hall
    have hin := List.all_eq_true.1 (List.all_eq_true.1 hall c hc) c.usedLen
      (Call.mem_written_of_lt (size_eq_of_mem_printGroups hc) hlt hmax)
    exact absurd (of_decide_eq_true hin) (Nat.not_lt.2 hlt.le)
  simp only [shownText, hprint, printGroups_result (show 0 < showBufferLen by decide), Except.map]
  split_ifs
  · rfl
  · rfl

/-- Some lines of one length. -/
theorem length_flatten_eq {lines : List (List UInt8)} {n : ℕ} (h : ∀ s ∈ lines, s.length = n) :
    lines.flatten.length = lines.length * n := by
  induction lines with
  | nil => exact (Nat.zero_mul n).symm
  | cons s lines ih =>
    obtain ⟨hs, hlines⟩ := List.forall_mem_cons.1 h
    rw [List.flatten_cons, List.length_append, List.length_cons, Nat.succ_mul, Nat.add_comm, hs,
      ih hlines]

/-- A router with 600 set slots has no room when their lines have 54 characters. -/
theorem not_roomBeforeLast (hslots : 600 ≤ (setSlots snr).length)
    (hlines : ∀ i ∈ setSlots snr, (slotLine snr i).length = 54) :
    ¬ RoomBeforeLast showBufferLen (routerGroups snr) := by
  intro hroom
  have hbefore := length_beforeTable_le snr
  have hsplit : routerGroups snr = (routerGroups snr).take 4 ++
      (ascii "Routing table\n" :: tableLines snr) :: [] := rfl
  have hlt : ((routerGroups snr).take 4).flatten.flatten.length < showBufferLen :=
    hbefore.trans_lt (by decide)
  have hfits := hroom _ _ _ hsplit hlt
  obtain ⟨i, is, hcons⟩ : ∃ i is, setSlots snr = i :: is :=
    List.exists_cons_of_ne_nil fun hnil => by simp [hnil] at hslots
  have hlast : (ascii "Routing table\n" :: tableLines snr).dropLast.flatten.length =
      14 + ((tableLines snr).dropLast).flatten.length := by
    rw [tableLines_eq, hcons, List.map_cons, List.dropLast_cons_cons, List.flatten_cons,
      List.length_append]
    rfl
  have hmany : ((tableLines snr).dropLast).flatten.length = ((setSlots snr).length - 1) * 54 := by
    rw [tableLines_eq, ← List.map_dropLast, length_flatten_eq, List.length_map,
      List.length_dropLast]
    intro s hs
    obtain ⟨i, hi, rfl⟩ := List.mem_map.1 hs
    exact hlines i (List.mem_of_mem_dropLast hi)
  rw [hlast, hmany] at hfits
  change _ ≤ 30000 at hfits
  omega

/-! ### Addresses for many slots -/

/-- The digit that is `j + 1` above our own one at the level `l`. -/
def farDigit (self : SnNetAddr) (l j : ℕ) : ℕ :=
  (((snNetAddrGetHex self).getD l 0).toNat + j + 1) % 16

/-- The digits of an address that differs from our own first at the level `l`. -/
def farDigits (self : SnNetAddr) (l j : ℕ) : List UInt8 :=
  ((snNetAddrGetHex self).set l (.ofNat (farDigit self l j))).set 63 15

/-- The address with these digits. -/
def farAddr (self : SnNetAddr) (l j : ℕ) : SnNetAddr :=
  ⟨.padded _ (packDigits (farDigits self l j)) 0⟩

variable {self : SnNetAddr} {l j : ℕ}

theorem length_farDigits (self : SnNetAddr) (l j : ℕ) : (farDigits self l j).length = 64 := by
  rw [farDigits, List.length_set, List.length_set, length_snNetAddrGetHex]
  rfl

theorem farDigit_lt (self : SnNetAddr) (l j : ℕ) : farDigit self l j < 16 :=
  Nat.mod_lt _ (by decide)

/-- The slot of this address. -/
def farIndex (self : SnNetAddr) (p : Fin 40 × Fin 15) :
    Fin snNetRouterLevels × Fin snNetRouterColumns :=
  (⟨p.1, p.1.isLt.trans (by decide)⟩, ⟨farDigit self p.1 p.2, farDigit_lt self p.1 p.2⟩)

theorem toNat_farDigit (self : SnNetAddr) (l j : ℕ) :
    (UInt8.ofNat (farDigit self l j)).toNat = farDigit self l j :=
  UInt8.toNat_ofNat_of_lt' ((farDigit_lt self l j).trans (by decide))

theorem snNetAddrGetHex_farAddr (self : SnNetAddr) (l j : ℕ) :
    snNetAddrGetHex (farAddr self l j) = farDigits self l j := by
  have hdigits : ∀ d ∈ farDigits self l j, d < 16 := by
    intro d hd
    rcases List.mem_or_eq_of_mem_set hd with hd | rfl
    · rcases List.mem_or_eq_of_mem_set hd with hd | rfl
      · exact lt_of_mem_getHex hd
      · rw [UInt8.lt_iff_toNat_lt, toNat_farDigit]
        exact farDigit_lt self l j
    · decide
  rw [farAddr, snNetAddrGetHex_packDigits (length_farDigits self l j).le hdigits, length_farDigits]
  exact List.append_nil _

/-- The text of such an address has all its digits, since the last of them is not zero. -/
theorem length_addrText_farAddr (self : SnNetAddr) (l j : ℕ) :
    (addrText (farAddr self l j)).length = 64 := by
  have hne : (farDigits self l j).map printableDigit ≠ [] :=
    List.ne_nil_of_length_pos (by rw [List.length_map, length_farDigits]; decide)
  have hlast : ((farDigits self l j).map printableDigit).getLast hne = 102 := by
    have hlen : ((snNetAddrGetHex self).set l (.ofNat (farDigit self l j))).length = 64 := by
      rw [List.length_set, length_snNetAddrGetHex]
      rfl
    have hget : (farDigits self l j)[63]? = some 15 :=
      List.getElem?_set_self (by rw [hlen]; decide)
    rw [List.getLast_map, List.getLast_eq_getElem]
    simp only [length_farDigits]
    rw [List.getElem?_eq_getElem (by rw [length_farDigits]; decide)] at hget
    exact congrArg printableDigit (Option.some.inj hget)
  rw [addrText, snNetAddrGetHex_farAddr, List.rdropWhile_eq_self_iff.2 fun _ => by simp [hlast],
    List.length_map, length_farDigits]

theorem getElem?_farDigits (self : SnNetAddr) (h : l < 63) (j : ℕ) :
    (farDigits self l j)[l]? = some (.ofNat (farDigit self l j)) := by
  have hlen : l < (snNetAddrGetHex self).length := by
    rw [length_snNetAddrGetHex]
    exact h.trans (by decide)
  rw [farDigits, List.getElem?_set_ne (by omega), List.getElem?_set_self hlen]

/-- The digit at the level of such an address is not our own one. -/
theorem farDigit_ne (hl : l < (snNetAddrGetHex self).length) (hj : j < 15) :
    farDigit self l j ≠ (snNetAddrGetHex self)[l].toNat := by
  have hlt : (snNetAddrGetHex self)[l].toNat < 16 :=
    UInt8.lt_iff_toNat_lt.1 (lt_of_mem_getHex (List.getElem_mem hl))
  rw [farDigit, List.getD_eq_getElem _ _ hl]
  omega

theorem level_farAddr (self : SnNetAddr) (hl : l < 63) (hj : j < 15) :
    self.level (farAddr self l j) = l := by
  have hlen : (snNetAddrGetHex self).length = 64 := length_snNetAddrGetHex self
  have hfar := snNetAddrGetHex_farAddr self l j
  refine le_antisymm (Nat.le_of_not_lt fun hlt => ?_) ?_
  · -- One digit more would be our own one.
    have hdigit := @DigitWord.getElem_eq_of_lt_commonPrefix _ _ _ _ l hlt (by omega)
      (by rw [hfar, length_farDigits]; omega)
    have hget := getElem?_farDigits self hl j
    rw [← hfar, List.getElem?_eq_getElem (by rw [hfar, length_farDigits]; omega), ← hdigit] at hget
    have hl' : l < (snNetAddrGetHex self).length := by omega
    refine farDigit_ne hl' hj ?_
    rw [Option.some.inj hget, toNat_farDigit]
  · refine (DigitWord.le_commonPrefix_iff _ _ _).2 ⟨by omega, ?_, ?_⟩
    · rw [hfar, length_farDigits]
      omega
    · rw [hfar, farDigits, List.take_set_of_le (by omega), List.take_set_of_le le_rfl]

theorem hasIndex_farAddr (self : SnNetAddr) (p : Fin 40 × Fin 15) :
    HasIndex self (farAddr self p.1 p.2) (farIndex self p) := by
  have hl : p.1.val < 63 := p.1.isLt.trans (by decide)
  have hlevel := level_farAddr self hl p.2.isLt
  refine ⟨hlevel, ?_⟩
  rw [SnNetAddr.column, hlevel, snNetAddrGetHex_farAddr, getElem?_farDigits self hl,
    Option.getD_some, toNat_farDigit]
  rfl

theorem farIndex_injective (self : SnNetAddr) : Function.Injective (farIndex self) := by
  rintro ⟨l, j⟩ ⟨l', j'⟩ h
  obtain ⟨hl, hj⟩ := Prod.mk.inj h
  obtain rfl : l = l' := Fin.ext (Fin.mk.inj hl)
  have hdigit : farDigit self l j = farDigit self l j' := Fin.mk.inj hj
  have hlt : j.val < 15 := j.isLt
  have hlt' : j'.val < 15 := j'.isLt
  rw [farDigit, farDigit] at hdigit
  have hval : j.val = j'.val := by omega
  exact Prod.ext rfl (Fin.ext hval)

/-! ### The insertions -/

/-- A network address with the longest text. -/
def farNaddr : SnIoNaddr := inetNaddr 65535 [255, 255, 255, 255]

/-- The 600 slots of the first 40 levels. -/
def farSlots : List (Fin 40 × Fin 15) := (List.finRange 40).product (List.finRange 15)

/-- The commands that set these slots. -/
def farCommands (self : SnNetAddr) : List Command :=
  farSlots.map fun p => .insert (farAddr self p.1 p.2) farNaddr

/-- What these commands add. -/
def farOrder (self : SnNetAddr) : List (SnNetAddr × Option SnIoNaddr) :=
  farSlots.map fun p => (farAddr self p.1 p.2, some farNaddr)

theorem nodup_farSlots : farSlots.Nodup := (List.nodup_finRange _).product (List.nodup_finRange _)

theorem length_farSlots : farSlots.length = 600 := by
  refine (List.length_product _ _).trans ?_
  rw [List.length_finRange, List.length_finRange]

theorem typable_of_mem_farCommands {c : Command} (h : c ∈ farCommands self) : c.Typable := by
  obtain ⟨p, -, rfl⟩ := List.mem_map.1 h
  refine ⟨fun hzero => ?_, .inet rfl 65535⟩
  have hlen := length_addrText_farAddr self p.1 p.2
  rw [hzero] at hlen
  exact absurd hlen (by decide)

/-- The line of a slot that shows such an entry. -/
theorem length_slotLine_far {i : Fin snNetRouterLevels × Fin snNetRouterColumns}
    (h : snr.table i.1 i.2 = (RouterOp.add (farAddr self l j) (some farNaddr)).entry) :
    (slotLine snr i).length = 54 := by
  have htwo : ∀ n < 64, ((Decimal.text n).leftpad 2 32).length = 2 := by decide
  have hlevel : ((Decimal.text i.1).leftpad 2 32).length = 2 := htwo _ i.1.isLt
  have hcolumn : ((Decimal.text i.2).leftpad 2 32).length = 2 :=
    htwo _ (i.2.isLt.trans (by decide))
  have hnaddr : (naddrText farNaddr).length = 26 := by
    rw [naddrText, farNaddr, snIoNaddrToStr_inet rfl]
    decide
  have hentry : (entryString (snr.table i.1 i.2) 16).length = 43 := by
    have haddr : ((addrText (farAddr self l j)).take 16).length = 16 := by
      rw [List.length_take, length_addrText_farAddr]
      rfl
    have hset : (RouterOp.add (farAddr self l j) (some farNaddr)).entry.isSet ≠ 0 := by
      simp [RouterOp.entry]
    rw [h, entryString, if_neg hset, List.length_append, List.length_append]
    change ((addrText (farAddr self l j)).take 16).length + _ + (naddrText farNaddr).length = _
    rw [haddr, hnaddr]
    rfl
  simp only [slotLine, tableLine, List.length_append, hlevel, hcolumn, hentry,
    show (ascii "\t[").length = 2 by decide, show (ascii "][").length = 2 by decide,
    show (ascii "]:").length = 2 by decide, show (ascii "\n").length = 1 by decide]

/-- The router after these additions is too large. -/
theorem shownText_far {selfNetAddr : Option SnIoNaddr} (ans : LineAnswers)
    (hrun : run (routerStep q) (snNetRouterInit self selfNetAddr)
      ((farOrder self).map fun p => .add p.1 p.2) = .ok snr) :
    shownText ans snr = .error .outOfBounds := by
  have hbuilt := Built.of_run hrun
  have hself : snr.self.addr = self := by rw [self_of_run hrun]; rfl
  have hset : farSlots.map (farIndex self) ⊆ setSlots snr := by
    intro i hi
    obtain ⟨p, hp, rfl⟩ := List.mem_map.1 hi
    have hindex := hasIndex_farAddr self p
    have hne : snr.self.addr ≠
        (RouterOp.add (farAddr self p.1 p.2) (some farNaddr)).entry.addr := by
      rw [hself]
      exact hindex.ne
    have hslot := hbuilt.slot_isSet _ (List.mem_map.2 ⟨_, List.mem_map.2 ⟨p, hp, rfl⟩, rfl⟩) hne
    have htable : tableIndex hne = farIndex self p := by
      refine (hasIndex_iff hne).1 ?_
      rw [hself]
      exact hindex
    rw [SnNetRouter.slotOf, htable] at hslot
    exact mem_setSlots.2 hslot
  refine shownText_of_not_room ans (not_roomBeforeLast ?_ fun i hi => ?_)
  · have hnodup := nodup_farSlots.map (farIndex_injective self)
    have hlen := (List.subperm_of_subset hnodup hset).length_le
    rwa [List.length_map, length_farSlots] at hlen
  · obtain ⟨_, hmem, hent⟩ := List.mem_map.1 (hbuilt.slot_mem _ _ (mem_setSlots.1 hi))
    obtain ⟨p, -, rfl⟩ := List.mem_map.1 hmem
    exact length_slotLine_far hent.symm

/-- **The command `show` writes outside its buffer** after 600 insertions that a user can type,
whatever the own address of the node is, as long as it is not the address of zero bytes. -/
theorem show_overflows (S : SignScheme) (q : Sorter SnNetEntry) {start : PortAnswers}
    {sk : SnCryptoSignKey} {pk : SnCryptoSignPubkey} {port : UInt16} {sns : SnNode}
    (hstart : (snNodeAtPort S start (some sk) (some pk) port true).result = .ok (some sns))
    (hzero : SnNetAddr.mk pk.pk ≠ .zero) :
    ∃ commands : List Command, (∀ c ∈ commands, c.Typable) ∧ commands.length = 600 ∧
      ∀ ans, ∃ sns', (commandLoop S q ans sns (commands.flatMap Command.line)).result =
          .ok (.next sns') ∧
        ∀ a : LineAnswers, a.malloc →
          (commandStep S q a sns' (ascii "show\n")).result = .error .outOfBounds := by
  obtain ⟨_, hstarted⟩ := started_of_snNodeAtPort rfl hstart
  obtain ⟨selfNet, hrouter⟩ := hstarted.router_eq
  have hself : SnNetAddr.mk pk.pk = sns.self := Option.some.inj hstarted.self_eq
  rw [hself] at hzero
  obtain ⟨snr, hrun⟩ : ∃ snr, run (routerStep q) (snNetRouterInit sns.self selfNet)
      ((farOrder sns.self).map fun p => .add p.1 p.2) = .ok snr := by
    refine exists_run_of_ne_zero hzero selfNet fun op hop => ?_
    obtain ⟨added, hadded, rfl⟩ := List.mem_map.1 hop
    obtain ⟨p, -, rfl⟩ := List.mem_map.1 hadded
    exact (hasIndex_farAddr sns.self p).ne.symm
  refine ⟨farCommands sns.self, fun c => typable_of_mem_farCommands, ?_, fun ans =>
    ⟨{ sns with router := snr }, ?_, fun a hmalloc => ?_⟩⟩
  · rw [farCommands, List.length_map, length_farSlots]
  · have horder : run (routerStep q) sns.router ((farSlots.map fun p =>
        (farAddr sns.self p.1 p.2, farNaddr)).map fun p => .add p.1 (some p.2)) = .ok snr := by
      rw [hrouter, List.map_map]
      rwa [farOrder, List.map_map] at hrun
    have hcommands : (farSlots.map fun p => (farAddr sns.self p.1 p.2, farNaddr)).map
        (fun p => Command.insert p.1 p.2) = farCommands sns.self := List.map_map
    have htypable := List.forall_mem_map.1 fun c hc =>
      typable_of_mem_farCommands (hcommands ▸ hc : c ∈ farCommands sns.self)
    rw [← hcommands]
    exact commandLoop_insert ans htypable horder
  · have hstep : commandStep S q a { sns with router := snr } (ascii "show\n") =
        showCommand a { sns with router := snr } := rfl
    rw [hstep, showCommand, if_pos hmalloc, shownText_far a hrun]
    rfl

/-- The node with the key 1 cannot show its router after 600 insertions. -/
theorem show_overflows_ideal : ∃ sns sns' : SnNode, ∃ commands : List Command,
    (snNodeAtPort .plain .ideal (some ⟨.padded _ [1] 0⟩) (some ⟨.padded _ [1] 0⟩) 0 true).result =
      .ok (some sns) ∧ (∀ c ∈ commands, c.Typable) ∧ commands.length = 600 ∧
    (commandLoop .plain (.insertion SnNetEntry) (fun _ => .ideal) sns
      (commands.flatMap Command.line)).result = .ok (.next sns') ∧
    (commandStep .plain (.insertion SnNetEntry) .ideal sns' (ascii "show\n")).result =
      .error .outOfBounds := by
  obtain ⟨sns, hsns⟩ := @exists_snNodeAtPort_ideal .plain ⟨.padded _ [1] 0⟩
    (some ⟨.padded _ [1] 0⟩) 0 true
  obtain ⟨commands, htypable, hlen, hsession⟩ := show_overflows .plain (.insertion SnNetEntry)
    hsns (by decide)
  obtain ⟨sns', hloop, hshow⟩ := hsession fun _ => .ideal
  exact ⟨sns, sns', commands, hsns, htypable, hlen, hloop, hshow .ideal rfl⟩

end SndNet
