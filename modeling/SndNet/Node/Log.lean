import SndNet.Library.Lines
import SndNet.Net.Addr.Hex
import SndNet.Net.Router.Text
import SndNet.Node.Memory

/-!
# The log as text

`sn_node_log` (`src/node.c`, lines 187–199) prints a line into a buffer of 1024 bytes and hands it
to the callback. What a reader of these texts learns about a node is how its packets travel: a text
with a heading of its own follows every datagram that is sent, and another one comes before every
upcall. The addresses of a packet, its time to live, its type and its length can be read off them,
and of a message that is delivered what comes before its first zero, at least 800 characters of it.

## Main definitions

* `SndNet.LogLine.text`, `SndNet.logStr`: a line as it is formatted, and as the callback gets it.
* `SndNet.LogLine.sent`, `SndNet.LogLine.delivered`: the packets that a line tells of.
* `SndNet.Accounted`: events with all their packets in the log.

## Main results

* `SndNet.accounted_run`: what a node does is in its log.
* `SndNet.traffic_of_log`: runs with the same log have sent and delivered the same packets.
-/

namespace SndNet

open Ctype CString Lines SnWireNetHeader

/-! ### Turns -/

namespace Turn

/-- The node that makes a turn. -/
def node : Turn → SnNode
  | round r _ => r.sns
  | call sns _ _ _ _ => sns

/-- Where the packet of a turn comes from. -/
def origin : Turn → Option SnIoNaddr
  | round r _ => some r.remAddr
  | call _ _ _ _ _ => none

end Turn

/-! ### The texts -/

/-- `SN_NET_PACKET_PRINTABLE_LEN`. -/
abbrev snNetPacketPrintableLen : ℕ := 25 + 3 * 5 + 2 * snNetAddrPrintableLen

/-- The text of a header (`src/net/packet.c`, lines 150–156). -/
def HeaderText.text (header : HeaderText) : List UInt8 :=
  labelled (ascii "dst:") header.dst ++ (labelled (ascii "src:") header.src ++
    (labelled (ascii "ttl:") (Decimal.text header.ttl.toNat) ++
      (labelled (ascii "type:") (Decimal.text header.type.toNat) ++
        labelled (ascii "len:") (Decimal.text header.len.toNat))))

/-- What `sn_net_packet_header_to_str` leaves in its buffer. -/
def headerOutStr (header : HeaderText) : List UInt8 :=
  snprintf snNetPacketPrintableLen header.text

/-- The text of the network address that a packet came from. -/
def remAddrStr : Option SnIoNaddr → List UInt8
  | some remAddr => naddrText remAddr
  | none => ascii "THIS"

/-- The text of a line of the log (`src/node.c`, lines 97, 263–268, 306–311, 337, 344–349
and 379–384). -/
def LogLine.text : LogLine → List UInt8
  | badSignedMsg sentFrom header =>
    ascii "Bad signed msg:\n" ++ (labelled (ascii "sent from ") (naddrText sentFrom) ++
      (headerOutStr header ++ ascii "REJECTED\n"))
  | packetWithoutTtl cameFrom src dst =>
    ascii "packet without TTL\n" ++ (labelled (ascii "came from ") (remAddrStr cameFrom) ++
      (labelled (ascii "src: ") src ++ labelled (ascii "dst: ") dst))
  | errorSendingPacket cameFrom => labelled (ascii "ERROR sending packet to ") (remAddrStr cameFrom)
  | packetForward cameFrom header forwardedTo =>
    ascii "packet forward\n" ++ (labelled (ascii "came from ") (remAddrStr cameFrom) ++
      (headerOutStr header ++
        labelled (ascii "Forwarded to ") ((entryOutStr forwardedTo).getD [])))
  | packetDeliver cameFrom header payload =>
    ascii "packet deliver\n" ++ (labelled (ascii "came from ") (remAddrStr cameFrom) ++
      (headerOutStr header ++ (10 :: (payload ++ [10]))))
  | errorWhileStartingThread => ascii "Error while starting thread"

/-- What the callback gets (`src/node.c`, lines 187–199). -/
def logStr (line : LogLine) : List UInt8 := snprintf 1024 line.text

/-! ### What is shown of a packet -/

/-- What is shown of a header: everything but the signature. -/
def SnWireNetHeader.shown (header : SnWireNetHeader) : HeaderText :=
  ⟨addrText (snNetAddrDeser header.dst), addrText (snNetAddrDeser header.src), header.ttl,
    header.type, header.len⟩

/-- The header of a datagram without its signature. -/
def Datagram.unsigned (d : Datagram) : SnWireNetHeader :=
  { ofMem (.padded size d.bytes 0) with sign := ⟨.replicate _ 0⟩ }

/-- What is shown of a datagram: its header, and the text of the network address it is sent to. -/
def Datagram.shown (d : Datagram) : HeaderText × List UInt8 :=
  (d.unsigned.shown, naddrText d.dst)

/-- What is shown of a message: 800 characters at most, up to the first zero, and the length. What
is behind a zero is not shown. -/
def shownMessage (msg : List UInt8) : List UInt8 × ℕ := ((cString msg).take 800, msg.length)

namespace LogLine

/-- The datagram that has been sent in front of a line. -/
def sent : LogLine → List (HeaderText × List UInt8)
  | packetForward _ header (some (_, netAddr)) => [(header, naddrText netAddr)]
  | _ => []

/-- The message that is handed to an upcall behind a line. -/
def delivered : LogLine → List (List UInt8 × ℕ)
  | packetDeliver _ header payload =>
    if header.type = snWireNetTypeUser then
      [((payload.take header.len.toNat).take 800, header.len.toNat)]
    else []
  | _ => []

end LogLine

/-- The lines of the log among the events of a node. -/
def linesOf (ws : List NodeEvent) : List LogLine :=
  ws.filterMap fun w => match w with
    | .log line => some line
    | _ => none

/-- What the callback of a node gets. -/
def logOf (ws : List NodeEvent) : List (List UInt8) := (linesOf ws).map logStr

/-- Different headers look different, apart from the signature. -/
theorem unsigned_eq_of_shown {d d' : Datagram} (h : d.unsigned.shown = d'.unsigned.shown) :
    d.unsigned = d'.unsigned := by
  obtain ⟨hdst, hsrc, httl, htype, hlen⟩ := HeaderText.mk.inj h
  have haddr : ∀ {a b : SnNetAddrSer}, addrText (snNetAddrDeser a) = addrText (snNetAddrDeser b) →
      a = b := fun heq => congrArg snNetAddrSer (addrText_injective heq)
  exact (SnWireNetHeader.mk.injEq ..).mpr ⟨hlen, httl, haddr hsrc, rfl, haddr hdst, htype⟩

theorem shown_datagram (packet : SnNetPacket) (dst : SnIoNaddr) :
    Datagram.shown ⟨dst, packet.datagram⟩ = (headerText packet, naddrText dst) := by
  have hmem : CArray.padded size packet.datagram 0 =
      ⟨packet.header.mem, packet.header.length_mem⟩ := by
    have hnone : size - packet.datagram.length = 0 := by
      rw [packet.length_datagram]
      omega
    refine Subtype.ext ?_
    change packet.datagram.take size ++ List.replicate (size - packet.datagram.length) 0 = _
    rw [hnone, List.replicate_zero, List.append_nil, packet.datagram_eq,
      List.take_left' packet.header.length_mem]
  rw [Datagram.shown, Datagram.unsigned, hmem, ofMem_mem]
  rfl

/-- What is shown of the message of a packet is what is shown of the packet. -/
theorem shownMessage_message (packet : SnNetPacket) : shownMessage packet.message =
    (((cString packet.payload).take packet.header.len.toNat).take 800,
      packet.header.len.toNat) := by
  rw [shownMessage, packet.length_message, SnNetPacket.message, cString, cString]
  simp only [List.take_takeWhile]

/-! ### Reading a header -/

/-- A header whose addresses are printed in at most 64 characters other than a newline. -/
structure HeaderText.Plain (header : HeaderText) : Prop where
  dst_plain : 10 ∉ header.dst
  src_plain : 10 ∉ header.src
  length_dst_le : header.dst.length ≤ 64
  length_src_le : header.src.length ≤ 64

theorem plain_headerText (packet : SnNetPacket) : (headerText packet).Plain where
  dst_plain := notMem_addrText (by decide) _
  src_plain := notMem_addrText (by decide) _
  length_dst_le := length_addrText_le _
  length_src_le := length_addrText_le _

variable {header header' : HeaderText}

/-- The text of a header fits into its buffer. -/
theorem HeaderText.Plain.length_text_le (h : header.Plain) : header.text.length ≤ 165 := by
  have hdst := h.length_dst_le
  have hsrc := h.length_src_le
  have httl : (Decimal.text header.ttl.toNat).length ≤ 3 :=
    Decimal.length_text_le (by decide) (header.ttl.toNat_lt.trans_le (by decide))
  have htype : (Decimal.text header.type.toNat).length ≤ 3 :=
    Decimal.length_text_le (by decide) (header.type.toNat_lt.trans_le (by decide))
  have hlen : (Decimal.text header.len.toNat).length ≤ 5 :=
    Decimal.length_text_le (by decide) (header.len.toNat_lt.trans_le (by decide))
  simp only [HeaderText.text, List.length_append, length_labelled,
    show (ascii "dst:").length = 4 by decide, show (ascii "src:").length = 4 by decide,
    show (ascii "ttl:").length = 4 by decide, show (ascii "type:").length = 5 by decide,
    show (ascii "len:").length = 4 by decide]
  omega

theorem HeaderText.Plain.headerOutStr_eq (h : header.Plain) :
    headerOutStr header = header.text :=
  snprintf_of_lt (h.length_text_le.trans_lt (by decide))

/-- **The text of a header determines it**, whatever comes behind. -/
theorem HeaderText.Plain.text_append_inj (h : header.Plain) (h' : header'.Plain)
    {u v : List UInt8} : header.text ++ u = header'.text ++ v ↔ header = header' ∧ u = v := by
  refine ⟨fun heq => ?_, fun ⟨hheader, huv⟩ => by rw [hheader, huv]⟩
  simp only [HeaderText.text, List.append_assoc] at heq
  obtain ⟨hdst, heq⟩ := (labelled_append_inj h.dst_plain h'.dst_plain).1 heq
  obtain ⟨hsrc, heq⟩ := (labelled_append_inj h.src_plain h'.src_plain).1 heq
  obtain ⟨httl, heq⟩ := (labelled_append_inj (Decimal.notMem_text (by decide) _)
    (Decimal.notMem_text (by decide) _)).1 heq
  obtain ⟨htype, heq⟩ := (labelled_append_inj (Decimal.notMem_text (by decide) _)
    (Decimal.notMem_text (by decide) _)).1 heq
  obtain ⟨hlen, huv⟩ := (labelled_append_inj (Decimal.notMem_text (by decide) _)
    (Decimal.notMem_text (by decide) _)).1 heq
  refine ⟨?_, huv⟩
  obtain ⟨dst, src, ttl, type, len⟩ := header
  exact (HeaderText.mk.injEq ..).mpr ⟨hdst, hsrc, UInt8.toNat_inj.1 (Decimal.text_injective httl),
    UInt8.toNat_inj.1 (Decimal.text_injective htype),
    UInt16.toNat_inj.1 (Decimal.text_injective hlen)⟩

/-! ### Reading a line -/

/-- What two lines have in common: a heading, where the packet came from, and its header. -/
def front (heading : List UInt8) (cameFrom : Option SnIoNaddr) (header : HeaderText) :
    List UInt8 :=
  heading ++ (labelled (ascii "came from ") (remAddrStr cameFrom) ++ header.text)

variable {cameFrom cameFrom' : Option SnIoNaddr} {heading : List UInt8}

theorem length_remAddrStr_lt (cameFrom : Option SnIoNaddr) : (remAddrStr cameFrom).length < 28 := by
  cases cameFrom with
  | none => decide
  | some remAddr => exact length_naddrText_lt remAddr

theorem length_front_le (h : header.Plain) (hheading : heading.length = 15) :
    (front heading cameFrom header).length ≤ 218 := by
  have hcame := length_remAddrStr_lt cameFrom
  have hheader := h.length_text_le
  simp only [front, List.length_append, length_labelled, hheading,
    show (ascii "came from ").length = 10 by decide]
  omega

theorem front_append_inj (h : header.Plain) (h' : header'.Plain) (hcame : 10 ∉ remAddrStr cameFrom)
    (hcame' : 10 ∉ remAddrStr cameFrom') {u v : List UInt8}
    (heq : front heading cameFrom header ++ u = front heading cameFrom' header' ++ v) :
    front heading cameFrom header = front heading cameFrom' header' ∧ header = header' ∧ u = v := by
  simp only [front, List.append_assoc] at heq ⊢
  obtain ⟨hrem, heq⟩ := (labelled_append_inj hcame hcame').1 (List.append_cancel_left heq)
  obtain ⟨rfl, huv⟩ := (h.text_append_inj h').1 heq
  exact ⟨by rw [hrem], rfl, huv⟩

/-- The beginning of a text that is cut off near its end. -/
theorem take_eq_of_take_concat {s t : List UInt8} {c : UInt8} {k n : ℕ} (hk : k < n)
    (h : (s ++ [c]).take n = (t ++ [c]).take n) : s.take k = t.take k := by
  have hlen := congrArg List.length h
  simp only [List.length_take, List.length_append, List.length_singleton] at hlen
  by_cases hs : s.length + 1 < n
  · -- Both texts are complete.
    rw [List.take_of_length_le (by simpa using hs.le),
      List.take_of_length_le (by rw [List.length_append, List.length_singleton]; omega)] at h
    rw [List.append_cancel_right h]
  · have hcut : ∀ {w : List UInt8}, n ≤ w.length + 1 →
        ((w ++ [c]).take n).take k = w.take k := by
      intro w hw
      rw [List.take_take, min_eq_left hk.le, List.take_append_of_le_length (by omega)]
    rw [← hcut (show n ≤ s.length + 1 by omega), h, hcut (by omega)]

/-- The lines that tell of packets: all that is used of them when the log is read. -/
def LogLine.Genuine : LogLine → Prop
  | packetForward cameFrom header forwardedTo =>
    10 ∉ remAddrStr cameFrom ∧ header.Plain ∧ ∃ e : SnNetEntry, e.IsSet ∧ forwardedTo = entryText e
  | packetDeliver cameFrom header _ => 10 ∉ remAddrStr cameFrom ∧ header.Plain
  | _ => True

/-- The text of a next hop, with the text of its network address behind its address. -/
theorem entryOutStr_entryText {e : SnNetEntry} (he : e.IsSet) :
    (entryOutStr (entryText e)).getD [] = addrText e.addr ++ 64 :: naddrText e.netAddr := by
  have hprint := @entryToStr_eq e snNetAddrHexLen (by decide) (by decide)
  rw [entryToStr, snNetEntryToStr_eq, FallibleRun.ok_bind] at hprint
  have hout : entryOutStr (entryText e) = some (entryString e snNetAddrHexLen) :=
    Except.ok.inj hprint
  rw [hout, Option.getD_some, entryString, if_neg he, List.take_of_length_le (length_addrText_le _),
    List.append_assoc]
  rfl

theorem entryText_of_isSet {e : SnNetEntry} (he : e.IsSet) :
    entryText e = some ((addrText e.addr).take snNetAddrHexLen, e.netAddr) := if_neg he

theorem forward_text (h : header.Plain) (cameFrom : Option SnIoNaddr) {e : SnNetEntry}
    (he : e.IsSet) : logStr (.packetForward cameFrom header (entryText e)) =
      front (ascii "packet forward\n") cameFrom header ++
        labelled (ascii "Forwarded to ") (addrText e.addr ++ 64 :: naddrText e.netAddr) := by
  have haddr : (addrText e.addr).length ≤ 64 := length_addrText_le e.addr
  have hnaddr : (naddrText e.netAddr).length < 28 := length_naddrText_lt e.netAddr
  have hfront := @length_front_le header cameFrom (ascii "packet forward\n") h (by decide)
  have htext : (LogLine.packetForward cameFrom header (entryText e)).text =
      front (ascii "packet forward\n") cameFrom header ++
        labelled (ascii "Forwarded to ") (addrText e.addr ++ 64 :: naddrText e.netAddr) := by
    simp only [LogLine.text, front, entryOutStr_entryText he, h.headerOutStr_eq, List.append_assoc]
  rw [logStr, htext]
  refine snprintf_of_lt ?_
  simp only [List.length_append, length_labelled, List.length_cons,
    show (ascii "Forwarded to ").length = 13 by decide]
  omega

theorem deliver_text (h : header.Plain) (cameFrom : Option SnIoNaddr) (payload : List UInt8) :
    ∃ n, (front (ascii "packet deliver\n") cameFrom header).length + n = 1022 ∧ 804 ≤ n ∧
      logStr (.packetDeliver cameFrom header payload) =
        front (ascii "packet deliver\n") cameFrom header ++ 10 :: (payload ++ [10]).take n := by
  have hfront := @length_front_le header cameFrom (ascii "packet deliver\n") h (by decide)
  refine ⟨1022 - (front (ascii "packet deliver\n") cameFrom header).length, by omega, by omega, ?_⟩
  have htext : (LogLine.packetDeliver cameFrom header payload).text =
      front (ascii "packet deliver\n") cameFrom header ++ 10 :: (payload ++ [10]) := by
    simp only [LogLine.text, front, h.headerOutStr_eq, List.append_assoc]
  rw [logStr, htext, snprintf, List.take_append, List.take_of_length_le (by omega),
    show 1024 - 1 - (front (ascii "packet deliver\n") cameFrom header).length =
      1022 - (front (ascii "packet deliver\n") cameFrom header).length + 1 by omega,
    List.take_succ_cons]

/-- **A line of a sent packet** tells which one. -/
theorem sent_of_forward_text {e e' : SnNetEntry}
    (h : (LogLine.packetForward cameFrom header (entryText e)).Genuine)
    (h' : (LogLine.packetForward cameFrom' header' (entryText e')).Genuine) (he : e.IsSet)
    (he' : e'.IsSet) (hstr : logStr (.packetForward cameFrom header (entryText e)) =
      logStr (.packetForward cameFrom' header' (entryText e'))) :
    header = header' ∧ naddrText e.netAddr = naddrText e'.netAddr := by
  obtain ⟨hcame, hplain, -⟩ := h
  obtain ⟨hcame', hplain', -⟩ := h'
  rw [forward_text hplain cameFrom he, forward_text hplain' cameFrom' he'] at hstr
  obtain ⟨-, rfl, hlast⟩ := front_append_inj hplain hplain' hcame hcame' hstr
  have hat : ∀ a : SnNetAddr, 64 ∉ addrText a := notMem_addrText (by decide)
  have hhop := List.append_cancel_right (List.append_cancel_left hlast)
  exact ⟨rfl, ((append_sep_inj (hat _) (hat _)).1 hhop).2⟩

/-- **A line of a delivered packet** tells which one, and how its message begins. -/
theorem delivered_of_deliver_text {payload payload' : List UInt8}
    (h : (LogLine.packetDeliver cameFrom header payload).Genuine)
    (h' : (LogLine.packetDeliver cameFrom' header' payload').Genuine)
    (hstr : logStr (.packetDeliver cameFrom header payload) =
      logStr (.packetDeliver cameFrom' header' payload')) :
    header = header' ∧ payload.take 800 = payload'.take 800 := by
  obtain ⟨hcame, hplain⟩ := h
  obtain ⟨hcame', hplain'⟩ := h'
  obtain ⟨n, hn, hle, htext⟩ := deliver_text hplain cameFrom payload
  obtain ⟨n', hn', -, htext'⟩ := deliver_text hplain' cameFrom' payload'
  rw [htext, htext'] at hstr
  obtain ⟨hfront, rfl, hrest⟩ := front_append_inj hplain hplain' hcame hcame' hstr
  rw [hfront] at hn
  obtain rfl : n = n' := by omega
  exact ⟨rfl, take_eq_of_take_concat (by omega) (List.tail_eq_of_cons_eq hrest)⟩

/-- A line is of a sent packet, of a delivered one, or tells of none and has another heading. -/
theorem LogLine.kinds (line : LogLine) :
    (∃ cameFrom header forwardedTo, line = .packetForward cameFrom header forwardedTo) ∨
    (∃ cameFrom header payload, line = .packetDeliver cameFrom header payload) ∨
    line.sent = [] ∧ line.delivered = [] ∧
      (logStr line).take 8 ∉ [ascii "packet f", ascii "packet d"] := by
  have hcut : ∀ u : List UInt8, (snprintf 1024 u).take 8 = u.take 8 := fun u => by
    rw [snprintf, List.take_take]
    rfl
  cases line with
  | packetForward cameFrom header forwardedTo => exact Or.inl ⟨_, _, _, rfl⟩
  | packetDeliver cameFrom header payload => exact Or.inr (Or.inl ⟨_, _, _, rfl⟩)
  | badSignedMsg sentFrom header =>
    refine Or.inr (Or.inr ⟨rfl, rfl, ?_⟩)
    rw [logStr, hcut, LogLine.text, List.take_append_of_le_length (by decide)]
    decide
  | packetWithoutTtl cameFrom src dst =>
    refine Or.inr (Or.inr ⟨rfl, rfl, ?_⟩)
    rw [logStr, hcut, LogLine.text, List.take_append_of_le_length (by decide)]
    decide
  | errorSendingPacket cameFrom =>
    refine Or.inr (Or.inr ⟨rfl, rfl, ?_⟩)
    rw [logStr, hcut, LogLine.text, labelled, List.take_append_of_le_length (by decide)]
    decide
  | errorWhileStartingThread =>
    refine Or.inr (Or.inr ⟨rfl, rfl, ?_⟩)
    rw [logStr, hcut]
    decide

theorem take_forward_text (h : header.Plain) (cameFrom : Option SnIoNaddr) {e : SnNetEntry}
    (he : e.IsSet) :
    (logStr (.packetForward cameFrom header (entryText e))).take 8 = ascii "packet f" := by
  rw [forward_text h cameFrom he, front, List.append_assoc,
    List.take_append_of_le_length (by decide)]
  decide

theorem take_deliver_text (h : header.Plain) (cameFrom : Option SnIoNaddr)
    (payload : List UInt8) :
    (logStr (.packetDeliver cameFrom header payload)).take 8 = ascii "packet d" := by
  obtain ⟨n, -, -, htext⟩ := deliver_text h cameFrom payload
  rw [htext, front, List.append_assoc, List.take_append_of_le_length (by decide)]
  decide

/-- **Reading a line.** The text of a line tells of which packet it is, if of any. -/
theorem sent_delivered_of_logStr {line line' : LogLine} (h : line.Genuine) (h' : line'.Genuine)
    (hstr : logStr line = logStr line') :
    line.sent = line'.sent ∧ line.delivered = line'.delivered := by
  have hhead := congrArg (List.take 8) hstr
  rcases line.kinds with ⟨cameFrom, header, fwd, rfl⟩ | ⟨cameFrom, header, payload, rfl⟩ |
    ⟨hsent, hdel, hnot⟩
  · obtain ⟨-, hplain, e, he, rfl⟩ := id h
    rw [take_forward_text hplain cameFrom he] at hhead
    rcases line'.kinds with ⟨cameFrom', header', fwd', rfl⟩ | ⟨cameFrom', header', payload', rfl⟩ |
      ⟨-, -, hnot'⟩
    · obtain ⟨-, -, e', he', rfl⟩ := id h'
      obtain ⟨rfl, hnaddr⟩ := sent_of_forward_text h h' he he' hstr
      refine ⟨?_, rfl⟩
      rw [entryText_of_isSet he, entryText_of_isSet he', LogLine.sent, LogLine.sent, hnaddr]
    · rw [take_deliver_text h'.2 cameFrom' payload'] at hhead
      exact absurd hhead (by decide)
    · rw [← hhead] at hnot'
      exact absurd List.mem_cons_self hnot'
  · rw [take_deliver_text h.2 cameFrom payload] at hhead
    rcases line'.kinds with ⟨cameFrom', header', fwd', rfl⟩ | ⟨cameFrom', header', payload', rfl⟩ |
      ⟨-, -, hnot'⟩
    · obtain ⟨-, hplain', e', he', rfl⟩ := h'
      rw [take_forward_text hplain' cameFrom' he'] at hhead
      exact absurd hhead (by decide)
    · obtain ⟨rfl, hpayload⟩ := delivered_of_deliver_text h h' hstr
      refine ⟨rfl, ?_⟩
      have hmessage : ∀ p : List UInt8, (p.take header.len.toNat).take 800 =
          (p.take 800).take header.len.toNat := fun p => by
        rw [List.take_take, List.take_take, min_comm]
      rw [LogLine.delivered, LogLine.delivered, hmessage, hmessage, hpayload]
    · rw [← hhead] at hnot'
      exact absurd (List.mem_cons_of_mem _ List.mem_cons_self) hnot'
  · rcases line'.kinds with ⟨cameFrom', header', fwd', rfl⟩ | ⟨cameFrom', header', payload', rfl⟩ |
      ⟨hsent', hdel', -⟩
    · obtain ⟨-, hplain', e', he', rfl⟩ := h'
      rw [hhead, take_forward_text hplain' cameFrom' he'] at hnot
      exact absurd List.mem_cons_self hnot
    · rw [hhead, take_deliver_text h'.2 cameFrom' payload'] at hnot
      exact absurd (List.mem_cons_of_mem _ List.mem_cons_self) hnot
    · rw [hsent, hdel, hsent', hdel']
      exact ⟨rfl, rfl⟩

/-! ### What is in the log -/

/-- Events with all their packets in the log. The messages are there when the node has an upcall. -/
structure Accounted (up : Prop) (ws : List NodeEvent) : Prop where
  genuine : ∀ line ∈ linesOf ws, line.Genuine
  sent_eq : (linesOf ws).flatMap LogLine.sent = (sentOf ws).map Datagram.shown
  delivered_eq : up → (linesOf ws).flatMap LogLine.delivered = (upcallsOf ws).map shownMessage

namespace Accounted

variable {up up' : Prop} {ws ws' : List NodeEvent}

theorem nil : Accounted up [] := ⟨fun _ h => absurd h List.not_mem_nil, rfl, fun _ => rfl⟩

theorem append (h : Accounted up ws) (h' : Accounted up ws') : Accounted up (ws ++ ws') where
  genuine line hline := by
    rw [linesOf, List.filterMap_append] at hline
    exact (List.mem_append.1 hline).elim (h.genuine line) (h'.genuine line)
  sent_eq := by
    have hsent := congrArg₂ (· ++ ·) h.sent_eq h'.sent_eq
    simpa only [linesOf, sentOf, List.filterMap_append, List.flatMap_append, List.map_append]
      using hsent
  delivered_eq hup := by
    have hdel := congrArg₂ (· ++ ·) (h.delivered_eq hup) (h'.delivered_eq hup)
    simpa only [linesOf, upcallsOf, List.filterMap_append, List.flatMap_append, List.map_append]
      using hdel

theorem mono (h : Accounted up ws) (hup : up' → up) : Accounted up' ws :=
  ⟨h.genuine, h.sent_eq, fun hup' => h.delivered_eq (hup hup')⟩

/-- A line that tells of no packet. -/
theorem log {line : LogLine} (hline : line.Genuine) (hsent : line.sent = [])
    (hdel : up → line.delivered = []) : Accounted up [.log line] where
  genuine line' hline' := by
    obtain rfl := List.mem_singleton.1 hline'
    exact hline
  sent_eq := (List.flatMap_singleton ..).trans hsent
  delivered_eq hup := (List.flatMap_singleton ..).trans (hdel hup)

theorem flatMap {ι : Type} {f : ι → List NodeEvent} {is : List ι}
    (h : ∀ i ∈ is, Accounted up (f i)) : Accounted up (is.flatMap f) := by
  induction is with
  | nil => exact nil
  | cons i is ih =>
    obtain ⟨hi, his⟩ := List.forall_mem_cons.1 h
    rw [List.flatMap_cons]
    exact hi.append (ih his)

end Accounted

variable {S : SignScheme} {env : Environment} {sns : SnNode} {packet : SnNetPacket}
  {remAddr : Option SnIoNaddr}

/-- The log of a packet that is sent on. -/
theorem accounted_sendOn {e : SnNetEntry} (he : e.IsSet) (hrem : 10 ∉ remAddrStr remAddr)
    (packet : SnNetPacket) (up : Prop) : Accounted up (sendOn env remAddr packet e).events := by
  rw [sendOn]
  split_ifs
  · exact .nil
  · refine ⟨fun line hline => ?_, ?_, fun _ => rfl⟩
    · obtain rfl := List.mem_singleton.1 hline
      exact ⟨hrem, plain_headerText packet, e, he, rfl⟩
    · change (LogLine.packetForward remAddr (headerText packet) (entryText e)).sent ++ [] =
        [Datagram.shown ⟨e.netAddr, packet.datagram⟩]
      rw [entryText_of_isSet he, shown_datagram]
      rfl
  · exact .log trivial rfl fun _ => rfl

/-- The log of a packet that is delivered. -/
theorem accounted_deliver (hrem : 10 ∉ remAddrStr remAddr)
    (hping : packet.header.type ≠ snWireNetTypeReply →
      Accounted (sns.upcall.isSome) (deliverPingHandler S env sns packet).events) :
    Accounted (sns.upcall.isSome) (deliver S env sns packet remAddr).events := by
  have hgenuine : (LogLine.packetDeliver remAddr (headerText packet)
      (cString packet.payload)).Genuine := ⟨hrem, plain_headerText packet⟩
  have hother : packet.header.type ≠ snWireNetTypeUser → Accounted (sns.upcall.isSome)
      [.log (.packetDeliver remAddr (headerText packet) (cString packet.payload))] :=
    fun htype => .log hgenuine rfl fun _ => if_neg htype
  rw [deliver_eq, handle]
  split_ifs with hlarge huser hreply
  · exact hother fun htype => absurd hlarge (by rw [htype]; decide)
  · rw [deliverUserHandler, snNodeUpcall]
    have hshown : (LogLine.packetDeliver remAddr (headerText packet)
        (cString packet.payload)).delivered = [shownMessage packet.message] := by
      rw [shownMessage_message]
      exact if_pos huser
    cases hup : sns.upcall with
    | none => exact .log hgenuine rfl fun h => absurd h (by decide)
    | some up =>
      refine ⟨fun line hline => ?_, rfl, fun _ => ?_⟩
      · obtain rfl := List.mem_singleton.1 hline
        exact hgenuine
      · exact (List.flatMap_singleton ..).trans hshown
  · exact hother huser
  · exact (hother huser).append (hping hreply)

/-- The log of a packet that is sent on or delivered. -/
theorem accounted_forward_of (hrem : 10 ∉ remAddrStr remAddr)
    (hdeliver : Accounted (sns.upcall.isSome) (deliver S env sns packet.decTtl remAddr).events) :
    Accounted (sns.upcall.isSome) (forward S env sns packet remAddr).events := by
  rw [forward_eq]
  split_ifs with httl hset
  · exact .log trivial rfl fun _ => rfl
  · exact accounted_sendOn hset hrem _ _
  · exact hdeliver

theorem newline_notMem_this : 10 ∉ remAddrStr none := by decide

/-- The log of the reply to a ping. -/
theorem accounted_deliverPingHandler (packet : SnNetPacket) :
    Accounted (sns.upcall.isSome) (deliverPingHandler S env sns packet).events := by
  rw [deliverPingHandler_eq]
  split_ifs
  · refine accounted_forward_of newline_notMem_this (accounted_deliver newline_notMem_this ?_)
    -- A reply that stays here is not answered.
    exact fun hne => absurd (originPacket_type ..) hne
  · exact .nil

theorem accounted_forward (hrem : 10 ∉ remAddrStr remAddr) (packet : SnNetPacket) :
    Accounted (sns.upcall.isSome) (forward S env sns packet remAddr).events :=
  accounted_forward_of hrem (accounted_deliver hrem fun _ => accounted_deliverPingHandler _)

/-! ### A message that arrives -/

section Arrival

variable {dst : SnNetAddr} {type : UInt8} {msg : List UInt8}

/-- The header that the receiver of a message shows. -/
theorem headerText_originPacket (dst : SnNetAddr) (type : UInt8) (msg : List UInt8) :
    headerText ((originPacket S sns dst type msg).setTtl (snNetPacketDefaultTtl - 1)).decTtl =
      ⟨addrText dst, addrText sns.self, 30, type, .ofNat msg.length⟩ := by
  obtain ⟨sign, horigin⟩ := originPacket_eq_setSign S sns dst type msg
  rw [horigin, headerText, HeaderText.mk.injEq]
  exact ⟨rfl, rfl, (by decide : snNetPacketDefaultTtl - 1 - 1 = 30), rfl, rfl⟩

/-- The payload is the message with its terminator. -/
theorem cString_payload_originPacket (hlen : msg.length ≤ snNetPacketMaxLen) :
    cString (originPacket S sns dst type msg).payload = cString msg := by
  obtain ⟨-, htrim, hmessage⟩ := originPacket_spec S sns dst type hlen
  have hmem : (originPacket S sns dst type msg).payload = msg ++ [0] := calc
    (originPacket S sns dst type msg).payload = (originPacket S sns dst type msg).trim.payload := by
      rw [htrim]
    _ = (originPacket S sns dst type msg).message ++ [0] := rfl
    _ = msg ++ [0] := by rw [hmessage]
  rw [hmem, cString, cString, List.takeWhile_append]
  split_ifs with hall
  · exact (List.append_nil msg).trans ((List.takeWhile_prefix _).eq_of_length hall).symm
  · rfl

/-- The line of the log with a message for the node that gets it. -/
theorem linesOf_arrival {receiver : SnNode} (hrecv : env.recvMalloc)
    (hnext : ¬ (receiver.nexthop env dst).IsSet) (hsign : sns.sign)
    (hself : sns.self.key = (snCryptoSignPkFromSk S sns.sk).pk)
    (hlen : msg.length ≤ snNetPacketMaxLen) (remAddr : SnIoNaddr) :
    linesOf (backgroundStep S env receiver remAddr
        (copyBytes (originPacket S sns dst snWireNetTypeUser msg)
          (snNetPacketDefaultTtl - 1))).events =
      [.packetDeliver (some remAddr) ⟨addrText dst, addrText sns.self, 30, snWireNetTypeUser,
        .ofNat msg.length⟩ (cString msg)] := by
  set packet := originPacket S sns dst snWireNetTypeUser msg with hpacket
  obtain ⟨hshort, htrim, -⟩ := originPacket_spec S sns dst snWireNetTypeUser hlen
  rw [← hpacket] at hshort htrim
  have hdst : snNetPacketGetDst (packet.setTtl (snNetPacketDefaultTtl - 1)) = dst :=
    snNetPacketGetDst_originPacket ..
  have htype : (packet.setTtl (snNetPacketDefaultTtl - 1)).decTtl.header.type =
      snWireNetTypeUser := originPacket_type ..
  have hcheck : snNetPacketCheckSign S (packet.setTtl (snNetPacketDefaultTtl - 1)) = 0 :=
    snNetPacketCheckSign_originPacket hsign hself ..
  have hforward := forward_of_no_nexthop S env receiver
    (packet.setTtl (snNetPacketDefaultTtl - 1)) (some remAddr)
    (show snNetPacketDefaultTtl - 1 ≠ 0 by decide) (by rwa [hdst])
  have hheader : headerText (packet.setTtl (snNetPacketDefaultTtl - 1)).decTtl =
      ⟨addrText dst, addrText sns.self, 30, snWireNetTypeUser, .ofNat msg.length⟩ :=
    headerText_originPacket ..
  have hpayload : cString packet.payload = cString msg := cString_payload_originPacket hlen
  rw [backgroundStep_copyBytes _ _ _ _ hshort htrim, if_pos hrecv, if_neg fun h => h.2 hcheck,
    hforward, deliver_eq, handle, htype, if_neg (by decide), if_pos rfl, deliverUserHandler,
    hheader]
  change linesOf (.log (.packetDeliver _ _ (cString packet.payload)) :: _) = _
  rw [hpayload, snNodeUpcall]
  cases receiver.upcall <;> rfl

end Arrival

/-! ### Runs -/

theorem accounted_step {turn : Turn} (hrem : 10 ∉ remAddrStr turn.origin) :
    Accounted (turn.node.upcall.isSome) (turn.step S).events := by
  rcases turn with ⟨r, recvOk⟩ | ⟨sns, env, dst, type, payload⟩
  · rw [Turn.step, backgroundStep_eq]
    split
    · split_ifs
      · exact .log trivial rfl fun _ => rfl
      · exact accounted_forward hrem _
    · exact .nil
  · rw [Turn.step, Traced.bind_pure]
    by_cases htype : type < snWireNetTypes
    · rw [snNodeSendTyped_eq S env sns dst htype payload]
      split_ifs
      · exact accounted_forward newline_notMem_this _
      · exact .nil
    · have hnone : (snNodeSendTyped S env sns dst type payload).events = [] := by
        rw [snNodeSendTyped, cAssert_of_not htype]
        rfl
      rw [hnone]
      exact .nil

/-- **What a node does is in its log**, over any run of the node. -/
theorem accounted_run {turns : List Turn} {up : Prop}
    (h : ∀ turn ∈ turns, 10 ∉ remAddrStr turn.origin)
    (hup : up → ∀ turn ∈ turns, turn.node.upcall.isSome) :
    Accounted up (turns.forM (·.step S)).events := by
  obtain ⟨n, hn, -⟩ := Traced.exists_events_forM_eq (fun turn : Turn => turn.step S) turns
  rw [hn]
  refine .flatMap fun turn hturn => ?_
  have hmem := List.mem_of_mem_take hturn
  exact (accounted_step (h turn hmem)).mono fun hup' => hup hup' turn hmem

/-- **Runs with the same log have sent and delivered the same packets**, whatever their nodes,
their routers and their payloads are: the datagrams agree in everything but signature and payload,
and in the text of the address they are sent to, and if all nodes have upcalls, these get as many
messages, of the same lengths, which agree up to the first zero as far as this is among the first
800 characters. The network addresses of senders must have no newline in their texts, as is the
case for all but those with a path. -/
theorem traffic_of_log (S S' : SignScheme) {turns turns' : List Turn}
    (h : ∀ turn ∈ turns, 10 ∉ remAddrStr turn.origin)
    (h' : ∀ turn ∈ turns', 10 ∉ remAddrStr turn.origin)
    (hlog : logOf (turns.forM (·.step S)).events = logOf (turns'.forM (·.step S')).events) :
    ((sentOf (turns.forM (·.step S)).events).map fun d => (d.unsigned, naddrText d.dst)) =
      ((sentOf (turns'.forM (·.step S')).events).map fun d => (d.unsigned, naddrText d.dst)) ∧
    ((∀ turn ∈ turns ++ turns', turn.node.upcall.isSome) →
      (upcallsOf (turns.forM (·.step S)).events).map shownMessage =
        (upcallsOf (turns'.forM (·.step S')).events).map shownMessage) := by
  have hacc : ∀ {up : Prop}, (up → ∀ turn ∈ turns ++ turns', turn.node.upcall.isSome) →
      Accounted up (turns.forM (·.step S)).events ∧
        Accounted up (turns'.forM (·.step S')).events := fun hup =>
    ⟨accounted_run h fun u turn hturn => hup u turn (List.mem_append_left _ hturn),
      accounted_run h' fun u turn hturn => hup u turn (List.mem_append_right _ hturn)⟩
  constructor
  · obtain ⟨hws, hws'⟩ := @hacc False False.elim
    have hsent := flatMap_eq_of_map_eq (fun line hline line' hline' hstr =>
      (sent_delivered_of_logStr (hws.genuine line hline) (hws'.genuine line' hline') hstr).1) hlog
    rw [hws.sent_eq, hws'.sent_eq] at hsent
    rw [List.map_eq_flatMap, List.map_eq_flatMap]
    refine flatMap_eq_of_map_eq (fun d _ d' _ hshown => ?_) hsent
    obtain ⟨hheader, hnaddr⟩ := Prod.mk.inj hshown
    rw [unsigned_eq_of_shown hheader, hnaddr]
  · intro hup
    obtain ⟨hws, hws'⟩ := @hacc True fun _ => hup
    have hdelivered := flatMap_eq_of_map_eq (fun line hline line' hline' hstr =>
      (sent_delivered_of_logStr (hws.genuine line hline) (hws'.genuine line' hline') hstr).2) hlog
    rwa [hws.delivered_eq trivial, hws'.delivered_eq trivial] at hdelivered

/-- The first node sends a message to the second. -/
def senderTurn (payload : List UInt8) : Turn :=
  .call senderNode .ideal receiverAddr snWireNetTypeUser payload

/-- The log of the first node does not show the message. -/
theorem logOf_senderTurn {payload payload' : List UInt8} (h : payload.length = payload'.length) :
    logOf ([senderTurn payload].forM (·.step .plain)).events =
      logOf ([senderTurn payload'].forM (·.step .plain)).events := by
  have hline : ∀ payload, linesOf ([senderTurn payload].forM (·.step .plain)).events =
      [.packetForward none (headerText (samplePacket payload).decTtl)
        (entryText (senderNode.nexthop .ideal receiverAddr))] := by
    intro payload
    have hevents := snNodeSend_of_nexthop .plain .ideal senderNode rfl senderNode_nexthop
      (fun _ => rfl) payload
    have hturn : ((senderTurn payload).step .plain).events = _ :=
      congrArg Traced.events (Traced.bind_pure _ _)
    have hrun : ([senderTurn payload].forM (·.step .plain)).events = _ :=
      congrArg Traced.events (Traced.bind_pure ((senderTurn payload).step .plain) fun _ => ())
    rw [hrun, hturn, ← snNodeSend, hevents]
    rfl
  have hheader : headerText (samplePacket payload).decTtl =
      headerText (samplePacket payload').decTtl := by
    obtain ⟨sign, hsign⟩ :=
      originPacket_eq_setSign .plain senderNode receiverAddr snWireNetTypeUser payload
    obtain ⟨sign', hsign'⟩ :=
      originPacket_eq_setSign .plain senderNode receiverAddr snWireNetTypeUser payload'
    rw [samplePacket, samplePacket, hsign, hsign']
    exact congrArg (fun n => HeaderText.mk _ _ _ _ (.ofNat n)) h
  rw [logOf, logOf, hline, hline, hheader]

/-- The second node gets the datagram of the first. -/
def receiverTurn (payload : List UInt8) : Turn :=
  .round ⟨receiverNode, .ideal, .zero,
    copyBytes (samplePacket payload) (snNetPacketDefaultTtl - 1)⟩ true

/-- The log of the second node shows the message up to its first zero. -/
theorem logOf_receiverTurn {payload payload' : List UInt8}
    (hshort : payload.length ≤ snNetPacketMaxLen) (h : payload.length = payload'.length)
    (hstr : cString payload = cString payload') :
    logOf ([receiverTurn payload].forM (·.step .plain)).events =
      logOf ([receiverTurn payload'].forM (·.step .plain)).events := by
  have hrun : ∀ payload, payload.length ≤ snNetPacketMaxLen →
      linesOf ([receiverTurn payload].forM (·.step .plain)).events =
        [.packetDeliver (some .zero) ⟨addrText receiverAddr, addrText senderNode.self, 30,
          snWireNetTypeUser, .ofNat payload.length⟩ (cString payload)] := by
    intro payload hshort
    have hturn : ([receiverTurn payload].forM (·.step .plain)).events = _ :=
      congrArg Traced.events (Traced.bind_pure ((receiverTurn payload).step .plain) fun _ => ())
    rw [hturn]
    exact @linesOf_arrival .plain _ _ _ _ _ rfl receiverNode_nexthop rfl (self_key_plain _ _)
      hshort _
  rw [logOf, logOf, hrun payload hshort, hrun payload' (h ▸ hshort), h, hstr]

/-- Two messages of one length leave the same log at the sender, and datagrams that differ in
nothing else. Two messages that differ behind a zero leave the same log at the receiver, whose
upcall gets messages that agree up to this zero. -/
theorem traffic_of_log_hello :
    ((sentOf ([senderTurn (ascii "hello")].forM (·.step .plain)).events).map fun d =>
        (d.unsigned, naddrText d.dst)) =
      ((sentOf ([senderTurn (ascii "world")].forM (·.step .plain)).events).map fun d =>
        (d.unsigned, naddrText d.dst)) ∧
    (upcallsOf ([receiverTurn [104, 0, 1]].forM (·.step .plain)).events).map shownMessage =
      (upcallsOf ([receiverTurn [104, 0, 2]].forM (·.step .plain)).events).map shownMessage := by
  have hsender : ∀ payload, ∀ turn ∈ [senderTurn payload], 10 ∉ remAddrStr turn.origin := by
    intro payload turn hturn
    obtain rfl := List.mem_singleton.1 hturn
    exact newline_notMem_this
  have hreceiver : ∀ payload, ∀ turn ∈ [receiverTurn payload], 10 ∉ remAddrStr turn.origin := by
    intro payload turn hturn
    obtain rfl := List.mem_singleton.1 hturn
    exact (by decide : 10 ∉ remAddrStr (some .zero))
  constructor
  · exact (traffic_of_log .plain .plain (hsender _) (hsender _)
      (@logOf_senderTurn (ascii "hello") (ascii "world") rfl)).1
  · refine (traffic_of_log .plain .plain (hreceiver _) (hreceiver _)
      (@logOf_receiverTurn [104, 0, 1] [104, 0, 2] (by decide) rfl (by decide))).2 ?_
    intro turn hturn
    rcases List.mem_append.1 hturn with h | h
    · obtain rfl := List.mem_singleton.1 h
      rfl
    · obtain rfl := List.mem_singleton.1 h
      rfl

end SndNet
