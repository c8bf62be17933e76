import SndNet.Library.CString
import SndNet.Library.DottedQuad
import SndNet.Net.EntrySer

/-!
# Network addresses as text

A network address is written as `INET:` with a dotted quad and a port, or as `UNIX:` with a path
(`src/io/naddr.c`, lines 13–110). The parser copies the string into a buffer on the stack, which
need not end with a zero, and goes through the copy with the functions of the C library; a path is
copied once more into the address, one byte further than the address goes. This file translates
the printer and the parser with every access to the copy and to the address, and determines what
they do.

## Main definitions

* `SndNet.snIoNaddrIpv4`, `SndNet.snIoNaddrLocal`: addresses from a dotted quad or from a path.
* `SndNet.snIoNaddrFromStr`, `SndNet.snIoNaddrToStr`: the parser and the printer.
* `SndNet.inetNaddr`, `SndNet.unixNaddr`: the addresses that they build.

## Main results

* `SndNet.snIoNaddrIpv4_eq`, `SndNet.snIoNaddrLocal_eq`: what the two builders do.
* `SndNet.snIoNaddrToStr_inet`, `SndNet.snIoNaddrToStr_unix`: what the printer shows.
-/

namespace SndNet

open ByteLayout CString Ctype DottedQuad FallibleRun

/-! ### The functions of the source -/

/-- `SN_IO_NADDR_PRINTABLE_LEN`. -/
abbrev snIoNaddrPrintableLen : ℕ := 5 + max (16 + 6) snIoNaddrMaxPathLen + 1

/-- `INET_ADDRSTRLEN`. -/
abbrev inetAddrstrlen : ℕ := 16

/-- An access of the functions of this file: to the memory that the string is parsed in, or a write
to the memory from the network address on. -/
inductive NaddrAccess where
  | str (access : MemAccess)
  | addr (offset : ℕ)
  deriving DecidableEq

/-- A function that accesses a string and a network address. -/
abbrev NaddrM := Traced NaddrAccess Fault

/-- `htons`, as the bytes in memory. -/
def htons (port : UInt16) : List UInt8 := (le16 port).reverse

/-- `ntohs`, from the bytes in memory. -/
def ntohs (bytes : List UInt8) : UInt16 := ofLe16 (bytes.getD 1 0) (bytes.getD 0 0)

/-- The two bytes of the family. -/
def storeFamily (addr : SnIoNaddr) (family : UInt16) : NaddrM SnIoNaddr := do
  .emit (.addr 0)
  .emit (.addr 1)
  return { addr with saFamily := family }

/-- The bytes of the data, all zero. -/
def clearData (addr : SnIoNaddr) : NaddrM SnIoNaddr :=
  ⟨(List.range' 2 14).map .addr, .ok { addr with saData := .replicate _ 0 }⟩

/-- Bytes from the index `k` of the data on. A write after the last of them goes on in the memory
behind the address. -/
def storeData (addr : SnIoNaddr) (k : ℕ) : List UInt8 → NaddrM SnIoNaddr
  | [] => return addr
  | b :: bs => do
    .emit (.addr (2 + k))
    storeData { addr with saData := addr.saData.write k b } (k + 1) bs

/-- `sn_io_naddr_ipv4` (`src/io/naddr.c`, lines 13–28), with the string at the offset `ipv4`. -/
def snIoNaddrIpv4 (addr : SnIoNaddr) (mem : List UInt8) (ipv4 : ℕ) (port : UInt16) :
    NaddrM (ℤ × SnIoNaddr) := do
  let addr ← storeFamily addr 0
  let addr ← clearData addr
  let addr ← storeFamily addr afInet
  let addr ← storeData addr 0 (htons port)
  let ipv4Str ← (text .outOfBounds mem ipv4).mapEvents .str
  match inetPton ipv4Str with
  | none => return (-1, addr)
  | some octets => do
    let addr ← storeData addr 2 octets
    return (0, addr)

/-- `sn_io_naddr_local` (`src/io/naddr.c`, lines 30–45), with the string at the offset `path`. -/
def snIoNaddrLocal (addr : SnIoNaddr) (mem : List UInt8) (path : ℕ) :
    NaddrM (ℤ × SnIoNaddr) := do
  let addr ← storeFamily addr afUnix
  let addr ← clearData addr
  let c ← (readByte .outOfBounds mem path).mapEvents .str
  let addr ← storeData addr 0 [if c = 95 then 0 else c]
  let rest ← (strncpy .outOfBounds (mem.drop (path + 1)) (path + 1) snIoNaddrMaxPathLen).mapEvents
    .str
  let addr ← storeData addr 1 rest
  return (0, addr)

/-- The first branch of `sn_io_naddr_from_str`, in the memory from `copy_str` on. -/
def fromStrInet (addr : SnIoNaddr) (mem : List UInt8) : NaddrM (ℤ × SnIoNaddr) := do
  let first ← (strtokR .outOfBounds 58 mem 5).mapEvents .str
  match first.2.1 with
  | none => return (-1, addr)
  | some ipv4 => do
    let second ← (strtokR .outOfBounds 58 first.1 first.2.2).mapEvents .str
    match second.2.1 with
    | none => return (-1, addr)
    | some port => do
      let portStr ← (text .outOfBounds second.1 port).mapEvents .str
      match scanHu portStr with
      | none => return (-1, addr)
      | some nport => snIoNaddrIpv4 addr second.1 ipv4 nport

/-- The string starts with a tag of four characters, in any case. -/
def HasTag (tag : String) (str : List UInt8) : Prop := strncasecmp str (ascii tag) 4 = 0

instance (tag : String) (str : List UInt8) : Decidable (HasTag tag str) :=
  inferInstanceAs (Decidable (_ = _))

/-- `sn_io_naddr_from_str` (`src/io/naddr.c`, lines 47–81). The array `copy_str` is filled by
`strncpy`, and the memory behind it is `stack`, as far as it is known. -/
def snIoNaddrFromStr (stack : List UInt8) (addr : SnIoNaddr) (str : List UInt8) :
    NaddrM (ℤ × SnIoNaddr) :=
  if HasTag "INET" str then
    fromStrInet addr ((CArray.padded snIoNaddrPrintableLen str 0).val ++ stack)
  else if HasTag "UNIX" str then
    snIoNaddrLocal addr ((CArray.padded snIoNaddrMaxPathLen str 0).val ++ stack) 5
  else return (-1, addr)

/-- The array `path_str` of `sn_io_naddr_to_str` for a path. -/
def pathStr (sunPath : List UInt8) : List UInt8 :=
  (sunPath.set 0 (if sunPath.headD 0 = 0 then 95 else sunPath.headD 0)).set
    (snIoNaddrMaxPathLen - 1) 0

/-- `sn_io_naddr_to_str` (`src/io/naddr.c`, lines 83–110): the text, unless -1 is returned. -/
def snIoNaddrToStr (addr : SnIoNaddr) : Option (List UInt8) :=
  if addr.saFamily = afInet then
    let inetStr := inetNtop addr.sinAddr
    if inetStr.length < inetAddrstrlen then
      some (snprintf snIoNaddrPrintableLen (ascii "INET:" ++ inetStr ++ ascii ":" ++
        Decimal.text (ntohs addr.sinPort).toNat))
    else none
  else if addr.saFamily = afUnix then
    some (snprintf snIoNaddrPrintableLen
      (ascii "UNIX:" ++ (pathStr addr.sunPath).takeWhile (· ≠ 0)))
  else some (snprintf snIoNaddrPrintableLen (ascii "NONE"))

/-! ### Writing to an address -/

/-- An array with the elements from the index `k` on overwritten, as far as it goes. -/
def CArray.writeAll {α : Type*} {n : ℕ} (a : CArray α n) (k : ℕ) : List α → CArray α n
  | [] => a
  | b :: bs => (a.write k b).writeAll (k + 1) bs

theorem CArray.writeAll_padded {α : Type*} {n : ℕ} (l bs : List α) (x : α) :
    (CArray.padded n l x).writeAll l.length bs = .padded n (l ++ bs) x := by
  induction bs generalizing l with
  | nil => rw [writeAll, List.append_nil]
  | cons b bs ih =>
    have hlen : l.length + 1 = (l ++ [b]).length := by
      rw [List.length_append, List.length_singleton]
    rw [writeAll, write_padded, hlen, ih, List.append_assoc, List.singleton_append]

theorem storeFamily_eq (addr : SnIoNaddr) (family : UInt16) : storeFamily addr family =
    ⟨[.addr 0, .addr 1], .ok { addr with saFamily := family }⟩ := rfl

theorem storeData_eq (addr : SnIoNaddr) (k : ℕ) (bs : List UInt8) : storeData addr k bs =
    ⟨(List.range' (2 + k) bs.length).map .addr,
      .ok { addr with saData := addr.saData.writeAll k bs }⟩ := by
  induction bs generalizing addr k with
  | nil => rfl
  | cons b bs ih =>
    rw [storeData, ih, Traced.emit_bind, List.length_cons, List.range'_succ, List.map_cons]
    rfl

/-! ### What the builders do -/

/-- The address of a port and four numbers. -/
def inetNaddr (port : UInt16) (octets : List UInt8) : SnIoNaddr :=
  ⟨afInet, .padded _ (htons port ++ octets) 0⟩

/-- The address of a path, which starts with a zero instead of an underscore. -/
def unixNaddr (c : UInt8) (path : List UInt8) : SnIoNaddr :=
  ⟨afUnix, .padded _ ((if c = 95 then 0 else c) :: path) 0⟩

@[simp] theorem inetNaddr_saFamily (port : UInt16) (octets : List UInt8) :
    (inetNaddr port octets).saFamily = afInet := rfl

@[simp] theorem unixNaddr_saFamily (c : UInt8) (path : List UInt8) :
    (unixNaddr c path).saFamily = afUnix := rfl

/-- An access of the string is at an offset up to `n`, and one of the address is inside it. -/
def NaddrAccess.Within (n : ℕ) : NaddrAccess → Prop
  | str access => access.offset ≤ n
  | addr offset => offset < 16

section Builders

variable (addr : SnIoNaddr) {t : List UInt8}

theorem NaddrAccess.Within.mono {n m : ℕ} {x : NaddrAccess} (h : x.Within n) (hnm : n ≤ m) :
    x.Within m := by
  cases x with
  | str access => exact h.trans hnm
  | addr offset => exact h

theorem within_map_str {events : List MemAccess} {n m : ℕ} (h : ∀ x ∈ events, x.offset ≤ n)
    (hnm : n ≤ m) : ∀ x ∈ events.map NaddrAccess.str, x.Within m := by
  intro x hx
  obtain ⟨a, ha, rfl⟩ := List.mem_map.1 hx
  exact (h a ha).trans hnm

theorem within_reads (i n : ℕ) : ∀ x ∈ ((List.range' i (n + 1)).map MemAccess.read).map
    NaddrAccess.str, x.Within (i + n) :=
  within_map_str (fun _ => offset_le_of_mem_reads) le_rfl

theorem within_writes {i n : ℕ} (h : i + n ≤ 16) (m : ℕ) :
    ∀ x ∈ (List.range' i n).map NaddrAccess.addr, x.Within m := by
  intro x hx
  obtain ⟨j, hj, rfl⟩ := List.mem_map.1 hx
  exact (List.mem_range'_1.1 hj).2.trans_le h

theorem within_family (m : ℕ) : ∀ x ∈ [NaddrAccess.addr 0, .addr 1], x.Within m :=
  within_writes (i := 0) (n := 2) (by omega) m

theorem replicate_writeAll (bs : List UInt8) :
    (CArray.replicate 14 (0 : UInt8)).writeAll 0 bs = .padded _ bs 0 :=
  CArray.writeAll_padded [] bs 0

/-- A dotted quad gives its address, and any other string an error. -/
theorem snIoNaddrIpv4_eq (ht : ∀ c ∈ t, c ≠ 0) (pre rest : List UInt8) (port : UInt16) :
    (snIoNaddrIpv4 addr (pre ++ (t ++ 0 :: rest)) pre.length port).result = .ok
      (match inetPton t with
        | none => (-1, inetNaddr port [])
        | some octets => (0, inetNaddr port octets)) ∧
    ∀ x ∈ (snIoNaddrIpv4 addr (pre ++ (t ++ 0 :: rest)) pre.length port).events,
      x.Within (pre.length + t.length) := by
  have hport : (htons port).length = 2 := rfl
  have hoctets (octets : List UInt8) : (CArray.padded 14 (htons port) 0).writeAll 2 octets =
      .padded _ (htons port ++ octets) 0 := hport ▸ CArray.writeAll_padded _ _ _
  have hclear := within_writes (i := 2) (n := 14) le_rfl (pre.length + t.length)
  have hwrite := within_writes (i := 2) (n := 2) (by omega) (pre.length + t.length)
  have hreads := within_reads pre.length t.length
  have hfamily := within_family (pre.length + t.length)
  rw [snIoNaddrIpv4, text_eq _ ht]
  simp only [storeFamily_eq, clearData, storeData_eq, Traced.mk_ok_bind, Traced.mapEvents_mk,
    replicate_writeAll, hport]
  cases hpton : inetPton t with
  | none =>
    refine ⟨by rw [inetNaddr, List.append_nil]; rfl, ?_⟩
    simp only [Traced.pure_eq, List.append_nil, List.forall_mem_append]
    exact ⟨hfamily, hclear, hfamily, hwrite, hreads⟩
  | some octets =>
    have hlen := (inetPton_eq_some_iff.1 hpton).1
    have hquad := within_writes (i := 4) (n := 4) (by omega) (pre.length + t.length)
    simp only [Traced.pure_eq, hoctets, hlen, List.append_nil, List.forall_mem_append]
    refine ⟨rfl, ?_⟩
    exact ⟨hfamily, hclear, hfamily, hwrite, hreads, hquad⟩

/-- A path gives its address. -/
theorem snIoNaddrLocal_eq {c : UInt8} (ht : ∀ c ∈ t, c ≠ 0) (pre rest : List UInt8) :
    (snIoNaddrLocal addr (pre ++ c :: (t ++ 0 :: rest)) pre.length).result =
      .ok (0, unixNaddr c t) := by
  have hread : readByte Fault.outOfBounds (pre ++ c :: (t ++ 0 :: rest)) pre.length =
      ⟨[.read pre.length], .ok c⟩ := by
    simp [readByte]
  have hdrop : (pre ++ c :: (t ++ 0 :: rest)).drop (pre.length + 1) = t ++ 0 :: rest := by
    rw [← List.drop_drop, List.drop_left, List.drop_one, List.tail_cons]
  have hdata (d : UInt8) : (CArray.padded 14 [d] 0).writeAll 1
      (t.take 14 ++ List.replicate (14 - t.length) 0) = .padded _ (d :: t) 0 := by
    refine (CArray.writeAll_padded [d] _ 0).trans (Subtype.ext ?_)
    change (d :: (t.take 14 ++ List.replicate (14 - t.length) 0)).take 14 ++
      List.replicate (14 - (d :: (t.take 14 ++ List.replicate (14 - t.length) 0)).length) 0 =
        (d :: t).take 14 ++ List.replicate (14 - (d :: t).length) 0
    have hlong : (d :: (t.take 14 ++ List.replicate (14 - t.length) 0)).length = 15 := by
      rw [List.length_cons, List.length_append, List.length_take, List.length_replicate]
      omega
    rw [hlong, List.replicate_zero, List.append_nil, List.take_succ_cons, List.take_succ_cons,
      List.cons_append, List.take_append, List.take_take, List.take_replicate, List.length_take,
      List.length_cons]
    congr 3
    omega
  rw [snIoNaddrLocal, hread, hdrop, strncpy_eq _ ht]
  simp only [storeFamily_eq, clearData, storeData_eq, Traced.mk_ok_bind, Traced.mapEvents_mk,
    replicate_writeAll, hdata]
  rfl

end Builders

/-! ### What the printer shows -/

theorem ntohs_htons (port : UInt16) : ntohs (htons port) = port := ofLe16_le16 port

/-- The text of a port and four numbers. -/
def inetText (port : UInt16) (octets : List UInt8) : List UInt8 :=
  ascii "INET:" ++ inetNtop octets ++ ascii ":" ++ Decimal.text port.toNat

/-- The longest text has twenty-six characters. -/
theorem length_inetText_le {octets : List UInt8} (h : octets.length = 4) (port : UInt16) :
    (inetText port octets).length ≤ 26 := by
  have hquad := length_inetNtop_le h
  have hport : (Decimal.text port.toNat).length ≤ 5 :=
    Decimal.length_text_le (by omega) (port.toNat_lt.trans_le (by decide))
  have hinet : (ascii "INET:").length = 5 := by decide
  have hcolon : (ascii ":").length = 1 := by decide
  rw [inetText, List.length_append, List.length_append, List.length_append]
  omega

/-- An address with a dotted quad is printed whole. -/
theorem snIoNaddrToStr_inet {octets : List UInt8} (h : octets.length = 4) (port : UInt16) :
    snIoNaddrToStr (inetNaddr port octets) = some (inetText port octets) := by
  have haddr : (inetNaddr port octets).sinAddr = octets := by
    obtain ⟨a, b, c, d, rfl⟩ := List.length_eq_four.1 h
    rfl
  have hport : (inetNaddr port octets).sinPort = htons port := rfl
  have hquad : (inetNtop octets).length < inetAddrstrlen :=
    Nat.lt_succ_of_le (length_inetNtop_le h)
  have hlen : (inetText port octets).length < snIoNaddrPrintableLen :=
    (length_inetText_le h port).trans_lt (by decide)
  rw [snIoNaddrToStr, inetNaddr_saFamily, if_pos rfl, haddr, hport, ntohs_htons, if_pos hquad]
  exact congrArg some (snprintf_of_lt hlen)

/-- An address with a short path is printed with the path it was built from. -/
theorem snIoNaddrToStr_unix {c : UInt8} {t : List UInt8} (hc : c ≠ 0) (ht : ∀ c ∈ t, c ≠ 0)
    (hlen : t.length < 13) :
    snIoNaddrToStr (unixNaddr c t) = some (ascii "UNIX:" ++ c :: t) := by
  have hpath : (unixNaddr c t).sunPath =
      (if c = 95 then 0 else c) :: (t ++ List.replicate (13 - t.length) 0) := by
    change ((if c = 95 then 0 else c) :: t).take 14 ++
      List.replicate (14 - ((if c = 95 then 0 else c) :: t).length) 0 = _
    rw [List.take_of_length_le (by rw [List.length_cons]; omega), List.length_cons,
      show 14 - (t.length + 1) = 13 - t.length by omega, List.cons_append]
  have hfirst : (if (if c = 95 then 0 else c) = 0 then 95 else if c = 95 then 0 else c) = c := by
    split_ifs <;> simp_all
  have hpathStr (l : List UInt8) : pathStr ((if c = 95 then 0 else c) :: l) =
      (c :: l).set 13 0 := by
    rw [pathStr, List.headD_cons, hfirst, List.set_cons_zero]
    rfl
  have hset : ((c :: t) ++ List.replicate (13 - t.length) 0).set 13 0 =
      (c :: t) ++ List.replicate (13 - t.length) 0 := by
    rw [List.set_append_right _ _ (by rw [List.length_cons]; omega), List.set_replicate_self]
  have hcut : ((c :: t) ++ List.replicate (13 - t.length) 0).takeWhile (· ≠ 0) = c :: t := by
    rw [List.takeWhile_append_of_pos (by simpa [hc] using ht), List.takeWhile_replicate]
    simp
  rw [snIoNaddrToStr, unixNaddr_saFamily, if_neg (by decide), if_pos rfl, hpath, hpathStr,
    ← List.cons_append, hset, hcut]
  refine congrArg some (snprintf_of_lt ?_)
  have htag : (ascii "UNIX:").length = 5 := by decide
  have hbuffer : snIoNaddrPrintableLen = 28 := rfl
  rw [List.length_append, List.length_cons]
  omega

end SndNet
