import SndNet.Net.Entry

/-!
# The router

A node keeps its routing state in a table indexed by the number of leading digits an address shares
with its own and the next digit, and in two leafsets with the nearest addresses on either side
(`include/net/router.h`). This file translates `src/net/router.c` from initialisation to the choice
of the next hop.

Two points of the C code are kept as they are. `leafset_is_on_range` reads the entry after the last
set one, which for a full leafset lies outside the array: the translation is stopped there. The
entry that `sn_net_router_remove` stores has an indeterminate network address, which the operation
carries as an argument.

## Main definitions

* `SndNet.SnNetRouter`: the routing state.
* `SndNet.snNetRouterInit`, `SndNet.snNetRouterAdd`, `SndNet.snNetRouterRemove`: the membership
  operations.
* `SndNet.leafsetIsOnRange`: the range test.
* `SndNet.snNetRouterNexthopFrom`: the choice of the next hop after a given answer of the range
  test; `SndNet.snNetRouterNexthop` is the whole function.
* `SndNet.RouterOp`, `SndNet.Reachable`: runs of membership operations and the states they reach.
-/

namespace SndNet

open FallibleRun

/-- `SN_NET_ROUTER_LEVELS`. -/
abbrev snNetRouterLevels : ℕ := snNetAddrLen * 2

/-- `SN_NET_ROUTER_COLUMNS`. -/
abbrev snNetRouterColumns : ℕ := 16

/-- `SN_NET_ROUTER_LEAFSET_SIZE`. -/
abbrev snNetRouterLeafsetSize : ℕ := 8

/-- One side of the leafset. -/
abbrev Leafset := CArray SnNetEntry snNetRouterLeafsetSize

/-- `sn_net_router_t`: the routing state. -/
structure SnNetRouter where
  /-- Our address. -/
  self : SnNetEntry
  /-- Routing table. -/
  table : Fin snNetRouterLevels → Fin snNetRouterColumns → SnNetEntry
  /-- Leafset of the addresses below ours. -/
  leftLeafset : Leafset
  /-- Leafset of the addresses above ours. -/
  rightLeafset : Leafset

/-! ### The leafsets -/

/-- The comparator that `leafset_sort` hands to `qsort`. -/
def leafsetCmp (right : Bool) : SnNetEntry → SnNetEntry → ℤ :=
  if right then snNetEntryCmp else snNetEntryCmpNeg

theorem isComparator_leafsetCmp (right : Bool) : Sorter.IsComparator (leafsetCmp right) := by
  cases right
  · exact isComparator_snNetEntryCmpNeg
  · exact isComparator_snNetEntryCmp

variable (q : Sorter SnNetEntry)

/-- `leafset_sort` (`src/net/router.c`, lines 465–470). -/
def leafsetSort (leafset : Leafset) (right : Bool) : Leafset :=
  let n := snNetEntryArrayLen leafset.val
  ⟨q.sort (leafsetCmp right) (leafset.val.take n) ++ leafset.val.drop n, by
    rw [List.length_append, q.length_sort (isComparator_leafsetCmp right), ← List.length_append,
      List.take_append_drop, leafset.property]⟩

/-- The entry at an index inside a leafset. -/
def leafsetEntry (leafset : Leafset) (i : ℕ) : SnNetEntry := leafset.val.getD i .zero

/-- `leafset_insert` (`src/net/router.c`, lines 424–442). -/
def leafsetInsert (leafset : Leafset) (sne : SnNetEntry) (right : Bool) : Leafset :=
  let ls := snNetEntryArrayLen leafset.val
  if ls < snNetRouterLeafsetSize then
    leafsetSort q (leafset.write ls sne) right
  else
    let last := leafsetEntry leafset (snNetRouterLeafsetSize - 1)
    if (snNetAddrCmp sne.addr last.addr < 0) ^^ right then leafset
    else leafsetSort q (leafset.write (snNetRouterLeafsetSize - 1) sne) right

/-- `leafset_extract` (`src/net/router.c`, lines 444–463). -/
def leafsetExtract (leafset : Leafset) (sne : SnNetEntry) (right : Bool) : Leafset :=
  let ls := snNetEntryArrayLen leafset.val
  match (leafset.val.take ls).findIdx? fun e => snNetEntryCmp sne e = 0 with
  | none => leafset
  | some i =>
    let last := leafsetEntry leafset (ls - 1)
    leafsetSort q ((leafset.write i last).write (ls - 1) { last with isSet := 0 }) right

/-- `leafset_add` (`src/net/router.c`, lines 402–411). -/
def leafsetAdd (snr : SnNetRouter) (sne : SnNetEntry) : SnNetRouter :=
  if snNetEntryCmp sne snr.self < 0 then
    { snr with leftLeafset := leafsetInsert q snr.leftLeafset sne false }
  else { snr with rightLeafset := leafsetInsert q snr.rightLeafset sne true }

/-- `leafset_remove` (`src/net/router.c`, lines 413–422). -/
def leafsetRemove (snr : SnNetRouter) (sne : SnNetEntry) : SnNetRouter :=
  if snNetEntryCmp sne snr.self < 0 then
    { snr with leftLeafset := leafsetExtract q snr.leftLeafset sne false }
  else { snr with rightLeafset := leafsetExtract q snr.rightLeafset sne true }

/-! ### Membership -/

/-- `sn_net_router_init` (`src/net/router.c`, lines 18–28). -/
def snNetRouterInit (selfAddr : SnNetAddr) (selfNetAddr : Option SnIoNaddr) : SnNetRouter where
  self := ⟨1, selfAddr, selfNetAddr.getD .zero⟩
  table := fun _ _ => .zero
  leftLeafset := .replicate _ .zero
  rightLeafset := .replicate _ .zero

/-- The table with `sne` stored at a slot. -/
def tableWrite (table : Fin snNetRouterLevels → Fin snNetRouterColumns → SnNetEntry)
    (level : Fin snNetRouterLevels) (column : Fin snNetRouterColumns) (sne : SnNetEntry) :
    Fin snNetRouterLevels → Fin snNetRouterColumns → SnNetEntry :=
  fun l c => if l = level ∧ c = column then sne else table l c

/-- `sn_net_router_set` (`src/net/router.c`, lines 382–400). A level or a column outside the table
makes the access stop. -/
def snNetRouterSet (snr : SnNetRouter) (sne : SnNetEntry) : Exec SnNetRouter := do
  let (level, column) ← snNetAddrIndex snr.self.addr sne.addr
  if h : level < snNetRouterLevels ∧ column.toNat < snNetRouterColumns then
    let insert := snr.table ⟨level, h.1⟩ ⟨column.toNat, h.2⟩
    cAssert (snNetAddrCmp snr.self.addr insert.addr ≠ 0)
    return { snr with table := tableWrite snr.table ⟨level, h.1⟩ ⟨column.toNat, h.2⟩ sne }
  else .error .outOfBounds

/-- `sn_net_router_add` (`src/net/router.c`, lines 30–46). -/
def snNetRouterAdd (snr : SnNetRouter) (addr : SnNetAddr) (netAddr : Option SnIoNaddr) :
    Exec SnNetRouter := do
  let e : SnNetEntry := ⟨1, addr, netAddr.getD .zero⟩
  let snr ← snNetRouterSet snr e
  return leafsetAdd q snr e

/-- `sn_net_router_remove` (`src/net/router.c`, lines 48–59). The network address of the local
entry `e` is not initialised: `junk` is what the stack holds. -/
def snNetRouterRemove (snr : SnNetRouter) (addr : SnNetAddr) (junk : SnIoNaddr) :
    Exec SnNetRouter := do
  let e : SnNetEntry := ⟨0, addr, junk⟩
  let snr ← snNetRouterSet snr e
  return leafsetRemove q snr e

/-! ### The next hop -/

/-- The bound that `leafset_is_on_range` computes for one side: the address in the slot after the
set entries, or our own address when the side is empty. -/
def leafsetBound (self : SnNetEntry) (leafset : Leafset) : Exec SnNetAddr :=
  let count := snNetEntryArrayLen leafset.val
  if count ≠ 0 then do
    let e ← leafset.read count
    return e.addr
  else return self.addr

/-- `leafset_is_on_range` (`src/net/router.c`, lines 357–380). The right bound is read only when
the first comparison holds. -/
def leafsetIsOnRange (snr : SnNetRouter) (addr : SnNetAddr) : Exec Bool := do
  let leftBound ← leafsetBound snr.self snr.leftLeafset
  if snNetAddrCmp leftBound addr ≤ 0 then
    let rightBound ← leafsetBound snr.self snr.rightLeafset
    return snNetAddrCmp addr rightBound ≤ 0
  else return false

/-- The last step of a search: an answer with our own address counts as no next hop. -/
def dropSelf (self nexthop : SnNetEntry) : SnNetEntry :=
  if snNetEntryCmp nexthop self = 0 then { nexthop with isSet := 0 } else nexthop

/-- `sn_net_router_nexthop` (`src/net/router.c`, lines 61–116) after the range test, whose answer
is `onRange`. The array `bests` starts with indeterminate content, of which only the flags that
`sn_net_entry_closest` writes are read. -/
def snNetRouterNexthopFrom (onRange : Bool) (snr : SnNetRouter) (dst : SnNetAddr) :
    Exec SnNetEntry :=
  if onRange then do
    -- Leafset routing
    let best₁ ← snNetEntryClosest dst snr.leftLeafset.val none 0 .zero
    let best₂ ← snNetEntryClosest dst snr.rightLeafset.val none 0 .zero
    let nexthop ← snNetEntryClosest dst [snr.self, best₁, best₂] none 0 .zero
    return dropSelf snr.self nexthop
  else do
    -- Table routing
    let (level, column) ← snNetAddrIndex snr.self.addr dst
    if h : level < snNetRouterLevels ∧ column.toNat < snNetRouterColumns then
      let e := snr.table ⟨level, h.1⟩ ⟨column.toNat, h.2⟩
      if e.IsSet then return e
      else
        -- Best answer
        let row := List.ofFn (snr.table ⟨level, h.1⟩)
        let best₁ ← snNetEntryClosest dst row none 0 .zero
        let best₂ ← snNetEntryClosest dst snr.leftLeafset.val (some snr.self.addr) level .zero
        let best₃ ← snNetEntryClosest dst snr.rightLeafset.val (some snr.self.addr) level .zero
        let nexthop ← snNetEntryClosest dst [snr.self, best₁, best₂, best₃] none 0 .zero
        return dropSelf snr.self nexthop
    else return { snr.self with isSet := 0 }

/-- `sn_net_router_nexthop` (`src/net/router.c`, lines 61–116). -/
def snNetRouterNexthop (snr : SnNetRouter) (dst : SnNetAddr) : Exec SnNetEntry := do
  let onRange ← leafsetIsOnRange snr dst
  snNetRouterNexthopFrom onRange snr dst

/-! ### Runs of membership operations -/

/-- A membership operation with its arguments. -/
inductive RouterOp where
  | add (addr : SnNetAddr) (netAddr : Option SnIoNaddr)
  | remove (addr : SnNetAddr) (junk : SnIoNaddr)
  deriving DecidableEq

/-- The address that an operation is about. -/
def RouterOp.addr : RouterOp → SnNetAddr
  | .add addr _ => addr
  | .remove addr _ => addr

/-- One membership operation. -/
def routerStep (snr : SnNetRouter) : RouterOp → Exec SnNetRouter
  | .add addr netAddr => snNetRouterAdd q snr addr netAddr
  | .remove addr junk => snNetRouterRemove q snr addr junk

/-- The states that a router reaches from its initialisation by membership operations. -/
def Reachable (snr : SnNetRouter) : Prop :=
  ∃ selfAddr selfNetAddr ops,
    run (routerStep q) (snNetRouterInit selfAddr selfNetAddr) ops = .ok snr

end SndNet
