import Mathlib.Data.List.Basic

/-!
# Layouts of bytes

A record in memory is the concatenation of its fields, each a number of bytes at an offset. This
file reads fields back from a concatenation and fixes the little-endian layout of a number of two
bytes.

## Main definitions

* `ByteLayout.slice`: the bytes from an offset on.
* `ByteLayout.splice`: the bytes from an offset on overwritten.
* `ByteLayout.le16`, `ByteLayout.ofLe16`: a number of sixteen bits as two bytes.

## Main results

* `ByteLayout.slice_append_right`: the fields after a field of known length.
* `ByteLayout.slice_append_of_length`: a field at its own length.
* `ByteLayout.set_splice`, `ByteLayout.splice_splice_of_length`: fields written one element at a
  time, and two fields that fill the list.
* `ByteLayout.slice_splice_self`, `ByteLayout.slice_splice_before`, `ByteLayout.slice_splice_after`:
  what a write leaves.
* `ByteLayout.ofLe16_le16`, `ByteLayout.le16_ofLe16`: the two bytes determine the number.
-/

namespace ByteLayout

/-! ### Fields at an offset -/

section Slice

variable {α : Type*} {as bs : List α} {off n : ℕ}

/-- The `n` elements from the offset `off` on. -/
def slice (off n : ℕ) (as : List α) : List α := (as.drop off).take n

theorem length_slice (h : off + n ≤ as.length) : (slice off n as).length = n := by
  rw [slice, List.length_take, List.length_drop]
  omega

/-- After a field of known length, offsets count from its end. -/
theorem slice_append_right (h : as.length ≤ off) :
    slice off n (as ++ bs) = slice (off - as.length) n bs := by
  rw [slice, slice, List.drop_append, List.drop_eq_nil_of_le h, List.nil_append]

theorem slice_append_of_length (h : as.length = n) : slice 0 n (as ++ bs) = as := by
  rw [slice, List.drop_zero, List.take_left' h]

theorem slice_of_length (h : as.length = n) : slice 0 n as = as := by
  rw [slice, List.drop_zero, List.take_of_length_le (Nat.le_of_eq h)]

theorem slice_take {m : ℕ} (h : off + n ≤ m) : slice off n (as.take m) = slice off n as := by
  rw [slice, slice, List.drop_take, List.take_take, Nat.min_eq_left (by omega)]

theorem getD_take {d : α} {i : ℕ} (h : i < n) : (as.take n).getD i d = as.getD i d := by
  rw [List.getD_eq_getElem?_getD, List.getD_eq_getElem?_getD, List.getElem?_take_of_lt h]

theorem slice_one {d : α} (h : off < as.length) : slice off 1 as = [as.getD off d] := by
  rw [slice, List.drop_eq_getElem_cons h, List.take_succ_cons, List.take_zero,
    List.getD_eq_getElem?_getD, List.getElem?_eq_getElem h, Option.getD_some]

/-- Two consecutive fields are one field. -/
theorem slice_append_slice (off n m : ℕ) (as : List α) :
    slice off n as ++ slice (off + n) m as = slice off (n + m) as := by
  rw [slice, slice, slice, List.take_add, List.drop_drop]

/-! ### Writing a field -/

/-- The list with the elements from the offset `off` on overwritten by `bs`. -/
def splice (off : ℕ) (bs as : List α) : List α := as.take off ++ (bs ++ as.drop (off + bs.length))

theorem length_splice (h : off + bs.length ≤ as.length) :
    (splice off bs as).length = as.length := by
  rw [splice, List.length_append, List.length_append, List.length_take, List.length_drop]
  omega

@[simp] theorem splice_nil (off : ℕ) (as : List α) : splice off [] as = as := by
  rw [splice, List.nil_append, List.length_nil, Nat.add_zero, List.take_append_drop]

/-- A field that is written one element at a time. -/
theorem set_splice {b : α} (h : off + bs.length < as.length) :
    (splice off bs as).set (off + bs.length) b = splice off (bs ++ [b]) as := by
  have hoff : (as.take off).length = off := by rw [List.length_take, Nat.min_eq_left (by omega)]
  have hdrop : (as.drop (off + bs.length)).set 0 b = b :: as.drop (off + (bs ++ [b]).length) := by
    rw [List.drop_eq_getElem_cons h, List.set_cons_zero, List.length_append, List.length_singleton,
      Nat.add_assoc]
  rw [splice, List.set_append_right _ _ (by omega), hoff, Nat.add_sub_cancel_left,
    List.set_append_right _ _ (Nat.le_refl _), Nat.sub_self, hdrop, splice, List.append_assoc,
    List.singleton_append]

/-- Two fields that fill the list. -/
theorem splice_splice_of_length {cs : List α} (h : bs.length + cs.length = as.length) :
    splice bs.length cs (splice 0 bs as) = bs ++ cs := by
  rw [splice, splice, List.take_zero, List.nil_append, Nat.zero_add, List.take_left,
    List.drop_eq_nil_of_le, List.append_nil]
  rw [List.length_append, List.length_drop]
  omega

/-- The field that has been written. -/
theorem slice_splice_self (h : off ≤ as.length) (hn : bs.length = n) :
    slice off n (splice off bs as) = bs := by
  have hoff : (as.take off).length = off := by rw [List.length_take, Nat.min_eq_left h]
  rw [splice, slice_append_right (Nat.le_of_eq hoff), hoff, Nat.sub_self, slice_append_of_length hn]

/-- A field before the one that has been written. -/
theorem slice_splice_before {i : ℕ} (h : off ≤ as.length) (hi : i + n ≤ off) :
    slice i n (splice off bs as) = slice i n as := by
  have htake : (splice off bs as).take off = as.take off :=
    List.take_left' (by rw [List.length_take, Nat.min_eq_left h])
  rw [← slice_take hi, htake, slice_take hi]

/-- A field after the one that has been written. -/
theorem slice_splice_after {i : ℕ} (h : off + bs.length ≤ as.length) (hi : off + bs.length ≤ i) :
    slice i n (splice off bs as) = slice i n as := by
  have hoff : (as.take off).length = off := by rw [List.length_take, Nat.min_eq_left (by omega)]
  rw [splice, slice_append_right (by omega), slice_append_right (by omega), hoff, slice, slice,
    List.drop_drop]
  congr 2
  omega

end Slice

/-! ### Numbers of two bytes -/

/-- A number of sixteen bits, the low byte first. -/
def le16 (n : UInt16) : List UInt8 := [.ofNat n.toNat, .ofNat (n.toNat / 256)]

/-- The number of a low and a high byte. -/
def ofLe16 (lo hi : UInt8) : UInt16 := .ofNat (lo.toNat + 256 * hi.toNat)

@[simp] theorem length_le16 (n : UInt16) : (le16 n).length = 2 := rfl

theorem ofLe16_le16 (n : UInt16) : ofLe16 (.ofNat n.toNat) (.ofNat (n.toNat / 256)) = n := by
  have hn : n.toNat < 65536 := n.toNat_lt
  rw [← UInt16.toNat_inj, ofLe16, UInt16.toNat_ofNat', UInt8.toNat_ofNat', UInt8.toNat_ofNat']
  omega

theorem le16_ofLe16 (lo hi : UInt8) : le16 (ofLe16 lo hi) = [lo, hi] := by
  have hlo : lo.toNat < 256 := lo.toNat_lt
  have hhi : hi.toNat < 256 := hi.toNat_lt
  have hval : (ofLe16 lo hi).toNat = lo.toNat + 256 * hi.toNat := by
    rw [ofLe16, UInt16.toNat_ofNat', Nat.mod_eq_of_lt (by omega)]
  have hfst : (UInt8.ofNat (ofLe16 lo hi).toNat) = lo := by
    rw [← UInt8.toNat_inj, UInt8.toNat_ofNat', hval]
    omega
  have hsnd : (UInt8.ofNat ((ofLe16 lo hi).toNat / 256)) = hi := by
    rw [← UInt8.toNat_inj, UInt8.toNat_ofNat', hval]
    omega
  rw [le16, hfst, hsnd]

end ByteLayout
