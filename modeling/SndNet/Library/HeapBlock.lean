import SndNet.Library.ByteLayout

/-!
# Blocks of allocated memory

A block is the list of the bytes that an allocation holds. The allocator may refuse, and memory that
it hands out for the first time holds anything. A copy out of a block or into it must stay inside.

## Main definitions

* `HeapBlock.malloc`, `HeapBlock.realloc`: allocation, with the answer of the allocator.
* `HeapBlock.load`, `HeapBlock.store`: copies out of a block and into it.

## Main results

* `HeapBlock.length_of_malloc`, `HeapBlock.length_of_realloc`: the size of a block that has been
  handed out.
* `HeapBlock.slice_of_realloc`: what a reallocation keeps.
* `HeapBlock.load_of_le`, `HeapBlock.store_of_le`: copies inside a block.
-/

namespace HeapBlock

open ByteLayout

variable {α ε : Type} {block block' bs : List α} {n off m : ℕ}

/-- The answer of an allocator: no memory, or memory with some content. -/
abbrev Answer (α : Type) := Option (ℕ → α)

/-- A block of `n` bytes. -/
def malloc (answer : Answer α) (n : ℕ) : Option (List α) :=
  answer.map fun content => (List.range n).map content

/-- A block with another size, which starts as the old one does. -/
def realloc (answer : Answer α) (block : List α) (n : ℕ) : Option (List α) :=
  answer.map fun content => block.take n ++ (List.range (n - block.length)).map content

/-- `memcpy` of `n` bytes out of a block. -/
def load (overrun : ε) (block : List α) (off n : ℕ) : Except ε (List α) :=
  if off + n ≤ block.length then .ok (slice off n block) else .error overrun

/-- `memcpy` into a block. -/
def store (overrun : ε) (block : List α) (off : ℕ) (bs : List α) : Except ε (List α) :=
  if off + bs.length ≤ block.length then .ok (splice off bs block) else .error overrun

theorem length_of_malloc {answer : Answer α} (h : malloc answer n = some block) :
    block.length = n := by
  obtain ⟨content, -, rfl⟩ := Option.map_eq_some_iff.1 h
  rw [List.length_map, List.length_range]

theorem length_of_realloc {answer : Answer α} (h : realloc answer block n = some block') :
    block'.length = n := by
  obtain ⟨content, -, rfl⟩ := Option.map_eq_some_iff.1 h
  rw [List.length_append, List.length_take, List.length_map, List.length_range]
  omega

/-- What fits into both sizes survives a reallocation. -/
theorem slice_of_realloc {answer : Answer α} (h : realloc answer block m = some block')
    (hm : off + n ≤ m) (hblock : off + n ≤ block.length) :
    slice off n block' = slice off n block := by
  obtain ⟨content, -, rfl⟩ := Option.map_eq_some_iff.1 h
  have hlen : off + n ≤ (block.take m).length := by
    rw [List.length_take]
    omega
  rw [← slice_take (Nat.le_refl _), List.take_append_of_le_length hlen, slice_take (Nat.le_refl _),
    slice_take hm]

theorem load_of_le (overrun : ε) (h : off + n ≤ block.length) :
    load overrun block off n = .ok (slice off n block) := if_pos h

theorem store_of_le (overrun : ε) (h : off + bs.length ≤ block.length) :
    store overrun block off bs = .ok (splice off bs block) := if_pos h

end HeapBlock
