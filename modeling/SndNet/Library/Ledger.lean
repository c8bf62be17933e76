import Mathlib.Algebra.BigOperators.Group.Multiset.Basic
import Mathlib.Algebra.Order.Monoid.Defs
import Mathlib.Logic.Relation

/-!
# Ledgers

A process holds items, each worth a value of an additive monoid, and spends values by turning an
item into others. A ledger records the items held, the value spent and the value granted from
outside. When no turn makes more of an item than it is worth, no more is ever spent than has been
granted; when every turn makes exactly as much of it, nothing is lost either. Both are one rule
about a comparison of values that is compatible with addition.

## Main definitions

* `Ledger`: the items held, with what has been spent and granted.
* `Ledger.IsFair`: the comparisons of values that can be added up.
* `Ledger.Step`: items are granted, or an item is turned into others.
* `Ledger.Covered`: what is spent and held compares with what has been granted.

## Main results

* `Ledger.Covered.step`: a step of the ledger keeps it covered.
* `Ledger.Covered.simulation`: a machine all of whose steps are steps of its ledger keeps it
  covered over every run.
-/

/-- The items that a process holds, the value spent and the value granted. -/
@[ext]
structure Ledger (α M : Type*) where
  held : Multiset α
  spent : M
  granted : M

namespace Ledger

variable {α M : Type*} [AddCommMonoid M]

/-- A comparison of values that can be added up. -/
structure IsFair (r : M → M → Prop) : Prop where
  refl : ∀ a, r a a
  trans : ∀ {a b c}, r a b → r b c → r a c
  add_right : ∀ {a b} c, r a b → r (a + c) (b + c)

theorem IsFair.le [PartialOrder M] [IsOrderedAddMonoid M] : IsFair (M := M) (· ≤ ·) where
  refl := le_refl
  trans := le_trans
  add_right c h := add_le_add_left h c

theorem IsFair.eq : IsFair (M := M) (· = ·) where
  refl _ := rfl
  trans := Eq.trans
  add_right c h := congrArg (· + c) h

theorem IsFair.prod {M' : Type*} [AddCommMonoid M'] {r : M → M → Prop} {r' : M' → M' → Prop}
    (hr : IsFair r) (hr' : IsFair r') :
    IsFair (M := M × M') fun a b => r a.1 b.1 ∧ r' a.2 b.2 where
  refl a := ⟨hr.refl a.1, hr'.refl a.2⟩
  trans h h' := ⟨hr.trans h.1 h'.1, hr'.trans h.2 h'.2⟩
  add_right c h := ⟨hr.add_right c.1 h.1, hr'.add_right c.2 h.2⟩

theorem IsFair.add {r : M → M → Prop} (hr : IsFair r) {a b c d : M} (h : r a b) (h' : r c d) :
    r (a + c) (b + d) := by
  have hright := hr.add_right b h'
  rw [add_comm c, add_comm d] at hright
  exact hr.trans (hr.add_right c h) hright

variable (r : M → M → Prop) (worth : α → M)

/-- The value of some items. -/
def total (items : Multiset α) : M := (items.map worth).sum

@[simp] theorem total_zero : total worth 0 = 0 := rfl

@[simp] theorem total_cons (a : α) (items : Multiset α) :
    total worth (a ::ₘ items) = worth a + total worth items := by
  rw [total, Multiset.map_cons, Multiset.sum_cons, total]

@[simp] theorem total_singleton (a : α) : total worth {a} = worth a := by
  rw [total, Multiset.map_singleton, Multiset.sum_singleton]

@[simp] theorem total_add (items items' : Multiset α) :
    total worth (items + items') = total worth items + total worth items' := by
  rw [total, Multiset.map_add, Multiset.sum_add, total, total]

/-- A step of a ledger: the value `grant` arrives from outside, or the item `a` is given up. Either
pays for the value `value` and the items `items`. -/
inductive Step (L L' : Ledger α M) : Prop
  | grant (items : Multiset α) (value grant : M) (hheld : L'.held = items + L.held)
      (hspent : L'.spent = L.spent + value) (hgranted : L'.granted = L.granted + grant)
      (h : r (value + total worth items) grant)
  | turn (a : α) (rest items : Multiset α) (value : M) (hheld : L.held = a ::ₘ rest)
      (hheld' : L'.held = items + rest) (hspent : L'.spent = L.spent + value)
      (hgranted : L'.granted = L.granted) (h : r (value + total worth items) (worth a))

/-- What is spent and held compares with what has been granted. -/
def Covered (L : Ledger α M) : Prop := r (L.spent + total worth L.held) L.granted

variable {r worth} {L L' : Ledger α M}

/-- A ledger on which nothing has happened is covered. -/
theorem Covered.empty (hr : IsFair r) : Covered r worth ⟨0, 0, 0⟩ := by
  rw [Covered, total_zero, add_zero]
  exact hr.refl 0

/-- A step of the ledger keeps it covered. -/
theorem Covered.step (hr : IsFair r) (hcovered : Covered r worth L) (hstep : Step r worth L L') :
    Covered r worth L' := by
  cases hstep with
  | grant items value grant hheld hspent hgranted h =>
    have hadd := hr.add hcovered h
    rw [Covered, hheld, hspent, hgranted, total_add]
    rwa [add_add_add_comm, add_comm (total worth L.held)] at hadd
  | turn a rest items value hheld hheld' hspent hgranted h =>
    have hadd := hr.add_right (L.spent + total worth rest) h
    rw [Covered, hheld, total_cons, add_left_comm] at hcovered
    rw [Covered, hheld', hspent, hgranted, total_add]
    refine hr.trans ?_ hcovered
    rwa [add_comm (value + total worth items), add_add_add_comm,
      add_comm (total worth rest)] at hadd

/-- **The ledger rule.** When every step of a machine keeps an invariant and, in a state of the
invariant, is a step of its ledger or leaves the ledger as it is, the ledger is covered after every
run from a state of the invariant with a covered ledger. -/
theorem Covered.simulation {σ : Type*} {next : σ → σ → Prop} {ledger : σ → Ledger α M}
    (hr : IsFair r) (Inv : σ → Prop) (hinv : ∀ s s', Inv s → next s s' → Inv s')
    (hnext : ∀ s s', Inv s → next s s' →
      ledger s' = ledger s ∨ Step r worth (ledger s) (ledger s'))
    {s t : σ} (hs : Inv s) (hcovered : Covered r worth (ledger s))
    (hrun : Relation.ReflTransGen next s t) : Inv t ∧ Covered r worth (ledger t) := by
  induction hrun with
  | refl => exact ⟨hs, hcovered⟩
  | tail _ hstep ih =>
    refine ⟨hinv _ _ ih.1 hstep, ?_⟩
    rcases hnext _ _ ih.1 hstep with heq | hledger
    · rw [heq]
      exact ih.2
    · exact ih.2.step hr hledger

end Ledger
