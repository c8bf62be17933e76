import Mathlib.Algebra.Group.Nat.Defs
import SndNet.Library.FallibleRun

/-!
# Loops with a counter of bounded width

The loop `for(i = 0; i < n; ++i)` tests its counter against the bound before every iteration. A
counter of `w` bits returns to 0 after `2 ^ w - 1`, so that the test never fails once the bound is
`2 ^ w` or more. The loop is given the number of tests that it may make, and its state is lost when
they are used up.

## Main definitions

* `CountedLoop.loop`: the loop.

## Main results

* `CountedLoop.loop_eq_foldlM`: a loop over a list that the counter can count is a fold.
* `CountedLoop.loop_ne_ok_some`: a loop to a bound that the counter cannot reach never returns.
-/

namespace CountedLoop

open FallibleRun

universe u

variable {ε : Type*} {σ : Type u} {w n : ℕ} {body : ℕ → σ → Except ε σ}

/-- The state after the loop, entered with the counter `i`, or nothing if it has not returned after
`fuel` tests of its condition. -/
def loop (w n : ℕ) (body : ℕ → σ → Except ε σ) : ℕ → ℕ → σ → Except ε (Option σ)
  | 0, _, _ => .ok none
  | fuel + 1, i, s =>
    if i < n then body i s >>= fun s' => loop w n body fuel ((i + 1) % 2 ^ w) s'
    else .ok (some s)

/-- **The counted rule.** A loop over the indices of a list that is shorter than the counter's
period returns what the fold over the rest of the list returns. -/
theorem loop_eq_foldlM {α : Type*} {l : List α} {f : σ → α → Except ε σ}
    (hbody : ∀ i (h : i < l.length) s, body i s = f s l[i]) (hw : l.length < 2 ^ w) {fuel i : ℕ}
    (hi : i ≤ l.length) (hfuel : l.length - i < fuel) (s : σ) :
    loop w l.length body fuel i s = (l.drop i).foldlM f s >>= fun t => .ok (some t) := by
  induction fuel generalizing i s with
  | zero => exact absurd hfuel (Nat.not_lt_zero _)
  | succ fuel ih =>
    rw [loop]
    rcases Nat.lt_or_eq_of_le hi with hlt | rfl
    · have hnext : (i + 1) % 2 ^ w = i + 1 := Nat.mod_eq_of_lt (by omega)
      rw [if_pos hlt, hbody i hlt, hnext, List.drop_eq_getElem_cons hlt, List.foldlM_cons,
        bind_assoc]
      refine bind_congr fun s' => ?_
      exact ih hlt (by omega) s'
    · rw [if_neg (Nat.lt_irrefl _), List.drop_length]
      rfl

/-- **The wrapping rule.** A loop whose bound is not below the counter's period never returns. -/
theorem loop_ne_ok_some (hn : 2 ^ w ≤ n) (fuel : ℕ) {i : ℕ} (hi : i < 2 ^ w) (s t : σ) :
    loop w n body fuel i s ≠ .ok (some t) := by
  induction fuel generalizing i s with
  | zero => simp [loop]
  | succ fuel ih =>
    rw [loop, if_pos (Nat.lt_of_lt_of_le hi hn)]
    intro h
    obtain ⟨s', -, hrest⟩ := bind_eq_ok.1 h
    exact ih (Nat.mod_lt _ (Nat.two_pow_pos w)) s' hrest

end CountedLoop
