import SndNet.Library.RingDistance
import SndNet.Net.Addr

/-!
# The distance that is computed

`sn_net_addr_dist` (`src/net/addr.c`, lines 76–103) is meant to be the distance on the ring of the
keys: it subtracts byte by byte and negates a difference in the upper half. Two things go wrong. A
borrow that meets a byte 255 of the subtrahend wraps around in the sum of both and is lost, and
`bytestring_negate` complements the bytes, which gives one less than the negation. This file finds
the keys for which the result is the distance nevertheless.

## Main definitions

* `SndNet.LosesBorrow`: the subtraction of two numbers loses a borrow.

## Main results

* `SndNet.subLoop_spec`: what the subtraction computes.
* `SndNet.val_snNetAddrDist_eq_iff`: when the result is the distance on the ring.
* `SndNet.snNetAddrDist_ring_iff`: the same, and when it is a distance for both orders of the keys.
-/

namespace SndNet

open DigitWord

/-! ### Digits of a number -/

section Digits

variable {d V k p : ℕ}

theorem digit_split (hp : p ≤ k) : d * 256 ^ k + V = 256 ^ p * (d * 256 ^ (k - p)) + V := by
  rw [Nat.mul_left_comm, ← pow_add, Nat.add_sub_cancel' hp]

theorem digit_mod (hp : p ≤ k) : (d * 256 ^ k + V) % 256 ^ p = V % 256 ^ p := by
  rw [digit_split hp, Nat.mul_add_mod]

theorem digit_div (hp : p < k) : (d * 256 ^ k + V) / 256 ^ p % 256 = V / 256 ^ p % 256 := by
  have hpow : d * 256 ^ (k - p) = 256 * (d * 256 ^ (k - p - 1)) := by
    rw [Nat.mul_left_comm, ← pow_succ', Nat.sub_add_cancel (by omega)]
  rw [digit_split hp.le, Nat.mul_add_div (by positivity), hpow, Nat.mul_add_mod]

theorem digit_top (hV : V < 256 ^ k) (hd : d < 256) : (d * 256 ^ k + V) / 256 ^ k % 256 = d := by
  rw [mul_comm, Nat.mul_add_div (by positivity), Nat.div_eq_of_lt hV, Nat.add_zero,
    Nat.mod_eq_of_lt hd]

/-- The order of a number and a multiple of the weight of its first digit. -/
theorem digit_le_iff {e : ℕ} (hV : V < 256 ^ k) : e ≤ d ↔ e * 256 ^ k ≤ d * 256 ^ k + V := by
  constructor
  · intro h
    exact (Nat.mul_le_mul_right _ h).trans (Nat.le_add_right _ _)
  · intro h
    by_contra hd
    have hmul : (d + 1) * 256 ^ k ≤ e * 256 ^ k := Nat.mul_le_mul_right _ (not_le.1 hd)
    rw [add_mul, one_mul] at hmul
    omega

end Digits

/-- Among the lowest `n` bytes of the subtrahend `B` is a byte 255 that meets a borrow: the bytes
below it are less in `A` than in `B`. -/
def LosesBorrow (n A B : ℕ) : Prop :=
  ∃ p < n, B / 256 ^ p % 256 = 255 ∧ A % 256 ^ p < B % 256 ^ p

instance (n A B : ℕ) : Decidable (LosesBorrow n A B) :=
  inferInstanceAs (Decidable (∃ p < n, B / 256 ^ p % 256 = 255 ∧ A % 256 ^ p < B % 256 ^ p))

theorem losesBorrow_succ {k a b A B : ℕ} (hA : A < 256 ^ k) (hB : B < 256 ^ k) (hb : b < 256) :
    LosesBorrow (k + 1) (a * 256 ^ k + A) (b * 256 ^ k + B) ↔
      LosesBorrow k A B ∨ b = 255 ∧ A < B := by
  constructor
  · rintro ⟨p, hp, hbyte, hlt⟩
    rcases Nat.lt_succ_iff_lt_or_eq.1 hp with hp | rfl
    · rw [digit_div hp] at hbyte
      rw [digit_mod hp.le, digit_mod hp.le] at hlt
      exact Or.inl ⟨p, hp, hbyte, hlt⟩
    · rw [digit_top hB hb] at hbyte
      rw [digit_mod le_rfl, digit_mod le_rfl, Nat.mod_eq_of_lt hA, Nat.mod_eq_of_lt hB] at hlt
      exact Or.inr ⟨hbyte, hlt⟩
  · rintro (⟨p, hp, hbyte, hlt⟩ | ⟨hbyte, hlt⟩)
    · refine ⟨p, Nat.lt_succ_of_lt hp, ?_, ?_⟩
      · rwa [digit_div hp]
      · rwa [digit_mod hp.le, digit_mod hp.le]
    · refine ⟨k, Nat.lt_succ_self k, ?_, ?_⟩
      · rwa [digit_top hB hb]
      · rwa [digit_mod le_rfl, digit_mod le_rfl, Nat.mod_eq_of_lt hA, Nat.mod_eq_of_lt hB]

/-! ### The subtraction -/

/-- One byte of the subtraction: the difference of the bytes with the borrow, unless a byte 255
meets a borrow, which leaves the byte as it is and passes no borrow on. -/
theorem subByte_spec (a b carry : UInt8) (hcarry : carry.toNat ≤ 1) :
    (b.toNat = 255 ∧ carry.toNat = 1 ∧ a - (b + carry) = a ∧ ¬ b + carry > a) ∨
    (¬ (b.toNat = 255 ∧ carry.toNat = 1) ∧
      (a - (b + carry)).toNat + (b.toNat + carry.toNat) =
        a.toNat + (if b + carry > a then 256 else 0) ∧
      (b + carry > a ↔ a.toNat < b.toNat + carry.toNat)) := by
  have ha : a.toNat < 256 := a.toNat_lt
  have hb : b.toNat < 256 := b.toNat_lt
  have hsum : (b + carry).toNat = (b.toNat + carry.toNat) % 256 := UInt8.toNat_add b carry
  have hdiff : (a - (b + carry)).toNat = (256 - (b + carry).toNat + a.toNat) % 256 :=
    UInt8.toNat_sub a (b + carry)
  have hgt : b + carry > a ↔ a.toNat < (b + carry).toNat := UInt8.lt_iff_toNat_lt
  by_cases hlost : b.toNat = 255 ∧ carry.toNat = 1
  · refine Or.inl ⟨hlost.1, hlost.2, ?_, ?_⟩
    · rw [← UInt8.toNat_inj]
      omega
    · rw [hgt]
      omega
  · refine Or.inr ⟨hlost, ?_, ?_⟩
    · split_ifs with h <;> rw [hgt] at h <;> omega
    · rw [hgt]
      omega

/-- The number that bytes spell, the first one being the highest. -/
abbrev byteValue (bs : List UInt8) : ℕ := value 256 (bs.map UInt8.toNat)

theorem byteValue_cons (b : UInt8) (bs : List UInt8) :
    byteValue (b :: bs) = b.toNat * 256 ^ bs.length + byteValue bs := by
  rw [byteValue, List.map_cons, value, List.length_map]

theorem byteValue_lt (bs : List UInt8) : byteValue bs < 256 ^ bs.length := by
  have h : byteValue bs < 256 ^ (bs.map UInt8.toNat).length :=
    value_lt fun d => SnNetAddr.lt_of_mem_map_toNat
  rwa [List.length_map] at h

/-- What the lost borrows add to the difference: nothing when none is lost, in which case the borrow
out of the difference is the right one, and a number whose lowest byte is above the lowest byte that
loses one otherwise. -/
def Lost (k A B carry E : ℕ) : Prop :=
  (¬ LosesBorrow k A B ∧ E = 0 ∧ (carry = 1 ↔ A < B)) ∨
    (LosesBorrow k A B ∧ ∃ p m, p < k ∧ A % 256 ^ p < B % 256 ^ p ∧
      E = 256 ^ (p + 1) * (256 * m + 1))

/-- A byte that loses no borrow. -/
theorem Lost.keep {k a b A B carry carry' E : ℕ} (h : Lost k A B carry E) (hA : A < 256 ^ k)
    (hB : B < 256 ^ k) (hb : b < 256) (hcarry : carry ≤ 1) (hbyte : ¬ (b = 255 ∧ carry = 1))
    (hcarry' : carry' = 1 ↔ a < b + carry) :
    Lost (k + 1) (a * 256 ^ k + A) (b * 256 ^ k + B) carry' E := by
  have hsucc := losesBorrow_succ (a := a) hA hB hb
  rcases h with ⟨hlose, rfl, hiff⟩ | ⟨hlose, p, m, hp, hlt, hE⟩
  · refine Or.inl ⟨?_, rfl, ?_⟩
    · rw [hsucc]
      rintro (h | ⟨h255, hlt⟩)
      · exact hlose h
      · exact hbyte ⟨h255, hiff.2 hlt⟩
    · rw [hcarry']
      -- The order of the numbers is decided at the new byte, or by the rest.
      rcases lt_trichotomy a b with h | rfl | h
      · have hmul : (a + 1) * 256 ^ k ≤ b * 256 ^ k := Nat.mul_le_mul_right _ h
        rw [add_mul, one_mul] at hmul
        omega
      · omega
      · have hmul : (b + 1) * 256 ^ k ≤ a * 256 ^ k := Nat.mul_le_mul_right _ h
        rw [add_mul, one_mul] at hmul
        omega
  · refine Or.inr ⟨hsucc.2 (Or.inl hlose), p, m, Nat.lt_succ_of_lt hp, ?_, hE⟩
    rwa [digit_mod hp.le, digit_mod hp.le]

/-- A byte that loses a borrow. -/
theorem Lost.lose {k a b A B E : ℕ} (h : Lost k A B 1 E) (hA : A < 256 ^ k) (hB : B < 256 ^ k)
    (hb : b = 255) (carry : ℕ) :
    Lost (k + 1) (a * 256 ^ k + A) (b * 256 ^ k + B) carry (E + 256 ^ (k + 1)) := by
  have hsucc := losesBorrow_succ (a := a) hA hB (show b < 256 by omega)
  rcases h with ⟨hlose, rfl, hiff⟩ | ⟨hlose, p, m, hp, hlt, rfl⟩
  · have hAB : A < B := hiff.1 rfl
    refine Or.inr ⟨hsucc.2 (Or.inr ⟨hb, hAB⟩), k, 0, Nat.lt_succ_self k, ?_, by ring⟩
    rwa [digit_mod le_rfl, digit_mod le_rfl, Nat.mod_eq_of_lt hA, Nat.mod_eq_of_lt hB]
  · refine Or.inr ⟨hsucc.2 (Or.inl hlose), p, m + 256 ^ (k - p - 1), Nat.lt_succ_of_lt hp, ?_, ?_⟩
    · rwa [digit_mod hp.le, digit_mod hp.le]
    · have hpow : (256 : ℕ) ^ (k + 1) = 256 ^ (p + 1) * (256 * 256 ^ (k - p - 1)) := by
        rw [← pow_succ', ← pow_add]
        congr 1
        omega
      rw [hpow]
      ring

/-- **What the subtraction computes**: the difference with the borrow out of it, except for what the
lost borrows add. -/
theorem subLoop_spec : ∀ {as bs : List UInt8}, as.length = bs.length →
    (subLoop as bs).1.toNat ≤ 1 ∧ ∃ E,
      byteValue (subLoop as bs).2 + byteValue bs =
        byteValue as + (subLoop as bs).1.toNat * 256 ^ as.length + E ∧
      Lost as.length (byteValue as) (byteValue bs) (subLoop as bs).1.toNat E
  | [], [], _ => by
    refine ⟨by simp [subLoop], 0, by simp [subLoop, byteValue, value],
      Or.inl ⟨?_, rfl, by simp [subLoop]⟩⟩
    rintro ⟨p, hp, -⟩
    exact absurd hp (Nat.not_lt_zero p)
  | [], _ :: _, h => by simp at h
  | _ :: _, [], h => by simp at h
  | a :: as, b :: bs, h => by
    have hlen : as.length = bs.length := by simpa using h
    obtain ⟨hcarry, E, hval, hlost⟩ := subLoop_spec hlen
    have hA := byteValue_lt as
    have hB := byteValue_lt bs
    have hb : b.toNat < 256 := b.toNat_lt
    have hsub : (subLoop as bs).2.length = as.length := by simp [hlen]
    have hloop : subLoop (a :: as) (b :: bs) =
        (if b + (subLoop as bs).1 > a then 1 else 0,
          (a - (b + (subLoop as bs).1)) :: (subLoop as bs).2) := rfl
    rw [← hlen] at hB
    rw [hloop, byteValue_cons, byteValue_cons, byteValue_cons, hsub, ← hlen, List.length_cons]
    rcases subByte_spec a b (subLoop as bs).1 hcarry with
      ⟨h255, hone, hdiff, hgt⟩ | ⟨hkeep, hdiff, hgt⟩
    · rw [if_neg hgt, hdiff, h255]
      rw [hone] at hval hlost
      refine ⟨by simp, E + 256 ^ (as.length + 1), ?_, hlost.lose hA hB rfl _⟩
      rw [pow_succ]
      simp only [UInt8.toNat_zero]
      linarith
    · refine ⟨by split_ifs <;> simp, E, ?_, hlost.keep hA hB hb hcarry hkeep ?_⟩
      · have hmul := congrArg (· * 256 ^ as.length) hdiff
        rw [pow_succ]
        split_ifs at hmul ⊢ <;> simp only [UInt8.toNat_zero, UInt8.toNat_one] <;> linarith
      · rw [← hgt]
        split_ifs <;> simp_all

/-! ### The difference of two keys -/

/-- The number of keys. -/
abbrev ringSize : ℕ := 2 ^ 256

/-- Half the number of keys. -/
abbrev halfRing : ℕ := 2 ^ 255

theorem SnNetAddr.val_lt (a : SnNetAddr) : a.val < ringSize := by
  have h := byteValue_lt a.key.val
  rw [a.key.property] at h
  exact h.trans_eq (by norm_num)

/-- The number that the difference of two keys spells. -/
def subVal (a b : SnNetAddr) : ℕ := byteValue (subLoop a.key.val b.key.val).2

theorem exists_cons (a : SnNetAddr) : ∃ c cs, a.key.val = c :: cs ∧ cs.length = 31 := by
  obtain ⟨c, cs, ha⟩ := List.exists_cons_of_length_eq_add_one a.key.property
  have hlen := a.key.property
  rw [ha] at hlen
  exact ⟨c, cs, ha, Nat.succ.inj hlen⟩

/-- The difference of two keys, except for whole turns of the ring and what the borrows add that are
lost below the first byte. -/
theorem subVal_spec (a b : SnNetAddr) : ∃ t E, subVal a b + b.val = a.val + E + t * ringSize ∧
    ((¬ LosesBorrow 31 a.val b.val ∧ E = 0) ∨
      (LosesBorrow 31 a.val b.val ∧ ∃ p m, p < 31 ∧ a.val % 256 ^ p < b.val % 256 ^ p ∧
        E = 256 ^ (p + 1) * (256 * m + 1))) := by
  obtain ⟨c, cs, ha, hcs⟩ := exists_cons a
  obtain ⟨d, ds, hb, hds⟩ := exists_cons b
  obtain ⟨hcarry, E, hval, hlost⟩ := subLoop_spec (hcs.trans hds.symm)
  have haval : a.val = c.toNat * 256 ^ 31 + byteValue cs := by
    rw [← hcs, ← byteValue_cons, SnNetAddr.val, ha]
  have hbval : b.val = d.toNat * 256 ^ 31 + byteValue ds := by
    rw [← hds, ← byteValue_cons, SnNetAddr.val, hb]
  have hsub : subVal a b = (c - (d + (subLoop cs ds).1)).toNat * 256 ^ 31 +
      byteValue (subLoop cs ds).2 := by
    have hlen : (subLoop cs ds).2.length = 31 := by simp [hcs, hds]
    rw [subVal, ha, hb, ← hlen, ← byteValue_cons]
    rfl
  obtain ⟨t, ht⟩ : ∃ t, (c - (d + (subLoop cs ds).1)).toNat + (d.toNat + (subLoop cs ds).1.toNat) =
      c.toNat + 256 * t := by
    rcases subByte_spec c d (subLoop cs ds).1 hcarry with
      ⟨h255, hone, hdiff, -⟩ | ⟨-, hdiff, -⟩
    · exact ⟨1, by rw [hdiff, h255, hone]⟩
    · refine ⟨if d + (subLoop cs ds).1 > c then 1 else 0, ?_⟩
      rw [hdiff]
      split_ifs <;> rfl
  rw [hcs] at hval hlost
  refine ⟨t, E, ?_, ?_⟩
  · have hpow : ringSize = 256 * 256 ^ 31 := by norm_num
    have hmul := congrArg (· * 256 ^ 31) ht
    rw [hsub, haval, hbval, hpow]
    simp only [add_mul] at hmul
    linarith
  · have hlose : LosesBorrow 31 a.val b.val ↔ LosesBorrow 31 (byteValue cs) (byteValue ds) := by
      rw [haval, hbval]
      refine exists_congr fun p => and_congr_right fun hp => ?_
      rw [digit_div hp, digit_mod hp.le, digit_mod hp.le]
    rw [hlose]
    rcases hlost with ⟨h, hE, -⟩ | ⟨h, p, m, hp, hlt, hE⟩
    · exact Or.inl ⟨h, hE⟩
    · refine Or.inr ⟨h, p, m, hp, ?_, hE⟩
      rwa [haval, hbval, digit_mod hp.le, digit_mod hp.le]

/-! ### The negation -/

theorem toNat_xor_255 (b : UInt8) : (255 ^^^ b).toNat + b.toNat = 255 := by
  have h : ∀ n < 256, (255 ^^^ n) + n = 255 := by decide +kernel
  rw [UInt8.toNat_xor]
  exact h b.toNat b.toNat_lt

/-- `bytestring_negate` takes the number away from the one with all bits set. -/
theorem byteValue_bytestringNegate (bs : List UInt8) :
    byteValue (bytestringNegate bs) + byteValue bs + 1 = 256 ^ bs.length := by
  induction bs with
  | nil => rfl
  | cons b bs ih =>
    have hbyte := congrArg (· * 256 ^ bs.length) (toNat_xor_255 b)
    have hlen : (bytestringNegate bs).length = bs.length := List.length_map _
    have hcons : bytestringNegate (b :: bs) = (255 ^^^ b) :: bytestringNegate bs := rfl
    rw [hcons, byteValue_cons, byteValue_cons, hlen, List.length_cons, pow_succ]
    simp only [add_mul] at hbyte
    linarith

/-- The value of the distance: the difference, or one less than its negation when it is in the upper
half. -/
theorem val_snNetAddrDist (a b : SnNetAddr) : (snNetAddrDist a b).val =
    if halfRing ≤ subVal a b then ringSize - 1 - subVal a b else subVal a b := by
  have hlen : (subLoop a.key.val b.key.val).2.length = 32 := by
    rw [length_subLoop, a.key.property, b.key.property, min_self]
  obtain ⟨s, rest, hsub⟩ := List.exists_cons_of_length_eq_add_one hlen
  have hrest : rest.length = 31 := by
    rw [hsub] at hlen
    exact Nat.succ.inj hlen
  have hval : subVal a b = s.toNat * 256 ^ 31 + byteValue rest := by
    rw [subVal, hsub, byteValue_cons, hrest]
  have hlt := byteValue_lt rest
  rw [hrest] at hlt
  have hhalf : halfRing = 128 * 256 ^ 31 := by norm_num
  have htop : s ≥ 128 ↔ halfRing ≤ subVal a b := by
    rw [hval, hhalf, ge_iff_le, UInt8.le_iff_toNat_le]
    exact digit_le_iff hlt
  simp only [snNetAddrDist, hsub, List.getElem_cons_zero, htop]
  split_ifs with h
  · have hneg := byteValue_bytestringNegate (s :: rest)
    have hsize : (256 : ℕ) ^ (s :: rest).length = ringSize := by
      rw [List.length_cons, hrest]
      norm_num
    rw [hsize, byteValue_cons, hrest, ← hval] at hneg
    change byteValue (bytestringNegate (s :: rest)) = _
    omega
  · change byteValue (s :: rest) = _
    rw [byteValue_cons, hrest, hval]

/-! ### When the result is the distance -/

/-- The number that is returned for a difference `v` on a ring of `2 * H` numbers. -/
def negated (H v : ℕ) : ℕ := if H ≤ v then 2 * H - 1 - v else v

section Negated

variable {H A B V δ u t : ℕ}

/-- The distance from the arc up to the first number. -/
theorem dist_eq_ite (hA : A < 2 * H) (hB : B < 2 * H) : RingDistance.dist (2 * H) A B =
    if RingDistance.arc (2 * H) A B < H then RingDistance.arc (2 * H) A B
    else 2 * H - RingDistance.arc (2 * H) A B := by
  split_ifs with h
  · exact RingDistance.dist_eq_arc hA hB (by omega)
  · exact RingDistance.dist_eq_sub_arc hA hB (by omega)

/-- When no borrow is lost, the result is the distance exactly when the difference is in the lower
half. -/
theorem negated_arc_eq_dist_iff (hA : A < 2 * H) (hB : B < 2 * H) :
    negated H (RingDistance.arc (2 * H) A B) = RingDistance.dist (2 * H) A B ↔
      RingDistance.arc (2 * H) A B < H := by
  have hlt := RingDistance.arc_lt hA hB
  rw [negated, dist_eq_ite hA hB]
  split_ifs <;> omega

/-- When a borrow is lost, the result is not the distance: what the lost borrows add is even, so
that the result and the distance would have to be opposite, and the lowest lost borrow shows that
they are not. -/
theorem negated_ne_dist_of_lost {p m c : ℕ} (hA : A < 2 * H) (hB : B < 2 * H) (hVlt : V < 2 * H)
    (hsize : 2 * H = 256 ^ (p + 1) * (256 * c)) (hlow : A % 256 ^ p < B % 256 ^ p)
    (hδ : B + RingDistance.arc (2 * H) A B = A + 2 * H * u)
    (hV : V + 2 * H * u =
      RingDistance.arc (2 * H) A B + 256 ^ (p + 1) * (256 * m + 1) + 2 * H * t) :
    negated H V ≠ RingDistance.dist (2 * H) A B := by
  have hpow : (256 : ℕ) ^ (p + 1) = 2 * (128 * 256 ^ p) := by
    rw [pow_succ]
    ring
  have hturn : 256 ^ (p + 1) ∣ 2 * H := Dvd.intro _ hsize.symm
  have hlt := RingDistance.arc_lt hA hB
  rw [negated, dist_eq_ite hA hB]
  generalize RingDistance.arc (2 * H) A B = δ at hδ hV hlt ⊢
  -- The equal case: whole turns would have an odd number of lowest lost borrows.
  have hsame : V ≠ δ := by
    rintro rfl
    have hmul : 256 ^ (p + 1) * (256 * c * u) =
        256 ^ (p + 1) * (256 * m + 1 + 256 * c * t) := by
      rw [mul_add, ← mul_assoc, ← mul_assoc _ (256 * c) t, ← hsize]
      omega
    have hcancel := Nat.eq_of_mul_eq_mul_left (by positivity) hmul
    rw [mul_assoc, mul_assoc] at hcancel
    omega
  -- The opposite case: the keys would agree below the lowest lost borrow.
  have hopposite : V + δ ≠ 2 * H := by
    intro hsum
    have hdvd : 256 ^ (p + 1) ∣ 2 * δ := by
      have hrest : 256 ^ (p + 1) ∣ 256 ^ (p + 1) * (256 * m + 1) + 2 * H * t :=
        Nat.dvd_add (Dvd.intro _ rfl) (hturn.mul_right t)
      have hsum' : 2 * δ + (256 ^ (p + 1) * (256 * m + 1) + 2 * H * t) = 2 * H + 2 * H * u := by
        omega
      refine (Nat.dvd_add_left hrest).1 ?_
      rw [hsum']
      exact Nat.dvd_add hturn (hturn.mul_right u)
    have hdvd' : 256 ^ p ∣ δ := by
      rw [hpow] at hdvd
      exact (Dvd.intro_left 128 rfl).trans (Nat.dvd_of_mul_dvd_mul_left two_pos hdvd)
    have hturns : 256 ^ p ∣ 2 * H * u := ((pow_dvd_pow 256 p.le_succ).trans hturn).mul_right u
    have hmod := congrArg (· % 256 ^ p) hδ
    simp only [Nat.add_mod, Nat.mod_eq_zero_of_dvd hdvd', Nat.mod_eq_zero_of_dvd hturns,
      Nat.add_zero, Nat.mod_mod] at hmod
    omega
  rw [hpow, mul_assoc 2 _ (256 * m + 1), mul_assoc 2 H u, mul_assoc 2 H t] at hV
  split_ifs <;> omega

end Negated

theorem ringSize_eq : ringSize = 2 * halfRing := by norm_num

theorem subVal_lt (a b : SnNetAddr) : subVal a b < ringSize := by
  have h := byteValue_lt (subLoop a.key.val b.key.val).2
  rw [length_subLoop, a.key.property, b.key.property] at h
  exact h.trans_eq (by norm_num)

/-- The distance on the ring of the keys. -/
def SnNetAddr.ringDist (a b : SnNetAddr) : ℕ := RingDistance.dist ringSize a.val b.val

/-- The length of the arc from the key `b` up to the key `a`. -/
def SnNetAddr.arc (a b : SnNetAddr) : ℕ := RingDistance.arc ringSize a.val b.val

/-- The difference is the arc when no borrow is lost. -/
theorem subVal_eq_arc {a b : SnNetAddr} (h : ¬ LosesBorrow 31 a.val b.val) :
    subVal a b = a.arc b := by
  obtain ⟨t, E, hspec, ⟨-, rfl⟩ | ⟨hlose, -⟩⟩ := subVal_spec a b
  · refine ((RingDistance.arc_eq_iff a.val_lt b.val_lt (subVal_lt a b)).2 ?_).symm
    rw [add_comm, hspec, Nat.add_zero, Nat.add_mul_mod_self_right, Nat.mod_eq_of_lt a.val_lt]
  · exact absurd hlose h

/-- Then the result is the arc in the lower half, and one less than the other arc in the upper. -/
theorem val_snNetAddrDist_of_kept {a b : SnNetAddr} (h : ¬ LosesBorrow 31 a.val b.val) :
    (snNetAddrDist a b).val =
      if halfRing ≤ a.arc b then ringSize - 1 - a.arc b else a.arc b := by
  rw [val_snNetAddrDist, subVal_eq_arc h]

theorem SnNetAddr.ringDist_eq_ite (a b : SnNetAddr) :
    a.ringDist b = if a.arc b < halfRing then a.arc b else ringSize - a.arc b := by
  have ha := a.val_lt
  have hb := b.val_lt
  rw [SnNetAddr.ringDist, SnNetAddr.arc]
  rw [ringSize_eq] at *
  exact dist_eq_ite ha hb

theorem SnNetAddr.arc_lt (a b : SnNetAddr) : a.arc b < ringSize :=
  RingDistance.arc_lt a.val_lt b.val_lt

/-- The arc up from a key tells the other key. -/
theorem SnNetAddr.arc_inj {a a' b : SnNetAddr} : a.arc b = a'.arc b ↔ a = a' := by
  refine ⟨fun h => SnNetAddr.val_injective ?_, fun h => by rw [h]⟩
  rw [← (RingDistance.arc_eq_iff a.val_lt b.val_lt (a'.arc_lt b)).1 h]
  exact (RingDistance.arc_eq_iff a'.val_lt b.val_lt (a'.arc_lt b)).1 rfl

theorem SnNetAddr.arc_add_arc {a b : SnNetAddr} (h : a ≠ b) : a.arc b + b.arc a = ringSize :=
  RingDistance.arc_add_arc a.val_lt b.val_lt fun h' => h (SnNetAddr.val_injective h')

theorem SnNetAddr.arc_self (a : SnNetAddr) : a.arc a = 0 :=
  (RingDistance.arc_eq_zero_iff a.val_lt a.val_lt).2 rfl

/-- **When the result is the distance on the ring**: the difference is in the lower half, and the
subtraction loses no borrow below the first byte. -/
theorem val_snNetAddrDist_eq_iff (a b : SnNetAddr) : (snNetAddrDist a b).val = a.ringDist b ↔
    a.arc b < halfRing ∧ ¬ LosesBorrow 31 a.val b.val := by
  have ha := a.val_lt
  have hb := b.val_lt
  have hV := subVal_lt a b
  obtain ⟨t, E, hspec, hE⟩ := subVal_spec a b
  -- The difference is the arc up to what the lost borrows add, on the ring.
  have harc := (RingDistance.arc_eq_iff ha hb (RingDistance.arc_lt ha hb)).1 rfl
  obtain ⟨u, hδ⟩ : ∃ u, b.val + RingDistance.arc ringSize a.val b.val = a.val + ringSize * u := by
    have hdiv := Nat.mod_add_div (b.val + RingDistance.arc ringSize a.val b.val) ringSize
    rw [harc] at hdiv
    exact ⟨_, hdiv.symm⟩
  rw [val_snNetAddrDist, SnNetAddr.ringDist, SnNetAddr.arc]
  rw [ringSize_eq] at *
  change negated halfRing (subVal a b) = _ ↔ _
  rcases hE with ⟨hlose, rfl⟩ | ⟨hlose, p, m, hp, hlow, rfl⟩
  · have heq : subVal a b = RingDistance.arc (2 * halfRing) a.val b.val := by
      rw [← ringSize_eq]
      exact subVal_eq_arc hlose
    rw [heq, negated_arc_eq_dist_iff ha hb, and_iff_left hlose]
  · have hsize : 2 * halfRing = 256 ^ (p + 1) * (256 * 256 ^ (30 - p)) := by
      rw [← ringSize_eq, ← pow_succ', ← pow_add, show p + 1 + (30 - p + 1) = 32 by omega]
      norm_num
    have hdiff : subVal a b + 2 * halfRing * u = RingDistance.arc (2 * halfRing) a.val b.val +
        256 ^ (p + 1) * (256 * m + 1) + 2 * halfRing * t := by
      linarith
    exact iff_of_false (negated_ne_dist_of_lost ha hb hV hsize hlow hδ hdiff) fun h => h.2 hlose

/-- **When the result is a distance on the ring.** It is the encoding of the distance exactly when
the difference of the keys is in the lower half and no borrow is lost. It has in addition the
symmetry of a distance, and vanishes on equal keys only, exactly when the keys are equal. -/
theorem snNetAddrDist_ring_iff (a b : SnNetAddr) :
    ((snNetAddrDist a b).val = a.ringDist b ↔
      a.arc b < halfRing ∧ ¬ LosesBorrow 31 a.val b.val) ∧
    ((snNetAddrDist a b).val = a.ringDist b ∧ snNetAddrDist a b = snNetAddrDist b a ∧
      (snNetAddrDist a b = .zero ↔ a = b) ↔ a = b) := by
  refine ⟨val_snNetAddrDist_eq_iff a b, ?_, ?_⟩
  · rintro ⟨hring, hsymm, -⟩
    by_contra hne
    have hring' : (snNetAddrDist b a).val = b.ringDist a := by
      rw [← hsymm, hring]
      exact RingDistance.dist_comm _ _ _
    have hlower := ((val_snNetAddrDist_eq_iff a b).1 hring).1
    have hlower' := ((val_snNetAddrDist_eq_iff b a).1 hring').1
    have hsum := RingDistance.arc_add_arc a.val_lt b.val_lt fun h => hne (SnNetAddr.val_injective h)
    rw [ringSize_eq] at hsum
    rw [SnNetAddr.arc, ringSize_eq] at hlower hlower'
    omega
  · rintro rfl
    refine ⟨?_, rfl, iff_of_true (snNetAddrDist_self a) rfl⟩
    rw [snNetAddrDist_self, SnNetAddr.val_zero]
    exact ((RingDistance.dist_eq_zero_iff a.val_lt a.val_lt).2 rfl).symm

/-- The address of zero bytes is at distance 0 from the address 0…01, and not 1. -/
theorem snNetAddrDist_zero_one :
    (snNetAddrDist .zero (.ofBytes (List.replicate 31 0 ++ [1]))).val ≠
      SnNetAddr.ringDist .zero (.ofBytes (List.replicate 31 0 ++ [1])) := by
  decide +kernel

end SndNet
