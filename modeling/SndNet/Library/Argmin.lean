import Mathlib.Data.List.MinMax

/-!
# Searching a list in segments for a first minimum

`List.argmin f l` is the first element of `l` at which `f` is least. A search that first finds the
best element of each of several segments and then the best among these finds the same element as
one search over the concatenation.

## Main results

* `Argmin.argmin_append`, `Argmin.argmin_flatten`: a search over a concatenation is a search over
  the winners of its parts.
* `Argmin.argmin_eq_some_iff_split`: the winner beats strictly what precedes it and weakly what
  follows it.
* `Argmin.argmin_rel`: related lists with equal measures have related winners.
* `Argmin.lt_or_rank_le`: in a list sorted by rank the winner is the best by measure, then by rank.
* `Argmin.find?_sorted_iff`: when the first match in a sorted list is the element of a given rank.
-/

namespace Argmin

variable {α β : Type*} [LinearOrder β] {f : α → β}

theorem argmin_pair (f : α → β) (a b : α) :
    [a, b].argmin f = if f b < f a then some b else some a := rfl

theorem exists_argmin {l : List α} (h : l ≠ []) : ∃ m, l.argmin f = some m :=
  Option.ne_none_iff_exists'.1 fun hnone => h (List.argmin_eq_none.1 hnone)

/-- A search over a concatenation is a search over the winners of the two parts. -/
theorem argmin_append (f : α → β) (l₁ l₂ : List α) :
    (l₁ ++ l₂).argmin f = ((l₁.argmin f).toList ++ (l₂.argmin f).toList).argmin f := by
  induction l₂ using List.reverseRecOn with
  | nil => cases h : l₁.argmin f <;> simp_all
  | append_singleton l a ih =>
    rw [← List.append_assoc, List.argmin_concat, ih, List.argmin_concat]
    cases l₁.argmin f with
    | none =>
      cases l.argmin f with
      | none => simp
      | some m => by_cases h : f a < f m <;> simp [h]
    | some m₁ =>
      cases l.argmin f with
      | none => rfl
      | some m₂ =>
        simp only [Option.toList_some, List.cons_append, List.nil_append, argmin_pair]
        by_cases h₂ : f m₂ < f m₁
        · by_cases h : f a < f m₂
          · simp [h, h₂, argmin_pair, h.trans h₂]
          · simp [h, h₂, argmin_pair]
        · by_cases h : f a < f m₂
          · by_cases h₁ : f a < f m₁ <;> simp [h, h₂, argmin_pair, h₁]
          · have h₁ : ¬ f a < f m₁ := fun h' => h (h'.trans_le (not_lt.1 h₂))
            simp [h, h₂, argmin_pair, h₁]

/-- A search over the concatenation of many parts is a search over their winners. -/
theorem argmin_flatten (f : α → β) (parts : List (List α)) :
    parts.flatten.argmin f = (parts.flatMap fun l => (l.argmin f).toList).argmin f := by
  induction parts with
  | nil => rfl
  | cons l parts ih =>
    have hl : (l.argmin f).toList.argmin f = l.argmin f := by cases l.argmin f <;> rfl
    rw [List.flatten_cons, List.flatMap_cons, argmin_append, ih,
      argmin_append f (l.argmin f).toList (parts.flatMap fun l => (l.argmin f).toList), hl]

/-- The winner beats strictly what precedes it and weakly what follows it. -/
theorem argmin_eq_some_iff_split {l : List α} {m : α} :
    l.argmin f = some m ↔
      ∃ pre post, l = pre ++ m :: post ∧ (∀ a ∈ pre, f m < f a) ∧ ∀ a ∈ post, f m ≤ f a := by
  constructor
  · intro h
    induction l with
    | nil => simp at h
    | cons b l ih =>
      rw [List.argmin_cons] at h
      cases hl : l.argmin f with
      | none =>
        obtain rfl : b = m := by simpa [hl] using h
        exact ⟨[], l, rfl, by simp, by simp [List.argmin_eq_none.1 hl]⟩
      | some c =>
        rw [hl] at h ih
        by_cases hcb : f c < f b
        · obtain rfl : c = m := by simpa [hcb] using h
          obtain ⟨pre, post, rfl, hpre, hpost⟩ := ih rfl
          exact ⟨b :: pre, post, rfl, by simpa [hcb] using hpre, hpost⟩
        · obtain rfl : b = m := by simpa [hcb] using h
          exact ⟨[], l, rfl, by simp, fun a ha =>
            (not_lt.1 hcb).trans (List.le_of_mem_argmin ha hl)⟩
  · rintro ⟨pre, post, rfl, hpre, hpost⟩
    have hmin : (m :: post).argmin f = some m := by
      rw [List.argmin_cons]
      cases h : post.argmin f with
      | none => rfl
      | some c => simp [not_lt.2 (hpost c (List.argmin_mem h))]
    rw [argmin_append, hmin]
    cases h : pre.argmin f with
    | none => rfl
    | some c => simp [argmin_pair, hpre c (List.argmin_mem h)]

/-- The winner among the elements that pass a test, as an element of the whole list. -/
theorem argmin_filter_eq_some_iff {l : List α} {p : α → Bool} {m : α} :
    (l.filter p).argmin f = some m ↔ ∃ pre post, l = pre ++ m :: post ∧ p m ∧
      (∀ a ∈ pre, p a → f m < f a) ∧ ∀ a ∈ post, p a → f m ≤ f a := by
  rw [argmin_eq_some_iff_split]
  constructor
  · rintro ⟨pre, post, hl, hpre, hpost⟩
    obtain ⟨as, bs, rfl, rfl, hbs⟩ := List.filter_eq_append_iff.1 hl
    obtain ⟨cs, ds, rfl, hcs, hm, rfl⟩ := List.filter_eq_cons_iff.1 hbs
    refine ⟨as ++ cs, ds, by rw [List.append_assoc], hm, fun a ha hpa => ?_, fun a ha hpa =>
      hpost a (List.mem_filter.2 ⟨ha, hpa⟩)⟩
    rcases List.mem_append.1 ha with hmem | hmem
    · exact hpre a (List.mem_filter.2 ⟨hmem, hpa⟩)
    · exact absurd hpa (hcs a hmem)
  · rintro ⟨pre, post, rfl, hm, hpre, hpost⟩
    refine ⟨pre.filter p, post.filter p, by rw [List.filter_append, List.filter_cons_of_pos hm],
      fun a ha => ?_, fun a ha => ?_⟩
    · obtain ⟨hmem, hpa⟩ := List.mem_filter.1 ha
      exact hpre a hmem hpa
    · obtain ⟨hmem, hpa⟩ := List.mem_filter.1 ha
      exact hpost a hmem hpa

/-- The winner is the first element or strictly better than it. -/
theorem eq_head_or_lt {a : α} {l : List α} {m : α} (h : (a :: l).argmin f = some m) :
    m = a ∨ m ∈ l ∧ f m < f a := by
  obtain ⟨pre, post, hl, hpre, -⟩ := argmin_eq_some_iff_split.1 h
  cases pre with
  | nil => exact Or.inl (List.cons.inj hl).1.symm
  | cons b pre =>
    obtain ⟨rfl, rfl⟩ := List.cons.inj hl
    exact Or.inr ⟨by simp, hpre a List.mem_cons_self⟩

/-- In a sorted list what is as good as the winner is the winner or comes after it in the order. -/
theorem eq_or_rel_of_le {r : α → α → Prop} {l : List α} {m a : α} (hl : l.Pairwise r)
    (h : l.argmin f = some m) (ha : a ∈ l) (hle : f a ≤ f m) : a = m ∨ r m a := by
  obtain ⟨pre, post, rfl, hpre, -⟩ := argmin_eq_some_iff_split.1 h
  rw [List.pairwise_append, List.pairwise_cons] at hl
  rcases List.mem_append.1 ha with hmem | hmem
  · exact absurd hle (not_le.2 (hpre a hmem))
  · rcases List.mem_cons.1 hmem with rfl | hpost
    · exact Or.inl rfl
    · exact Or.inr (hl.2.1.1 a hpost)

/-- In a list sorted by rank the winner is the best by measure, and among these the best by rank. -/
theorem lt_or_rank_le {γ : Type*} [LinearOrder γ] {rank : α → γ} {l : List α}
    (hl : l.Pairwise fun a b => rank a ≤ rank b) {m a : α} (h : l.argmin f = some m) (ha : a ∈ l) :
    f m < f a ∨ f m = f a ∧ rank m ≤ rank a := by
  rcases lt_or_eq_of_le (List.le_of_mem_argmin ha h) with hlt | heq
  · exact Or.inl hlt
  · rcases eq_or_rel_of_le hl h ha heq.ge with rfl | hrank
    · exact Or.inr ⟨rfl, le_rfl⟩
    · exact Or.inr ⟨heq, hrank⟩

/-- When some element attains a bound of the measure, the winner is the first that does. -/
theorem argmin_eq_find? {l : List α} {b : β} [DecidableEq β] (hbound : ∀ a ∈ l, b ≤ f a)
    (hattain : ∃ a ∈ l, f a = b) : l.argmin f = l.find? fun a => f a = b := by
  obtain ⟨a, ha, hab⟩ := hattain
  cases hm : l.argmin f with
  | none => simp [List.argmin_eq_none.1 hm] at ha
  | some m =>
    have hfm : f m = b :=
      le_antisymm (hab ▸ List.le_of_mem_argmin ha hm) (hbound m (List.argmin_mem hm))
    obtain ⟨pre, post, rfl, hpre, -⟩ := argmin_eq_some_iff_split.1 hm
    refine (List.find?_eq_some_iff_append.2 ⟨by simpa using hfm, pre, post, rfl, ?_⟩).symm
    intro c hc
    simpa [hfm] using (hfm ▸ hpre c hc).ne'

/-- When the first part of a list has no element with a property, the first match has it exactly
when the first part has no match and the first match of the rest has it. -/
theorem find?_append_iff {p : α → Bool} {P : α → Prop} {l₁ l₂ : List α} (h : ∀ a ∈ l₁, ¬ P a) :
    (∃ a ∈ (l₁ ++ l₂).find? p, P a) ↔ (∀ a ∈ l₁, ¬ p a) ∧ ∃ a ∈ l₂.find? p, P a := by
  rw [List.find?_append]
  cases hfind : l₁.find? p with
  | none => simp only [Option.none_or, and_iff_right (List.find?_eq_none.1 hfind)]
  | some b =>
    have hb := List.mem_of_find?_eq_some hfind
    refine iff_of_false ?_ fun hno => hno.1 b hb (List.find?_some hfind)
    rintro ⟨a, ha, hP⟩
    obtain rfl : b = a := by simpa using ha
    exact h b hb hP

/-- In a list sorted by rank, in which the elements with a property are those of one rank and match,
the first match has the property exactly when there is such an element and no element of a lower
rank matches. -/
theorem find?_sorted_iff {γ : Type*} [LinearOrder γ] {rank : α → γ} {r : γ} {p : α → Bool}
    {P : α → Prop} {l : List α} (hl : l.Pairwise fun a b => rank a ≤ rank b)
    (hrank : ∀ a ∈ l, P a ↔ rank a = r) (hp : ∀ a, P a → p a) :
    (∃ a ∈ l.find? p, P a) ↔ (∃ a ∈ l, P a) ∧ ∀ a ∈ l, rank a < r → ¬ p a := by
  constructor
  · rintro ⟨a, ha, hP⟩
    obtain ⟨-, pre, post, rfl, hpre⟩ := List.find?_eq_some_iff_append.1 ha
    have hmem : a ∈ pre ++ a :: post := by simp
    refine ⟨⟨a, hmem, hP⟩, fun b hb hlt => ?_⟩
    rcases List.mem_append.1 hb with hmem' | hmem'
    · simpa using hpre b hmem'
    · -- What comes after `a` is not of a lower rank.
      have hle : rank a ≤ rank b := by
        rcases List.mem_cons.1 hmem' with rfl | hpost
        · exact le_rfl
        · exact (List.pairwise_cons.1 (List.pairwise_append.1 hl).2.1).1 b hpost
      exact absurd hlt (not_lt.2 ((hrank a hmem).1 hP ▸ hle))
  · rintro ⟨⟨a, ha, hP⟩, hno⟩
    obtain ⟨b, hb⟩ : ∃ b, l.find? p = some b :=
      Option.isSome_iff_exists.1 (List.find?_isSome.2 ⟨a, ha, hp a hP⟩)
    obtain ⟨hpb, pre, post, rfl, hpre⟩ := List.find?_eq_some_iff_append.1 hb
    have hmem : b ∈ pre ++ b :: post := by simp
    refine ⟨b, hb, (hrank b hmem).2 (le_antisymm ?_ (not_lt.1 fun hlt => hno b hmem hlt hpb))⟩
    have hle : rank b ≤ rank a := by
      rcases List.mem_append.1 ha with hmem' | hmem'
      · exact absurd (hp a hP) (by simpa using hpre a hmem')
      · rcases List.mem_cons.1 hmem' with rfl | hpost
        · exact le_rfl
        · exact (List.pairwise_cons.1 (List.pairwise_append.1 hl).2.1).1 a hpost
    exact hle.trans_eq ((hrank a ha).1 hP)

/-- Lists whose elements are related one by one, with equal measures, have related winners. -/
theorem argmin_rel {γ : Type*} {R : α → γ → Prop} {g : γ → β} {xs : List α} {ys : List γ}
    (h : List.Forall₂ R xs ys) (hfg : ∀ x y, R x y → f x = g y) :
    Option.Rel R (xs.argmin f) (ys.argmin g) := by
  induction h with
  | nil => exact .none
  | @cons x y xs ys hxy _ ih =>
    rw [List.argmin_cons, List.argmin_cons]
    generalize xs.argmin f = m? at ih ⊢
    generalize ys.argmin g = n? at ih ⊢
    cases ih with
    | none => exact .some hxy
    | @some m n hmn =>
      simp only [hfg x y hxy, hfg m n hmn]
      split_ifs
      · exact .some hmn
      · exact .some hxy

end Argmin
