import SndNet.Net.Router

/-!
# The entries of a leafset

A leafset is an array of eight entries whose set entries come first (`Leafset.Packed`). This file
describes what insertion and extraction (`src/net/router.c`, lines 424–470) do to the list of set
entries, whatever `qsort` does with entries of equal address, and what they leave in the unset
slots.

## Main definitions

* `SndNet.Leafset.entries`, `SndNet.Leafset.addrs`: the set entries, in the order of their slots,
  and their addresses.
* `SndNet.Leafset.Packed`: the set entries occupy the first slots.
* `SndNet.Leafset.Rejects`: a full leafset has no room for an entry.

## Main results

* `SndNet.Leafset.Packed.leafsetBound_eq`: the bound of a side.
* `SndNet.Leafset.insert_cases`: the three paths of insertion.
* `SndNet.Leafset.extract_cases`, `SndNet.Leafset.entries_extract_perm`: extraction takes out one
  entry with the address, if any.
-/

namespace SndNet

open FallibleRun

namespace Leafset

variable (q : Sorter SnNetEntry) {leafset : Leafset} {right : Bool} {sne : SnNetEntry}
  {xs ys : List SnNetEntry}

/-! ### Set entries in front -/

/-- The set entries, in the order of their slots. -/
def entries (leafset : Leafset) : List SnNetEntry := leafset.val.filter fun e => e.IsSet

/-- The set entries occupy the first slots. -/
def Packed (leafset : Leafset) : Prop :=
  ∃ rest, leafset.val = leafset.entries ++ rest ∧ ∀ e ∈ rest, ¬ e.IsSet

/-- The addresses of the set entries. -/
def addrs (leafset : Leafset) : List SnNetAddr := leafset.entries.map (·.addr)

theorem mem_addrs {x : SnNetAddr} : x ∈ leafset.addrs ↔ ∃ e ∈ leafset.entries, e.addr = x :=
  List.mem_map

theorem mem_entries {e : SnNetEntry} : e ∈ leafset.entries ↔ e ∈ leafset.val ∧ e.IsSet := by
  simp [entries]

theorem isSet_of_mem_entries {e : SnNetEntry} (h : e ∈ leafset.entries) : e.IsSet :=
  (mem_entries.1 h).2

theorem length_entries_le (leafset : Leafset) :
    leafset.entries.length ≤ snNetRouterLeafsetSize :=
  (List.length_filter_le _ _).trans leafset.property.le

theorem length_pos (leafset : Leafset) : 0 < leafset.val.length :=
  leafset.property.symm ▸ Nat.succ_pos _

/-- An array split into set entries and unset ones is packed. -/
theorem packed_of_split (h : leafset.val = xs ++ ys) (hxs : ∀ e ∈ xs, e.IsSet)
    (hys : ∀ e ∈ ys, ¬ e.IsSet) : leafset.entries = xs ∧ leafset.Packed := by
  have hent : leafset.entries = xs := by
    have hx : xs.filter (fun e => e.IsSet) = xs :=
      List.filter_eq_self.2 fun e he => by simpa using hxs e he
    have hy : ys.filter (fun e => e.IsSet) = [] :=
      List.filter_eq_nil_iff.2 fun e he => by simpa using hys e he
    rw [entries, h, List.filter_append, hx, hy, List.append_nil]
  exact ⟨hent, ys, hent ▸ h, hys⟩

theorem Packed.arrayLen_eq (h : leafset.Packed) :
    snNetEntryArrayLen leafset.val = leafset.entries.length := by
  obtain ⟨rest, hval, hrest⟩ := h
  rw [hval, snNetEntryArrayLen_append (fun e => isSet_of_mem_entries) hrest]

/-- The bound of a side is read from the slot behind the set entries, which a full leafset does not
have. -/
theorem Packed.leafsetBound_eq (h : leafset.Packed) (self : SnNetEntry) :
    leafsetBound self leafset =
      if leafset.entries = [] then .ok self.addr
      else if leafset.entries.length < snNetRouterLeafsetSize then
        .ok (leafsetEntry leafset leafset.entries.length).addr
      else .error .outOfBounds := by
  rw [leafsetBound, h.arrayLen_eq]
  by_cases hnil : leafset.entries = []
  · rw [if_pos hnil, hnil, List.length_nil, if_neg (not_not.2 rfl), pure_eq_ok]
  · rw [if_neg hnil, if_pos (by simpa using hnil)]
    split_ifs with hroom
    · rw [CArray.read_of_lt _ hroom, ok_bind, pure_eq_ok, leafsetEntry, List.getD_eq_getElem?_getD,
        List.getElem?_eq_getElem (leafset.property.symm ▸ hroom)]
      rfl
    · rw [CArray.read_of_le _ (not_lt.1 hroom), error_bind]

/-- `leafset_sort` orders the set entries and leaves the other slots alone. -/
theorem val_leafsetSort (h : leafset.val = xs ++ ys) (hxs : ∀ e ∈ xs, e.IsSet)
    (hys : ∀ e ∈ ys, ¬ e.IsSet) :
    (leafsetSort q leafset right).val = q.sort (leafsetCmp right) xs ++ ys := by
  have hlen : snNetEntryArrayLen leafset.val = xs.length := by
    rw [h, snNetEntryArrayLen_append hxs hys]
  simp only [leafsetSort, hlen]
  rw [h, List.take_left, List.drop_left]

theorem isSet_of_mem_sort (hxs : ∀ e ∈ xs, e.IsSet) {e : SnNetEntry}
    (he : e ∈ q.sort (leafsetCmp right) xs) : e.IsSet :=
  hxs e ((q.mem_sort (isComparator_leafsetCmp right)).1 he)

/-! ### Insertion -/

/-- The first path of insertion: an unset slot `y` follows the set entries `xs`. -/
theorem val_insert_of_room {y : SnNetEntry} (h : leafset.val = xs ++ y :: ys)
    (hxs : ∀ e ∈ xs, e.IsSet) (hys : ∀ e ∈ y :: ys, ¬ e.IsSet) (hsne : sne.IsSet) :
    (leafsetInsert q leafset sne right).val = q.sort (leafsetCmp right) (xs ++ [sne]) ++ ys := by
  have hlen : snNetEntryArrayLen leafset.val = xs.length := by
    rw [h, snNetEntryArrayLen_append hxs hys]
  have hroom : xs.length < snNetRouterLeafsetSize := by
    have := leafset.property
    rw [h, List.length_append, List.length_cons] at this
    omega
  have hwrite : (leafset.write xs.length sne).val = (xs ++ [sne]) ++ ys := by
    simp [CArray.write, h]
  simp only [leafsetInsert, hlen, if_pos hroom]
  refine val_leafsetSort q hwrite ?_ fun e he => hys e (List.mem_cons_of_mem _ he)
  simpa [or_imp, forall_and] using ⟨hxs, hsne⟩

/-- A full leafset turns away an entry: on the right one that is not below the last entry, on the
left one that is below it. -/
def Rejects (right : Bool) (sne last : SnNetEntry) : Prop :=
  ((snNetAddrCmp sne.addr last.addr < 0) ^^ right) = true

instance (right : Bool) (sne last : SnNetEntry) : Decidable (Rejects right sne last) :=
  inferInstanceAs (Decidable (_ = true))

theorem rejects_iff {last : SnNetEntry} :
    Rejects right sne last ↔ if right then last.addr ≤ sne.addr else sne.addr < last.addr := by
  cases right <;> simp [Rejects, snNetAddrCmp_neg_iff, ← not_lt]

theorem entries_insert_of_room (right : Bool) (h : leafset.Packed)
    (hroom : leafset.entries.length < snNetRouterLeafsetSize) (hsne : sne.IsSet) :
    (leafsetInsert q leafset sne right).entries =
        q.sort (leafsetCmp right) (leafset.entries ++ [sne]) ∧
      (leafsetInsert q leafset sne right).Packed := by
  obtain ⟨rest, hval, hrest⟩ := h
  cases rest with
  | nil =>
    have := leafset.property
    rw [hval, List.append_nil] at this
    omega
  | cons y ys =>
    have hset : ∀ e ∈ leafset.entries ++ [sne], e.IsSet := by
      simp only [List.mem_append, List.mem_singleton]
      rintro e (he | rfl)
      · exact isSet_of_mem_entries he
      · exact hsne
    exact packed_of_split (val_insert_of_room q hval (fun e => isSet_of_mem_entries) hrest hsne)
      (fun e => isSet_of_mem_sort q hset) fun e he => hrest e (List.mem_cons_of_mem _ he)

/-- The set entries of a full leafset are all its slots, the last of them in the last slot. -/
theorem Packed.exists_last (h : leafset.Packed)
    (hfull : leafset.entries.length = snNetRouterLeafsetSize) :
    ∃ init last, leafset.entries = init ++ [last] ∧ leafset.val = init ++ [last] ∧
      init.length = 7 ∧ leafsetEntry leafset (snNetRouterLeafsetSize - 1) = last := by
  obtain ⟨rest, hval, -⟩ := h
  have hlen : leafset.val.length = 8 := leafset.property
  have hfull' : leafset.entries.length = 8 := hfull
  have hrest : rest = [] := by
    rw [hval, List.length_append, hfull'] at hlen
    exact List.length_eq_zero_iff.1 (by omega)
  rw [hrest, List.append_nil] at hval
  rcases List.eq_nil_or_concat leafset.entries with hnil | ⟨init, last, hlast⟩
  · rw [hnil] at hfull'
    simp at hfull'
  · rw [List.concat_eq_append] at hlast
    have hinit : init.length = 7 := by
      rw [hlast, List.length_append, List.length_singleton] at hfull'
      omega
    exact ⟨init, last, hlast, hval.trans hlast, hinit, by simp [leafsetEntry, hval, hlast, hinit]⟩

/-- The other two paths of insertion: a full leafset turns the entry away, or gives it the place of
its last entry. -/
theorem insert_of_full (right : Bool) (h : leafset.Packed) {init : List SnNetEntry}
    {last : SnNetEntry}
    (hfull : leafset.entries.length = snNetRouterLeafsetSize)
    (hent : leafset.entries = init ++ [last]) (hsne : sne.IsSet) :
    if Rejects right sne last then leafsetInsert q leafset sne right = leafset
    else (leafsetInsert q leafset sne right).entries = q.sort (leafsetCmp right) (init ++ [sne]) ∧
      (leafsetInsert q leafset sne right).Packed := by
  obtain ⟨init', last', hent', hval, hinit, hlast⟩ := h.exists_last hfull
  obtain ⟨rfl, rfl⟩ : init' = init ∧ last' = last := by
    simpa using hent'.symm.trans hent
  have hset : ∀ e ∈ init', e.IsSet := fun e he =>
    isSet_of_mem_entries (hent ▸ List.mem_append_left _ he)
  have hlen : ¬ snNetEntryArrayLen leafset.val < snNetRouterLeafsetSize := by
    rw [h.arrayLen_eq, hfull]
    exact lt_irrefl _
  simp only [leafsetInsert, if_neg hlen, hlast]
  by_cases hrej : Rejects right sne last'
  · rw [if_pos hrej]
    exact if_pos hrej
  · rw [if_neg hrej, if_neg (show ¬ _ = true from hrej)]
    have hwrite :
        (leafset.write (snNetRouterLeafsetSize - 1) sne).val = (init' ++ [sne]) ++ [] := by
      simp [CArray.write, hval, hinit]
    have hset' : ∀ e ∈ init' ++ [sne], e.IsSet := by
      simp only [List.mem_append, List.mem_singleton]
      rintro e (he | rfl)
      · exact hset e he
      · exact hsne
    exact packed_of_split (val_leafsetSort q hwrite hset' (by simp))
      (fun e => isSet_of_mem_sort q hset') (by simp)

/-! ### Extraction -/

theorem dropLast_set_getLast_perm :
    ∀ (zs : List SnNetEntry) (i : ℕ) (last : SnNetEntry), i < zs.length + 1 →
      (((zs ++ [last]).set i last).dropLast).Perm ((zs ++ [last]).eraseIdx i)
  | [], 0, last, _ => by simp
  | [], i + 1, _, h => by simp at h
  | z :: zs, 0, last, _ => by
    rw [List.cons_append, List.set_cons_zero, List.eraseIdx_cons_zero, ← List.cons_append,
      List.dropLast_concat]
    exact (List.perm_append_singleton last zs).symm
  | z :: zs, i + 1, last, h => by
    have ih := dropLast_set_getLast_perm zs i last (by simpa using h)
    have hne : ((zs ++ [last]).set i last) ≠ [] := by simp
    rw [List.cons_append, List.set_cons_succ, List.dropLast_cons_of_ne_nil hne,
      List.eraseIdx_cons_succ]
    exact ih.cons z

theorem set_last_append {zs : List SnNetEntry} (hzs : zs ≠ []) (rest : List SnNetEntry)
    (z : SnNetEntry) : (zs ++ rest).set (zs.length - 1) z = zs.dropLast ++ z :: rest := by
  rcases List.eq_nil_or_concat zs with rfl | ⟨init, last, rfl⟩
  · exact absurd rfl hzs
  · simp

/-- Extraction copies the last entry over the one found and unsets its own slot. -/
theorem val_overwrite {init rest : List SnNetEntry} {last : SnNetEntry} {i : ℕ}
    (hval : leafset.val = init ++ [last] ++ rest) (hi : i < init.length + 1) :
    ((leafset.write i last).write init.length { last with isSet := 0 }).val =
      ((init ++ [last]).set i last).dropLast ++ { last with isSet := 0 } :: rest := by
  have hlen : ((init ++ [last]).set i last).length - 1 = init.length := by simp
  rw [CArray.write, CArray.write, ← set_last_append (by simp) rest, hlen]
  simp only [hval]
  rw [List.set_append_left _ _ (by simpa using hi)]

/-- The two paths of extraction: no entry has the address, or one of those that do is taken out
and the rest is sorted. -/
theorem extract_cases (h : leafset.Packed) (sne : SnNetEntry) (right : Bool) :
    (leafsetExtract q leafset sne right = leafset ∧ ∀ e ∈ leafset.entries, e.addr ≠ sne.addr) ∨
    ∃ zs, zs.Perm (leafset.entries.eraseP fun e => e.addr = sne.addr) ∧
      (leafsetExtract q leafset sne right).entries = q.sort (leafsetCmp right) zs ∧
      (leafsetExtract q leafset sne right).Packed := by
  have hlen := h.arrayLen_eq
  obtain ⟨rest, hval, hrest⟩ := h
  have htake : leafset.val.take leafset.entries.length = leafset.entries := by
    rw [hval, List.take_left]
  have htest : (fun e => decide (snNetEntryCmp sne e = 0)) =
      fun e : SnNetEntry => decide (e.addr = sne.addr) := by
    funext e
    rw [decide_eq_decide, snNetEntryCmp, snNetAddrCmp_eq_zero_iff, eq_comm]
  rw [List.eraseP_eq_eraseIdx]
  simp only [leafsetExtract, hlen, htake, htest]
  cases hidx : leafset.entries.findIdx? fun e => decide (e.addr = sne.addr) with
  | none =>
    refine Or.inl ⟨rfl, fun e he => ?_⟩
    simpa using List.findIdx?_eq_none_iff.1 hidx e he
  | some i =>
    have hi : i < leafset.entries.length := (List.findIdx?_eq_some_iff_findIdx_eq.1 hidx).1
    rcases List.eq_nil_or_concat leafset.entries with hnil | ⟨init, last, hent⟩
    · rw [hnil] at hi
      simp at hi
    · rw [List.concat_eq_append] at hent
      have hset : ∀ e ∈ init ++ [last], e.IsSet := fun e he => isSet_of_mem_entries (hent ▸ he)
      have hlen' : leafset.entries.length = init.length + 1 := by rw [hent, List.length_append]; rfl
      have hlast : leafsetEntry leafset init.length = last := by
        simp [leafsetEntry, hval, hent]
      rw [hent] at hval
      rw [hlen'] at hi
      have hzset : ∀ e ∈ ((init ++ [last]).set i last).dropLast, e.IsSet := fun e he =>
        (List.mem_or_eq_of_mem_set (List.dropLast_subset _ he)).elim (hset e)
          fun h => h ▸ hset last (by simp)
      have hrest' : ∀ e ∈ { last with isSet := 0 } :: rest, ¬ e.IsSet := by
        simpa using hrest
      simp only [hlen', Nat.add_sub_cancel, hlast]
      obtain ⟨hentries, hpacked⟩ := packed_of_split
        (val_leafsetSort q (val_overwrite hval hi) hzset hrest')
        (fun e => isSet_of_mem_sort q hzset) hrest'
      refine Or.inr ⟨_, ?_, hentries, hpacked⟩
      rw [hent]
      exact dropLast_set_getLast_perm init i last hi

/-- Extraction takes out one entry with the address, if there is one. -/
theorem entries_extract_perm (h : leafset.Packed) :
    (leafsetExtract q leafset sne right).entries.Perm
      (leafset.entries.eraseP fun e => e.addr = sne.addr) := by
  rcases extract_cases q h sne right with ⟨heq, hne⟩ | ⟨zs, hperm, hent, -⟩
  · rw [heq, List.eraseP_of_forall_not fun e he => by simpa using hne e he]
  · rw [hent]
    exact (q.perm (isComparator_leafsetCmp right) zs).trans hperm

/-! ### What insertion and extraction can bring -/

/-- **The three paths of insertion.** A leafset with room gains the entry, a full one turns it away
or gives it the place of its last entry. -/
theorem insert_cases (h : leafset.Packed) (hsne : sne.IsSet) (right : Bool) :
    (leafset.entries.length < snNetRouterLeafsetSize ∧
      (leafsetInsert q leafset sne right).entries.Perm (leafset.entries ++ [sne])) ∨
    ∃ init last, leafset.entries = init ++ [last] ∧
      leafset.entries.length = snNetRouterLeafsetSize ∧
      (Rejects right sne last ∧ leafsetInsert q leafset sne right = leafset ∨
        ¬ Rejects right sne last ∧
          (leafsetInsert q leafset sne right).entries.Perm (init ++ [sne])) := by
  by_cases hroom : leafset.entries.length < snNetRouterLeafsetSize
  · refine Or.inl ⟨hroom, ?_⟩
    rw [(entries_insert_of_room q right h hroom hsne).1]
    exact q.perm (isComparator_leafsetCmp right) _
  · have hfull : leafset.entries.length = snNetRouterLeafsetSize :=
      le_antisymm leafset.length_entries_le (not_lt.1 hroom)
    obtain ⟨init, last, hent, -⟩ := h.exists_last hfull
    have hins := insert_of_full q right h hfull hent hsne
    refine Or.inr ⟨init, last, hent, hfull, ?_⟩
    split_ifs at hins with hrej
    · exact Or.inl ⟨hrej, hins⟩
    · rw [hins.1]
      exact Or.inr ⟨hrej, q.perm (isComparator_leafsetCmp right) _⟩

theorem mem_entries_insert (h : leafset.Packed) (hsne : sne.IsSet) {e : SnNetEntry}
    (he : e ∈ (leafsetInsert q leafset sne right).entries) : e ∈ leafset.entries ∨ e = sne := by
  rcases insert_cases q h hsne right with
    ⟨-, hperm⟩ | ⟨init, last, hent, -, ⟨-, heq⟩ | ⟨-, hperm⟩⟩
  · simpa using hperm.mem_iff.1 he
  · exact Or.inl (heq ▸ he)
  · rw [hent]
    have hmem := hperm.mem_iff.1 he
    simp only [List.mem_append, List.mem_singleton] at hmem ⊢
    exact hmem.imp_left Or.inl

theorem mem_entries_extract (h : leafset.Packed) {e : SnNetEntry}
    (he : e ∈ (leafsetExtract q leafset sne right).entries) : e ∈ leafset.entries :=
  List.eraseP_subset ((entries_extract_perm q h).mem_iff.1 he)

/-- Extraction lowers the number of entries with the address by one, if there are any. -/
theorem countP_entries_extract (h : leafset.Packed) (sne : SnNetEntry) (right : Bool) :
    (leafsetExtract q leafset sne right).entries.countP (fun e => e.addr = sne.addr) =
      leafset.entries.countP (fun e => e.addr = sne.addr) - 1 := by
  rw [(entries_extract_perm q h).countP_eq]
  induction leafset.entries with
  | nil => rfl
  | cons e es ih =>
    by_cases he : e.addr = sne.addr
    · rw [List.eraseP_cons_of_pos (by simpa using he), List.countP_cons_of_pos (by simpa using he),
        Nat.add_sub_cancel]
    · rw [List.eraseP_cons_of_neg (by simpa using he), List.countP_cons_of_neg (by simpa using he),
        List.countP_cons_of_neg (by simpa using he), ih]

/-- Extraction keeps the entries with other addresses. -/
theorem filter_entries_extract (h : leafset.Packed) (sne : SnNetEntry) (right : Bool) :
    ((leafsetExtract q leafset sne right).entries.filter fun e => e.addr ≠ sne.addr).Perm
      (leafset.entries.filter fun e => e.addr ≠ sne.addr) := by
  refine ((entries_extract_perm q h).filter _).trans (List.Perm.of_eq ?_)
  induction leafset.entries with
  | nil => rfl
  | cons e es ih =>
    by_cases he : e.addr = sne.addr
    · rw [List.eraseP_cons_of_pos (by simpa using he), List.filter_cons_of_neg (by simpa using he)]
    · rw [List.eraseP_cons_of_neg (by simpa using he), List.filter_cons_of_pos (by simpa using he),
        List.filter_cons_of_pos (by simpa using he), ih]

end Leafset

end SndNet
