import SndNet.Library.FallibleRun

/-!
# Computations that leave a trace

A computation may act on its environment before it returns or fails, and what it did before a
failure stays done. A traced computation is a value or an error together with the list of events
that happened on the way.

## Main definitions

* `Traced`: a traced computation.
* `Traced.emit`: the computation of one event.
* `Traced.lift`: a fallible computation without events.
* `Traced.mapEvents`: a computation whose events are renamed.
* `Traced.filterEvents`: a computation of which some events are seen.

## Main results

* `Traced.mem_events_bind`: the events of a sequence of two computations.
* `Traced.exists_mem_of_mem_forM`: an event of a loop is an event of one of its rounds.
* `Traced.exists_events_forM_eq`: the events of a loop are those of the rounds that are made.
* `Traced.filterEvents_forM`: the part of a loop that is seen is the loop of the parts.
-/

/-- A computation with its events and its result. -/
@[ext]
structure Traced (ω : Type*) (ε : Type*) (α : Type*) where
  /-- What happened, the earliest event first. -/
  events : List ω
  /-- The value returned, or the error that ended the computation. -/
  result : Except ε α

namespace Traced

universe u

variable {ω ω' ε : Type*} {α β : Type u}

instance : Monad (Traced ω ε) where
  pure a := ⟨[], .ok a⟩
  bind x f :=
    match x.result with
    | .ok a => ⟨x.events ++ (f a).events, (f a).result⟩
    | .error e => ⟨x.events, .error e⟩

/-- The computation of one event. -/
def emit (w : ω) : Traced ω ε Unit := ⟨[w], .ok ()⟩

/-- A fallible computation without events. -/
def lift (x : Except ε α) : Traced ω ε α := ⟨[], x⟩

/-- A computation with every event renamed by `g`. -/
def mapEvents (g : ω → ω') (x : Traced ω ε α) : Traced ω' ε α := ⟨x.events.map g, x.result⟩

/-! ### Sequencing -/

@[simp] theorem pure_eq (a : α) : (pure a : Traced ω ε α) = ⟨[], .ok a⟩ := rfl

@[simp] theorem mk_ok_bind (ws : List ω) (a : α) (f : α → Traced ω ε β) :
    (Traced.mk ws (.ok a) >>= f) = ⟨ws ++ (f a).events, (f a).result⟩ := rfl

@[simp] theorem mk_error_bind (ws : List ω) (e : ε) (f : α → Traced ω ε β) :
    (Traced.mk ws (.error e) >>= f) = ⟨ws, .error e⟩ := rfl

@[simp] theorem lift_ok_bind (a : α) (f : α → Traced ω ε β) : (lift (.ok a) >>= f) = f a := rfl

@[simp] theorem lift_error_bind (e : ε) (f : α → Traced ω ε β) :
    (lift (.error e) >>= f) = ⟨[], .error e⟩ := rfl

@[simp] theorem emit_bind (w : ω) {γ : Type} (f : Unit → Traced ω ε γ) :
    (emit w >>= f) = ⟨w :: (f ()).events, (f ()).result⟩ := rfl

@[simp] theorem mapEvents_mk (g : ω → ω') (ws : List ω) (x : Except ε α) :
    mapEvents g ⟨ws, x⟩ = ⟨ws.map g, x⟩ := rfl

@[simp] theorem mapEvents_events (g : ω → ω') (x : Traced ω ε α) :
    (mapEvents g x).events = x.events.map g := rfl

@[simp] theorem mapEvents_result (g : ω → ω') (x : Traced ω ε α) :
    (mapEvents g x).result = x.result := rfl

instance : LawfulMonad (Traced ω ε) := LawfulMonad.mk' _
  (fun x => by
    obtain ⟨ws, _ | a⟩ := x
    · rfl
    · exact congrArg (Traced.mk · _) (List.append_nil ws))
  (fun a f => rfl)
  (fun x f g => by
    obtain ⟨ws, _ | a⟩ := x
    · rfl
    · simp only [mk_ok_bind]
      obtain ⟨ws', _ | b⟩ := f a
      · rfl
      · exact congrArg (Traced.mk · _) (List.append_assoc ws ws' _))

/-- A computation whose value is only renamed has the same events. -/
theorem bind_pure (x : Traced ω ε α) (g : α → β) :
    (x >>= fun a => pure (g a)) = ⟨x.events, x.result.map g⟩ := by
  obtain ⟨ws, _ | a⟩ := x
  · rfl
  · simp [Except.map]

/-- An event of a sequence of two computations is an event of the first or, when the first
returns, of the second. -/
theorem mem_events_bind {x : Traced ω ε α} {f : α → Traced ω ε β} {w : ω} :
    w ∈ (x >>= f).events ↔ w ∈ x.events ∨ ∃ a, x.result = .ok a ∧ w ∈ (f a).events := by
  obtain ⟨ws, _ | a⟩ := x
  · simp
  · simp

/-! ### Loops -/

/-- An event of the first round is an event of the loop. -/
theorem mem_forM_cons {ι : Type*} {f : ι → Traced ω ε PUnit} {i : ι} {is : List ι} {w : ω}
    (h : w ∈ (f i).events) : w ∈ ((i :: is).forM f).events :=
  mem_events_bind.2 (Or.inl h)

/-- **The loop rule.** An event of a loop is an event of one of its rounds. -/
theorem exists_mem_of_mem_forM {ι : Type*} {f : ι → Traced ω ε PUnit} {is : List ι} {w : ω}
    (h : w ∈ (is.forM f).events) : ∃ i ∈ is, w ∈ (f i).events := by
  induction is with
  | nil => simp at h
  | cons i is ih =>
    rcases mem_events_bind.1 h with h | ⟨-, -, h⟩
    · exact ⟨i, List.mem_cons_self, h⟩
    · obtain ⟨j, hj, hw⟩ := ih h
      exact ⟨j, List.mem_cons_of_mem _ hj, hw⟩

/-- **The rounds of a loop.** The events of a loop are those of its first rounds, of all rounds
when the loop returns, and of the rounds made all but the last return. -/
theorem exists_events_forM_eq {ι : Type*} (f : ι → Traced ω ε PUnit) (is : List ι) :
    ∃ n, (is.forM f).events = (is.take n).flatMap (fun i => (f i).events) ∧
      ∀ a, (is.forM f).result = .ok a → n = is.length ∧ ∀ i ∈ is, (f i).result = .ok a := by
  induction is with
  | nil => exact ⟨0, rfl, fun _ _ => ⟨rfl, fun _ hi => absurd hi List.not_mem_nil⟩⟩
  | cons i is ih =>
    obtain ⟨n, hn, hall⟩ := ih
    have hcons : (i :: is).forM f = f i >>= fun _ => is.forM f := rfl
    rw [hcons]
    rcases hi : f i with ⟨ws, e | a⟩
    · refine ⟨1, ?_, fun _ h => by cases h⟩
      rw [mk_error_bind, List.take_succ_cons, List.flatMap_cons, hi]
      exact (List.append_nil ws).symm
    · refine ⟨n + 1, ?_, fun b hb => ?_⟩
      · rw [mk_ok_bind, hn, List.take_succ_cons, List.flatMap_cons, hi]
      · obtain ⟨hlen, hrest⟩ := hall b hb
        refine ⟨congrArg Nat.succ hlen, List.forall_mem_cons.2 ⟨?_, hrest⟩⟩
        rw [hi]

/-! ### A part of the events -/

/-- A computation with the events that `g` keeps, renamed by it. -/
def filterEvents (g : ω → Option ω') (x : Traced ω ε α) : Traced ω' ε α :=
  ⟨x.events.filterMap g, x.result⟩

section

variable (g : ω → Option ω')

theorem filterEvents_bind (x : Traced ω ε α) (f : α → Traced ω ε β) :
    filterEvents g (x >>= f) = filterEvents g x >>= fun a => filterEvents g (f a) := by
  obtain ⟨ws, _ | a⟩ := x
  · rfl
  · simp only [mk_ok_bind, filterEvents, List.filterMap_append]

theorem filterEvents_forM {ι : Type*} (f : ι → Traced ω ε PUnit) (is : List ι) :
    filterEvents g (is.forM f) = is.forM fun i => filterEvents g (f i) := by
  induction is with
  | nil => rfl
  | cons i is ih => exact (filterEvents_bind g _ _).trans (congrArg _ (funext fun _ => ih))

end

end Traced
