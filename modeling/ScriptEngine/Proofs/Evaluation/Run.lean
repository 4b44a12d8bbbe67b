import ScriptEngine.Machine.Evaluation

/-!
# Running evaluations

What the building blocks of evaluations do to a machine, one equation each.
-/
namespace ScriptEngine.Evaluation

variable {α β : Type}

@[simp]
theorem andThen_value (f : α → Evaluation β) (a : α) (m : Machine) :
    andThen f (.value a, m) = (f a).run m := rfl

@[simp]
theorem run_pure (a : α) (m : Machine) : (pure a : Evaluation α).run m = (.value a, m) := rfl

@[simp]
theorem run_bind (x : Evaluation α) (f : α → Evaluation β) (m : Machine) :
    (x >>= f).run m = andThen f (x.run m) := rfl

@[simp]
theorem run_ask (question : Store → α) (m : Machine) :
    (ask question).run m = (.value (question m.store), m) := rfl

@[simp]
theorem run_note (event : Event) (m : Machine) : (note event).run m = (.value (), m) := rfl

@[simp]
theorem run_define (id : ObjectId) (key : String) (d : Descriptor) (m : Machine) :
    (define id key d).run m =
      (.value (m.store.define id key d).1, { m with store := (m.store.define id key d).2 }) := rfl

@[simp]
theorem run_preventExtensions (id : ObjectId) (m : Machine) :
    (preventExtensions id).run m =
      (.value (), { m with store := m.store.preventExtensions id }) := rfl

@[simp]
theorem run_raise (r : Raised) (m : Machine) :
    (raise r : Evaluation α).run m = (.raised r, m) := rfl

@[simp]
theorem run_allocate (o : Object) (h : o.WellFormed) (m : Machine) :
    (allocate o h).run m =
      (.value (m.store.allocate o).1, { m with store := (m.store.allocate o).2 }) := rfl

theorem run_map_of_value (g : α → β) {x : Evaluation α} {m after : Machine} {a : α}
    (ended : x.run m = (.value a, after)) : (g <$> x).run m = (.value (g a), after) := by
  change andThen (fun a => pure (g a)) (x.run m) = _
  rw [ended, andThen_value, run_pure]

/-- What follows on a value may be replaced by what runs alike. -/
theorem run_bind_congr {f g : α → Evaluation β} (alike : ∀ a m, (f a).run m = (g a).run m)
    (x : Evaluation α) (m : Machine) : (x >>= f).run m = (x >>= g).run m := by
  rw [run_bind, run_bind]
  obtain ⟨outcome, after⟩ := x.run m
  cases outcome with
  | value a => exact alike a after
  | raised _ | exhausted => rfl

/-- Letting an event be known makes no difference to how a run ends. -/
theorem run_bind_note (x : Evaluation Unit) (event : Event) (m : Machine) :
    (x >>= fun _ => note event).run m = x.run m := by
  rw [run_bind]
  obtain ⟨outcome, after⟩ := x.run m
  cases outcome <;> rfl

/-- Where two evaluations in a row have a value, the second one runs from where the first ended. -/
theorem bind_eq_value {x : Evaluation α} {f : α → Evaluation β} {m after : Machine} {b : β}
    (ended : (x >>= f).run m = (.value b, after)) :
    ∃ a between, x.run m = (.value a, between) ∧ (f a).run between = (.value b, after) := by
  rw [run_bind] at ended
  cases first : x.run m with
  | mk outcome between =>
    rw [first] at ended
    cases outcome with
    | value a => exact ⟨a, between, rfl, ended⟩
    | raised r => cases ended
    | exhausted => cases ended

/-- Where two evaluations in a row raise something, it is the first or the second that does. -/
theorem bind_eq_raised {x : Evaluation α} {f : α → Evaluation β} {m after : Machine} {r : Raised}
    (ended : (x >>= f).run m = (.raised r, after)) :
    x.run m = (.raised r, after) ∨
      ∃ a between, x.run m = (.value a, between) ∧ (f a).run between = (.raised r, after) := by
  rw [run_bind] at ended
  cases first : x.run m with
  | mk outcome between =>
    rw [first] at ended
    cases outcome with
    | value a => exact .inr ⟨a, between, rfl, ended⟩
    | raised r' =>
      cases ended
      exact .inl rfl
    | exhausted => cases ended

/-- The moments of two evaluations in a row where the first has a value. -/
theorem moments_bind {x : Evaluation α} {f : α → Evaluation β} {m between : Machine} {a : α}
    (first : x.run m = (.value a, between)) :
    (x >>= f).moments m = x.moments m ++ (f a).moments between := by
  change x.moments m ++ momentsAfter f (x.run m) = _
  rw [first]
  rfl

/-- The incidents of two evaluations in a row where the first has a value. -/
theorem incidents_bind {x : Evaluation α} {f : α → Evaluation β} {m between : Machine} {a : α}
    (first : x.run m = (.value a, between)) :
    (x >>= f).incidents m = x.incidents m ++ (f a).incidents between := by
  change x.incidents m ++ incidentsAfter f (x.run m) = _
  rw [first]
  rfl

/-- Where evaluations for all of some items have a value, each of them has run on the way. -/
theorem forM_eq_value {f : α → Evaluation Unit} {items : List α} {m after : Machine}
    (ended : (items.forM f).run m = (.value (), after)) {a : α} (mem : a ∈ items) :
    ∃ before between, (f a).run before = (.value (), between) ∧
      (f a).moments before ⊆ (items.forM f).moments m := by
  induction items generalizing m with
  | nil => cases mem
  | cons first rest ih =>
    obtain ⟨_, between, now, later⟩ := bind_eq_value ended
    have moments : ((first :: rest).forM f).moments m =
        (f first).moments m ++ (rest.forM f).moments between := moments_bind now
    rw [moments]
    rcases List.mem_cons.1 mem with rfl | mem
    · exact ⟨m, between, now, List.subset_append_left _ _⟩
    · obtain ⟨before, next, run, subset⟩ := ih later mem
      exact ⟨before, next, run, List.subset_append_of_subset_right _ subset⟩

/-- One round and then the others, if the first decides to go on. -/
theorem iterate_succ {σ : Type} (bound : Nat) (body : σ → Evaluation (Round σ α)) (state : σ) :
    iterate (bound + 1) body state = body state >>= fun decided =>
      match decided with
      | .again state => iterate bound body state
      | .done a => pure a := by
  ext m : 2
  · change iterateRun body (bound + 1) state m = andThen _ ((body state).run m)
    unfold iterateRun
    obtain ⟨outcome, after⟩ := (body state).run m
    cases outcome with
    | value decided => cases decided <;> rfl
    | raised | exhausted => rfl
  · change iterateMoments body (bound + 1) state m =
      (body state).moments m ++ momentsAfter _ ((body state).run m)
    unfold iterateMoments
    obtain ⟨outcome, after⟩ := (body state).run m
    cases outcome with
    | value decided => cases decided <;> rfl
    | raised | exhausted => rfl
  · change iterateIncidents body (bound + 1) state m =
      (body state).incidents m ++ incidentsAfter _ ((body state).run m)
    unfold iterateIncidents
    obtain ⟨outcome, after⟩ := (body state).run m
    cases outcome with
    | value decided => cases decided <;> rfl
    | raised | exhausted => rfl

/-- The evaluation notes the event. -/
def Notes (x : Evaluation α) (m : Machine) (event : Event) : Prop :=
  ∃ moment ∈ x.moments m, moment.event = some event

theorem Notes.bind {x : Evaluation α} {f : α → Evaluation β}
    {m between : Machine} {a : α} {event : Event} (first : x.run m = (.value a, between))
    (second : (f a).Notes between event) : (x >>= f).Notes m event := by
  obtain ⟨moment, mem, same⟩ := second
  exact ⟨moment, moments_bind first ▸ List.mem_append_right _ mem, same⟩

theorem notes_note (event : Event) (m : Machine) : (note event).Notes m event :=
  ⟨_, List.mem_cons_self, rfl⟩

/-! ### Parts of a run -/

/-- The run of an evaluation from a machine comes to a part of it, which starts from some other
machine: a part of a sequence after all that stands before it has a value, a part inside of a scope,
a frame or a call where this is entered. -/
inductive Comes {β : Type} (part : Evaluation β) (start : Machine) :
    {α : Type} → Evaluation α → Machine → Prop where
  | here : Comes part start part start
  | first {α γ : Type} {x : Evaluation α} {f : α → Evaluation γ} {m : Machine}
    (inside : Comes part start x m) : Comes part start (x >>= f) m
  | next {α γ : Type} {x : Evaluation α} {f : α → Evaluation γ} {m between : Machine} {a : α}
    (run : x.run m = (.value a, between)) (later : Comes part start (f a) between) :
    Comes part start (x >>= f) m
  | within {α : Type} {b : Bracket} {x : Evaluation α} {m : Machine}
    (free : b.refusal m.control = none) (inside : Comes part start x (b.entered m)) :
    Comes part start (bracket b x) m
  | attempted {α : Type} {why : Attempt} {x : Evaluation α} {m : Machine}
    (inside : Comes part start x m) : Comes part start (attempt why x) m
  | reported {α : Type} {x : Evaluation α} {m : Machine} (inside : Comes part start x m) :
    Comes part start (reporting x) m

theorem Comes.trans {γ : Type} {part : Evaluation γ} {y : Evaluation β} {x : Evaluation α}
    {start between m : Machine} (inner : Comes part start y between) (outer : Comes y between x m) :
    Comes part start x m := by
  induction outer with
  | here => exact inner
  | first _ ih => exact .first ih
  | next run _ ih => exact .next run ih
  | within free _ ih => exact .within free ih
  | attempted _ ih => exact .attempted ih
  | reported _ ih => exact .reported ih

section

variable {b : Bracket} {m : Machine} {cause : Cause}

/-- What may not be entered ends at once. -/
theorem run_bracket_refused (refused : b.refusal m.control = some cause) (x : Evaluation α) :
    (bracket b x).run m = (.raised (.error cause), m) := by
  simp only [bracket, refused]

theorem moments_bracket_refused (refused : b.refusal m.control = some cause)
    (x : Evaluation α) : (bracket b x).moments m = [] := by
  simp only [bracket, refused]

theorem incidents_bracket_refused (refused : b.refusal m.control = some cause)
    (x : Evaluation α) : (bracket b x).incidents m = [] := by
  simp only [bracket, refused]

/-- What is entered is left again, whatever comes out of it. -/
theorem run_bracket (free : b.refusal m.control = none) (x : Evaluation α) :
    (bracket b x).run m = ((x.run (b.entered m)).1, b.left m (x.run (b.entered m)).2) := by
  simp only [bracket, free]

theorem moments_bracket (free : b.refusal m.control = none) (x : Evaluation α) :
    (bracket b x).moments m =
      b.around m (x.run (b.entered m)).2 (x.moments (b.entered m)) := by
  simp only [bracket, free]

theorem incidents_bracket (free : b.refusal m.control = none) (x : Evaluation α) :
    (bracket b x).incidents m = x.incidents (b.entered m) := by
  simp only [bracket, free]

end

/-- The moments inside of a scope, a frame or a call are among those of the whole. -/
theorem mem_moments_bracket {b : Bracket} {x : Evaluation α} {m : Machine}
    (free : b.refusal m.control = none) {moment : Moment}
    (mem : moment ∈ x.moments (b.entered m)) :
    moment.inside b.calls ∈ (bracket b x).moments m := by
  rw [moments_bracket free]
  exact List.mem_append_left _ (List.mem_cons_of_mem _ (List.mem_map_of_mem mem))

/-- The moments of the part are moments of the whole run. -/
theorem Comes.moments {part : Evaluation β} {x : Evaluation α} {start m : Machine}
    (comes : Comes part start x m) :
    ∃ calls, ∀ moment ∈ part.moments start, moment.inside calls ∈ x.moments m := by
  induction comes with
  | here => exact ⟨0, fun _ mem => mem⟩
  | first _ ih => exact ih.imp fun _ among moment mem => List.mem_append_left _ (among moment mem)
  | next run _ ih =>
    refine ih.imp fun _ among moment mem => ?_
    rw [moments_bind run]
    exact List.mem_append_right _ (among moment mem)
  | @within _ b x m free _ ih =>
    obtain ⟨calls, among⟩ := ih
    refine ⟨calls + b.calls, fun moment mem => ?_⟩
    rw [← Moment.inside_inside]
    exact mem_moments_bracket free (among moment mem)
  | attempted _ ih | reported _ ih => exact ih

/-- The incidents of the part are incidents of the whole run. -/
theorem Comes.incidents {part : Evaluation β} {x : Evaluation α} {start m : Machine}
    (comes : Comes part start x m) : part.incidents start ⊆ x.incidents m := by
  induction comes with
  | here => exact List.Subset.refl _
  | first _ ih => exact List.subset_append_of_subset_left _ ih
  | next run _ ih =>
    rw [incidents_bind run]
    exact List.subset_append_of_subset_right _ ih
  | @within _ b x m free _ ih =>
    rw [incidents_bracket free]
    exact ih
  | attempted _ ih | reported _ ih => exact List.subset_append_of_subset_left _ ih

end ScriptEngine.Evaluation
