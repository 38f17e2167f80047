namespace HarvestPlan.Outcome

variable {ε ε' α β : Type}

theorem bind_ok {first : Except ε α} {next : α → Except ε β} {result : β}
    (done : first >>= next = .ok result) : ∃ a, first = .ok a ∧ next a = .ok result := by
  cases first with
  | error fault => cases done
  | ok a => exact ⟨a, rfl, done⟩

theorem bind_error {first : Except ε α} {next : α → Except ε β} {fault : ε}
    (failed : first >>= next = .error fault) :
    first = .error fault ∨ ∃ a, first = .ok a ∧ next a = .error fault := by
  cases first with
  | error other =>
    cases failed
    exact .inl rfl
  | ok a => exact .inr ⟨a, rfl, failed⟩

theorem exists_ok {done : Except ε α} (goes : done.toOption.isSome = true) : ∃ a, done = .ok a := by
  cases done with
  | error fault => cases goes
  | ok a => exact ⟨a, rfl⟩

theorem map_ok {first : Except ε α} {f : α → β} {result : β} (done : f <$> first = .ok result) :
    ∃ a, first = .ok a ∧ f a = result := by
  cases first with
  | error fault => cases done
  | ok a => exact ⟨a, rfl, Except.ok.inj done⟩

theorem map_error {first : Except ε α} {f : α → β} {fault : ε} (failed : f <$> first = .error fault) :
    first = .error fault := by
  cases first with
  | error other =>
    cases failed
    rfl
  | ok a => cases failed

theorem ok_mapError (f : ε → ε') (a : α) : (Except.ok a : Except ε α).mapError f = .ok a := rfl

theorem error_mapError {f : ε → ε'} (cause : ε) :
    (Except.error cause : Except ε α).mapError f = .error (f cause) := rfl

theorem mapError_ok {first : Except ε α} {f : ε → ε'} {result : α}
    (done : first.mapError f = .ok result) : first = .ok result := by
  cases first with
  | error fault => cases done
  | ok a =>
    cases done
    rfl

theorem mapError_error {first : Except ε α} {f : ε → ε'} {fault : ε'}
    (failed : first.mapError f = .error fault) : ∃ cause, first = .error cause ∧ f cause = fault := by
  cases first with
  | error cause => exact ⟨cause, rfl, Except.error.inj failed⟩
  | ok a => cases failed

/-- It goes through to a result that is as told, or it fails by a cause that is. -/
inductive Ends (Result : α → Prop) (Cause : ε → Prop) : Except ε α → Prop
  | ok {a : α} (result : Result a) : Ends Result Cause (.ok a)
  | error {cause : ε} (own : Cause cause) : Ends Result Cause (.error cause)

theorem Ends.imp {Result Result' : α → Prop} {Cause Cause' : ε → Prop} {done : Except ε α}
    (ends : Ends Result Cause done) (result : ∀ a, Result a → Result' a)
    (cause : ∀ fault, Cause fault → Cause' fault) : Ends Result' Cause' done := by
  cases ends with
  | ok known => exact .ok (result _ known)
  | error own => exact .error (cause _ own)

theorem Ends.bind {Result : α → Prop} {Result' : β → Prop} {Cause : ε → Prop} {first : Except ε α}
    {next : α → Except ε β} (ends : Ends Result Cause first)
    (then_ : ∀ a, Result a → Ends Result' Cause (next a)) : Ends Result' Cause (first >>= next) := by
  cases ends with
  | ok result => exact then_ _ result
  | error own => exact .error own

theorem mapM_ok {f : α → Except ε β} {g : α → β} {items : List α}
    (each : ∀ item ∈ items, f item = .ok (g item)) : items.mapM f = .ok (items.map g) := by
  induction items with
  | nil => rfl
  | cons item rest ih =>
    have later := ih fun other present => each other (List.mem_cons_of_mem _ present)
    rw [List.mapM_cons, each item List.mem_cons_self, later]
    rfl

theorem forM_ok_iff {f : α → Except ε PUnit} {items : List α} :
    items.forM f = .ok ⟨⟩ ↔ ∀ item ∈ items, f item = .ok ⟨⟩ := by
  induction items with
  | nil => simp [pure, Except.pure]
  | cons item rest ih =>
    rw [List.forall_mem_cons, ← ih]
    change (f item >>= fun _ => rest.forM f) = .ok ⟨⟩ ↔ _
    cases f item <;> simp [bind, Except.bind]

theorem foldlM_ok {f : β → α → Except ε β} {Kept : β → Prop}
    (step : ∀ {before a after}, Kept before → f before a = .ok after → Kept after) {items : List α}
    {start last : β} (kept : Kept start) (done : items.foldlM f start = .ok last) : Kept last := by
  induction items generalizing start with
  | nil =>
    cases done
    exact kept
  | cons a rest ih =>
    rw [List.foldlM_cons] at done
    obtain ⟨next, here, done⟩ := bind_ok done
    exact ih (step kept here) done

theorem foldlM_error {f : β → α → Except ε β} {items : List α} {start : β} {fault : ε}
    (failed : items.foldlM f start = .error fault) :
    ∃ before item after middle, items = before ++ item :: after ∧
      before.foldlM f start = .ok middle ∧ f middle item = .error fault := by
  induction items generalizing start with
  | nil => cases failed
  | cons item rest ih =>
    rw [List.foldlM_cons] at failed
    rcases bind_error failed with failed | ⟨next, here, failed⟩
    · exact ⟨[], item, rest, start, rfl, rfl, failed⟩
    · obtain ⟨before, other, after, middle, rfl, done, failed⟩ := ih failed
      refine ⟨item :: before, other, after, middle, rfl, ?_, failed⟩
      rw [List.foldlM_cons, here]
      exact done

end HarvestPlan.Outcome
