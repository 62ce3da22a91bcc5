import MailRules.Proofs.Sweep.Course
/-!
What the validation pass tells. It goes through all rules of the document and tells each one's mistakes. The
actions of a rule are looked at only when its preconditions compile, since nothing is searched for otherwise.
-/
namespace MailRules.Sweep
open MailRules.Search MailRules.Calendar MailRules.Sweep.Step

def preconditionMistakes (now : Moment) (r : Rule) : List Error := r.preconditions.flatMap (compileErrors now)

def ruleMistakes (now : Moment) (r : Rule) : List Error :=
  if (preconditionMistakes now r).isEmpty then r.actions.flatMap actionErrors else preconditionMistakes now r

def documentMistakes (now : Moment) (d : Document) : List Error :=
  d.accounts.flatMap fun a => a.mailboxes.flatMap fun m => m.rules.flatMap (ruleMistakes now)

/-- The step fails with these errors, or succeeds if they are none, or `N` and an integer is too long. -/
def Tells {σ : Type} (N : Prop) (told : List Error) (s : Step σ Unit) : Prop :=
  Triple (fun _ => True) s (fun _ _ => told = []) fun failure _ => match failure with
    | .error e => told ≠ [] ∧ e.flat = told
    | .fault x => N ∧ x = .integerTooLong

def Collects {σ : Type} (N : Prop) (told : List Error) (s : Step σ (List Error)) : Prop :=
  Triple (fun _ => True) s (fun errors _ => errors = told) fun failure _ =>
    N ∧ failure = .fault .integerTooLong

variable {σ α : Type} {N : Prop} {told : List Error} {now : Moment}

theorem collects_each {items : List α} {each : α → Step σ Unit} {told : α → List Error}
    (one : ∀ a ∈ items, Tells N (told a) (each a)) :
    Collects N (items.flatMap told) (collectEach items each) := by
  apply triple_weaken (R := fun _ => ([] : List Error) = ([] : List α).flatMap told)
    (triple_collectEach (fun done errors _ => errors = done.flatMap told) _)
  · exact fun _ _ => rfl
  · exact fun _ _ => id
  · exact fun _ _ => id
  · intro done a rest errors split st sofar
    have ended := one a (by simp [split]) st trivial
    split at ended
    · simp [sofar, ended]
    · rename_i failure st' _
      cases failure with
      | error e =>
        have flat : e.flat = told a := ended.2
        simp [sofar, flat]
      | fault x => exact ⟨ended.1, congrArg Failure.fault ended.2⟩

theorem tells_raise {s : Step σ (List Error)} (proper : ∀ e ∈ told, e.Proper)
    (collects : Collects N told s) : Tells N told (do Step.raise (← s)) := by
  apply triple_bind (M := fun errors _ => errors = told)
  · apply triple_weaken collects (fun _ => id) (fun _ _ => id)
    rintro _ st ⟨unwritable, rfl⟩
    exact ⟨unwritable, rfl⟩
  · intro errors
    apply triple_raise
    · rintro st rfl none
      exact none
    · rintro st failure rfl failed
      obtain ⟨e, rfl, reported, rfl⟩ := raiseErrors_raisable (Error.raisable_of_proper proper) failed
      exact ⟨Error.flat_nonempty reported, rfl⟩

theorem collects_released {s : Step σ (List Error)} (collects : Collects N told s) :
    Collects N told (s.released (pure ())) := by
  apply triple_released collects
  · intro errors
    apply triple_collected
    apply triple_pure
    simp
  · intro failure
    apply triple_collected
    exact triple_pure fun _ => id

/-! The parts of a document -/

theorem compileErrors_proper {p : Precondition} : ∀ e ∈ compileErrors now p, e.Proper := by
  have fails : FailsWith (fun x => x = .integerTooLong) (compile now p).outcome :=
    compile_failsWith p (Or.inl rfl)
  unfold compileErrors
  cases outcome : (compile now p).outcome with
  | ok u => simp
  | error failure =>
    cases failure with
    | fault x => simp
    | error e =>
      exact fun x member => Error.proper_of_precondition ((fails _ outcome).2 x member)

theorem preconditionMistakes_proper (r : Rule) : ∀ e ∈ preconditionMistakes now r, e.Proper :=
  List.forall_mem_flatMap.mpr fun _ _ => compileErrors_proper

theorem ruleMistakes_proper (r : Rule) : ∀ e ∈ ruleMistakes now r, e.Proper := by
  intro e member
  unfold ruleMistakes at member
  split at member
  · exact List.forall_mem_flatMap.mpr (fun a _ => actionErrors_proper a) e member
  · exact preconditionMistakes_proper r e member

theorem tells_compileInto {p : Precondition} (unwritable : ¬ p.Writable → N) :
    Tells N (compileErrors now p) (compileInto (Family.idle σ) now p) := by
  intro st _
  have takes : (Family.idle σ).TakesTokens := by
    rintro t st e st' ⟨⟩
  simp only [compileInto_emit takes, emit, bind_apply, idle_append]
  have fails : FailsWith (fun x => N ∧ x = .integerTooLong) (compile now p).outcome := by
    by_cases writable : p.Writable
    · exact compile_failsWith p (Or.inr writable)
    · exact compile_failsWith p (Or.inl ⟨unwritable writable, rfl⟩)
  unfold compileErrors
  cases outcome : (compile now p).outcome with
  | ok u => rfl
  | error failure =>
    cases failure with
    | error e => exact ⟨Error.flat_nonempty (fails _ outcome).1, rfl⟩
    | fault x => exact fails _ outcome

theorem tells_execute (actions : List Action) :
    Tells N (actions.flatMap actionErrors) (execute (Family.idle σ) actions) := by
  intro st _
  rw [idle_execute]
  cases raised : raiseErrors (actions.flatMap actionErrors) with
  | ok u => exact (raiseErrors_ok_iff _).mp raised
  | error failure =>
    have raisable : Error.Raisable (actions.flatMap actionErrors) :=
      Error.raisable_of_proper (errors_proper actionErrors_proper)
    obtain ⟨e, rfl, reported, flat⟩ := raiseErrors_raisable raisable raised
    exact ⟨flat ▸ Error.flat_nonempty reported, flat⟩

theorem tells_rule {r : Rule} (unwritable : ∀ p ∈ r.preconditions, ¬ p.Writable → N) :
    Tells N (ruleMistakes now r) (rule (Family.idle σ) now r) := by
  have compiles : Tells N (preconditionMistakes now r) (do
      Step.raise (← collectEach r.preconditions (compileInto (Family.idle σ) now))) :=
    tells_raise (preconditionMistakes_proper r)
      (collects_each fun p member => tells_compileInto (unwritable p member))
  have parts : rule (Family.idle σ) now r = (do
      (do Step.raise (← collectEach r.preconditions (compileInto (Family.idle σ) now)))
      execute (Family.idle σ) r.actions) := by
    simp only [rule, bind_assoc]
    rfl
  rw [parts]
  unfold ruleMistakes
  cases uncompiled : preconditionMistakes now r with
  | nil =>
    rw [uncompiled] at compiles
    apply triple_bind (M := fun _ _ => True)
    · apply triple_weaken compiles (fun _ => id) (fun _ _ _ => trivial)
      intro failure st failed
      cases failure with
      | error e => exact (failed.1 rfl).elim
      | fault x => exact failed
    · exact fun _ => tells_execute r.actions
  | cons e es =>
    rw [uncompiled] at compiles
    apply triple_bind (M := fun _ _ => False)
    · exact triple_weaken compiles (fun _ => id) (fun _ _ none => by cases none) fun _ _ => id
    · exact fun _ _ impossible => impossible.elim

theorem tells_parts {items : List α} {each : α → Step σ Unit} {told : α → List Error}
    (proper : ∀ a, ∀ e ∈ told a, e.Proper) (one : ∀ a ∈ items, Tells N (told a) (each a)) :
    Tells N (items.flatMap told) (do Step.raise (← (collectEach items each).released (pure ()))) := by
  exact tells_raise (List.forall_mem_flatMap.mpr fun a _ => proper a) (collects_released (collects_each one))

theorem pass_collects (now : Moment) (d : Document) :
    Collects (¬ d.Writable) (documentMistakes now d) (pass (Family.idle σ) now d) := by
  have mailboxes (m : Mailbox) : ∀ e ∈ m.rules.flatMap (ruleMistakes now), e.Proper :=
    List.forall_mem_flatMap.mpr fun r _ => ruleMistakes_proper r
  apply collects_each
  intro a listed
  apply tells_parts mailboxes
  intro m inside
  apply tells_parts ruleMistakes_proper
  intro r within
  apply tells_rule
  intro p member unwritable all
  exact unwritable (all a listed m inside r within p member)

/-- The validation pass tells the mistakes of the whole document, unless it meets an integer that is too long
to be written. -/
theorem pass_tells_mistakes (now : Moment) (d : Document) (st : σ) :
    (pass (Family.idle σ) now d st).1 = .ok (documentMistakes now d) ∨
      ¬ d.Writable ∧ (pass (Family.idle σ) now d st).1 = .error (.fault .integerTooLong) := by
  have ended := pass_collects now d st trivial
  split at ended <;> rename_i same <;> rw [same]
  · exact Or.inl (congrArg Except.ok ended)
  · exact Or.inr ⟨ended.1, congrArg Except.error ended.2⟩

def mistaken : Rule :=
  ⟨[fieldOf "NOSUCH" []], [⟨"purge", [], ⟨"c", 7, 9⟩⟩], ⟨"c", 5, 7⟩⟩

/-- Mistakes in the actions of a rule are not told beside those in its preconditions. -/
theorem action_mistakes_untold : ¬ ∀ now d errors, (pass (Family.idle Unit) now d ()).1 = .ok errors →
    ∀ a ∈ d.accounts, ∀ m ∈ a.mailboxes, ∀ r ∈ m.rules,
      preconditionMistakes now r ++ r.actions.flatMap actionErrors ⊆ errors := by
  intro always
  have passed : (pass (Family.idle Unit) newYear
      ⟨"c", [⟨"h", {}, {}, [⟨"INBOX", [mistaken], ⟨"c", 4, 5⟩⟩], ⟨"c", 2, 3⟩⟩]⟩ ()).1 =
        .ok [.unknownField "NOSUCH" (some ⟨"c", 1, 1⟩)] := by
    cbv
  have told := always _ _ _ passed _ (List.mem_singleton_self _) _ (List.mem_singleton_self _) mistaken
    (List.mem_singleton_self _)
  have action : actionErrors ⟨"purge", [], ⟨"c", 7, 9⟩⟩ =
      [.unknownAction "purge" (some ⟨"c", 7, 9⟩)] := rfl
  have member : Error.unknownAction "purge" (some ⟨"c", 7, 9⟩) ∈
      preconditionMistakes newYear mistaken ++ mistaken.actions.flatMap actionErrors := by
    simp [mistaken, action]
  simpa using told member

end MailRules.Sweep
