import MailRules.Proofs.Sweep.Emission
/-!
What a document is like in which the validation pass finds nothing: every precondition compiles, every
action copies, and every destination is a text. Each step of the pass leaves at least one error where
its part of the document is not so.
-/
namespace MailRules.Sweep
open MailRules.Search MailRules.Calendar MailRules.Sweep.Step

def Moves (a : Action) : Prop := a.kind = moveKind ∧ ∀ l ∈ a.arguments, l.isScalar = true

/-- Nothing is wrong with the rule itself, whatever a server says. -/
structure RuleAccepted (now : Moment) (r : Rule) : Prop where
  compiles : ∀ p ∈ r.preconditions, (compile now p).outcome = .ok ()
  moves : ∀ a ∈ r.actions, Moves a

def DocumentAccepted (now : Moment) (d : Document) : Prop :=
  ∀ a ∈ d.accounts, ∀ m ∈ a.mailboxes, ∀ r ∈ m.rules, RuleAccepted now r

theorem stringText_leaf (field : String) (l : Leaf) (scalar : l.isScalar = true) :
    stringText field (.leaf l) = .ok l.text := by
  simp [stringText, scalarOf, scalar, Bind.bind, Except.bind, pure, Except.pure]

theorem stringText_collection (field : String) (l : Leaf) (collection : ¬ l.isScalar = true) :
    stringText field (.leaf l) = .error (.error (.valueDecode field "string"
      ("expected a scalar, got " ++ Text.quoted l.text) l.location)) := by
  simp [stringText, scalarOf, collection, refuse, Bind.bind, Except.bind]

variable {σ : Type}

/-- Errors are told only where something is wrong: those that are left are single, and where none is
left, each of the items is as `A` says. -/
def AllOrErrors {α : Type} (A : α → Prop) (items : List α) (errors : List Error) : Prop :=
  (∀ e ∈ errors, e.Single) ∧ (errors = [] → ∀ a ∈ items, A a)

def Establishes (A : Prop) (s : Step σ Unit) : Prop :=
  Triple (fun _ => True) s (fun _ _ => A) fun failure _ => failure.Reported

theorem establishes_collectEach {α : Type} {A : α → Prop} {items : List α} {each : α → Step σ Unit}
    (one : ∀ a ∈ items, Establishes (A a) (each a)) :
    Triple (fun _ => True) (collectEach items each) (fun errors _ => AllOrErrors A items errors)
      fun failure _ => failure.Reported := by
  apply triple_weaken (R := fun _ => AllOrErrors A [] [])
    (triple_collectEach (fun done errors _ => AllOrErrors A done errors) _)
  · intro st _
    simp [AllOrErrors]
  · exact fun _ _ => id
  · exact fun _ _ => id
  · intro done a rest errors split st sofar
    have ended := one a (by simp [split]) st trivial
    split at ended
    · refine ⟨sofar.1, ?_⟩
      intro none x member
      rcases List.mem_append.mp member with old | new
      · exact sofar.2 none x old
      · rw [List.mem_singleton.mp new]
        exact ended
    · rename_i failure st' same
      cases failure with
      | fault f => exact ended
      | error e =>
        constructor
        · intro x member
          rcases List.mem_append.mp member with old | new
          · exact sofar.1 x old
          · exact Error.flat_single ended new
        · intro none
          exact (Error.flat_nonempty ended (List.append_eq_nil_iff.mp none).2).elim

theorem establishes_raise {α : Type} {A : α → Prop} {items : List α} (errors : List Error) :
    Triple (fun _ : σ => AllOrErrors A items errors) (raise errors) (fun _ _ => ∀ a ∈ items, A a)
      fun failure _ => failure.Reported :=
  triple_raise (fun _ found none => found.2 none) fun _ _ found => raiseErrors_reported found.1

theorem idle_append (tokens : List Token) (st : σ) :
    tokens.forM (Family.idle σ).append st = (.ok (), st) := by
  induction tokens with
  | nil => rfl
  | cons t tokens ih => exact ih

theorem idle_compileInto (now : Moment) (p : Precondition) :
    Establishes ((compile now p).outcome = .ok ()) (compileInto (Family.idle σ) now p) := by
  intro st _
  have takes : (Family.idle σ).TakesTokens := by
    rintro t st e st' ⟨⟩
  simp only [compileInto_emit takes, emit, bind_apply, idle_append]
  cases outcome : (compile now p).outcome with
  | ok u => rfl
  | error failure => exact compile_reported outcome

def destinationErrors (l : Leaf) : List Error :=
  if l.isScalar then []
  else [.valueDecode moveKind "string" ("expected a scalar, got " ++ Text.quoted l.text) l.location]

def actionErrors (a : Action) : List Error :=
  if a.kind = moveKind then a.arguments.flatMap destinationErrors
  else [.unknownAction a.kind a.location]

theorem destinationErrors_proper (l : Leaf) : ∀ e ∈ destinationErrors l, e.Proper := by
  intro e member
  unfold destinationErrors at member
  split at member
  · cases member
  · rw [List.mem_singleton.mp member]
    trivial

theorem actionErrors_proper (a : Action) : ∀ e ∈ actionErrors a, e.Proper := by
  intro e member
  unfold actionErrors at member
  split at member
  · obtain ⟨l, _, found⟩ := List.mem_flatMap.mp member
    exact destinationErrors_proper l e found
  · rw [List.mem_singleton.mp member]
    trivial

theorem moves_of_no_errors {a : Action} (none : actionErrors a = []) : Moves a := by
  unfold actionErrors at none
  split at none
  · rename_i kind
    refine ⟨kind, ?_⟩
    intro l member
    have clean := List.flatMap_eq_nil_iff.mp none l member
    simpa [destinationErrors] using clean
  · cases none

theorem idle_copyEach (errors : List Error) (leaves : List Leaf) (st : σ) :
    copyEach (Family.idle σ) errors leaves st =
      (.ok ⟨errors ++ leaves.flatMap destinationErrors, true, false⟩, st) := by
  induction leaves generalizing errors with
  | nil => simp [copyEach]
  | cons l leaves ih =>
    by_cases scalar : l.isScalar = true
    · have text := stringText_leaf moveKind l scalar
      have copied : ((Family.idle σ).move l.text).attempt st = (.ok none, st) := rfl
      simp only [copyEach, text, bind_apply, copied]
      have rest := ih errors
      simpa [destinationErrors, scalar] using rest
    · rw [copyEach, stringText_collection moveKind l scalar]
      have rest := ih (errors ++ destinationErrors l)
      simpa [destinationErrors, scalar, Error.flat] using rest

theorem idle_perform (done : Progress) (actions : List Action) (st : σ)
    (going : done.stopped = false) :
    ∃ moved, perform (Family.idle σ) done actions st =
      (.ok ⟨done.errors ++ actions.flatMap actionErrors, moved, false⟩, st) := by
  induction actions generalizing done with
  | nil =>
    refine ⟨done.moved, ?_⟩
    simp [perform, ← going]
  | cons a actions ih =>
    rw [perform]
    split
    · rename_i kind
      obtain ⟨moved, rest⟩ := ih ⟨done.errors ++ a.arguments.flatMap destinationErrors, true, false⟩ rfl
      refine ⟨moved, ?_⟩
      rw [bind_apply, idle_copyEach]
      simpa [actionErrors, kind] using rest
    · rename_i kind
      obtain ⟨moved, rest⟩ := ih { done with errors := done.errors ++ actionErrors a } going
      refine ⟨moved, ?_⟩
      simpa [actionErrors, kind] using rest

/-- Without a server, the actions end with the errors of the document and nothing else. -/
theorem idle_execute (actions : List Action) (st : σ) :
    execute (Family.idle σ) actions st = (raiseErrors (actions.flatMap actionErrors), st) := by
  obtain ⟨moved, performed⟩ := idle_perform {} actions st rfl
  rw [execute, bind_apply, performed]
  cases moved <;> simp [bind_apply, raise, collected, attempt, Family.idle]

theorem idle_execute_establishes (actions : List Action) :
    Establishes (∀ a ∈ actions, Moves a) (execute (Family.idle σ) actions) := by
  intro st _
  rw [idle_execute]
  have single : ∀ e ∈ actions.flatMap actionErrors, e.Single := by
    intro e member
    obtain ⟨a, _, found⟩ := List.mem_flatMap.mp member
    exact Error.single_of_proper (actionErrors_proper a e found)
  cases raised : raiseErrors (actions.flatMap actionErrors) with
  | ok u =>
    have none := List.flatMap_eq_nil_iff.mp ((raiseErrors_ok_iff _).mp raised)
    exact fun a member => moves_of_no_errors (none a member)
  | error failure => exact raiseErrors_reported single raised

theorem idle_rule (now : Moment) (r : Rule) :
    Establishes (RuleAccepted now r) (rule (Family.idle σ) now r) := by
  apply triple_bind (establishes_collectEach fun p _ => idle_compileInto now p)
  intro errors
  apply triple_bind (establishes_raise errors)
  intro _
  apply triple_bind (M := fun _ _ => ∀ p ∈ r.preconditions, (compile now p).outcome = .ok ())
  · exact triple_pure fun _ => id
  · intro _ st compiles
    have ended := idle_execute_establishes r.actions st trivial
    split at ended
    · exact ⟨compiles, ended⟩
    · exact ended

/-- The idle family releases without error, so what the body establishes stays. -/
theorem idle_released {α : Type} {A : α → Prop} {items : List α} {each : α → Step σ Unit}
    {release : Step σ Unit} (idle : release = pure ())
    (one : ∀ a ∈ items, Establishes (A a) (each a)) :
    Establishes (∀ a ∈ items, A a) (do raise (← released (collectEach items each) release)) := by
  apply triple_bind _ establishes_raise
  apply triple_released (establishes_collectEach one)
  · intro errors
    apply triple_collected
    rw [idle]
    apply triple_pure
    simp
  · intro failure
    apply triple_collected
    rw [idle]
    exact triple_pure fun _ => id

theorem idle_mailbox (now : Moment) (m : Mailbox) :
    Establishes (∀ r ∈ m.rules, RuleAccepted now r) (mailbox (Family.idle σ) now m) :=
  idle_released rfl fun r _ => idle_rule now r

theorem idle_account (now : Moment) (a : Account) :
    Establishes (∀ m ∈ a.mailboxes, ∀ r ∈ m.rules, RuleAccepted now r)
      (account (Family.idle σ) now a) :=
  idle_released rfl fun m _ => idle_mailbox now m

/-- The validation pass finds nothing only in documents whose rules are accepted. -/
theorem accepted_of_no_errors {now : Moment} {d : Document} {st st' : σ}
    (passed : pass (Family.idle σ) now d st = (.ok [], st')) : DocumentAccepted now d := by
  have each (a : Account) (_ : a ∈ d.accounts) : Establishes
      (∀ m ∈ a.mailboxes, ∀ r ∈ m.rules, RuleAccepted now r) (account (Family.idle σ) now a) :=
    idle_account now a
  have ended := establishes_collectEach each st trivial
  have same : pass (Family.idle σ) now d st = collectEach d.accounts (account (Family.idle σ) now) st := rfl
  rw [← same, passed] at ended
  exact ended.2 rfl

end MailRules.Sweep
