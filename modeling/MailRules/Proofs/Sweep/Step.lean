import MailRules.Sweep.Pass
import MailRules.Proofs.Errors
/-!
Reasoning about steps: what holds of the state before a step and what holds of it afterwards, whether
the step succeeds or fails. Each way of putting steps together has its rule; a pass over a document
needs no more than what its family keeps.
-/
namespace MailRules.Sweep
open MailRules.Search MailRules.Calendar

variable {σ α β : Type}

namespace Step

/-- From every state with `P`, the step ends with `Q` where it succeeds and with `E` where it fails. -/
def Triple (P : σ → Prop) (s : Step σ α) (Q : α → σ → Prop) (E : Failure → σ → Prop) : Prop :=
  ∀ st, P st → match s st with
    | (.ok a, st') => Q a st'
    | (.error failure, st') => E failure st'

def Keeps (I : σ → Prop) (s : Step σ α) : Prop := Triple I s (fun _ => I) fun _ => I

theorem bind_apply (s : Step σ α) (next : α → Step σ β) (st : σ) :
    (s >>= next) st = match s st with
      | (.ok a, st') => next a st'
      | (.error failure, st') => (.error failure, st') := by
  change (match s st with | (r, st') => ExceptT.bindCont next r st') = _
  cases s st with
  | mk r st' => cases r <;> rfl

theorem collected_apply (s : Step σ Unit) (st : σ) :
    s.collected st = match s st with
      | (.ok (), st') => (.ok [], st')
      | (.error (.error e), st') => (.ok e.flat, st')
      | (.error (.fault f), st') => (.error (.fault f), st') := by
  unfold collected attempt
  rw [bind_apply]
  match s st with
  | (.ok (), st') => rfl
  | (.error (.error e), st') => rfl
  | (.error (.fault f), st') => rfl

theorem leaving_apply (s : Step σ Unit) (st : σ) :
    s.leaving st = ((s st).1.mapError Failure.leaving, (s st).2) := by
  unfold leaving
  match s st with
  | (.ok (), st') => rfl
  | (.error failure, st') => rfl

/-- A release that fails with errors alone leaves as it ends. -/
theorem leaving_eq {s : Step σ Unit} (errors : ∀ st x, (s st).1 ≠ .error (.fault x)) : s.leaving = s := by
  funext st
  rw [leaving_apply]
  match same : s st with
  | (.ok (), st') => rfl
  | (.error (.error e), st') => rfl
  | (.error (.fault x), st') => exact (errors st x (by rw [same])).elim

@[simp] theorem pure_apply (a : α) (st : σ) : (pure a : Step σ α) st = (.ok a, st) := rfl

section Rules
variable {P R : σ → Prop} {Q Q' : α → σ → Prop} {E E' : Failure → σ → Prop} {s : Step σ α}

theorem triple_pure {a : α} (holds : ∀ st, P st → Q a st) : Triple P (pure a) Q E := holds

theorem triple_weaken (strong : Triple R s Q' E') (before : ∀ st, P st → R st)
    (after : ∀ a st, Q' a st → Q a st) (failed : ∀ failure st, E' failure st → E failure st) :
    Triple P s Q E := by
  intro st holds
  have ended := strong st (before st holds)
  split
  · rename_i a st' same
    rw [same] at ended
    exact after a st' ended
  · rename_i failure st' same
    rw [same] at ended
    exact failed failure st' ended

theorem triple_bind {M : α → σ → Prop} {next : α → Step σ β} {Q : β → σ → Prop}
    (first : Triple P s M E) (later : ∀ a, Triple (M a) (next a) Q E) :
    Triple P (s >>= next) Q E := by
  intro st holds
  have ended := first st holds
  rw [bind_apply]
  split at ended
  · exact later _ _ ended
  · exact ended

theorem triple_of_discard {R : σ → Prop} (inner : Triple P (s >>= fun _ => pure ()) (fun _ => R) E) :
    Triple P s (fun _ => R) E := by
  intro st holds
  have ended := inner st holds
  rw [bind_apply] at ended
  match same : s st with
  | (.ok a, st') =>
    rw [same] at ended
    exact ended
  | (.error failure, st') =>
    rw [same] at ended
    exact ended

theorem triple_attempt {s : Step σ Unit} {Q : Option Error → σ → Prop}
    (inner : Triple P s (fun _ => Q none) fun failure => match failure with
      | .error e => Q (some e)
      | .fault f => E (.fault f)) :
    Triple P s.attempt Q E := by
  intro st holds
  have ended := inner st holds
  unfold attempt
  split at ended
  · rename_i st' same
    rw [same]
    exact ended
  · rename_i failure st' same
    rw [same]
    cases failure with
    | error e => exact ended
    | fault f => exact ended

theorem triple_collected {s : Step σ Unit} {Q : List Error → σ → Prop}
    (inner : Triple P s (fun _ => Q []) fun failure => match failure with
      | .error e => Q e.flat
      | .fault f => E (.fault f)) :
    Triple P s.collected Q E := by
  apply triple_bind (M := fun e? => e?.elim (Q []) fun e => Q e.flat)
  · apply triple_attempt
    apply triple_weaken inner (fun _ => id) (fun _ _ => id)
    intro failure st holds
    cases failure <;> exact holds
  · intro e?
    cases e? <;> exact triple_pure fun _ => id

theorem triple_attempt_alike {s : Step σ Unit} (inner : Triple P s (fun _ => R) fun _ => R) :
    Triple P s.attempt (fun _ => R) fun _ => R := by
  apply triple_attempt
  apply triple_weaken inner (fun _ => id) (fun _ _ => id)
  intro failure st holds
  cases failure <;> exact holds

theorem triple_collected_alike {s : Step σ Unit} (inner : Triple P s (fun _ => R) fun _ => R) :
    Triple P s.collected (fun _ => R) fun _ => R := by
  apply triple_bind (triple_attempt_alike inner)
  intro e?
  cases e? <;> exact triple_pure fun _ => id

theorem triple_leaving {s : Step σ Unit} {Q : Unit → σ → Prop}
    (inner : Triple P s Q fun failure => E failure.leaving) : Triple P s.leaving Q E := by
  intro st holds
  have ended := inner st holds
  rw [leaving_apply]
  match same : s st with
  | (.ok (), st') =>
    rw [same] at ended
    exact ended
  | (.error failure, st') =>
    rw [same] at ended
    exact ended

/-- The release runs after success and after failure; what fails in it last decides. -/
theorem triple_released {body : Step σ (List Error)} {release : Step σ Unit}
    {M Q : List Error → σ → Prop} {F : Failure → σ → Prop} (inner : Triple P body M F)
    (success : ∀ es, Triple (M es) release.leaving.collected (fun es' => Q (es ++ es')) E)
    (failed : ∀ failure, Triple (F failure) release.leaving.collected (fun _ => E failure) E) :
    Triple P (released body release) Q E := by
  intro st holds
  have ended := inner st holds
  unfold released
  split at ended
  · rename_i es st' same
    rw [same]
    exact triple_bind (success es) (fun _ => triple_pure fun _ => id) st' ended
  · rename_i failure st' same
    rw [same]
    apply triple_bind (M := fun _ => E failure) _ (fun _ => fun _ => id) st' ended
    exact triple_bind (failed failure) fun _ => triple_pure fun _ => id

/-- `I done errors` holds when the items `done` have been dealt with and have left `errors`. -/
theorem triple_collectEach {items : List β} {each : β → Step σ Unit}
    (I : List β → List Error → σ → Prop)
    (one : ∀ done b rest errors, items = done ++ b :: rest →
      Triple (I done errors) (each b) (fun _ => I (done ++ [b]) errors) fun failure =>
        match failure with
        | .error e => I (done ++ [b]) (errors ++ e.flat)
        | .fault f => E (.fault f)) :
    Triple (I [] []) (collectEach items each) (I items) E := by
  have tail : ∀ rest done errors, items = done ++ rest →
      Triple (I done errors) (collectEach rest each) (fun more => I items (errors ++ more)) E := by
    intro rest
    induction rest with
    | nil =>
      intro done errors split
      apply triple_pure
      simp [split]
    | cons b rest ih =>
      intro done errors split
      apply triple_bind (M := fun es => I (done ++ [b]) (errors ++ es))
      · apply triple_collected
        simpa using one done b rest errors split
      · intro es
        apply triple_bind (ih (done ++ [b]) (errors ++ es) (by simp [split]))
        intro more
        apply triple_pure
        simp
  exact tail items [] [] rfl

theorem triple_raise {errors : List Error} {Q : Unit → σ → Prop}
    (success : ∀ st, P st → errors = [] → Q () st)
    (failed : ∀ st failure, P st → raiseErrors errors = .error failure → E failure st) :
    Triple P (raise errors) Q E := by
  intro st holds
  unfold raise
  cases raised : raiseErrors errors with
  | ok u => exact success st holds ((raiseErrors_ok_iff errors).mp raised)
  | error failure => exact failed st failure holds raised

end Rules

/-- Errors that are raised together, or the lone one by itself, are collected as the same errors. -/
theorem collected_raise {errors : List Error} (raisable : Error.Raisable errors) :
    (raise errors : Step σ Unit).collected = pure errors := by
  funext st
  rw [collected_apply, raise]
  cases raised : raiseErrors errors with
  | ok u =>
    have none := (raiseErrors_ok_iff errors).mp raised
    rw [none]
    rfl
  | error failure =>
    obtain ⟨e, rfl, -, flat⟩ := raiseErrors_raisable raisable raised
    rw [← flat]
    rfl

theorem collectEach_append (front back : List β) (each : β → Step σ Unit) :
    collectEach (front ++ back) each = do
      let errors ← collectEach front each
      return errors ++ (← collectEach back each) := by
  induction front with
  | nil => simp [collectEach]
  | cons b front ih =>
    simp only [List.cons_append, collectEach, ih, bind_assoc, pure_bind, List.append_assoc]

theorem collectEach_pure {items : List β} {each : β → Step σ Unit} {errors : β → List Error}
    (one : ∀ b ∈ items, (each b).collected = pure (errors b)) :
    collectEach items each = pure (items.flatMap errors) := by
  induction items with
  | nil => rfl
  | cons b items ih =>
    have later := ih fun x member => one x (List.mem_cons_of_mem b member)
    rw [collectEach, one b List.mem_cons_self, later]
    simp

theorem collectEach_map (items : List α) (item : α → β) (each : β → Step σ Unit) :
    collectEach (items.map item) each = collectEach items fun a => each (item a) := by
  induction items with
  | nil => rfl
  | cons a items ih => simp only [List.map_cons, collectEach, ih]

section Invariants
variable {I J : σ → Prop}

theorem keeps_pure (a : α) : Keeps I (pure a : Step σ α) := triple_pure fun _ => id

theorem keeps_outcome (r : Except Failure α) : Keeps I (fun st => (r, st) : Step σ α) := by
  intro st holds
  cases r <;> exact holds

theorem keeps_bind {s : Step σ α} {next : α → Step σ β} (first : Keeps I s)
    (later : ∀ a, Keeps I (next a)) : Keeps I (s >>= next) := triple_bind first later

theorem keeps_collected {s : Step σ Unit} (inner : Keeps I s) : Keeps I s.collected :=
  triple_collected_alike inner

theorem keeps_leaving {s : Step σ Unit} (inner : Keeps I s) : Keeps I s.leaving :=
  triple_leaving inner

theorem keeps_released {body : Step σ (List Error)} {release : Step σ Unit}
    (inner : Triple J body (fun _ => I) fun _ => I) (last : Keeps I release) :
    Triple J (released body release) (fun _ => I) fun _ => I :=
  triple_released inner (fun _ => keeps_collected (keeps_leaving last)) fun _ =>
    keeps_collected (keeps_leaving last)

theorem keeps_collectEach {items : List β} {each : β → Step σ Unit}
    (one : ∀ b ∈ items, Keeps I (each b)) : Keeps I (collectEach items each) := by
  induction items with
  | nil => exact keeps_pure _
  | cons b items ih =>
    apply keeps_bind (keeps_collected (one b List.mem_cons_self))
    intro errors
    have later := ih fun x member => one x (List.mem_cons_of_mem b member)
    exact keeps_bind later fun _ => keeps_pure _

theorem keeps_raise (errors : List Error) : Keeps I (raise errors : Step σ Unit) :=
  triple_raise (fun _ holds _ => holds) fun _ _ holds _ => holds

end Invariants
end Step

open Step

/-- While a mailbox is open, `J` may hold beside what is kept throughout. -/
theorem mailbox_keeps {f : Family σ} {now : Moment} {m : Mailbox} {I J : σ → Prop}
    (stronger : ∀ st, J st → I st)
    (select : Triple I (f.select m.name) (fun _ => J) fun _ => I)
    (rules : ∀ r ∈ m.rules, Keeps J (do f.newRule; rule f now r)) (close : Keeps I f.close) :
    Keeps I (mailbox f now m) := by
  have inside : Keeps J (collectEach m.rules fun r => do f.newRule; rule f now r) :=
    keeps_collectEach rules
  apply triple_bind select
  intro _
  apply triple_bind (M := fun _ => I)
  · exact keeps_released
      (triple_weaken inside (fun _ => id) (fun _ => stronger) fun _ => stronger) close
  · exact keeps_raise

theorem pass_keeps {f : Family σ} {now : Moment} {d : Document} {I : σ → Prop}
    (newAccount : Keeps I f.newAccount)
    (connect : ∀ a ∈ d.accounts, Keeps I (f.connect a.host a.flags a.credentials))
    (newMailbox : Keeps I f.newMailbox)
    (mailboxes : ∀ a ∈ d.accounts, ∀ m ∈ a.mailboxes, Keeps I (mailbox f now m))
    (logout : Keeps I f.logout) : Keeps I (pass f now d) := by
  apply keeps_collectEach
  intro a member
  apply keeps_bind newAccount
  intro _
  apply keeps_bind (connect a member)
  intro _
  apply keeps_bind (keeps_released (keeps_collectEach _) logout) keeps_raise
  intro m inside
  exact keeps_bind newMailbox fun _ => mailboxes a member m inside

end MailRules.Sweep
