import MailRules.Sweep.Script
import MailRules.Proofs.Sweep.Emission
import MailRules.Proofs.Search.Operands
/-!
How alternatives are grouped makes no difference. Errors that are raised and then gathered again are those that
were raised, and errors that are gathered and then raised again are raised as they were; so the errors of inner
alternatives come out as if they had been met among the outer ones. The tag stands before the same operands.
-/
namespace MailRules

/-- The error is what the errors that it stands for are raised as. -/
def Error.Whole (e : Error) : Prop := raiseErrors e.flat = .error (.error e)

theorem Error.whole_of_precondition {F : Fault → Prop} {e : Error} (of : (Failure.error e).OfPrecondition F) :
    e.Whole := by
  cases e with
  | aggregate members =>
    match members, of.1.1 with
    | _ :: _ :: _, _ => rfl
  | fault f => exact (of.2 _ (List.mem_singleton_self _)).elim
  | _ => rfl

namespace Sweep
open MailRules.Search MailRules.Calendar MailRules.Sweep.Step

/-- Raised and then gathered among the errors of alternatives, the errors are the same. -/
def Regathers (errors : List Error) : Prop :=
  errors = [] ∨ ∃ e, raiseErrors errors = .error (.error e) ∧ e.isCompilation = true ∧ e.flat = errors

theorem regathers_of_whole {e : Error} (whole : e.Whole) (kind : e.isCompilation = true) : Regathers e.flat :=
  .inr ⟨e, whole, kind, rfl⟩

theorem regathers_append {errors others : List Error} (first : Regathers errors) (second : Regathers others) :
    Regathers (errors ++ others) := by
  match errors, others with
  | [], others => exact second
  | e :: es, [] => simpa using first
  | [e], e' :: es' => exact .inr ⟨_, rfl, rfl, rfl⟩
  | e :: e' :: es, e'' :: es' => exact .inr ⟨_, rfl, rfl, rfl⟩

def Family.RefusesWhole {σ : Type} (f : Family σ) : Prop :=
  ∀ t st e st', f.append t st = (.error (.error e), st') → e.isCompilation = true → e.Whole

def FailsWhole : Failure → Prop
  | .error e => e.isCompilation = true → e.Whole
  | .fault _ => True

def Uncollected : Failure → Prop
  | .error e => e.isCompilation = false
  | .fault _ => True

variable {σ α β : Type} {f : Family σ} {now : Moment}

def RaisesWhole (s : Step σ Unit) : Prop :=
  Triple (fun _ => True) s (fun _ _ => True) fun failure _ => FailsWhole failure

/-- The step leaves errors that can be raised and gathered again, and lets pass what is not gathered. -/
def GathersWhole (s : Step σ (List Error)) : Prop :=
  Triple (fun _ => True) s (fun errors _ => Regathers errors) fun failure _ => Uncollected failure

theorem failsWhole_of_uncollected {failure : Failure} (passes : Uncollected failure) : FailsWhole failure := by
  cases failure with
  | error e =>
    intro kind
    cases kind.symm.trans passes
  | fault x => trivial

/-! The two laws -/

theorem raise_compiled {s : Step σ Unit} (whole : RaisesWhole s) : (do Step.raise (← s.compiled)) = s := by
  funext st
  have ended := whole st trivial
  rw [bind_apply, compiled_apply]
  match same : s st with
  | (.ok (), st') => rfl
  | (.error (.fault x), st') => rfl
  | (.error (.error e), st') =>
    rw [same] at ended
    by_cases kind : e.isCompilation = true
    · have raised : raiseErrors e.flat = .error (.error e) := ended kind
      simp [kind, Step.raise, raised]
    · simp [kind]

theorem compiled_raise {s : Step σ (List Error)} (gathers : GathersWhole s) :
    (do Step.raise (← s) : Step σ Unit).compiled = s := by
  funext st
  have ended := gathers st trivial
  rw [compiled_apply, bind_apply]
  match same : s st with
  | (.ok errors, st') =>
    rw [same] at ended
    rcases ended with rfl | ⟨e, raised, kind, flat⟩
    · rfl
    · simp [Step.raise, raised, kind, flat]
  | (.error (.fault x), st') => rfl
  | (.error (.error e), st') =>
    rw [same] at ended
    have kind : e.isCompilation = false := ended
    simp [kind]

/-! Preconditions keep them -/

theorem raisesWhole_raise {errors : List Error} (regathers : Regathers errors) :
    RaisesWhole (Step.raise errors : Step σ Unit) := by
  apply triple_raise
  · exact fun _ _ _ => trivial
  · rintro st failure - failed
    rcases regathers with rfl | ⟨e, raised, kind, flat⟩
    · cases failed
    · cases raised.symm.trans failed
      intro _
      rw [Error.Whole, flat, raised]

theorem raisesWhole_outcome {F : Fault → Prop} {r : Except Failure Unit} (fails : FailsWith F r) :
    RaisesWhole (fun st => (r, st) : Step σ Unit) := by
  intro st _
  cases r with
  | ok u => trivial
  | error failure =>
    have of := fails failure rfl
    cases failure with
    | fault x => trivial
    | error e => exact fun _ => Error.whole_of_precondition of

theorem raisesWhole_bind {s : Step σ Unit} {next : Unit → Step σ Unit} (first : RaisesWhole s)
    (later : ∀ u, RaisesWhole (next u)) : RaisesWhole (s >>= next) := triple_bind first later

theorem gathersWhole_compiled {s : Step σ Unit} (whole : RaisesWhole s) : GathersWhole s.compiled := by
  intro st _
  have ended := whole st trivial
  rw [compiled_apply]
  match same : s st with
  | (.ok (), st') => exact .inl rfl
  | (.error (.fault x), st') => trivial
  | (.error (.error e), st') =>
    rw [same] at ended
    by_cases kind : e.isCompilation = true
    · simpa [kind] using regathers_of_whole (ended kind) kind
    · simp [kind, Uncollected]

theorem gathersWhole_append {s : Step σ (List Error)} {t : Step σ (List Error)} (first : GathersWhole s)
    (second : GathersWhole t) : GathersWhole (do return (← s) ++ (← t)) := by
  apply triple_bind first
  intro errors
  apply triple_bind (M := fun others _ => Regathers errors ∧ Regathers others)
  · intro st regathers
    have ended := second st trivial
    split at ended
    · exact ⟨regathers, ended⟩
    · exact ended
  · intro others
    exact triple_pure fun st both => regathers_append both.1 both.2

def orField : Field := ⟨"OR", .nestedList, none, some "OR"⟩

theorem compileInto_alternatives (os : List Operand) (location : Location) :
    compileInto f now (.mk "OR" os location) = (do
      Step.raise (← alternativesInto f now orField [.text "OR"] os)) := by
  have known : Field.named? "OR" = some orField := by decide
  rw [compileInto, known]
  rfl

section Compiling
variable (whole : f.RefusesWhole)
include whole

theorem appendAll_whole (tokens : List Token) : RaisesWhole (tokens.forM f.append) := by
  induction tokens with
  | nil => exact triple_pure fun _ => id
  | cons t tokens ih =>
    apply raisesWhole_bind _ fun _ => ih
    intro st _
    match same : f.append t st with
    | (.ok (), st') => trivial
    | (.error (.fault x), st') => trivial
    | (.error (.error e), st') => exact whole t st e st' same

theorem alternativesInto_whole {g : Field} {tag : List Token} {os : List Operand}
    (inner : ∀ q, .nested q ∈ os → RaisesWhole (compileInto f now q)) :
    GathersWhole (alternativesInto f now g tag os) := by
  induction os with
  | nil => exact triple_pure fun _ _ => .inl rfl
  | cons o os ih =>
    have later := ih fun q member => inner q (List.mem_cons_of_mem o member)
    cases o with
    | leaf l =>
      have lone : GathersWhole (pure [notNested g l] : Step σ (List Error)) :=
        triple_pure fun _ _ => .inr ⟨_, rfl, rfl, rfl⟩
      simpa [alternativesInto] using gathersWhole_append lone later
    | nested q =>
      have operand := inner q List.mem_cons_self
      have own : GathersWhole (Step.compiled do
          if !os.isEmpty then tag.forM f.append
          compileInto f now q) := by
        apply gathersWhole_compiled
        split
        · exact raisesWhole_bind (appendAll_whole whole tag) fun _ => operand
        · exact operand
      simpa [alternativesInto] using gathersWhole_append own later

theorem negatedInto_whole {g : Field} {tag : List Token} {os : List Operand}
    (inner : ∀ q, .nested q ∈ os → RaisesWhole (compileInto f now q)) :
    RaisesWhole (negatedInto f now g tag os) := by
  match os with
  | [.leaf l] => exact raisesWhole_outcome (F := fun _ => True) (failsWith_error trivial)
  | [.nested q] => exact raisesWhole_bind (appendAll_whole whole tag) fun _ => inner q List.mem_cons_self
  | [] => exact appendAll_whole whole tag
  | .leaf l :: o :: rest => exact appendAll_whole whole tag
  | .nested q :: o :: rest => exact appendAll_whole whole tag

/-- By induction on the precondition: what it fails with comes as it was raised. -/
theorem compileInto_whole (p : Precondition) : RaisesWhole (compileInto f now p) := by
  induction p using Precondition.induction with
  | step name os location inner =>
    rw [compileInto]
    split
    · exact raisesWhole_outcome (F := fun _ => True) (failsWith_error trivial)
    · rename_i g found
      split
      · exact raisesWhole_outcome (F := fun _ => True) (failsWith_error trivial)
      · dsimp only
        split
        · exact negatedInto_whole whole inner
        · apply triple_bind (M := fun errors _ => Regathers errors)
          · apply triple_weaken (alternativesInto_whole whole inner) (fun _ => id) (fun _ _ => id)
            exact fun _ _ => failsWhole_of_uncollected
          · exact fun errors st regathers => raisesWhole_raise regathers st trivial
        · have fails : FailsWith (fun _ => True) (compileField now g os).outcome :=
            compileField_failsWith (Or.inl trivial)
          exact raisesWhole_bind (appendAll_whole whole _) fun _ => raisesWhole_outcome fails

theorem lone_alternative (p : Precondition) (location : Location) :
    compileInto f now (.mk "OR" [.nested p] location) = compileInto f now p := by
  rw [compileInto_alternatives]
  have alone : RaisesWhole (compileInto f now p) := compileInto_whole whole p
  simpa [alternativesInto] using raise_compiled alone

theorem alternativesInto_regroup (front : List Operand) {back : List Operand} (nonempty : back ≠ [])
    (location : Location) :
    alternativesInto f now orField [.text "OR"] (front ++ [.nested (.mk "OR" back location)]) =
      alternativesInto f now orField [.text "OR"] (front ++ back) := by
  induction front with
  | nil =>
    have gathers : GathersWhole (alternativesInto f now orField [.text "OR"] back) :=
      alternativesInto_whole whole fun q _ => compileInto_whole whole q
    simpa [alternativesInto, compileInto_alternatives] using compiled_raise gathers
  | cons o front ih =>
    cases o with
    | leaf l => simp only [List.cons_append, alternativesInto, ih]
    | nested q => simp [alternativesInto, ih, nonempty]

end Compiling

def cramped : Family (List Token) :=
  { Family.idle (List Token) with
    append := fun t tokens =>
      if tokens.length < 2 then (.ok (), tokens ++ [t])
      else (.error (.error (.compile "no room" none)), tokens) }

theorem cramped_refusesWhole : cramped.RefusesWhole := by
  intro t tokens e tokens' refused _
  unfold cramped at refused
  dsimp only at refused
  split at refused
  · cases refused
  · cases refused
    rfl

end Sweep
end MailRules
