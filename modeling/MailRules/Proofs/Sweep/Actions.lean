import MailRules.Sweep.Script
import MailRules.Proofs.Sweep.Watch
import MailRules.Proofs.Sweep.Validation
import MailRules.Proofs.Search.Operands
/-!
The course of the actions of a rule: copies to the destinations that are texts, in the order in which they are
written, up to the first one that is refused; and if none is, one mark at the end. What is wrong with the actions
is told in the same order, up to the same point.
-/
namespace MailRules.Sweep
open MailRules.Search MailRules.Calendar MailRules.Sweep.Step

abbrev Course : Type := List Event → List Error → Prop

def asked (q : Request) (refusal : Option Error) : Event := ⟨q, refusal.map .error⟩

def copies (leaves : List Leaf) : List Event :=
  (leaves.filter Leaf.isScalar).map fun l => asked (.move l.text) none

def allCopies (actions : List Action) : List Event :=
  (actions.filter fun a => a.kind = moveKind).flatMap fun a => copies a.arguments

/-- A refused copy is the last request. Without one, there is a mark if an action copies. -/
inductive ActionsCourse (actions : List Action) : Course
  | refused {front back : List Action} {a : Action} {done rest : List Leaf} {l : Leaf}
      (split : actions = front ++ a :: back) (kind : a.kind = moveKind)
      (arguments : a.arguments = done ++ l :: rest) (scalar : l.isScalar = true) (e : Error) :
      ActionsCourse actions (allCopies front ++ copies done ++ [asked (.move l.text) (some e)])
        (front.flatMap actionErrors ++ done.flatMap destinationErrors ++ e.flat)
  | unmarked (none : ∀ a ∈ actions, a.kind ≠ moveKind) :
      ActionsCourse actions [] (actions.flatMap actionErrors)
  | marked (some : ∃ a ∈ actions, a.kind = moveKind) (refusal : Option Error) :
      ActionsCourse actions (allCopies actions ++ [asked .mark refusal])
        (actions.flatMap actionErrors ++ Error.collect refusal.toList)

variable {σ : Type} {f : Family σ} {C : Error → Prop}

def Family.Refuses (f : Family σ) (q : Request) (C : Error → Prop) : Prop :=
  ∀ st failure, (f.answer q st).1 = .error failure → ∃ e, failure = .error e ∧ C e

structure Family.Acts (f : Family σ) (C : Error → Prop) : Prop where
  moves : ∀ destination, f.Refuses (.move destination) C
  marks : f.Refuses .mark C
  nonempty : ∀ e, C e → e.flat ≠ []

theorem triple_asked {q : Request} (refuses : f.Refuses q C) (base : List Event) :
    Triple (fun w => w.events = base) (watch f q).attempt
      (fun refusal w => w.events = base ++ [asked q refusal] ∧ ∀ e, refusal = some e → C e)
      fun _ _ => False := by
  apply triple_attempt
  apply triple_watch
  · rintro st events st' rfl _
    exact ⟨rfl, by simp⟩
  · rintro st events failure st' rfl failed
    obtain ⟨e, rfl, kind⟩ := refuses st failure (by rw [failed])
    refine ⟨rfl, ?_⟩
    rintro _ ⟨⟩
    exact kind

theorem triple_asked_collected {q : Request} (refuses : f.Refuses q C) (base : List Event) :
    Triple (fun w => w.events = base) (watch f q).collected
      (fun errors w => ∃ refusal : Option Error, w.events = base ++ [asked q refusal] ∧
        errors = Error.collect refusal.toList ∧ ∀ e, refusal = some e → C e)
      fun _ _ => False := by
  apply triple_bind (triple_asked refuses base)
  intro refusal
  cases refusal with
  | none => exact triple_pure fun w told => ⟨none, told.1, rfl, told.2⟩
  | some e => exact triple_pure fun w told => ⟨some e, told.1, by simp [Error.collect], told.2⟩

theorem Script.answer_fails {s : Script}
    (refuses : ∀ calls call failure, s calls call = some failure → ∃ e, failure = .error e ∧ C e) (c : Call)
    (t : Trace) (failure : Failure) (failed : (s.answer c t).1 = .error failure) :
    ∃ e, failure = .error e ∧ C e := by
  unfold Script.answer at failed
  cases said : s t.calls c with
  | none => simp [said] at failed
  | some other =>
    rw [said] at failed
    cases failed
    exact refuses _ _ _ said

/-! Copies -/

@[simp] theorem copies_nil : copies [] = [] := rfl

theorem copies_cons (l : Leaf) (leaves : List Leaf) : copies (l :: leaves) = copies [l] ++ copies leaves := by
  by_cases scalar : l.isScalar = true <;> simp [copies, scalar]

inductive Copying (C : Error → Prop) (base : List Event) (errors : List Error) (leaves : List Leaf) :
    Progress → Watched σ → Prop
  | finished {w : Watched σ} (same : w.events = base ++ copies leaves) :
      Copying C base errors leaves ⟨errors ++ leaves.flatMap destinationErrors, true, false⟩ w
  | refused {w : Watched σ} {done rest : List Leaf} {l : Leaf} {e : Error}
      (split : leaves = done ++ l :: rest) (scalar : l.isScalar = true) (refusal : C e)
      (same : w.events = base ++ copies done ++ [asked (.move l.text) (some e)]) :
      Copying C base errors leaves ⟨errors ++ done.flatMap destinationErrors ++ e.flat, false, true⟩ w

theorem Copying.cons {base : List Event} {errors : List Error} {leaves : List Leaf} {l : Leaf}
    {progress : Progress} {w : Watched σ}
    (copying : Copying C (base ++ copies [l]) (errors ++ destinationErrors l) leaves progress w) :
    Copying C base errors (l :: leaves) progress w := by
  cases copying with
  | finished same =>
    have whole : Copying C base errors (l :: leaves) _ w :=
      .finished (by rw [same, copies_cons l leaves, List.append_assoc])
    simpa using whole
  | @refused _ done rest l' e split scalar refusal same =>
    have split : l :: leaves = (l :: done) ++ l' :: rest := by rw [split, List.cons_append]
    have whole : Copying C base errors (l :: leaves) _ w :=
      .refused split scalar refusal (by rw [same, copies_cons l done, List.append_assoc base])
    simpa using whole

theorem copyEach_copying (acts : f.Acts C) (leaves : List Leaf) (base : List Event) (errors : List Error) :
    Triple (fun w => w.events = base) (copyEach f.watched errors leaves) (Copying C base errors leaves)
      fun _ _ => False := by
  induction leaves generalizing base errors with
  | nil =>
    apply triple_pure
    rintro w rfl
    have whole : Copying C w.events errors [] _ w := .finished (by simp)
    simpa using whole
  | cons l leaves ih =>
    by_cases scalar : l.isScalar = true
    · rw [copyEach, stringText_leaf moveKind l scalar]
      apply triple_bind (triple_asked (acts.moves l.text) base)
      intro refusal
      cases refusal with
      | none =>
        have rest := ih (base ++ copies [l]) (errors ++ destinationErrors l)
        simp only [destinationErrors, scalar, if_true, List.append_nil] at rest
        apply triple_weaken rest
        · rintro w ⟨same, _⟩
          simpa [copies, scalar] using same
        · intro progress w copying
          apply Copying.cons
          simpa [destinationErrors, scalar] using copying
        · exact fun _ _ => id
      | some e =>
        apply triple_pure
        rintro w ⟨same, refusal⟩
        have nonempty : (errors ++ e.flat).isEmpty = false := by simp [acts.nonempty e (refusal e rfl)]
        have split : l :: leaves = [] ++ l :: leaves := rfl
        have whole : Copying C base errors (l :: leaves) _ w :=
          .refused split scalar (refusal e rfl) (by simpa using same)
        simpa only [nonempty, List.flatMap_nil, List.append_nil, Bool.not_false] using whole
    · rw [copyEach, stringText_collection moveKind l scalar]
      have rest := ih (base ++ copies [l]) (errors ++ destinationErrors l)
      apply triple_weaken (R := fun w => w.events = base ++ copies [l]) _ _
        (fun _ _ => Copying.cons) (fun _ _ => id)
      · simpa [destinationErrors, scalar, Error.flat] using rest
      · intro w same
        simpa [copies, scalar] using same

/-! Actions -/

theorem allCopies_cons (a : Action) (actions : List Action) :
    allCopies (a :: actions) = allCopies [a] ++ allCopies actions := by
  by_cases kind : a.kind = moveKind <;> simp [allCopies, kind]

inductive Performing (C : Error → Prop) (base : List Event) (before : Progress) (actions : List Action) :
    Progress → Watched σ → Prop
  | finished {w : Watched σ} {moved : Bool}
      (copied : moved = true ↔ before.moved = true ∨ ∃ a ∈ actions, a.kind = moveKind)
      (same : w.events = base ++ allCopies actions) :
      Performing C base before actions ⟨before.errors ++ actions.flatMap actionErrors, moved, false⟩ w
  | refused {w : Watched σ} {front back : List Action} {a : Action} {done rest : List Leaf} {l : Leaf}
      {e : Error} (split : actions = front ++ a :: back) (kind : a.kind = moveKind)
      (arguments : a.arguments = done ++ l :: rest) (scalar : l.isScalar = true) (refusal : C e)
      (same : w.events = base ++ (allCopies front ++ copies done ++ [asked (.move l.text) (some e)])) :
      Performing C base before actions ⟨before.errors ++
        (front.flatMap actionErrors ++ done.flatMap destinationErrors ++ e.flat), false, true⟩ w

theorem Performing.cons {base : List Event} {before after : Progress} {actions : List Action}
    {a : Action} {progress : Progress} {w : Watched σ}
    (errors : after.errors = before.errors ++ actionErrors a)
    (moved : after.moved = true ↔ before.moved = true ∨ a.kind = moveKind)
    (performing : Performing C (base ++ allCopies [a]) after actions progress w) :
    Performing C base before (a :: actions) progress w := by
  cases performing with
  | @finished _ found copied same =>
    have whole : Performing C base before (a :: actions) ⟨_, found, false⟩ w :=
      .finished (by simp [copied, moved, or_assoc])
        (by rw [same, allCopies_cons a actions, List.append_assoc])
    simpa [errors] using whole
  | @refused _ front back b done rest l e split kind arguments scalar refusal same =>
    have split : a :: actions = (a :: front) ++ b :: back := by rw [split, List.cons_append]
    have whole : Performing C base before (a :: actions) _ w :=
      .refused split kind arguments scalar refusal (by rw [same, allCopies_cons a front]; simp)
    simpa [errors] using whole

theorem perform_performing (acts : f.Acts C) (actions : List Action) (base : List Event) (before : Progress)
    (going : before.stopped = false) :
    Triple (fun w => w.events = base) (perform f.watched before actions) (Performing C base before actions)
      fun _ _ => False := by
  induction actions generalizing base before with
  | nil =>
    apply triple_pure
    rintro w rfl
    have whole : Performing C w.events before [] ⟨_, before.moved, false⟩ w :=
      .finished (by simp) (by simp [allCopies])
    simpa [← going] using whole
  | cons a actions ih =>
    rw [perform]
    split
    · rename_i kind
      apply triple_bind (copyEach_copying acts a.arguments base before.errors)
      rintro progress w copying
      cases copying with
      | finished same =>
        have rest := ih (base ++ allCopies [a])
          ⟨before.errors ++ a.arguments.flatMap destinationErrors, true, false⟩ rfl
        apply triple_weaken rest (fun _ => id) _ (fun _ _ => id) w
        · simpa [allCopies, kind] using same
        · intro progress w performing
          exact performing.cons (by simp [actionErrors, kind]) (by simp [kind])
      | @refused _ done rest l e split scalar refusal same =>
        have first : a :: actions = [] ++ a :: actions := rfl
        have whole : Performing C base before (a :: actions) _ w :=
          .refused first kind split scalar refusal (by simpa [allCopies] using same)
        simpa using whole
    · rename_i kind
      have rest := ih (base ++ allCopies [a])
        { before with errors := before.errors ++ actionErrors a } going
      simp only [actionErrors, if_neg kind] at rest
      apply triple_weaken rest _ _ (fun _ _ => id)
      · intro w same
        simpa [allCopies, kind] using same
      · intro progress w performing
        exact performing.cons (by simp [actionErrors, kind]) (by simp [kind])

/-- Errors that the actions themselves have, and those of a refusal at their end, if there is one. -/
inductive Left (C : Error → Prop) : List Error → Prop
  | own {errors : List Error} (proper : ∀ e ∈ errors, e.Proper) : Left C errors
  | refused {errors : List Error} (proper : ∀ e ∈ errors, e.Proper) {e : Error} (refusal : C e) :
      Left C (errors ++ e.flat)

def Executed (C : Error → Prop) (base : List Event) (actions : List Action) (errors : List Error)
    (w : Watched σ) : Prop :=
  Left C errors ∧ ∃ events, w.events = base ++ events ∧ ActionsCourse actions events errors

theorem raise_executed {base : List Event} {actions : List Action} (errors : List Error) :
    Triple (Executed C base actions errors) (raise errors : Step (Watched σ) Unit)
      (fun _ => Executed C base actions [])
      fun failure w => ∃ errors, raiseErrors errors = .error failure ∧ Executed C base actions errors w := by
  apply triple_raise
  · rintro w executed rfl
    exact executed
  · exact fun w failure executed failed => ⟨errors, failed, executed⟩

theorem errors_proper {α : Type} {items : List α} {told : α → List Error}
    (proper : ∀ a, ∀ e ∈ told a, e.Proper) : ∀ e ∈ items.flatMap told, e.Proper :=
  List.forall_mem_flatMap.mpr fun a _ => proper a

theorem execute_executed (acts : f.Acts C) (actions : List Action) (base : List Event) :
    Triple (fun w => w.events = base) (execute f.watched actions) (fun _ => Executed C base actions [])
      fun failure w => ∃ errors, raiseErrors errors = .error failure ∧ Executed C base actions errors w := by
  apply triple_bind (triple_weaken (perform_performing acts actions base {} rfl) (fun _ => id)
    (fun _ _ => id) fun _ _ => False.elim)
  rintro progress w performing
  have own : ∀ e ∈ actions.flatMap actionErrors, e.Proper := errors_proper actionErrors_proper
  cases performing with
  | @finished _ moved copied same =>
    cases moved with
    | true =>
      have marks : ∃ a ∈ actions, a.kind = moveKind := by simpa using copied
      have marking : Triple (fun w => w.events = base ++ allCopies actions)
          (do
            let marking ← (watch f .mark).collected
            raise (actions.flatMap actionErrors ++ marking))
          (fun _ => Executed C base actions [])
          fun failure w => ∃ errors, raiseErrors errors = .error failure ∧
            Executed C base actions errors w := by
        apply triple_bind (M := fun marking => Executed C base actions
          (actions.flatMap actionErrors ++ marking)) _ fun marking => raise_executed _
        apply triple_weaken (triple_asked_collected acts.marks _) (fun _ => id) _ fun _ _ => False.elim
        rintro _ w ⟨refusal, same, rfl, refused⟩
        have left : Left C (actions.flatMap actionErrors ++ Error.collect refusal.toList) := by
          cases refusal with
          | none => exact .own (by simpa [Error.collect] using own)
          | some e => simpa [Error.collect] using Left.refused own (refused e rfl)
        exact ⟨left, _, by rw [same, List.append_assoc], .marked marks refusal⟩
      exact marking w same
    | false =>
      have none : ∀ a ∈ actions, a.kind ≠ moveKind := by simpa using copied
      have quiet : allCopies actions = [] := by simpa [allCopies] using fun a member kind =>
        (none a member kind).elim
      have executed : Executed C base actions (actions.flatMap actionErrors) w :=
        ⟨.own own, [], by rw [same, quiet], .unmarked none⟩
      simpa using raise_executed _ w executed
  | @refused _ front back a done rest l e split kind arguments scalar refusal same =>
    have before : ∀ x ∈ front.flatMap actionErrors ++ done.flatMap destinationErrors, x.Proper := by
      intro x member
      rcases List.mem_append.mp member with early | late
      · exact errors_proper actionErrors_proper x early
      · exact errors_proper destinationErrors_proper x late
    have executed : Executed C base actions
        (front.flatMap actionErrors ++ done.flatMap destinationErrors ++ e.flat) w :=
      ⟨.refused before refusal, _, same, .refused split kind arguments scalar e⟩
    simpa using raise_executed _ w executed

/-! How errors are raised -/

/-- The error alone. A fault that was put among errors is a fault again. -/
def alone : Error → Failure
  | .fault x => .fault x
  | e => .error e

/-- Nothing for no error, a lone error as itself, and several as one aggregate. -/
def raisedTogether : List Error → Except Failure Unit
  | [] => .ok ()
  | [e] => .error (alone e)
  | errors => .error (.error (.aggregate errors))

theorem raiseErrors_eq_together (errors : List Error) : raiseErrors errors = raisedTogether errors := by
  match errors with
  | [] => rfl
  | [e] => cases e <;> rfl
  | _ :: _ :: _ => rfl

/-- The error is one, or an aggregate of at least one that holds no other aggregate. -/
structure Flattened (e : Error) : Prop where
  nonempty : e.flat ≠ []
  single : ∀ x ∈ e.flat, x.Single

theorem flattened_of_single {e : Error} (single : e.Single) : Flattened e := by
  have alone := Error.flat_of_single single
  exact ⟨by simp [alone], by simpa [alone] using single⟩

theorem Left.single {errors : List Error} (left : Left Flattened errors) : ∀ e ∈ errors, e.Single := by
  intro e member
  cases left with
  | own proper => exact Error.single_of_proper (proper e member)
  | refused proper refusal =>
    rcases List.mem_append.mp member with own | told
    · exact Error.single_of_proper (proper e own)
    · exact refusal.single e told

/-- The actions of a rule run their course whatever the copies and the mark are answered, and end with the errors
that it leaves: none, the lone one, or a flat aggregate. The requests noted are those that were made. -/
theorem execute_runs_course (f : Family σ) (moves : ∀ destination, f.Refuses (.move destination) Flattened)
    (marks : f.Refuses .mark Flattened) (actions : List Action) (st : σ) (base : List Event) :
    ∃ events errors st', ActionsCourse actions events errors ∧ (∀ e ∈ errors, e.Single) ∧
      execute f.watched actions ⟨st, base⟩ = (raisedTogether errors, ⟨st', base ++ events⟩) ∧
      execute f actions st = (raisedTogether errors, st') := by
  have acts : f.Acts Flattened := ⟨moves, marks, fun _ flattened => flattened.nonempty⟩
  have shown : shadow.Related (execute f.watched actions) (execute f actions) :=
    shadow.execute (fun destination => shadow_watch f (.move destination)) (shadow_watch f .mark) actions
  have unwatched := shown ⟨st, base⟩
  have ended := execute_executed acts actions base ⟨st, base⟩ rfl
  match run : execute f.watched actions ⟨st, base⟩ with
  | (.ok (), w) =>
    rw [run] at ended unwatched
    obtain ⟨left, events, same, course⟩ := ended
    exact ⟨events, [], w.state, course, left.single, by rw [← same]; rfl, unwatched⟩
  | (.error failure, w) =>
    rw [run] at ended unwatched
    obtain ⟨errors, raised, left, events, same, course⟩ := ended
    rw [raiseErrors_eq_together] at raised
    exact ⟨events, errors, w.state, course, left.single, by rw [raised, ← same], by rw [raised]; exact unwatched⟩

def stubborn : Script := fun calls call =>
  if call = .move "B" ∧ call ∈ calls then
    some (.error (.aggregate [.protocol "copy" "refused", .protocol "copy" "again"]))
  else none

def destination (scalar : Bool) (s : String) : Leaf := ⟨s, .text s, scalar, ⟨"c", 9, 3⟩⟩

def tangled : List Action :=
  [⟨"purge", [], ⟨"c", 7, 3⟩⟩,
    ⟨moveKind, [destination true "B", destination false "[]", destination true "A"], ⟨"c", 8, 3⟩⟩,
    ⟨moveKind, [destination true "B", destination true "C"], ⟨"c", 9, 3⟩⟩, ⟨"keep", [], ⟨"c", 10, 3⟩⟩]

def tangledEvents : List Event :=
  [asked (.move "B") none, asked (.move "A") none,
    asked (.move "B") (some (.aggregate [.protocol "copy" "refused", .protocol "copy" "again"]))]

def tangledErrors : List Error :=
  [.unknownAction "purge" (some ⟨"c", 7, 3⟩),
    .valueDecode moveKind "string" "expected a scalar, got '[]'" (some ⟨"c", 9, 3⟩),
    .protocol "copy" "refused", .protocol "copy" "again"]

theorem tangled_runs_course : ActionsCourse tangled tangledEvents tangledErrors ∧
    execute stubborn.family tangled {} =
      (.error (.error (.aggregate tangledErrors)), { calls := [.move "B", .move "A", .move "B"] }) := by
  have refuses : ∀ calls call failure, stubborn calls call = some failure →
      ∃ e, failure = .error e ∧ Flattened e := by
    intro calls call failure said
    unfold stubborn at said
    split at said
    · cases said
      exact ⟨_, rfl, by simp [Error.flat], by simp [Error.flat, Error.Single]⟩
    · cases said
  obtain ⟨events, errors, st, course, single, run, plain⟩ := execute_runs_course stubborn.family
    (fun _ => Script.answer_fails refuses _) (Script.answer_fails refuses .mark) tangled {} []
  have same : execute stubborn.family.watched tangled ⟨{}, []⟩ = (.error (.error (.aggregate tangledErrors)),
      ⟨{ calls := [.move "B", .move "A", .move "B"] }, tangledEvents⟩) := rfl
  obtain ⟨raised, left⟩ := Prod.mk.inj (same.symm.trans run)
  obtain ⟨rfl, rfl⟩ := Watched.mk.inj left
  refine ⟨?_, by rw [plain, ← raised]⟩
  rcases errors with _ | ⟨e, _ | ⟨e', es⟩⟩
  · cases raised
  · have one := single e List.mem_cons_self
    cases e <;> first | exact one.elim | cases raised
  · cases raised
    exact course

end MailRules.Sweep
