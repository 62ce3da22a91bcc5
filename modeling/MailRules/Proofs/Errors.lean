import MailRules.Error
/-!
How errors are passed on: a lone error as itself, several as an aggregate that holds no other. An error
that is passed on so stands for at least one, and for exactly those that were met.
-/
namespace MailRules.Error

def Single : Error → Prop
  | .aggregate _ => False
  | _ => True

/-- The error is one, and not a fault that was put among errors. -/
def Proper : Error → Prop
  | .aggregate _ | .fault _ => False
  | _ => True

def OfPrecondition : Error → Prop
  | .unknownField .. | .arityMismatch .. | .valueDecode .. => True
  | _ => False

/-- The error is one, or an aggregate of several that are one each. -/
def Reported : Error → Prop
  | .aggregate members => 2 ≤ members.length ∧ ∀ e ∈ members, e.Single
  | _ => True

@[simp] theorem flat_of_single {e : Error} (single : e.Single) : e.flat = [e] := by
  cases e <;> first | rfl | exact single.elim

theorem single_of_proper {e : Error} (proper : e.Proper) : e.Single := by
  cases e <;> trivial

theorem proper_of_precondition {e : Error} (of : e.OfPrecondition) : e.Proper := by
  cases e <;> trivial

theorem reported_of_single {e : Error} (single : e.Single) : e.Reported := by
  cases e <;> trivial

theorem flat_single {e x : Error} (reported : e.Reported) (member : x ∈ e.flat) : x.Single := by
  cases e with
  | aggregate members => exact reported.2 x member
  | _ =>
    have same := List.mem_singleton.mp member
    subst same
    trivial

theorem flat_nonempty {e : Error} (reported : e.Reported) : e.flat ≠ [] := by
  cases e with
  | aggregate members =>
    intro empty
    have long := reported.1
    have none : members = [] := empty
    simp [none] at long
  | _ => exact List.cons_ne_nil _ _

theorem messages_eq (es : List Error) : messages es = es.map message := by
  induction es with
  | nil => rfl
  | cons e es ih => simp [messages, ih]

mutual

def parts : Error → List Error
  | .aggregate members => allParts members
  | e => [e]

def allParts : List Error → List Error
  | [] => []
  | e :: es => e.parts ++ allParts es

end

theorem allParts_eq (es : List Error) : allParts es = es.flatMap parts := by
  induction es with
  | nil => rfl
  | cons e es ih => simp [allParts, ih]

theorem parts_flat (e : Error) : e.flat.flatMap parts = e.parts := by
  cases e with
  | aggregate members => exact (allParts_eq members).symm
  | _ => simp [flat]

theorem ofList?_reported {es : List Error} {e : Error} (single : ∀ x ∈ es, x.Single)
    (passed : ofList? es = some e) : e.Reported ∧ e.flat = es := by
  match es with
  | [] => cases passed
  | [x] =>
    cases passed
    have one := single e (List.mem_singleton_self e)
    exact ⟨reported_of_single one, flat_of_single one⟩
  | x :: y :: rest =>
    cases passed
    refine ⟨⟨?_, single⟩, rfl⟩
    simp

end MailRules.Error
namespace MailRules

def Failure.Reported : Failure → Prop
  | .error e => e.Reported
  | .fault _ => True

/-- A failure is an error that a precondition fails with, or one of the faults `F`. -/
def Failure.OfPrecondition (F : Fault → Prop) : Failure → Prop
  | .error e => e.Reported ∧ ∀ x ∈ e.flat, x.OfPrecondition
  | .fault x => F x

theorem Failure.reported_of_precondition {F : Fault → Prop} {failure : Failure}
    (of : failure.OfPrecondition F) : failure.Reported := by
  cases failure with
  | error e => exact of.1
  | fault f => trivial

theorem Failure.of_single {F : Fault → Prop} {e : Error} (of : e.OfPrecondition) :
    (Failure.error e).OfPrecondition F := by
  have single := Error.single_of_proper (Error.proper_of_precondition of)
  refine ⟨Error.reported_of_single single, ?_⟩
  intro x member
  rw [Error.flat_of_single single] at member
  rw [List.mem_singleton.mp member]
  exact of

theorem Failure.isCompilation_of_precondition {F : Fault → Prop} {e : Error}
    (of : (Failure.error e).OfPrecondition F) : e.isCompilation = true := by
  cases e with
  | aggregate members => rfl
  | unknownField field location => rfl
  | arityMismatch field expected actual location => rfl
  | valueDecode field kind detail location => rfl
  | compile text location => rfl
  | _ => exact (of.2 _ (List.mem_singleton_self _)).elim

def Failure.asError : Failure → Error
  | .error e => e
  | .fault f => .fault f

@[simp] theorem raiseErrors_nil : raiseErrors [] = .ok () := rfl

/-- Single errors are raised as one error that stands for them, except for a fault alone. -/
theorem raiseErrors_error {es : List Error} {failure : Failure} (single : ∀ x ∈ es, x.Single)
    (failed : raiseErrors es = .error failure) :
    (∃ e, failure = .error e ∧ e.Reported ∧ e.flat = es) ∨
      ∃ f, failure = .fault f ∧ es = [.fault f] := by
  unfold raiseErrors at failed
  split at failed
  · cases failed
  · rename_i f passed
    cases failed
    exact Or.inr ⟨f, rfl, (Error.ofList?_reported single passed).2.symm⟩
  · rename_i e _ passed
    cases failed
    exact Or.inl ⟨e, rfl, Error.ofList?_reported single passed⟩

@[simp] theorem raiseErrors_ok_iff (es : List Error) : raiseErrors es = .ok () ↔ es = [] := by
  constructor
  · intro raised
    unfold raiseErrors at raised
    split at raised
    · rename_i none
      match es with
      | [] => rfl
      | [x] => cases none
      | x :: y :: rest => cases none
    · cases raised
    · cases raised
  · rintro rfl
    rfl

theorem raiseErrors_parts {es : List Error} {failure : Failure}
    (failed : raiseErrors es = .error failure) : failure.asError.parts = es.flatMap Error.parts := by
  cases es with
  | nil => cases failed
  | cons x rest =>
    cases rest with
    | nil => cases x <;> cases failed <;> simp [Failure.asError]
    | cons y rest =>
      cases failed
      exact Error.allParts_eq _

theorem raiseErrors_reported {es : List Error} {failure : Failure}
    (single : ∀ x ∈ es, x.Single) (failed : raiseErrors es = .error failure) :
    failure.Reported := by
  rcases raiseErrors_error single failed with ⟨e, rfl, reported, _⟩ | ⟨f, rfl, _⟩
  · exact reported
  · trivial

/-- Errors side by side that are raised as an error: each of them is one, and they are no lone fault. -/
structure Error.Raisable (es : List Error) : Prop where
  single : ∀ e ∈ es, e.Single
  noFault : ∀ f, es ≠ [.fault f]

theorem Error.raisable_of_proper {es : List Error} (proper : ∀ e ∈ es, e.Proper) :
    Error.Raisable es := by
  refine ⟨fun e member => single_of_proper (proper e member), ?_⟩
  rintro f rfl
  exact proper (.fault f) (List.mem_singleton_self _)

theorem raiseErrors_raisable {es : List Error} {failure : Failure} (raisable : Error.Raisable es)
    (failed : raiseErrors es = .error failure) : ∃ e, failure = .error e ∧ e.Reported ∧ e.flat = es := by
  rcases raiseErrors_error raisable.single failed with raised | ⟨f, _, lone⟩
  · exact raised
  · exact (raisable.noFault f lone).elim

theorem raiseErrors_of_precondition {F : Fault → Prop} {es : List Error} {failure : Failure}
    (of : ∀ x ∈ es, x.OfPrecondition) (failed : raiseErrors es = .error failure) :
    failure.OfPrecondition F := by
  have proper : ∀ x ∈ es, x.Proper := fun x member => Error.proper_of_precondition (of x member)
  obtain ⟨e, rfl, reported, flat⟩ := raiseErrors_raisable (Error.raisable_of_proper proper) failed
  exact ⟨reported, flat ▸ of⟩

end MailRules
