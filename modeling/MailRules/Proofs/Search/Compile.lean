import MailRules.Search.Compile
import MailRules.Proofs.Errors
/-!
What an accepted precondition has been compiled from. Errors are never lost on the way: an operand that
fails leaves at least one, so where a precondition succeeds, each of its operands did.
-/
namespace MailRules

theorem Precondition.induction {P : Precondition → Prop}
    (step : ∀ field operands location, (∀ q, .nested q ∈ operands → P q) →
      P (.mk field operands location)) (p : Precondition) : P p := by
  induction p using Precondition.rec
    (motive_2 := fun o => ∀ q, o = .nested q → P q)
    (motive_3 := fun os => ∀ q, .nested q ∈ os → P q) with
  | mk field operands location ih => exact step field operands location ih
  | leaf l =>
    rename_i same
    cases same
  | nested p ih =>
    rename_i same
    cases same
    exact ih
  | nil =>
    rename_i member
    cases member
  | cons o os first later =>
    rename_i q member
    rcases List.mem_cons.mp member with same | member
    · exact first q same.symm
    · exact later q member

mutual

def Precondition.nodes : Precondition → List Precondition
  | .mk field operands location => .mk field operands location :: Operand.nodes operands

def Operand.nodes : List Operand → List Precondition
  | [] => []
  | .leaf _ :: rest => Operand.nodes rest
  | .nested p :: rest => p.nodes ++ Operand.nodes rest

end

theorem Operand.mem_nodes {n : Precondition} {operands : List Operand} :
    n ∈ Operand.nodes operands ↔ ∃ q, .nested q ∈ operands ∧ n ∈ q.nodes := by
  induction operands with
  | nil => simp [Operand.nodes]
  | cons o operands ih =>
    cases o with
    | leaf l => simp [Operand.nodes, ih]
    | nested p => simp [Operand.nodes, ih, or_and_right, exists_or]

theorem Precondition.nodes_trans {n m : Precondition} (p : Precondition) (inside : n ∈ m.nodes)
    (around : m ∈ p.nodes) : n ∈ p.nodes := by
  induction p using Precondition.induction with
  | step name operands location ih =>
    rw [Precondition.nodes] at around ⊢
    rcases List.mem_cons.mp around with rfl | deeper
    · rwa [Precondition.nodes] at inside
    · obtain ⟨q, member, within⟩ := Operand.mem_nodes.mp deeper
      exact List.mem_cons_of_mem _ (Operand.mem_nodes.mpr ⟨q, member, ih q member within⟩)

theorem Precondition.self_mem_nodes (p : Precondition) : p ∈ p.nodes := by
  cases p
  simp [Precondition.nodes]

theorem Precondition.operand_mem_nodes {name : String} {operands : List Operand} {location : Location}
    {q : Precondition} (member : .nested q ∈ operands) : q ∈ (Precondition.mk name operands location).nodes := by
  rw [Precondition.nodes]
  exact List.mem_cons_of_mem _ (Operand.mem_nodes.mpr ⟨q, member, self_mem_nodes q⟩)

def Leaf.Writable (l : Leaf) : Prop := ∀ i, l.datum = .int i → Number.writable i = true

/-- Each integer among the arguments, at any depth, can be written. -/
def Precondition.Writable (p : Precondition) : Prop :=
  ∀ n ∈ p.nodes, ∀ l, .leaf l ∈ n.operands → l.Writable

end MailRules
namespace MailRules.Search
open MailRules.Calendar MailRules.Text

/-! The failures of arguments -/

/-- Beside errors of a precondition, this fails only with the faults `F`. -/
def FailsWith {α : Type} (F : Fault → Prop) (r : Except Failure α) : Prop :=
  ∀ failure, r = .error failure → failure.OfPrecondition F

section Arguments
variable {α β : Type} {F : Fault → Prop}

theorem failsWith_ok (a : α) : FailsWith F (.ok a : Except Failure α) := by
  rintro failure ⟨⟩

theorem failsWith_error {e : Error} (of : e.OfPrecondition) :
    FailsWith F (.error (.error e) : Except Failure α) := by
  rintro failure ⟨⟩
  exact Failure.of_single of

theorem failsWith_bind {r : Except Failure α} {next : α → Except Failure β}
    (first : FailsWith F r) (later : ∀ a, r = .ok a → FailsWith F (next a)) :
    FailsWith F (r >>= next) := by
  intro failure failed
  cases r with
  | ok a => exact later a rfl failure failed
  | error other =>
    cases failed
    exact first failure rfl

theorem scalarOf_ok {field kind : String} {o : Operand} {l : Leaf}
    (read : scalarOf field kind o = .ok l) : o = .leaf l := by
  unfold scalarOf at read
  split at read
  · cases read
  · split at read
    · cases read
      rfl
    · cases read

theorem scalarOf_failsWith (field kind : String) (o : Operand) :
    FailsWith F (scalarOf field kind o) := by
  unfold scalarOf
  split
  · exact failsWith_error trivial
  · split
    · exact failsWith_ok _
    · exact failsWith_error trivial

theorem stringText_failsWith (field : String) (o : Operand) : FailsWith F (stringText field o) :=
  failsWith_bind (scalarOf_failsWith _ _ o) fun _ _ => failsWith_ok _

theorem uint32Text_failsWith (field : String) {o : Operand}
    (written : F .integerTooLong ∨ ∀ l, o = .leaf l → l.Writable) :
    FailsWith F (uint32Text field o) := by
  apply failsWith_bind (scalarOf_failsWith _ _ o)
  intro l scalar
  split
  · rename_i i isInt
    split
    · exact failsWith_ok _
    · split
      · exact failsWith_error trivial
      · rename_i unwritable
        rintro failure ⟨⟩
        rcases written with fault | writable
        · exact fault
        · exact (unwritable (writable l (scalarOf_ok scalar) i isInt)).elim
  · exact failsWith_error trivial

theorem dateText_failsWith (field : String) (o : Operand) : FailsWith F (dateText field o) := by
  apply failsWith_bind (scalarOf_failsWith _ _ o)
  intro l _
  split
  · exact failsWith_ok _
  · exact failsWith_error trivial

theorem durationText_failsWith (now : Moment) (field : String) (o : Operand) :
    FailsWith F (durationText now field o) := by
  apply failsWith_bind (scalarOf_failsWith _ _ o)
  intro l _
  split
  · exact failsWith_error trivial
  · split
    · exact failsWith_ok _
    · exact failsWith_error trivial

theorem reader_failsWith (now : Moment) (f : Field) {o : Operand}
    (written : F .integerTooLong ∨ ∀ l, o = .leaf l → l.Writable) : FailsWith F (reader now f o) := by
  unfold reader
  cases f.kind with
  | uint32 | uint32List => exact uint32Text_failsWith _ written
  | date => exact dateText_failsWith _ o
  | duration => exact durationText_failsWith now _ o
  | _ => exact stringText_failsWith _ o

theorem argument_failsWith (now : Moment) (f : Field) (o : Operand) :
    FailsWith (fun _ => True) (reader now f o) :=
  reader_failsWith now f (Or.inl trivial)

theorem readArguments_errors {read : Operand → Except Failure String} {os : List Operand}
    {texts : List String} {errors : List Error} (fails : ∀ o ∈ os, FailsWith F (read o))
    (found : readArguments read os = .ok (texts, errors)) : ∀ e ∈ errors, e.OfPrecondition := by
  induction os generalizing texts errors with
  | nil =>
    cases found
    simp
  | cons o os ih =>
    have later := fun x member => fails x (List.mem_cons_of_mem o member)
    cases one : read o with
    | ok s =>
      cases rest : readArguments read os with
      | error f => simp [readArguments, one, rest, Except.map] at found
      | ok r =>
        simp only [readArguments, one, rest, Except.map, Except.ok.injEq, Prod.mk.injEq] at found
        obtain ⟨_, rfl⟩ := found
        exact ih later rest
    | error failure =>
      cases failure with
      | fault f => simp [readArguments, one] at found
      | error e =>
        cases rest : readArguments read os with
        | error f => simp [readArguments, one, rest, Except.map] at found
        | ok r =>
          have of := fails o List.mem_cons_self _ one
          simp only [readArguments, one, rest, Except.map, Except.ok.injEq, Prod.mk.injEq] at found
          obtain ⟨_, rfl⟩ := found
          intro x member
          exact (List.mem_append.mp member).elim (of.2 x) (ih later rest x)

theorem readArguments_fault {read : Operand → Except Failure String} {os : List Operand} {x : Fault}
    (fails : ∀ o ∈ os, FailsWith F (read o)) (found : readArguments read os = .error x) : F x := by
  induction os with
  | nil => cases found
  | cons o os ih =>
    have mapped {g : List String × List Error → List String × List Error}
        (failed : (readArguments read os).map g = .error x) : F x := by
      cases rest : readArguments read os with
      | error f =>
        rw [rest] at failed
        cases failed
        exact ih (fun y member => fails y (List.mem_cons_of_mem o member)) rest
      | ok r =>
        rw [rest] at failed
        cases failed
    cases one : read o with
    | ok s =>
      rw [readArguments, one] at found
      exact mapped found
    | error failure =>
      rw [readArguments, one] at found
      cases failure with
      | fault f =>
        cases found
        exact fails o List.mem_cons_self _ one
      | error e => exact mapped found

theorem readArguments_all {read : Operand → Except Failure String} {os : List Operand}
    {texts : List String} (fails : ∀ o ∈ os, FailsWith F (read o))
    (found : readArguments read os = .ok (texts, [])) : os.map read = texts.map .ok := by
  induction os generalizing texts with
  | nil =>
    cases found
    rfl
  | cons o os ih =>
    have later := fun x member => fails x (List.mem_cons_of_mem o member)
    cases one : read o with
    | ok s =>
      cases rest : readArguments read os with
      | error f => simp [readArguments, one, rest, Except.map] at found
      | ok r =>
        simp only [readArguments, one, rest, Except.map, Except.ok.injEq, Prod.mk.injEq] at found
        obtain ⟨rfl, none⟩ := found
        have others : os.map read = r.1.map .ok := ih later (by rw [rest, ← none])
        simp [one, others]
    | error failure =>
      cases failure with
      | fault f => simp [readArguments, one] at found
      | error e =>
        cases rest : readArguments read os with
        | error f => simp [readArguments, one, rest, Except.map] at found
        | ok r =>
          have some := Error.flat_nonempty (fails o List.mem_cons_self _ one).1
          simp [readArguments, one, rest, Except.map, some] at found

end Arguments

/-! The failures of preconditions -/

section Preconditions
variable {F : Fault → Prop} {now : Moment} {f : Field} {os : List Operand}

theorem compileField_failsWith (written : F .integerTooLong ∨ ∀ l, .leaf l ∈ os → l.Writable) :
    FailsWith F (compileField now f os).outcome := by
  have reads : ∀ o ∈ os, FailsWith F (reader now f o) := by
    intro o member
    apply reader_failsWith
    apply written.imp_right
    rintro writable l rfl
    exact writable l member
  unfold compileField
  split
  · exact failsWith_ok _
  · split
    · rename_i fault found
      rintro failure ⟨⟩
      exact readArguments_fault reads found
    · rename_i texts errors found
      have of := readArguments_errors reads found
      split
      · rename_i other raised
        rintro failure ⟨⟩
        exact raiseErrors_of_precondition of raised
      · exact failsWith_ok _

theorem compileAlternatives_failsWith {tag : List Token} {errors : List Error}
    (inner : ∀ q, .nested q ∈ os → FailsWith F (compile now q).outcome)
    (of : ∀ e ∈ errors, e.OfPrecondition) :
    FailsWith F (compileAlternatives now f tag errors os).outcome := by
  induction os generalizing errors with
  | nil => exact fun failure failed => raiseErrors_of_precondition of failed
  | cons o os ih =>
    have later : ∀ q, .nested q ∈ os → FailsWith F (compile now q).outcome :=
      fun q member => inner q (List.mem_cons_of_mem o member)
    cases o with
    | leaf l =>
      apply ih later
      intro e member
      rcases List.mem_append.mp member with old | new
      · exact of e old
      · rw [List.mem_singleton.mp new]
        trivial
    | nested q =>
      have first := inner q List.mem_cons_self
      rw [compileAlternatives]
      split
      · exact ih later of
      · rename_i e outcome
        have found := first _ outcome
        apply ih later
        intro x member
        exact (List.mem_append.mp member).elim (of x) (found.2 x)
      · rename_i fault outcome
        rintro failure ⟨⟩
        exact first _ outcome

/-- The one fault of a precondition is an integer that cannot be written. -/
theorem compile_failsWith (p : Precondition) (written : F .integerTooLong ∨ p.Writable) :
    FailsWith F (compile now p).outcome := by
  induction p using Precondition.induction with
  | step field os location ih =>
    have inner : ∀ q, .nested q ∈ os → FailsWith F (compile now q).outcome := by
      intro q member
      apply ih q member
      apply written.imp_right
      intro writable n inside
      exact writable n (Precondition.nodes_trans _ inside (Precondition.operand_mem_nodes member))
    rw [compile]
    split
    · exact failsWith_error trivial
    · split
      · exact failsWith_error trivial
      · split
        · unfold compileNegated
          split
          · exact failsWith_error trivial
          · exact inner _ List.mem_cons_self
          · exact failsWith_ok _
        · exact compileAlternatives_failsWith inner (by simp)
        · apply compileField_failsWith
          apply written.imp_right
          exact fun writable => writable _ (Precondition.self_mem_nodes _)

end Preconditions

theorem compile_failure {now : Moment} (p : Precondition) :
    FailsWith (fun _ => True) (compile now p).outcome :=
  compile_failsWith p (Or.inl trivial)

theorem compile_reported {now : Moment} {p : Precondition} {failure : Failure}
    (failed : (compile now p).outcome = .error failure) : failure.Reported :=
  Failure.reported_of_precondition (compile_failure p failure failed)

/-! Accepted preconditions -/

def joined : List (List Token) → List Token
  | [] => []
  | [ts] => ts
  | ts :: more => .text "OR" :: (ts ++ joined more)

/-- What a precondition that is accepted looks like, and what it emits. -/
inductive Compiled (now : Moment) : Precondition → List Token → Prop
  | negation (q : Precondition) (location : Location) (inner : (compile now q).outcome = .ok ()) :
      Compiled now (.mk "NOT" [.nested q] location) (.text "NOT" :: (compile now q).tokens)
  | alternatives (qs : List Precondition) (location : Location)
      (inner : ∀ q ∈ qs, (compile now q).outcome = .ok ()) :
      Compiled now (.mk "OR" (qs.map .nested) location)
        (joined (qs.map fun q => (compile now q).tokens))
  | field (f : Field) (operands : List Operand) (location : Location) (texts : List String)
      (known : f ∈ Field.all) (plain : f.kind ≠ .nested ∧ f.kind ≠ .nestedList)
      (arity : ∀ n, f.arity = some n → operands.length = n)
      (read : operands.map (reader now f) = texts.map .ok) :
      Compiled now (.mk f.name operands location) (fieldTokens f texts)

theorem Field.named?_some {name : String} {f : Field} (known : Field.named? name = some f) :
    f ∈ Field.all ∧ f.name = name := by
  have matched := List.find?_some known
  exact ⟨List.mem_of_find?_eq_some known, by simpa using matched⟩

theorem Field.nested_is_not {f : Field} (known : f ∈ Field.all) (nested : f.kind = .nested) :
    f = Field.own .nested 1 "NOT" := by
  revert f
  decide

theorem Field.nestedList_is_or {f : Field} (known : f ∈ Field.all)
    (nested : f.kind = .nestedList) : f = ⟨"OR", .nestedList, none, some "OR"⟩ := by
  revert f
  decide

theorem Field.none_arity {f : Field} (known : f ∈ Field.all) (none : f.kind = .none) :
    f.arity = some 0 := by
  revert f
  decide

theorem compileAlternatives_ok {now : Moment} {f : Field} {os : List Operand}
    {errors : List Error}
    (accepted : (compileAlternatives now f [.text "OR"] errors os).outcome = .ok ()) :
    errors = [] ∧ ∃ qs : List Precondition, os = qs.map .nested ∧
      (∀ q ∈ qs, (compile now q).outcome = .ok ()) ∧
      (compileAlternatives now f [.text "OR"] errors os).tokens =
        joined (qs.map fun q => (compile now q).tokens) := by
  induction os generalizing errors with
  | nil =>
    rw [compileAlternatives] at accepted
    exact ⟨(raiseErrors_ok_iff errors).mp accepted, [], rfl, by simp, by simp [compileAlternatives, joined]⟩
  | cons o os ih =>
    cases o with
    | leaf l =>
      rw [compileAlternatives] at accepted
      have none := (ih accepted).1
      simp at none
    | nested q =>
      cases outcome : (compile now q).outcome with
      | ok u =>
        simp only [compileAlternatives, outcome, Compilation.after] at accepted ⊢
        obtain ⟨none, qs, same, inner, tokens⟩ := ih accepted
        refine ⟨none, q :: qs, by simp [same], ?_, ?_⟩
        · intro x member
          rcases List.mem_cons.mp member with first | later
          · rw [first]
            exact outcome
          · exact inner x later
        · rw [tokens, same]
          cases qs <;> simp [joined]
      | error reason =>
        cases reason with
        | fault fault => simp [compileAlternatives, outcome] at accepted
        | error e =>
          simp only [compileAlternatives, outcome, Compilation.after] at accepted
          have none := (List.append_eq_nil_iff.mp (ih accepted).1).2
          have reported := compile_reported outcome
          exact (Error.flat_nonempty reported none).elim

theorem compileField_ok {now : Moment} {f : Field} {os : List Operand}
    (known : f ∈ Field.all) (arity : ∀ n, f.arity = some n → os.length = n)
    (accepted : (compileField now f os).outcome = .ok ()) :
    ∃ texts : List String, os.map (reader now f) = texts.map .ok ∧
      (compileField now f os).tokens = fieldTokens f texts := by
  unfold compileField at accepted ⊢
  split
  · rename_i none
    have empty := arity 0 (Field.none_arity known none)
    exact ⟨[], by simpa using empty, rfl⟩
  · rename_i some
    simp only [some, ↓reduceIte] at accepted
    split at accepted
    · cases accepted
    · rename_i texts errors found
      split at accepted
      · cases accepted
      · rename_i raised
        have none := (raiseErrors_ok_iff errors).mp raised
        rw [none] at found
        exact ⟨texts, readArguments_all (fun o _ => argument_failsWith now f o) found, rfl⟩

theorem compileNegated_ok {now : Moment} {f : Field} {tag : List Token} {os : List Operand}
    (one : os.length = 1) (accepted : (compileNegated now f tag os).outcome = .ok ()) :
    ∃ q, os = [.nested q] ∧ (compile now q).outcome = .ok () ∧
      (compileNegated now f tag os).tokens = tag ++ (compile now q).tokens := by
  obtain ⟨o, rfl⟩ := List.length_eq_one_iff.mp one
  cases o with
  | leaf l => cases accepted
  | nested q => exact ⟨q, rfl, accepted, rfl⟩

theorem arity_met {arity : Option Nat} {count : Nat} (met : ¬ arity.any (· ≠ count) = true) (n : Nat)
    (given : arity = some n) : count = n := by
  subst given
  have same : n = count := by simpa using met
  exact same.symm

theorem compiled_of_ok {now : Moment} {p : Precondition}
    (accepted : (compile now p).outcome = .ok ()) : Compiled now p (compile now p).tokens := by
  obtain ⟨name, operands, location⟩ := p
  rw [compile] at accepted ⊢
  split at accepted
  · cases accepted
  · rename_i f found
    obtain ⟨known, rfl⟩ := Field.named?_some found
    split at accepted
    · cases accepted
    · rename_i met
      have count := arity_met met
      dsimp only at accepted ⊢
      rw [if_neg met]
      split at accepted
      · rename_i nested
        have whole := Field.nested_is_not known nested
        subst whole
        obtain ⟨q, rfl, inner, tokens⟩ := compileNegated_ok (count 1 rfl) accepted
        exact tokens ▸ Compiled.negation q location inner
      · rename_i nested
        have whole := Field.nestedList_is_or known nested
        subst whole
        obtain ⟨_, qs, rfl, inner, tokens⟩ := compileAlternatives_ok accepted
        exact tokens ▸ Compiled.alternatives qs location inner
      · rename_i notOne notMany
        obtain ⟨texts, read, tokens⟩ := compileField_ok known count accepted
        rw [tokens]
        exact Compiled.field f operands location texts known ⟨notOne, notMany⟩ count read

theorem accepted_of_isOk {outcome : Except Failure Unit} (ok : outcome.isOk = true) :
    outcome = .ok () := by
  cases outcome with
  | ok u => rfl
  | error failure => cases ok

def emitted (now : Moment) (ps : List Precondition) : List Token :=
  ps.flatMap fun p => (compile now p).tokens

end MailRules.Search
