import Mathlib
import MailRules.Proofs.Sweep.Emission
import MailRules.Proofs.Search.Meaning
import MailRules.Sweep.Script
/-!
What a precondition leaves: the tokens that a collector gains and the errors that are reported. Both follow
from the precondition alone, whatever the collector holds before, and each error points at the part of the
precondition that it is about.
-/
namespace MailRules
open MailRules.Search MailRules.Calendar MailRules.Text

/-- The error is about the precondition or one below it, or about an argument of one of these, and is
located there. -/
inductive Error.Concerns (p : Precondition) : Error → Prop
  | field (n : Precondition) (inside : n ∈ p.nodes) : Concerns p (.unknownField n.field n.location)
  | arity (n : Precondition) (inside : n ∈ p.nodes) (expected : Nat) :
      Concerns p (.arityMismatch n.field expected n.operands.length n.location)
  | value (n : Precondition) (inside : n ∈ p.nodes) (o : Operand) (argument : o ∈ n.operands)
      (kind detail : String) : Concerns p (.valueDecode n.field kind detail o.location)

theorem Error.Concerns.ofPrecondition {p : Precondition} {e : Error} (concerns : e.Concerns p) :
    e.OfPrecondition := by
  cases concerns <;> trivial

theorem Error.Concerns.up {p q : Precondition} {e : Error} (inside : q ∈ p.nodes) (concerns : e.Concerns q) :
    e.Concerns p := by
  cases concerns with
  | field n within => exact .field n (Precondition.nodes_trans p within inside)
  | arity n within expected => exact .arity n (Precondition.nodes_trans p within inside) expected
  | value n within o argument kind detail =>
    exact .value n (Precondition.nodes_trans p within inside) o argument kind detail

namespace Search

variable {now : Moment} {f : Field}

/-! Arguments that are refused -/

/-- Where this fails with an error, it is that a value of the field at this place cannot be read. -/
def RefusedAt {α : Type} (field : String) (l : Location) (r : Except Failure α) : Prop :=
  ∀ e, r = .error (.error e) → ∃ kind detail, e = .valueDecode field kind detail (some l)

section Refusals
variable {α β : Type} {field : String} {l : Location}

theorem refusedAt_ok (a : α) : RefusedAt field l (.ok a) := by
  rintro e ⟨⟩

theorem refusedAt_refuse (kind detail : String) :
    RefusedAt field l (refuse field kind detail l : Except Failure α) := by
  rintro e ⟨⟩
  exact ⟨kind, detail, rfl⟩

theorem refusedAt_bind {r : Except Failure α} {next : α → Except Failure β} (first : RefusedAt field l r)
    (later : ∀ a, r = .ok a → RefusedAt field l (next a)) : RefusedAt field l (r >>= next) := by
  intro e failed
  cases r with
  | ok a => exact later a rfl e failed
  | error failure =>
    cases failed
    exact first e rfl

theorem refusedAt_scalarOf {kind : String} {o : Operand} {next : Leaf → Except Failure β}
    (later : ∀ l, RefusedAt field l.location (next l)) :
    RefusedAt field o.location (scalarOf field kind o >>= next) := by
  apply refusedAt_bind
  · cases o with
    | nested p => exact refusedAt_refuse _ _
    | leaf l =>
      unfold scalarOf
      dsimp only
      split
      · exact refusedAt_ok l
      · exact refusedAt_refuse _ _
  · intro l scalar
    obtain rfl := scalarOf_ok scalar
    exact later l

theorem reader_refusedAt (now : Moment) (f : Field) (o : Operand) :
    RefusedAt f.name o.location (reader now f o) := by
  have string : RefusedAt f.name o.location (stringText f.name o) :=
    refusedAt_scalarOf fun l => refusedAt_ok l.text
  have uint32 : RefusedAt f.name o.location (uint32Text f.name o) := by
    apply refusedAt_scalarOf
    intro l
    split
    · split
      · exact refusedAt_ok _
      · split
        · exact refusedAt_refuse _ _
        · rintro e ⟨⟩
    · exact refusedAt_refuse _ _
  have date : RefusedAt f.name o.location (dateText f.name o) := by
    apply refusedAt_scalarOf
    intro l
    split
    · exact refusedAt_ok _
    · exact refusedAt_refuse _ _
  have duration : RefusedAt f.name o.location (durationText now f.name o) := by
    apply refusedAt_scalarOf
    intro l
    split
    · exact refusedAt_refuse _ _
    · split
      · exact refusedAt_ok _
      · exact refusedAt_refuse _ _
  unfold reader
  cases f.kind <;> assumption

end Refusals

def Refused (now : Moment) (f : Field) (o : Operand) (e : Error) : Prop :=
  reader now f o = .error (.error e) ∧ ∃ kind detail, e = .valueDecode f.name kind detail (some o.location)

def unreadable (now : Moment) (f : Field) (o : Operand) : Bool := !(reader now f o).isOk

/-! What is left -/

mutual

/-- The tokens that a precondition emits and the errors that it has. -/
inductive Leaves (now : Moment) : Precondition → List Token → List Error → Prop
  | unknown {name : String} (unknown : ∀ f ∈ Field.all, f.name ≠ name) (operands : List Operand)
      (location : Location) :
      Leaves now (.mk name operands location) [] [.unknownField name (some location)]
  | miscounted {f : Field} (known : f ∈ Field.all) {n : Nat} (arity : f.arity = some n)
      {operands : List Operand} (count : operands.length ≠ n) (location : Location) :
      Leaves now (.mk f.name operands location) []
        [.arityMismatch f.name n operands.length (some location)]
  | arguments {f : Field} (known : f ∈ Field.all) (plain : f.kind ≠ .nested ∧ f.kind ≠ .nestedList)
      {operands : List Operand} (count : ∀ n, f.arity = some n → operands.length = n)
      (location : Location) {texts : List String} (read : operands.map (reader now f) = texts.map .ok) :
      Leaves now (.mk f.name operands location) (fieldTokens f texts) []
  | refusals {f : Field} (known : f ∈ Field.all) (plain : f.kind ≠ .nested ∧ f.kind ≠ .nestedList)
      {operands : List Operand} (count : ∀ n, f.arity = some n → operands.length = n)
      (location : Location) {errors : List Error} (some : errors ≠ [])
      (each : List.Forall₂ (Refused now f) (operands.filter (unreadable now f)) errors) :
      Leaves now (.mk f.name operands location) [] errors
  | scalar (l : Leaf) (location : Location) :
      Leaves now (.mk "NOT" [.leaf l] location) []
        [.valueDecode "NOT" "precondition" ("got " ++ quoted l.text) (some l.location)]
  | negation {q : Precondition} {tokens : List Token} {errors : List Error}
      (operand : Leaves now q tokens errors) (location : Location) :
      Leaves now (.mk "NOT" [.nested q] location) (.text "NOT" :: tokens) errors
  | alternatives {operands : List Operand} {tokens : List Token} {errors : List Error}
      (each : LeaveEach now operands tokens errors) (location : Location) :
      Leaves now (.mk "OR" operands location) tokens errors

inductive LeaveEach (now : Moment) : List Operand → List Token → List Error → Prop
  | nil : LeaveEach now [] [] []
  | refused (l : Leaf) {rest : List Operand} {tokens : List Token} {errors : List Error}
      (others : LeaveEach now rest tokens errors) :
      LeaveEach now (.leaf l :: rest) tokens
        (.valueDecode "OR" "precondition" ("got " ++ quoted l.text) (some l.location) :: errors)
  | nested {q : Precondition} {rest : List Operand} {own tokens : List Token} {mistakes errors : List Error}
      (operand : Leaves now q own mistakes) (others : LeaveEach now rest tokens errors) :
      LeaveEach now (.nested q :: rest)
        ((if rest.isEmpty then [] else [.text "OR"]) ++ own ++ tokens) (mistakes ++ errors)

end

theorem exists_of_refused {os : List Operand} {errors : List Error} {e : Error}
    (each : List.Forall₂ (Refused now f) os errors) (member : e ∈ errors) : ∃ o ∈ os, Refused now f o e := by
  induction each with
  | nil => cases member
  | cons refused _ ih =>
    rcases List.mem_cons.mp member with rfl | later
    · exact ⟨_, List.mem_cons_self, refused⟩
    · obtain ⟨o, among, refused⟩ := ih later
      exact ⟨o, List.mem_cons_of_mem _ among, refused⟩

def ConcernsOneOf (os : List Operand) (e : Error) : Prop :=
  ∃ o ∈ os, (∃ detail, e = .valueDecode "OR" "precondition" detail (some o.location)) ∨
    ∃ q, o = .nested q ∧ e.Concerns q

theorem ConcernsOneOf.later {o : Operand} {os : List Operand} {e : Error} (one : ConcernsOneOf os e) :
    ConcernsOneOf (o :: os) e := by
  obtain ⟨o', among, about⟩ := one
  exact ⟨o', List.mem_cons_of_mem o among, about⟩

mutual

theorem Leaves.concerns {p : Precondition} {tokens : List Token} {errors : List Error}
    (left : Leaves now p tokens errors) : ∀ e ∈ errors, e.Concerns p := by
  cases left with
  | unknown unknown operands location =>
    exact List.forall_mem_singleton.mpr (.field _ (Precondition.self_mem_nodes _))
  | miscounted known arity count location =>
    exact List.forall_mem_singleton.mpr (.arity _ (Precondition.self_mem_nodes _) _)
  | arguments => simp
  | @refusals f known plain operands count location errors some each =>
    intro e member
    obtain ⟨o, among, _, kind, detail, rfl⟩ := exists_of_refused each member
    exact .value (.mk f.name operands location) (Precondition.self_mem_nodes _) o
      (List.mem_of_mem_filter among) kind detail
  | scalar l location =>
    exact List.forall_mem_singleton.mpr
      (.value (.mk "NOT" [.leaf l] location) (Precondition.self_mem_nodes _) (.leaf l)
        List.mem_cons_self _ _)
  | negation operand location =>
    intro e member
    exact (operand.concerns e member).up (Precondition.operand_mem_nodes List.mem_cons_self)
  | @alternatives operands tokens errors each location =>
    intro e member
    obtain ⟨o, among, ⟨detail, rfl⟩ | ⟨q, rfl, concerns⟩⟩ := each.concerns e member
    · exact .value (.mk "OR" operands location) (Precondition.self_mem_nodes _) o among _ _
    · exact concerns.up (Precondition.operand_mem_nodes among)

theorem LeaveEach.concerns {os : List Operand} {tokens : List Token} {errors : List Error}
    (left : LeaveEach now os tokens errors) : ∀ e ∈ errors, ConcernsOneOf os e := by
  cases left with
  | nil => simp
  | refused l others =>
    intro e member
    rcases List.mem_cons.mp member with rfl | other
    · exact ⟨.leaf l, List.mem_cons_self, .inl ⟨_, rfl⟩⟩
    · exact (others.concerns e other).later
  | nested operand others =>
    intro e member
    rcases List.mem_append.mp member with own | other
    · exact ⟨_, List.mem_cons_self, .inr ⟨_, rfl, operand.concerns e own⟩⟩
    · exact (others.concerns e other).later

end

/-- The arguments are read one by one: all are read, or those that are not have one error each. -/
theorem readArguments_refused (now : Moment) (f : Field) {os : List Operand}
    (writable : ∀ l, .leaf l ∈ os → l.Writable) :
    ∃ texts errors, readArguments (reader now f) os = .ok (texts, errors) ∧
      List.Forall₂ (Refused now f) (os.filter (unreadable now f)) errors := by
  induction os with
  | nil => exact ⟨[], [], rfl, .nil⟩
  | cons o os ih =>
    obtain ⟨texts, errors, rest, each⟩ := ih fun l member => writable l (List.mem_cons_of_mem o member)
    cases one : reader now f o with
    | ok s =>
      have read : unreadable now f o = false := by
        rw [unreadable, one]
        rfl
      refine ⟨s :: texts, errors, by simp [readArguments, one, rest, Except.map], ?_⟩
      rwa [List.filter_cons_of_neg (by simp [read])]
    | error failure =>
      have fails : FailsWith (fun _ => False) (reader now f o) :=
        reader_failsWith now f (.inr fun l same => writable l (same ▸ List.mem_cons_self))
      cases failure with
      | fault x => exact (fails _ one).elim
      | error e =>
        obtain ⟨kind, detail, rfl⟩ := reader_refusedAt now f o e one
        have unread : unreadable now f o = true := by
          rw [unreadable, one]
          rfl
        refine ⟨texts, .valueDecode f.name kind detail (some o.location) :: errors,
          by simp [readArguments, one, rest, Except.map, Error.flat], ?_⟩
        rw [List.filter_cons_of_pos unread]
        exact .cons ⟨one, kind, detail, rfl⟩ each

theorem compileField_leaves {os : List Operand} (known : f ∈ Field.all)
    (plain : f.kind ≠ .nested ∧ f.kind ≠ .nestedList) (count : ∀ n, f.arity = some n → os.length = n)
    (writable : ∀ l, .leaf l ∈ os → l.Writable) (location : Location) :
    ∃ errors, Leaves now (.mk f.name os location) (compileField now f os).tokens errors ∧
      (compileField now f os).outcome = raiseErrors errors := by
  unfold compileField
  split
  · rename_i none
    obtain rfl := List.length_eq_zero_iff.mp (count 0 (Field.none_arity known none))
    have read : ([] : List Operand).map (reader now f) = ([] : List String).map .ok := rfl
    exact ⟨[], .arguments known plain count location read, rfl⟩
  · obtain ⟨texts, errors, found, each⟩ := readArguments_refused now f writable
    refine ⟨errors, ?_⟩
    rw [found]
    dsimp only
    cases errors with
    | nil =>
      have read := readArguments_all (fun o _ => argument_failsWith now f o) found
      exact ⟨.arguments known plain count location read, rfl⟩
    | cons e es =>
      cases raised : raiseErrors (e :: es) with
      | ok u => cases (raiseErrors_ok_iff _).mp raised
      | error failure => exact ⟨.refusals known plain count location (List.cons_ne_nil e es) each, rfl⟩

theorem raiseErrors_concerning {p : Precondition} {errors : List Error}
    (concerns : ∀ e ∈ errors, e.Concerns p) {failure : Failure} (raised : raiseErrors errors = .error failure) :
    ∃ e, failure = .error e ∧ e.flat = errors := by
  have proper : ∀ e ∈ errors, e.Proper := fun e member =>
    Error.proper_of_precondition (concerns e member).ofPrecondition
  obtain ⟨e, rfl, -, flat⟩ := raiseErrors_raisable (Error.raisable_of_proper proper) raised
  exact ⟨e, rfl, flat⟩

theorem compileAlternatives_leaves (alternatives : f.name = "OR") {os : List Operand}
    (inner : ∀ q, .nested q ∈ os → ∃ errors, Leaves now q (compile now q).tokens errors ∧
      (compile now q).outcome = raiseErrors errors) :
    ∃ tokens errors, LeaveEach now os tokens errors ∧
      ∀ before, compileAlternatives now f [.text "OR"] before os =
        ⟨tokens, raiseErrors (before ++ errors)⟩ := by
  induction os with
  | nil => exact ⟨[], [], .nil, fun before => by simp [compileAlternatives]⟩
  | cons o os ih =>
    obtain ⟨tokens, errors, others, rest⟩ := ih fun q member => inner q (List.mem_cons_of_mem o member)
    cases o with
    | leaf l =>
      refine ⟨tokens, _, .refused l others, fun before => ?_⟩
      rw [compileAlternatives, rest]
      simp [notNested, alternatives, ArgumentKind.label]
    | nested q =>
      obtain ⟨mistakes, operand, outcome⟩ := inner q List.mem_cons_self
      refine ⟨_, _, .nested operand others, fun before => ?_⟩
      rw [compileAlternatives]
      cases raised : raiseErrors mistakes with
      | ok u =>
        obtain rfl := (raiseErrors_ok_iff mistakes).mp raised
        simp [outcome, rest, Compilation.after]
      | error failure =>
        obtain ⟨e, rfl, rfl⟩ := raiseErrors_concerning operand.concerns raised
        simp [outcome, raised, rest, Compilation.after]

/-- By induction on the tree: what a precondition emits and what it fails with is what it leaves. -/
theorem compile_leaves (now : Moment) (p : Precondition) (writable : p.Writable) :
    ∃ errors, Leaves now p (compile now p).tokens errors ∧ (compile now p).outcome = raiseErrors errors := by
  induction p using Precondition.induction with
  | step name os location ih =>
    have inner : ∀ q, .nested q ∈ os → ∃ errors, Leaves now q (compile now q).tokens errors ∧
        (compile now q).outcome = raiseErrors errors := fun q member =>
      ih q member fun n inside =>
        writable n (Precondition.nodes_trans _ inside (Precondition.operand_mem_nodes member))
    have leaves : ∀ l, .leaf l ∈ os → l.Writable := writable _ (Precondition.self_mem_nodes _)
    rw [compile]
    split
    · rename_i unknown
      have strange : ∀ f ∈ Field.all, f.name ≠ name := by
        simpa [Field.named?] using unknown
      exact ⟨_, .unknown strange os location, rfl⟩
    · rename_i f found
      obtain ⟨known, rfl⟩ := Field.named?_some found
      split
      · rename_i off
        cases arity : f.arity with
        | none => simp [arity] at off
        | some n =>
          have count : os.length ≠ n := fun same => by simp [arity, same] at off
          exact ⟨_, .miscounted known arity count location, rfl⟩
      · rename_i met
        have count := arity_met met
        dsimp only
        split
        · rename_i nested
          have whole := Field.nested_is_not known nested
          subst whole
          obtain ⟨o, rfl⟩ := List.length_eq_one_iff.mp (count 1 rfl)
          cases o with
          | leaf l => exact ⟨_, .scalar l location, rfl⟩
          | nested q =>
            obtain ⟨errors, operand, outcome⟩ := inner q List.mem_cons_self
            exact ⟨errors, .negation operand location, outcome⟩
        · rename_i nested
          have whole := Field.nestedList_is_or known nested
          subst whole
          obtain ⟨tokens, errors, each, compiled⟩ := compileAlternatives_leaves
            (f := ⟨"OR", .nestedList, none, some "OR"⟩) rfl inner
          refine ⟨errors, ?_, ?_⟩
          · exact (compiled []).symm ▸ .alternatives each location
          · exact (compiled []).symm ▸ rfl
        · rename_i notOne notMany
          exact compileField_leaves known ⟨notOne, notMany⟩ count leaves location

end Search

namespace Sweep
open MailRules.Search

def raisedAsOne : List Error → Except Failure Unit
  | [] => .ok ()
  | [e] => .error (.error e)
  | errors => .error (.error (.aggregate errors))

theorem raiseErrors_eq_asOne {p : Precondition} {errors : List Error} (concerns : ∀ e ∈ errors, e.Concerns p) :
    raiseErrors errors = raisedAsOne errors := by
  match errors with
  | [] => rfl
  | [e] =>
    have of := (concerns e List.mem_cons_self).ofPrecondition
    cases e <;> first | rfl | exact of.elim
  | _ :: _ :: _ => rfl

/-- The family takes every token, and its contents gain that token at their end. -/
def Family.Gathers {σ : Type} (f : Family σ) (contents : σ → List Token) : Prop :=
  ∀ t st, ∃ st', f.append t st = (.ok (), st') ∧ contents st' = contents st ++ [t]

section Gathering
variable {σ : Type} {f : Family σ} {contents : σ → List Token} (gathers : f.Gathers contents)
include gathers

theorem takes_of_gathers : f.TakesTokens := by
  intro t st e st' refused
  obtain ⟨_, taken, _⟩ := gathers t st
  cases taken.symm.trans refused

theorem appendAll_gains (tokens : List Token) (st : σ) :
    ∃ st', tokens.forM f.append st = (.ok (), st') ∧ contents st' = contents st ++ tokens := by
  have holds : f.Holds fun held st => contents st = held := by
    rintro t _ st rfl
    exact gathers t st
  exact appendAll_holds holds tokens rfl

end Gathering

/-- What a precondition leaves follows from it alone: every collector keeps its contents and gains these tokens,
and the errors, each located at what it is about, are raised as one, or as a flat aggregate of several. -/
theorem collector_gains_what_is_left (now : Moment) (p : Precondition) (writable : p.Writable) :
    ∃ segment errors, Leaves now p segment errors ∧ (∀ e ∈ errors, e.Concerns p) ∧
      ∀ {σ : Type} (f : Family σ) (contents : σ → List Token), f.Gathers contents →
        ∀ st, ∃ st', compileInto f now p st = (raisedAsOne errors, st') ∧
          contents st' = contents st ++ segment := by
  obtain ⟨errors, left, outcome⟩ := compile_leaves now p writable
  refine ⟨_, errors, left, left.concerns, ?_⟩
  intro σ f contents gathers st
  obtain ⟨st', taken, gained⟩ := appendAll_gains gathers (compile now p).tokens st
  refine ⟨st', ?_, gained⟩
  rw [compileInto_emit (takes_of_gathers gathers), emit, Step.bind_apply, taken]
  exact congrArg (·, st') (outcome.trans (raiseErrors_eq_asOne left.concerns))

/-! Alternatives most of which are mistaken -/

def written (s : String) (column : Nat) : Operand := .leaf ⟨s, .text s, true, ⟨"c", 1, column⟩⟩

def alternative (name : String) (operands : List Operand) : Operand := .nested (.mk name operands ⟨"c", 2, 1⟩)

def mistakes : Precondition :=
  .mk "OR" [alternative "NOT" [written "x" 1], alternative "TEXT" [written "ok" 2], written "y" 3,
    alternative "NOT" [alternative "LARGER" [written "big" 4]], alternative "NOPE" [],
    alternative "ON" [written "now" 5]] ⟨"c", 3, 1⟩

def mistakesTold : List Error :=
  [.valueDecode "NOT" "precondition" "got 'x'" (some ⟨"c", 1, 1⟩),
    .valueDecode "OR" "precondition" "got 'y'" (some ⟨"c", 1, 3⟩),
    .valueDecode "LARGER" "uint32" "'big' is not an integer" (some ⟨"c", 1, 4⟩),
    .unknownField "NOPE" (some ⟨"c", 2, 1⟩),
    .valueDecode "ON" "date" "'now' is not a date" (some ⟨"c", 1, 5⟩)]

theorem mistakes_left : mistakes.Writable ∧
    Leaves newYear mistakes (["OR", "OR", "TEXT", "ok", "OR", "NOT", "OR"].map .text) mistakesTold := by
  have writable : mistakes.Writable := by
    simp [Precondition.Writable, mistakes, alternative, written, Precondition.nodes, Operand.nodes,
      Precondition.operands, Leaf.Writable]
  refine ⟨writable, ?_⟩
  obtain ⟨segment, errors, left, concerns, gains⟩ := collector_gains_what_is_left newYear mistakes writable
  -- a collector that holds a token already shows what is left
  have gathers : (Script.family fun _ _ => none).Gathers Trace.tokens := fun t st => ⟨_, rfl, rfl⟩
  obtain ⟨st', ended, gained⟩ := gains _ _ gathers { tokens := [.text "SEEN"] }
  have run : compileInto (Script.family fun _ _ => none) newYear mistakes { tokens := [.text "SEEN"] } =
      (.error (.error (.aggregate mistakesTold)),
        { tokens := .text "SEEN" :: ["OR", "OR", "TEXT", "ok", "OR", "NOT", "OR"].map .text }) := by
    cbv
  obtain ⟨failed, rfl⟩ := Prod.mk.inj (ended.symm.trans run)
  obtain rfl := List.cons.inj gained |>.2
  rcases errors with _ | ⟨e, _ | ⟨e', es⟩⟩
  · cases failed
  · cases failed
    cases concerns _ List.mem_cons_self
  · cases failed
    exact left

end Sweep
end MailRules
