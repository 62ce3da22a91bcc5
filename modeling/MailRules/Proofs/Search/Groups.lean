import MailRules.Proofs.Search.Operands
import MailRules.Proofs.Search.Nesting
/-!
The groups of a search. Only a list of identifiers is a group, and it is a group of its own, with no group in it:
whatever its texts read like, and whether or not the preconditions around it compile.
-/
namespace MailRules
open MailRules.Search MailRules.Calendar

def identifierLists (ps : List Precondition) : List Precondition := ps.filter fun p => p.field = "UID"

theorem identifierLists_append (front back : List Precondition) :
    identifierLists (front ++ back) = identifierLists front ++ identifierLists back := List.filter_append ..

theorem identifierLists_around {field : String} (other : field ≠ "UID") (operands : List Operand)
    (location : Location) : identifierLists (Precondition.mk field operands location).nodes =
      identifierLists (Operand.nodes operands) := by
  simp [identifierLists, Precondition.nodes, Precondition.field, other]

namespace Search

/-- Lists of identifiers, tokens and the criteria that these write: a group for each of the lists, with the texts
of that list under its tag, and nothing but texts between the groups. -/
inductive Laid : List Precondition → List Token → List Criterion → Prop
  | nil : Laid [] [] []
  | text (s : String) {lists : List Precondition} {tokens : List Token} {criteria : List Criterion}
      (others : Laid lists tokens criteria) : Laid lists (.text s :: tokens) (.text s :: criteria)
  | group (leaves : List Leaf) (location : Location) {lists : List Precondition} {tokens : List Token}
      {criteria : List Criterion} (others : Laid lists tokens criteria) :
      Laid (.mk "UID" (leaves.map .leaf) location :: lists)
        (.opening :: .text "UID" :: (leaves.map fun l => Token.text l.text) ++ .closing :: tokens)
        (.group (.text "UID" :: leaves.map fun l => .text l.text) :: criteria)

section Layouts
variable {lists more : List Precondition} {tokens others : List Token} {criteria rest : List Criterion}

theorem Laid.append (first : Laid lists tokens criteria) (second : Laid more others rest) :
    Laid (lists ++ more) (tokens ++ others) (criteria ++ rest) := by
  induction first with
  | nil => exact second
  | text s _ ih => exact .text s ih
  | group leaves location _ ih => simpa using Laid.group leaves location ih

theorem Laid.texts (texts : List String) : Laid [] (texts.map .text) (texts.map .text) := by
  induction texts with
  | nil => exact .nil
  | cons s texts ih => exact .text s ih

theorem Laid.written (laid : Laid lists tokens criteria) : tokens = Criterion.allWritten criteria := by
  induction laid with
  | nil => rfl
  | text s _ ih => simp [Criterion.allWritten, Criterion.written, ← ih]
  | group leaves location _ ih =>
    have inside := allWritten_texts (leaves.map Leaf.text)
    rw [List.map_map, List.map_map] at inside
    have inside : Criterion.allWritten (leaves.map fun l => .text l.text) = leaves.map fun l => .text l.text :=
      inside
    simp [Criterion.allWritten, Criterion.written, inside, ← ih]

end Layouts

/-- The tokens are laid out in groups of some of these lists, and of all of them where nothing fails. -/
def LaysOut (lists : List Precondition) (c : Compilation) : Prop :=
  ∃ sent criteria, Laid sent c.tokens criteria ∧ sent.Sublist lists ∧ (c.outcome = .ok () → sent = lists)

section Compilations
variable {lists more : List Precondition} {c d : Compilation}

theorem laysOut_failed (lists : List Precondition) (failure : Failure) : LaysOut lists (.failed failure) :=
  ⟨[], [], .nil, List.nil_sublist lists, nofun⟩

theorem LaysOut.tagged (texts : List String) (out : LaysOut lists c) :
    LaysOut lists (c.after (texts.map .text)) := by
  obtain ⟨sent, criteria, laid, among, all⟩ := out
  exact ⟨sent, _, (Laid.texts texts).append laid, among, all⟩

/-- One after the other, where the whole fails if the first one does. -/
theorem LaysOut.beside (first : LaysOut lists c) (second : LaysOut more d)
    (fails : d.outcome = .ok () → c.outcome = .ok ()) : LaysOut (lists ++ more) (d.after c.tokens) := by
  obtain ⟨sent, criteria, laid, among, all⟩ := first
  obtain ⟨later, rest, others, within, both⟩ := second
  refine ⟨sent ++ later, criteria ++ rest, laid.append others, among.append within, ?_⟩
  intro accepted
  rw [all (fails accepted), both accepted]

theorem LaysOut.cut (first : LaysOut lists c) {failure : Failure} (failed : c.outcome = .error failure) :
    LaysOut (lists ++ more) c := by
  obtain ⟨sent, criteria, laid, among, _⟩ := first
  refine ⟨sent, criteria, laid, among.trans (List.sublist_append_left lists more), ?_⟩
  intro accepted
  rw [failed] at accepted
  cases accepted

end Compilations

section Preconditions
variable {now : Moment} {f : Field} {os : List Operand}

theorem Field.uid_is_stringList {f : Field} (known : f ∈ Field.all) (name : f.name = "UID") :
    f.kind = .stringList := by
  revert f
  decide

theorem leaves_of_stringTexts {field : String} {texts : List String}
    (read : os.map (stringText field) = texts.map .ok) :
    ∃ leaves : List Leaf, os = leaves.map .leaf ∧ texts = leaves.map Leaf.text := by
  induction os generalizing texts with
  | nil =>
    have none : texts = [] := by simpa using read.symm
    exact ⟨[], rfl, none⟩
  | cons o os ih =>
    cases texts with
    | nil => cases read
    | cons s texts =>
      simp only [List.map_cons, List.cons.injEq] at read
      obtain ⟨l, rfl, rfl⟩ := stringText_ok read.1
      obtain ⟨leaves, rfl, rfl⟩ := ih read.2
      exact ⟨l :: leaves, rfl, rfl⟩

theorem compileField_failed {failure : Failure} (failed : (compileField now f os).outcome = .error failure) :
    compileField now f os = .failed failure := by
  unfold compileField at failed ⊢
  split at failed
  · cases failed
  · rename_i some
    rw [if_neg some]
    split at failed
    · cases failed
      rfl
    · split at failed <;> cases failed
      rfl

theorem Laid.list (leaves : List Leaf) (location : Location) :
    Laid [.mk "UID" (leaves.map .leaf) location]
      (fieldTokens ⟨"UID", .stringList, none, some "UID"⟩ (leaves.map Leaf.text))
      [.group (.text "UID" :: leaves.map fun l => .text l.text)] := by
  simpa [fieldTokens, Function.comp_def] using Laid.group leaves location .nil

theorem fieldTokens_texts (single : f.kind ≠ .stringList) (texts : List String) :
    fieldTokens f texts = (f.tag.toList ++ texts).map .text := by
  cases tag : f.tag <;> simp [fieldTokens, single, tag]

theorem compileField_laysOut (known : f ∈ Field.all) (plain : f.kind ≠ .nested ∧ f.kind ≠ .nestedList)
    (arity : ∀ n, f.arity = some n → os.length = n) (location : Location) :
    LaysOut (identifierLists (Precondition.mk f.name os location).nodes) (compileField now f os) := by
  cases ended : (compileField now f os).outcome with
  | error failure =>
    rw [compileField_failed ended]
    exact laysOut_failed _ failure
  | ok u =>
    obtain ⟨texts, read, tokens⟩ := compileField_ok known arity ended
    have alone := nodes_of_read known plain read
    by_cases kind : f.kind = .stringList
    · have whole := Field.stringList_is_uid known kind
      subst whole
      obtain ⟨leaves, rfl, rfl⟩ := leaves_of_stringTexts read
      have itself : identifierLists (Precondition.mk "UID" (leaves.map .leaf) location).nodes =
          [.mk "UID" (leaves.map .leaf) location] := by
        simp [identifierLists, Precondition.nodes, Precondition.field, alone]
      rw [itself]
      exact ⟨_, _, tokens ▸ Laid.list leaves location, List.Sublist.refl _, fun _ => rfl⟩
    · have other : f.name ≠ "UID" := fun name => kind (Field.uid_is_stringList known name)
      have none : identifierLists (Precondition.mk f.name os location).nodes = [] := by
        rw [identifierLists_around other, alone]
        rfl
      rw [none]
      have all := tokens.trans (fieldTokens_texts kind texts)
      exact ⟨[], _, all ▸ Laid.texts _, List.Sublist.refl _, fun _ => rfl⟩

theorem compileAlternatives_laysOut
    (inner : ∀ q, .nested q ∈ os → LaysOut (identifierLists q.nodes) (compile now q)) (errors : List Error) :
    LaysOut (identifierLists (Operand.nodes os)) (compileAlternatives now f [.text "OR"] errors os) := by
  induction os generalizing errors with
  | nil => exact ⟨[], [], .nil, List.nil_sublist _, fun _ => rfl⟩
  | cons o os ih =>
    have later := ih fun q member => inner q (List.mem_cons_of_mem o member)
    cases o with
    | leaf l => exact later (errors ++ [notNested f l])
    | nested q =>
      obtain ⟨texts, joint⟩ : ∃ texts : List String,
          (if os.isEmpty then [] else [Token.text "OR"]) = texts.map .text := by
        cases os with
        | nil => exact ⟨[], rfl⟩
        | cons o os => exact ⟨["OR"], rfl⟩
      have own := (inner q List.mem_cons_self).tagged texts
      rw [Operand.nodes, identifierLists_append, compileAlternatives, joint]
      cases outcome : (compile now q).outcome with
      | ok u => exact own.beside (later errors) fun _ => outcome
      | error failure =>
        cases failure with
        | fault x => simpa only [Compilation.after, outcome] using own.cut outcome
        | error e =>
          refine own.beside (later (errors ++ e.flat)) fun accepted => ?_
          -- the operand has left an error, so the alternatives fail
          have none := (List.append_eq_nil_iff.mp (compileAlternatives_ok accepted).1).2
          exact (Error.flat_nonempty (compile_reported outcome) none).elim

/-- By induction on the tree: the groups are those of the lists of identifiers in it. -/
theorem compile_laysOut (now : Moment) (p : Precondition) :
    LaysOut (identifierLists p.nodes) (compile now p) := by
  induction p using Precondition.induction with
  | step name os location ih =>
    rw [compile]
    split
    · exact laysOut_failed _ _
    · rename_i f found
      obtain ⟨known, rfl⟩ := Field.named?_some found
      split
      · exact laysOut_failed _ _
      · rename_i met
        have count := arity_met met
        dsimp only
        split
        · rename_i nested
          have whole := Field.nested_is_not known nested
          subst whole
          rw [identifierLists_around (by decide)]
          obtain ⟨o, rfl⟩ := List.length_eq_one_iff.mp (count 1 rfl)
          cases o with
          | leaf l => exact laysOut_failed _ _
          | nested q =>
            have own := (ih q List.mem_cons_self).tagged ["NOT"]
            simpa [Operand.nodes, compileNegated, Field.own] using own
        · rename_i nested
          have whole := Field.nestedList_is_or known nested
          subst whole
          rw [identifierLists_around (by decide)]
          exact compileAlternatives_laysOut ih []
        · rename_i notOne notMany
          exact compileField_laysOut known ⟨notOne, notMany⟩ count location

end Preconditions

/-! The preconditions of a rule -/

def gathered (now : Moment) : List Precondition → List Token
  | [] => []
  | p :: ps =>
    match (compile now p).outcome with
    | .error (.fault _) => (compile now p).tokens
    | _ => (compile now p).tokens ++ gathered now ps

variable {now : Moment}

theorem gathered_cons {p : Precondition} (proceeds : ∀ x, (compile now p).outcome ≠ .error (.fault x))
    (ps : List Precondition) : gathered now (p :: ps) = (compile now p).tokens ++ gathered now ps := by
  rw [gathered]
  split
  · rename_i x fault
    exact (proceeds x fault).elim
  · rfl

theorem gathered_accepted {ps : List Precondition} (accepted : ∀ p ∈ ps, (compile now p).outcome = .ok ()) :
    gathered now ps = emitted now ps := by
  induction ps with
  | nil => rfl
  | cons p ps ih =>
    have first := accepted p List.mem_cons_self
    rw [gathered_cons (by simp [first]), ih fun q member => accepted q (List.mem_cons_of_mem p member)]
    rfl

theorem gathered_laid (now : Moment) (ps : List Precondition) :
    ∃ sent criteria, Laid sent (gathered now ps) criteria ∧
      sent.Sublist (identifierLists (ps.flatMap Precondition.nodes)) ∧
      ((∀ p ∈ ps, (compile now p).outcome = .ok ()) →
        sent = identifierLists (ps.flatMap Precondition.nodes)) := by
  induction ps with
  | nil => exact ⟨[], [], .nil, List.Sublist.refl _, fun _ => rfl⟩
  | cons p ps ih =>
    obtain ⟨sent, criteria, laid, among, all⟩ := compile_laysOut now p
    rw [List.flatMap_cons, identifierLists_append]
    by_cases fault : ∃ x, (compile now p).outcome = .error (.fault x)
    · obtain ⟨x, fault⟩ := fault
      have ends : gathered now (p :: ps) = (compile now p).tokens := by simp [gathered, fault]
      refine ⟨sent, criteria, ends ▸ laid, among.trans (List.sublist_append_left _ _), ?_⟩
      intro accepted
      cases fault.symm.trans (accepted p List.mem_cons_self)
    · obtain ⟨later, rest, others, within, both⟩ := ih
      rw [gathered_cons (not_exists.mp fault)]
      refine ⟨sent ++ later, criteria ++ rest, laid.append others, among.append within, ?_⟩
      intro accepted
      rw [all (accepted p List.mem_cons_self),
        both fun q member => accepted q (List.mem_cons_of_mem p member)]

end Search
end MailRules
