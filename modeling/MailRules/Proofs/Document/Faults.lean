import Mathlib
import MailRules.Proofs.Yaml.Building
import MailRules.Proofs.Document.Survey
import MailRules.Document.Load
/-!
How reading a document fails: with an error that names what is wrong with the document, or with one of
a few faults, each of which needs something in the text that provokes it.
-/
namespace MailRules
open MailRules.Yaml MailRules.Text

/-- The failure is an error of the document, or a fault that the text provokes. -/
def Reported (text : List Char) : Failure → Prop
  | .error (.document _ _) => True
  | .error _ => False
  | .fault f => Provokes text f

namespace DocumentReader

/-- The nodes stay as the text allows, a value has `P`, and a failure is as it may be. -/
def Reports {α : Type} (text : List Char) (P : α → Prop) (m : DocumentReader α) : Prop :=
  ∀ source, Sweep.Step.Triple (fun b : Builder => b.graph.Sound text) (m source)
    (fun a b => P a ∧ b.graph.Sound text) fun failure _ => Reported text failure

section Rules
variable {α β : Type} {text : List Char} {P : α → Prop} {Q : β → Prop}

theorem reports_pure {a : α} (holds : P a) : Reports text P (pure a) := fun _ _ sound => ⟨holds, sound⟩

theorem reports_bind {m : DocumentReader α} {next : α → DocumentReader β} (first : Reports text P m)
    (later : ∀ a, P a → Reports text Q (next a)) : Reports text Q (m >>= next) := by
  intro source
  exact Sweep.Step.triple_bind (first source) fun a b both => later a both.1 source b both.2

theorem reports_throw {failure : Failure} (reported : Reported text failure) :
    Reports text P (throw failure : DocumentReader α) := fun _ _ _ => reported

theorem reports_get {next : Builder → DocumentReader β} (later : ∀ b, Reports text Q (next b)) :
    Reports text Q (get >>= next) := fun source b sound => later b source b sound

theorem reported_of_run {m : DocumentReader α} {source : Source} {b : Builder} {failure : Failure}
    (reports : Reports text P m) (sound : b.graph.Sound text)
    (failed : ((m.run source).run.run b).1 = .error failure) : Reported text failure := by
  have ended := reports source b sound
  change (m source b).1 = .error failure at failed
  split at ended <;> rename_i same <;> rw [same] at failed <;> cases failed
  exact ended

end Rules

section Parts
variable {text : List Char}

theorem build_reports (i : NodeId) : Reports text (fun _ => True) (build i) := by
  intro source b sound
  have keeps : Build.Keeps text (Build.value i) := Build.value_keeps i
  have built := keeps b sound trivial
  rw [build_apply]
  cases same : Build.value i b with
  | mk result b' =>
    rw [same] at built
    cases result with
    | ok d => exact ⟨trivial, built.1⟩
    | error failure =>
      cases failure with
      | problem p => exact ⟨trivial, built.1⟩
      | refused reason => exact ⟨trivial, built.1⟩
      | fault f => exact built.2

theorem nodeAt_reports (i : NodeId) : Reports text (fun _ => True) (nodeAt i) :=
  fun _ _ sound => ⟨trivial, sound⟩

theorem locationOf_reports (n : Node) : Reports text (fun _ => True) (locationOf n) :=
  fun _ _ sound => ⟨trivial, sound⟩

theorem datum_reports (i : NodeId) : Reports text (fun _ => True) (datum i) := by
  refine reports_bind (build_reports i) fun result _ => ?_
  split
  · exact reports_pure trivial
  · have located : Reports text (fun _ => True) (locate i) := fun _ _ sound => ⟨trivial, sound⟩
    exact reports_bind located fun _ _ => reports_throw trivial

theorem leaf_reports (i : NodeId) : Reports text (fun _ => True) (leaf i) := by
  refine reports_bind (nodeAt_reports i) fun n _ => ?_
  refine reports_bind (locationOf_reports n) fun location _ => ?_
  split
  · refine reports_bind (build_reports i) fun result _ => ?_
    split <;> exact reports_pure trivial
  · refine reports_get fun b => ?_
    exact reports_bind (datum_reports i) fun d _ => reports_pure trivial

def reporting (text : List Char) : Survey where
  Holds := Reports text
  known := fun _ => True
  clear := fun _ => True
  Seen := fun _ _ => True
  known_of_clear := id
  clear_below := fun _ _ _ _ => trivial
  pure := reports_pure
  bind := reports_bind
  error := fun _ _ => reports_throw trivial
  endless := reports_throw trivial
  nodeAt := fun _ => nodeAt_reports _
  locationOf := locationOf_reports
  size := fun _ => reports_get
  datum := fun _ => datum_reports _
  leaf := fun _ => leaf_reports _

theorem document_reports (root : Option NodeId) : Reports text (fun _ => True) (document root) := by
  let reader := reporting text
  have source : Reports text (fun _ => True) read := fun _ _ sound => ⟨trivial, sound⟩
  refine reports_bind source fun source _ => ?_
  split
  · exact reports_throw trivial
  · refine reports_bind (nodeAt_reports _) fun n _ => ?_
    refine reader.when (reports_throw trivial) fun _ => ?_
    refine reports_bind (reader.entries_clear _ _ trivial) fun es _ => ?_
    refine reports_bind (reader.items_clear _ fun _ _ => trivial) fun nodes _ => ?_
    exact reports_bind (reader.mapM fun _ _ => reader.account trivial) fun _ _ => reports_pure trivial

end Parts
end DocumentReader

theorem Document.parse_reported {text name : String} {failure : Failure}
    (failed : Document.parse text name = .error failure) : Reported text.toList failure := by
  have sound := Tree.ofText_sound text.toList
  unfold Document.parse at failed
  dsimp only at failed
  split at failed
  · cases failed
    trivial
  · rename_i f stopped
    rw [stopped] at sound
    cases failed
    exact sound
  · cases failed
    trivial
  · rename_i tree opened
    rw [opened] at sound
    exact DocumentReader.reported_of_run (DocumentReader.document_reports tree.root) sound failed

/-- What the content of a file holds whose reading is at fault. -/
def Content.Provokes : Content → Fault → Prop
  | .unnameable, f => f = .unnameable
  | .octets bs, f =>
    match utf8Chars bs with
    | .error _ => f = .notUtf8
    | .ok cs => Yaml.Provokes (unifyLineBreaks cs) f
  | _, _ => False

theorem reported_iff {text : List Char} {failure : Failure} :
    Reported text failure ↔ (∃ flaw location, failure = .error (.document flaw location)) ∨
      ∃ f, failure = .fault f ∧ Yaml.Provokes text f := by
  cases failure with
  | fault f => simp [Reported]
  | error e => cases e <;> simp [Reported]

theorem Document.load_reported {p : Path} {content : Content} {failure : Failure}
    (failed : Document.load p content = .error failure) :
    (∃ flaw location, failure = .error (.document flaw location)) ∨
      ∃ f, failure = .fault f ∧ content.Provokes f := by
  cases content with
  | missing => cases failed; exact .inl ⟨_, _, rfl⟩
  | unreadable code reason => cases failed; exact .inl ⟨_, _, rfl⟩
  | unnameable => cases failed; exact .inr ⟨_, rfl, rfl⟩
  | octets bs =>
    unfold Document.load at failed
    cases decoded : utf8Chars bs with
    | error bad =>
      simp only [decoded] at failed
      cases failed
      exact .inr ⟨_, rfl, by simp only [Content.Provokes, decoded]⟩
    | ok cs =>
      simp only [decoded] at failed
      simp only [Content.Provokes, decoded]
      simpa using reported_iff.mp (Document.parse_reported failed)

/-- Reading a text, or the content of a file, fails with an error that says what is wrong with the
document and where, or with a fault that something in the text or the file provokes. -/
theorem Document.failures_reported (text name : String) (p : Path) (content : Content) :
    (∀ failure, Document.parse text name = .error failure →
      (∃ flaw location, failure = .error (.document flaw location)) ∨
        ∃ f, failure = .fault f ∧ Yaml.Provokes text.toList f) ∧
    ∀ failure, Document.load p content = .error failure →
      (∃ flaw location, failure = .error (.document flaw location)) ∨
        ∃ f, failure = .fault f ∧ content.Provokes f := by
  constructor
  · exact fun failure failed => reported_iff.mp (parse_reported failed)
  · exact fun failure failed => load_reported failed

/-! A switch that is tagged as a truth value and spells none -/

def maybeText : String := "servers:\n- host: h\n  notls: !!bool maybe\n"

def maybeTokens : List Token :=
  hostTokens ++
  [token .key 21 2 2 0, plainToken "notls" 21 2 2, token .value 26 2 7 1,
    token (.tag (some "!!") "bool") 28 2 9 6, plainToken "maybe" 35 2 16] ++
  closingTokens 2 41 3

def maybeNodes : List Node :=
  [mapping [(1, 2)] false 0 0 0,
    word "servers" 0 0 0, sequence [3] false 9 1 0,
    mapping [(4, 5), (6, 7)] false 11 1 2,
    word "host" 11 1 2, word "h" 17 1 8,
    word "notls" 21 2 2, ⟨Tag.bool, .scalar "maybe" .plain, ⟨28, 2, 9⟩⟩]

def maybeGraph : Graph := ⟨maybeNodes.toArray⟩

theorem maybe_node (i : NodeId) : maybeGraph.node i = maybeNodes.getD i Graph.absent := by
  simp [maybeGraph, Graph.node]

theorem maybe_scanned :
    (scan maybeText.toList).tokens = maybeTokens ∧ (scan maybeText.toList).stop = none := by
  decide +kernel

theorem maybe_tree : Tree.ofText maybeText.toList = .ok ⟨maybeGraph, some 0⟩ :=
  Tree.ofText_of_tokens (by decide +kernel) maybe_scanned (by decide +kernel)

open DocumentReader in
theorem maybe_parsed : Document.parse maybeText "c" = .error (.fault .unknownBoolean) := by
  have value : Build.value 7 { graph := maybeGraph } =
      (.error (.fault .unknownBoolean), { graph := maybeGraph, begun := [7] }) := by
    cbv
  have built : build 7 ⟨"c", maybeText.toList⟩ { graph := maybeGraph } =
      (.error (.fault .unknownBoolean), { graph := maybeGraph, begun := [7] }) := by
    rw [build_apply, value]
  have read : document (some 0) ⟨"c", maybeText.toList⟩ { graph := maybeGraph } =
      (.error (.fault .unknownBoolean), { graph := maybeGraph, begun := [7] }) := by
    simp [document, account, entries, entriesFrom, items, flagData, datum, built, requiredText,
      text?, isNull, accountKeys, Flag.all, Flag.key, List.lookup_cons, List.mapM_cons, maybe_node,
      maybeNodes, word, sequence, mapping, Tag.str, Tag.null, Tag.bool]
  simp only [Document.parse, maybe_tree]
  exact congrArg Prod.fst read

theorem Document.faults_provoked :
    (Document.parse maybeText "c" = .error (.fault .unknownBoolean) ∧ '!' ∈ maybeText.toList) ∧
      Document.load (Path.ofText "c") (.octets [0xFF]) = .error (.fault .notUtf8) ∧
        (Content.octets [0xFF]).Provokes .notUtf8 := by
  have undecodable : Document.load (Path.ofText "c") (.octets [0xFF]) = .error (.fault .notUtf8) :=
    rfl
  have reported := failures_reported maybeText "c" (Path.ofText "c") (.octets [0xFF])
  refine ⟨⟨maybe_parsed, ?_⟩, undecodable, ?_⟩
  · obtain ⟨_, _, error⟩ | ⟨f, fault, provoked⟩ := reported.1 _ maybe_parsed
    · cases error
    · cases fault
      exact provoked
  · obtain ⟨_, _, error⟩ | ⟨f, fault, provoked⟩ := reported.2 _ undecodable
    · cases error
    · cases fault
      exact provoked

theorem Document.faults_beside_errors :
    ¬∀ text name, (∃ d, Document.parse text name = .ok d) ∨
      ∃ flaw location, Document.parse text name = .error (.error (.document flaw location)) := by
  intro always
  rcases always maybeText "c" with ⟨d, read⟩ | ⟨flaw, location, failed⟩
  · cases maybe_parsed.symm.trans read
  · cases maybe_parsed.symm.trans failed

end MailRules
