import MailRules.Proofs.Yaml.Printing
import MailRules.Proofs.Document.Survey
import MailRules.Proofs.Live.Secrecy
/-!
Reading two documents side by side whose trees agree but for one scalar. What does not lead to the
scalar is read alike from both, or refused alike; only the reason why a node has no value comes with an
excerpt of either source.
-/
namespace MailRules
open MailRules.Yaml

/-- The failures are the same, or the text of a problem that both tell of has an excerpt of either
source. -/
inductive Failure.AlikeBut (text text' : List Char) : Failure → Failure → Prop
  | same (failure : Failure) : AlikeBut text text' failure failure
  | excerpt (p : NodeProblem) (l : Option Location) :
    AlikeBut text text' (.error (.document (.invalidValue (p.message text)) l))
      (.error (.document (.invalidValue (p.message text')) l))

namespace DocumentReader

/-- Reading from two sources of one name goes together, with values by `V`. -/
def Paired {α β : Type} (s : Secret) (text text' : List Char) (V : α → β → Prop)
    (m : DocumentReader α) (m' : DocumentReader β) : Prop :=
  ∀ name, s.Together (Failure.AlikeBut text text') V (m ⟨name, text⟩) (m' ⟨name, text'⟩)

abbrev Same {α : Type} (s : Secret) (text text' : List Char) (P : α → Prop) (m : DocumentReader α) :
    Prop := Paired s text text' (Secret.Both P) m m

variable {s : Secret} {text text' : List Char}

section Rules
variable {α α' β β' : Type} {V : α → α' → Prop} {W : β → β' → Prop} {P : α → Prop} {Q : β → Prop}

theorem paired_pure {a : α} {a' : α'} (holds : V a a') : Paired s text text' V (pure a) (pure a') :=
  fun _ => Secret.together_pure holds

theorem paired_bind {m : DocumentReader α} {m' : DocumentReader α'} {next : α → DocumentReader β}
    {next' : α' → DocumentReader β'} (first : Paired s text text' V m m')
    (later : ∀ a a', V a a' → Paired s text text' W (next a) (next' a')) :
    Paired s text text' W (m >>= next) (m' >>= next') :=
  fun name => Secret.together_bind (first name) fun a a' holds => later a a' holds name

theorem paired_same {m : DocumentReader α} {next : α → DocumentReader β}
    {next' : α → DocumentReader β'} (first : Same s text text' P m)
    (later : ∀ a, P a → Paired s text text' W (next a) (next' a)) :
    Paired s text text' W (m >>= next) (m >>= next') :=
  paired_bind first fun a _ same => same.1 ▸ later a same.2

theorem paired_weaken {V' : α → α' → Prop} {m : DocumentReader α} {m' : DocumentReader α'}
    (strong : Paired s text text' V' m m') (weaker : ∀ a a', V' a a' → V a a') :
    Paired s text text' V m m' := fun name => Secret.together_weaken (strong name) weaker

theorem same_pure {a : α} (holds : P a) : Same s text text' P (pure a) := paired_pure ⟨rfl, holds⟩

theorem same_bind {m : DocumentReader α} {next : α → DocumentReader β} (first : Same s text text' P m)
    (later : ∀ a, P a → Same s text text' Q (next a)) : Same s text text' Q (m >>= next) :=
  paired_same first later

theorem same_throw (failure : Failure) : Same s text text' P (throw failure : DocumentReader α) :=
  fun _ => Secret.together_throw (.same failure)

theorem paired_when {condition : Prop} [Decidable condition] {m : DocumentReader PUnit}
    {next : PUnit → DocumentReader β} {next' : PUnit → DocumentReader β'}
    (first : Same s text text' (fun _ => True) m)
    (later : ∀ u, Paired s text text' W (next u) (next' u)) :
    Paired s text text' W (if condition then m >>= next else next ⟨⟩)
      (if condition then m >>= next' else next' ⟨⟩) := by
  split
  · exact paired_same first fun u _ => later u
  · exact later ⟨⟩

theorem paired_read {next : Source → DocumentReader β} {next' : Source → DocumentReader β'}
    (later : ∀ name, Paired s text text' W (next ⟨name, text⟩) (next' ⟨name, text'⟩)) :
    Paired s text text' W (read >>= next) (read >>= next') := fun name => later name name

theorem paired_get {next : Builder → DocumentReader β} {next' : Builder → DocumentReader β'}
    (later : ∀ b b', s.Alike b b' → Paired s text text' W (next b) (next' b')) :
    Paired s text text' W (get >>= next) (get >>= next') :=
  fun name => Secret.together_get fun b b' alike => later b b' alike name

theorem same_nodeAt {i : NodeId} (seen : i ≠ s.hole) : Same s text text' (s.Seen i) (nodeAt i) :=
  fun _ _ _ alike => ⟨.ok ⟨alike.nodes i seen, alike.seen i⟩, alike⟩

theorem same_locationOf (n : Node) : Same s text text' (fun _ => True) (locationOf n) :=
  fun _ _ _ alike => ⟨.ok ⟨rfl, trivial⟩, alike⟩

theorem same_locate {i : NodeId} (seen : i ≠ s.hole) :
    Same s text text' (fun _ => True) (locate i) :=
  same_bind (same_nodeAt seen) fun n _ => same_locationOf n

theorem same_refuse {i : NodeId} (seen : i ≠ s.hole) (flaw : Flaw) :
    Same s text text' P (refuse flaw i : DocumentReader α) :=
  same_bind (same_locate seen) fun _ _ => same_throw _

end Rules

/-! Values -/

section Values

inductive BuiltAlike (text text' : List Char) : Except String Datum → Except String Datum → Prop
  | same (result : Except String Datum) : BuiltAlike text text' result result
  | excerpt (p : NodeProblem) :
    BuiltAlike text text' (.error (p.message text)) (.error (p.message text'))

theorem build_paired {i : NodeId} (away : s.away i) :
    Paired s text text' (BuiltAlike text text') (build i) (build i) := by
  intro name b b' alike
  obtain ⟨ends, after⟩ := Secret.value_blind away b b' alike
  rw [build_apply, build_apply]
  cases left : Build.value i b with
  | mk r u =>
    cases right : Build.value i b' with
    | mk r' u' =>
      rw [left, right] at ends after
      cases ends with
      | ok same => exact ⟨.ok (same.1 ▸ .same _), after⟩
      | @error failure _ same =>
        subst same
        cases failure with
        | problem p => exact ⟨.ok (.excerpt p), after⟩
        | refused reason => exact ⟨.ok (.same _), after⟩
        | fault f => exact ⟨.error (.same _), after⟩

theorem datum_same {i : NodeId} (away : s.away i) : Same s text text' (fun _ => True) (datum i) := by
  have here := Secret.ne_of_away away
  refine paired_bind (build_paired away) fun r r' alike => ?_
  cases alike with
  | same r =>
    cases r with
    | ok d => exact same_pure trivial
    | error reason => exact same_refuse here _
  | excerpt p =>
    refine paired_same (same_locate here) fun l _ name => ?_
    exact Secret.together_throw (.excerpt p l)

theorem leaf_same {i : NodeId} (away : s.away i) : Same s text text' (fun _ => True) (leaf i) := by
  refine same_bind (same_nodeAt (Secret.ne_of_away away)) fun n _ => ?_
  refine same_bind (same_locationOf n) fun location _ => ?_
  split
  · refine paired_bind (build_paired away) fun r r' alike => ?_
    cases alike with
    | same r => cases r <;> exact same_pure trivial
    | excerpt p => exact same_pure trivial
  · refine paired_get fun b b' alike => ?_
    dsimp only
    rw [← Secret.render_together alike away]
    exact same_bind (datum_same away) fun d _ => same_pure trivial

end Values

/-! Parts -/

section Parts

def apart (s : Secret) (text text' : List Char) : Survey where
  Holds := Same s text text'
  known := fun i => i ≠ s.hole
  clear := s.away
  Seen := s.Seen
  known_of_clear := Secret.ne_of_away
  clear_below := fun away seen => seen.inside away
  pure := same_pure
  bind := same_bind
  error := fun flaw location => same_throw (.error (.document flaw location))
  endless := same_throw _
  nodeAt := same_nodeAt
  locationOf := same_locationOf
  size := fun only later => paired_get fun b b' alike => only b b' alike.size ▸ later b
  datum := datum_same
  leaf := leaf_same

theorem text_hole (part : String) :
    Paired s text text' (fun _ _ => True) (text? part (some s.hole)) (text? part (some s.hole)) := by
  have taken : ∀ source b, (b.graph.node s.hole).body.IsScalar →
      ∃ given, text? part (some s.hole) source b = (.ok given, b) := by
    rintro source b ⟨spelled, style, body⟩
    cases null : isNull (b.graph.node s.hole) with
    | true => exact ⟨none, by simp [text?, null]⟩
    | false => exact ⟨some spelled, by simp [text?, null, body]⟩
  intro name b b' alike
  have node : b.graph.node s.hole = s.graph.node s.hole := (alike.seen s.hole).outside s.hidden
  obtain ⟨given, left⟩ := taken ⟨name, text⟩ b (node ▸ s.scalar)
  obtain ⟨given', right⟩ := taken ⟨name, text'⟩ b' (alike.other ▸ s.otherScalar)
  rw [left, right]
  exact ⟨.ok trivial, alike⟩

/-- Where nothing of an account but its password is hidden, the rest of it is read alike. -/
theorem account_paired {i : NodeId} (known : i ≠ s.hole)
    (leads : ∀ n, s.Seen i n → ∀ e ∈ n.body.entries, e.1 ≠ s.hole ∧
      (s.away e.2 ∨ e.2 = s.hole ∧ ∃ style, (s.graph.node e.1).body = .scalar "password" style)) :
    Paired s text text' (fun a a' => a.withoutPassword = a'.withoutPassword) (account i) (account i) := by
  have keys : ∀ n, s.Seen i n → ∀ e ∈ n.body.entries, e.1 ≠ s.hole := fun n seen e entry =>
    (leads n seen e entry).1
  refine paired_same ((apart s text text').entries _ _ known keys) ?_
  rintro es ⟨n, seen, each⟩
  have others : ∀ key, key ≠ "password" → ∀ j, es.lookup key = some j → s.away j := by
    intro key other j given
    obtain ⟨x, m, _, entry, seenKey, spelled⟩ := each _ (Survey.mem_of_lookup given)
    rcases (leads n seen _ entry).2 with away | ⟨-, style, body⟩
    · exact away
    · cases spelled.symm.trans (seenKey.text _ style body)
      exact absurd rfl other
  have shown : ∀ key, key ≠ "password" → ∀ j, es.lookup key = some j → j ≠ s.hole :=
    fun key other j given => Secret.ne_of_away (others key other j given)
  -- what the key of the password leads to may be the secret; it is taken as a text and no more
  have password : Paired s text text' (fun _ _ => True)
      (text? "password" (es.lookup "password")) (text? "password" (es.lookup "password")) := by
    by_cases hidden : es.lookup "password" = some s.hole
    · exact hidden ▸ text_hole _
    · refine paired_weaken ((apart s text text').text _ fun j given => ?_) fun _ _ _ => trivial
      exact fun same => hidden (same ▸ given)
  refine paired_same ((apart s text text').requiredText _ _ known (shown "host" (by decide)))
    fun host _ => ?_
  refine paired_same ((apart s text text').flagData fun flag _ => others flag.key ?_) fun given _ => ?_
  · cases flag <;> decide
  refine paired_same ((apart s text text').text _ (shown "username" (by decide))) fun username _ => ?_
  refine paired_bind password fun p p' _ => ?_
  refine paired_same ((apart s text text').text _ (shown "identity" (by decide))) fun identity _ => ?_
  refine paired_same ((apart s text text').items_clear _ (others "mailboxes" (by decide)))
    fun nodes away => ?_
  refine paired_same ((apart s text text').mapM fun j member =>
    (apart s text text').mailbox (away j member)) fun mailboxes _ => ?_
  cases Flags.read given with
  | error problems => exact paired_same (same_locate known) fun _ _ _ => Secret.together_throw (.same _)
  | ok flags => exact paired_same (same_locate known) fun location _ => paired_pure rfl

end Parts
end DocumentReader
end MailRules
