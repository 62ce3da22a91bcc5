import MailRules.Proofs.Yaml.Invariants
import MailRules.Proofs.Yaml.Valuing
/-!
Building the values of nodes: the nodes stay as the text allows, through every merge, and building is
at fault only for what the text holds.
-/
namespace MailRules.Yaml
open MailRules.Text

def BuildFailure.Allowed (text : List Char) : BuildFailure → Prop
  | .fault f => Provokes text f
  | _ => True

namespace Build

/-- From nodes as the text allows and a builder with `P`, the step ends with such nodes, with `Q` where
it succeeds; it fails as it may. -/
def Triple {α : Type} (text : List Char) (P : Builder → Prop) (s : Build α)
    (Q : α → Builder → Prop) : Prop :=
  ∀ b, b.graph.Sound text → P b → match s b with
    | (.ok a, b') => b'.graph.Sound text ∧ Q a b'
    | (.error failure, b') => b'.graph.Sound text ∧ failure.Allowed text

abbrev Keeps {α : Type} (text : List Char) (s : Build α) : Prop :=
  Triple text (fun _ => True) s fun _ _ => True

section Rules
variable {α β : Type} {text : List Char} {P : Builder → Prop} {Q Q' : α → Builder → Prop}
  {R : β → Builder → Prop}

theorem triple_pure {a : α} (holds : ∀ b, P b → Q a b) : Triple text P (pure a) Q :=
  fun b sound before => ⟨sound, holds b before⟩

theorem triple_weaken {P' : Builder → Prop} {s : Build α} (strong : Triple text P' s Q')
    (before : ∀ b, b.graph.Sound text → P b → P' b) (after : ∀ a b, Q' a b → Q a b) : Triple text P s Q := by
  intro b sound holds
  have ended := strong b sound (before b sound holds)
  cases same : s b with
  | mk r b' =>
    rw [same] at ended
    cases r with
    | ok a => exact ⟨ended.1, after _ _ ended.2⟩
    | error failure => exact ended

theorem triple_bind {s : Build α} {next : α → Build β} (first : Triple text P s Q)
    (later : ∀ a, Triple text (Q a) (next a) R) : Triple text P (s >>= next) R := by
  intro b sound holds
  have ended := first b sound holds
  rw [bind_apply]
  cases same : s b with
  | mk r b' =>
    rw [same] at ended
    cases r with
    | ok a => exact later a b' ended.1 ended.2
    | error failure => exact ended

theorem triple_nodeAt {i : NodeId} {next : Node → Build β}
    (later : ∀ n, Triple text (fun b => P b ∧ b.graph.node i = n) (next n) R) :
    Triple text P (nodeAt i >>= next) R := by
  intro b sound holds
  rw [bind_apply]
  exact later _ b sound ⟨holds, rfl⟩

end Rules

section Tags
variable {text : List Char}

/-- The tag of the node asks nothing of its content. -/
def Loose (text : List Char) (i : NodeId) (b : Builder) : Prop :=
  '!' ∈ text ∨ (b.graph.node i).tag ∈ Tag.loose

theorem loose_of_body {b : Builder} {i : NodeId} (sound : b.graph.Sound text)
    (noScalar : ∀ s style, (b.graph.node i).body ≠ .scalar s style) : Loose text i b := by
  rcases sound i with exclamation | loose | ⟨s, style, body, -⟩
  · exact .inl exclamation
  · exact .inr loose
  · exact absurd body (noScalar s style)

end Tags

/-! The texts of scalars -/

section Texts
variable {text : List Char}

theorem scalarText_ends (fuel : Nat) : ∀ (i : NodeId) {b : Builder}, b.graph.Sound text →
    match scalarText i fuel b with
    | (.ok s, b') => b' = b ∧
        ((b.graph.node i).tag ∈ Tag.loose ∨ ScalarValue.Spelled text (b.graph.node i).tag s.toList)
    | (.error failure, b') => b' = b ∧ failure.Allowed text := by
  induction fuel with
  | zero => exact fun i b _ => ⟨rfl, trivial⟩
  | succ fuel ih =>
    intro i b sound
    have spelled : Loose text i b → ∀ s : String, (b.graph.node i).tag ∈ Tag.loose ∨
        ScalarValue.Spelled text (b.graph.node i).tag s.toList :=
      fun loose s => loose.elim (fun exclamation => .inr (.inl exclamation)) .inl
    unfold scalarText
    rw [bind_apply, get_apply]
    dsimp only
    cases body : (b.graph.node i).body with
    | scalar s style =>
      refine ⟨rfl, ?_⟩
      rcases sound i with exclamation | loose | ⟨s', style', body', same, plain⟩
      · exact .inr (.inl exclamation)
      · exact .inl loose
      · cases body.symm.trans body'
        exact .inr (.inr ⟨same, plain⟩)
    | mapping entries inFlow =>
      have loose := loose_of_body sound (i := i) (by simp [body])
      dsimp only
      cases entries.find? fun e => (b.graph.node e.1).tag = Tag.value with
      | none => exact ⟨rfl, trivial⟩
      | some e =>
        have below := ih e.2 sound
        cases same : scalarText e.2 fuel b with
        | mk r b' =>
          rw [same] at below
          dsimp only
          rw [same]
          cases r with
          | ok s => exact ⟨below.1, spelled loose s⟩
          | error failure => exact below
    | sequence items inFlow => exact ⟨rfl, trivial⟩

theorem scalarText_stays {P : Builder → Prop} (i : NodeId) (fuel : Nat) :
    Triple text P (scalarText i fuel) fun _ => P := by
  intro b sound holds
  have ended := scalarText_ends fuel i sound
  cases same : scalarText i fuel b with
  | mk r b' =>
    rw [same] at ended
    cases r with
    | ok s => exact ended.1 ▸ ⟨sound, holds⟩
    | error failure => exact ⟨ended.1 ▸ sound, ended.2⟩

theorem ofText_keeps {i : NodeId} {tag : String} {read : List Char → Except ScalarFailure Datum}
    (reads : ∀ cs, tag ∈ Tag.loose ∨ ScalarValue.Spelled text tag cs →
      Ends (ScalarFailure.Allowed text) (fun _ => True) (read cs)) :
    Triple text (fun b => (b.graph.node i).tag = tag) (ofText i read) fun _ _ => True := by
  rintro b sound rfl
  have found := scalarText_ends (b.graph.size + 1) i sound
  unfold ofText
  rw [bind_apply, get_apply]
  dsimp only
  rw [bind_apply]
  cases same : scalarText i (b.graph.size + 1) b with
  | mk r b' =>
    rw [same] at found
    cases r with
    | error failure => exact ⟨found.1 ▸ sound, found.2⟩
    | ok s =>
      obtain ⟨rfl, spelled⟩ := found
      have ended := reads s.toList spelled
      dsimp only
      cases outcome : read s.toList with
      | ok d => exact ⟨sound, trivial⟩
      | error failure =>
        rw [outcome] at ended
        cases failure with
        | refused reason => exact ⟨sound, trivial⟩
        | content reason => exact ⟨sound, trivial⟩
        | fault f => exact ⟨sound, ended⟩

theorem timestamp_keeps (i : NodeId) :
    Triple text (fun b => (b.graph.node i).tag = Tag.timestamp) (timestamp i) fun _ _ => True := by
  refine triple_bind (Q := fun _ b => (b.graph.node i).tag = Tag.timestamp)
    (fun b sound tag => ⟨sound, tag⟩) fun b => ?_
  refine triple_bind (Q := fun _ b => (b.graph.node i).tag = Tag.timestamp) ?_ fun _ => ?_
  · change Triple text _ ((fun _ => ()) <$> scalarText i (b.graph.size + 1)) _
    rw [← bind_pure_comp]
    exact triple_bind (scalarText_stays i _) fun _ => triple_pure fun _ => id
  · refine triple_nodeAt fun n => ?_
    split
    · refine triple_weaken (ofText_keeps ?_) (fun b _ holds => holds.1) fun _ _ => id
      exact fun cs spelled => ScalarValue.timestamp_allowed (spelled.resolve_left (by decide))
    · rename_i noScalar
      rintro b sound ⟨tag, rfl⟩
      refine ⟨sound, ?_⟩
      rcases sound i with exclamation | loose | ⟨s, style, body, -⟩
      · exact exclamation
      · exact absurd (tag ▸ loose) (by decide)
      · exact absurd body (noScalar s style)

end Texts

/-! Values -/

section Values
variable {text : List Char}

theorem scalarStep_keeps {i : NodeId} {tag : String} {s : Build Datum} (step : ScalarStep i tag s) :
    Triple text (fun b => (b.graph.node i).tag = tag) s fun _ _ => True := by
  cases step with
  | str => exact ofText_keeps fun _ _ => by trivial
  | int => exact ofText_keeps fun _ spelled => ScalarValue.int_allowed (spelled.resolve_left (by decide))
  | null => exact ofText_keeps fun _ _ => by trivial
  | bool => exact ofText_keeps fun _ spelled => ScalarValue.bool_allowed (spelled.resolve_left (by decide))
  | float =>
    exact ofText_keeps fun _ spelled => ScalarValue.float_allowed (spelled.resolve_left (by decide))
  | timestamp => exact timestamp_keeps i
  | binary => exact ofText_keeps fun cs _ => ScalarValue.binary_ends cs

def soundness (text : List Char) : Invariant where
  Holds := fun b => b.graph.Sound text
  Makes := fun _ _ => True
  Fails := BuildFailure.Allowed text
  problem := fun _ => trivial
  endless := trivial
  setBody := fun body sound noScalar =>
    Graph.sound_setBody sound body (loose_of_body sound fun s style same => noScalar ⟨s, style, same⟩)
  setText := fun sound _ => Graph.sound_setTag sound (by simp [Tag.loose])
  begins := fun _ sound => sound
  ends := fun sound _ => sound
  collection := fun _ _ _ => trivial
  scalar := fun sound step => scalarStep_keeps step _ sound rfl

theorem value_keeps (i : NodeId) : Keeps text (value i) :=
  fun b sound _ => value_maintained (soundness text) i b sound

end Values
end Build
end MailRules.Yaml
