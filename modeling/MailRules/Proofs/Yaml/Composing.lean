import MailRules.Proofs.Yaml.Lexing
import MailRules.Yaml.Tree
/-!
The nodes of a text: where no tag is written, a node is a collection or a text, or it is a scalar whose
tag follows from how it is spelled. A node gets its content after the nodes below it have been read,
so the tags of the nodes so far are known to stay.
-/
namespace MailRules.Yaml
open MailRules.Text

/-- The tags that a node may have whatever its content. -/
def Tag.loose : List String := [Tag.str, Tag.seq, Tag.map]

/-- What is known of a node: a tag is written somewhere, or the tag asks nothing of the content, or
it follows from the spelling of a plain scalar. -/
def Node.Sound (text : List Char) (n : Node) : Prop :=
  '!' ∈ text ∨ n.tag ∈ Tag.loose ∨
    ∃ s style, n.body = .scalar s style ∧ n.tag = Tag.ofText s.toList ∧ Scan.IsPlain text s.toList

def Node.Plain (text : List Char) (n : Node) : Prop :=
  ∀ s, n.body = .scalar s .plain → Scan.IsPlain text s.toList

namespace Graph

def Sound (text : List Char) (g : Graph) : Prop := ∀ i, (g.node i).Sound text

def Plain (text : List Char) (g : Graph) : Prop := ∀ i, (g.node i).Plain text

/-- The second graph has the nodes of the first under the tags that they have there. -/
structure Extends (g g' : Graph) : Prop where
  size : g.size ≤ g'.size
  tag : ∀ i, i < g.size → (g'.node i).tag = (g.node i).tag

section Changes
variable {text : List Char} {g g' g'' : Graph}

theorem extends_refl (g : Graph) : g.Extends g := ⟨le_refl _, fun _ _ => rfl⟩

theorem extends_trans (first : g.Extends g') (second : g'.Extends g'') : g.Extends g'' :=
  ⟨first.size.trans second.size, fun i inside =>
    (second.tag i (inside.trans_le first.size)).trans (first.tag i inside)⟩

theorem node_push (n : Node) (i : NodeId) :
    (g.push n).2.node i = if i = g.size then n else g.node i := by
  simp only [node, push, size, Array.getD_eq_getD_getElem?, Array.getElem?_push]
  split <;> rfl

theorem node_modify (i j : NodeId) (f : Node → Node) :
    (⟨g.nodes.modify i f⟩ : Graph).node j = if i = j ∧ i < g.size then f (g.node j) else g.node j := by
  simp only [node, size, Array.getD_eq_getD_getElem?, Array.getElem?_modify]
  by_cases same : i = j
  · subst same
    by_cases inside : i < g.nodes.size
    · simp [inside]
    · simp [inside]
  · simp [same]

theorem extends_push (n : Node) : g.Extends (g.push n).2 := by
  refine ⟨by simp [push, size], fun i inside => ?_⟩
  rw [node_push, if_neg (Nat.ne_of_lt inside)]

theorem extends_setBody (i : NodeId) (body : NodeBody) : g.Extends (g.setBody i body) := by
  refine ⟨by simp [setBody, size], fun j _ => ?_⟩
  rw [setBody, node_modify]
  split <;> rfl

theorem sound_push {n : Node} (sound : g.Sound text) (node : n.Sound text) :
    (g.push n).2.Sound text := by
  intro i
  rw [node_push]
  split
  · exact node
  · exact sound i

theorem sound_setBody {i : NodeId} (sound : g.Sound text) (body : NodeBody)
    (loose : '!' ∈ text ∨ (g.node i).tag ∈ Tag.loose) : (g.setBody i body).Sound text := by
  intro j
  rw [setBody, node_modify]
  split
  · rename_i here
    obtain ⟨rfl, -⟩ := here
    exact loose.imp id .inl
  · exact sound j

theorem plain_push {n : Node} (plain : g.Plain text) (node : n.Plain text) : (g.push n).2.Plain text := by
  intro i
  rw [node_push]
  split
  · exact node
  · exact plain i

theorem plain_setBody {i : NodeId} {body : NodeBody} (plain : g.Plain text)
    (collection : ∀ s, body ≠ .scalar s .plain) : (g.setBody i body).Plain text := by
  intro j
  rw [setBody, node_modify]
  split
  · exact fun s same => absurd same (collection s)
  · exact plain j

theorem sound_setTag {i : NodeId} {tag : String} (sound : g.Sound text) (loose : tag ∈ Tag.loose) :
    (g.setTag i tag).Sound text := by
  intro j
  rw [setTag, node_modify]
  split
  · exact .inr (.inl loose)
  · exact sound j

end Changes
end Graph

namespace Read

structure At (text : List Char) (g : Graph) (r : Reading) : Prop where
  tokens : ∀ t ∈ r.tokens, t.Sound text
  stop : ∀ stop ∈ r.stop, stop.Allowed text
  graph : r.graph.Sound text
  plain : r.graph.Plain text
  extends_ : g.Extends r.graph

def Gives {α : Type} (text : List Char) (g : Graph) (m : Read α) (Q : α → Prop) : Prop :=
  ∀ r, At text g r → Ends (Stop.Allowed text) (fun e => At text g e.2 ∧ Q e.1) (m r)

abbrev Reads {α : Type} (text : List Char) (g : Graph) (m : Read α) : Prop :=
  Gives text g m fun _ => True

section Rules
variable {α β : Type} {text : List Char} {g : Graph} {Q : α → Prop} {R : β → Prop}

theorem gives_pure {a : α} (holds : Q a) : Gives text g (pure a) Q := fun _ at_ => ⟨at_, holds⟩

theorem reads_pure (a : α) : Reads text g (pure a) := gives_pure trivial

theorem gives_bind {m : Read α} {next : α → Read β} (first : Gives text g m Q)
    (later : ∀ a, Q a → Gives text g (next a) R) : Gives text g (m >>= next) R :=
  fun r at_ => ends_bind (first r at_) fun e holds => later e.1 holds.2 e.2 holds.1

theorem gives_after {m : Read α} {next : α → Read β} (first : Reads text g m)
    (later : ∀ a, Gives text g (next a) R) : Gives text g (m >>= next) R :=
  gives_bind first fun a _ => later a

theorem gives_when {condition : Prop} [Decidable condition] {m : Read PUnit}
    {next : PUnit → Read β} (first : Reads text g m) (later : ∀ u, Gives text g (next u) R) :
    Gives text g (if condition then m >>= next else next ⟨⟩) R := by
  split
  · exact gives_after first later
  · exact later ⟨⟩

theorem gives_either {condition : Prop} [Decidable condition] {m m' : Read α} {next : α → Read β}
    (yes : Reads text g m) (no : Reads text g m') (later : ∀ a, Gives text g (next a) R) :
    Gives text g (if condition then m >>= next else m' >>= next) R := by
  split
  · exact gives_after yes later
  · exact gives_after no later

theorem gives_ite {condition : Prop} [Decidable condition] {m m' : Read α}
    (yes : Gives text g m Q) (no : Gives text g m' Q) :
    Gives text g (if condition then m else m') Q := by
  split
  · exact yes
  · exact no

end Rules

section Steps
variable {α : Type} {text : List Char} {g : Graph} {Q : α → Prop}

theorem gives_problem (p : Problem) : Gives text g (throw (.problem p)) Q := fun _ _ => trivial

theorem gives_endless : Gives text g (throw (.fault .endlessNesting)) Q := fun _ _ => trivial

theorem peek_gives : Gives text g peek (Token.Sound text) := by
  rintro ⟨tokens, stop, graph, anchors, handles⟩ at_
  cases tokens with
  | cons t rest => exact ⟨at_, at_.tokens t List.mem_cons_self⟩
  | nil =>
    cases stop with
    | none => trivial
    | some stop => exact at_.stop stop rfl

theorem reads_peek : Reads text g peek :=
  fun r at_ => ends_weaken (peek_gives r at_) (fun _ => id) fun _ e => ⟨e.1, trivial⟩

theorem reads_get : Reads text g get := fun _ at_ => ⟨at_, trivial⟩

theorem reads_kind : Reads text g kind := gives_after reads_peek fun _ => reads_pure _

theorem reads_advance : Reads text g advance :=
  fun _ at_ => ⟨⟨fun t inside => at_.tokens t (List.mem_of_mem_drop inside), at_.stop, at_.graph,
    at_.plain, at_.extends_⟩, trivial⟩

theorem reads_take : Reads text g take :=
  gives_after reads_peek fun _ => gives_after reads_advance fun _ => reads_pure _

theorem gives_fail (message : String) (m : Mark) : Gives text g (fail message m) Q := gives_problem _

theorem gives_failAtToken (message : String) : Gives text g (failAtToken message) Q :=
  gives_after reads_peek fun _ => gives_fail _ _

theorem fullTag_reads (handle : Option String) (suffix : String) (m : Mark) :
    Reads text g (fullTag handle suffix m) := by
  cases handle with
  | none => exact reads_pure _
  | some h =>
    refine gives_after reads_get fun r => ?_
    split
    · exact reads_pure _
    · exact gives_fail _ _

theorem anchorHere_reads : Reads text g anchorHere? := by
  refine gives_after reads_peek fun t => ?_
  split
  · exact gives_after reads_advance fun _ => reads_pure _
  · exact reads_pure _

theorem tagHere_gives : Gives text g tagHere? fun tag? => tag? = none ∨ '!' ∈ text := by
  refine gives_bind peek_gives fun t token => ?_
  split
  · exact gives_after reads_advance fun _ => gives_pure (.inr token)
  · exact gives_pure (.inl rfl)

theorem properties_gives : Gives text g properties fun p => '!' ∈ text ∨ p.tag = none := by
  refine gives_after anchorHere_reads fun anchor? => ?_
  split
  · refine gives_bind tagHere_gives fun tag? written => ?_
    split
    · refine gives_after (fullTag_reads _ _ _) fun tag => gives_pure ?_
      exact .inl (written.resolve_left (by simp))
    · exact gives_pure (.inr rfl)
  · refine gives_bind tagHere_gives fun tag? written => ?_
    split
    · refine gives_after anchorHere_reads fun anchor? => ?_
      refine gives_after (fullTag_reads _ _ _) fun tag => gives_pure ?_
      exact .inl (written.resolve_left (by simp))
    · exact gives_pure (.inr rfl)

theorem at_graph {r : Reading} {graph : Graph} (at_ : At text g r) (sound : graph.Sound text)
    (plain : graph.Plain text) (more : r.graph.Extends graph) (anchors : List (String × NodeId)) :
    At text g { r with graph := graph, anchors := anchors } :=
  ⟨at_.tokens, at_.stop, sound, plain, Graph.extends_trans at_.extends_ more⟩

theorem add_ends {p : Properties} {n : Node} {r : Reading} (sound : n.Sound text) (plain : n.Plain text)
    (at_ : At text g r) :
    Ends (Stop.Allowed text) (fun e => At text g e.2 ∧ e.1 < e.2.graph.size ∧ (e.2.graph.node e.1).tag = n.tag)
      (add p n r) := by
  have pushed : ∀ anchors, At text g { r with graph := (r.graph.push n).2, anchors := anchors } :=
    at_graph at_ (Graph.sound_push at_.graph sound) (Graph.plain_push at_.plain plain) (Graph.extends_push n)
  have there : r.graph.size < (r.graph.push n).2.size := by simp [Graph.push, Graph.size]
  have tag : ((r.graph.push n).2.node r.graph.size).tag = n.tag := by rw [Graph.node_push, if_pos rfl]
  obtain ⟨anchor, written, start⟩ := p
  cases anchor with
  | none => exact ⟨pushed r.anchors, there, tag⟩
  | some name =>
    change Ends (Stop.Allowed text) _ ((if (r.anchors.lookup name).isSome then _ else _ : Read NodeId) r)
    split
    · trivial
    · exact ⟨pushed _, there, tag⟩

theorem reads_add {p : Properties} {n : Node} (sound : n.Sound text) (plain : n.Plain text) :
    Reads text g (add p n) :=
  fun _ at_ => ends_weaken (add_ends sound plain at_) (fun _ => id) fun _ added => ⟨added.1, trivial⟩

theorem gives_reserve {p : Properties} {n : Node} {next : NodeId → Read α} (sound : n.Sound text)
    (collection : ∀ s, n.body ≠ .scalar s .plain)
    (later : ∀ (g' : Graph) i, i < g'.size → (g'.node i).tag = n.tag → Gives text g' (next i) Q) :
    Gives text g (add p n >>= next) Q := by
  intro r at_
  have plain : n.Plain text := fun s same => absurd same (collection s)
  refine ends_bind (add_ends sound plain at_) fun e added => ?_
  obtain ⟨after, there, tag⟩ := added
  have from_ : At text e.2.graph e.2 := ⟨after.tokens, after.stop, after.graph, after.plain, Graph.extends_refl _⟩
  have ends := later e.2.graph e.1 there tag e.2 from_
  refine ends_weaken ends (fun _ => id) fun e' ended => ⟨?_, ended.2⟩
  exact ⟨ended.1.tokens, ended.1.stop, ended.1.graph, ended.1.plain,
    Graph.extends_trans after.extends_ ended.1.extends_⟩

theorem reads_setBody {i : NodeId} {body : NodeBody} (collection : ∀ s, body ≠ .scalar s .plain)
    (inside : i < g.size)
    (loose : '!' ∈ text ∨ (g.node i).tag ∈ Tag.loose) : Reads text g (setBody i body) := by
  intro r at_
  have now : '!' ∈ text ∨ (r.graph.node i).tag ∈ Tag.loose := by
    rwa [at_.extends_.tag i inside]
  exact ⟨at_graph at_ (Graph.sound_setBody at_.graph body now) (Graph.plain_setBody at_.plain collection)
    (Graph.extends_setBody i body) r.anchors, trivial⟩

theorem reads_fill {β : Type} {i : NodeId} {fill : Read β} {body : β → NodeBody}
    (collection : ∀ b s, body b ≠ .scalar s .plain) (inside : i < g.size)
    (loose : '!' ∈ text ∨ (g.node i).tag ∈ Tag.loose) (fills : Reads text g fill) :
    Reads text g (do let b ← fill; setBody i (body b); return i) :=
  gives_after fills fun b => gives_after (reads_setBody (collection b) inside loose) fun _ => reads_pure _

theorem scalar_sound {p : Properties} {s : String} {style : ScalarStyle}
    (written : '!' ∈ text ∨ p.tag = none) (plain : style = .plain → Scan.IsPlain text s.toList)
    (m : Mark) : Node.Sound text ⟨scalarTag p.tag s style, .scalar s style, m⟩ := by
  refine written.imp id fun untagged => ?_
  by_cases same : style = .plain
  · exact .inr ⟨s, style, rfl, by simp [untagged, scalarTag, same], plain same⟩
  · exact .inl (by simp [untagged, scalarTag, same, Tag.loose])

theorem scalar_plain {tag s : String} {style : ScalarStyle} {m : Mark}
    (plain : style = .plain → Scan.IsPlain text s.toList) : Node.Plain text ⟨tag, .scalar s style, m⟩ := by
  rintro s' ⟨⟩
  exact plain rfl

theorem reads_emptyScalar (m : Mark) : Reads text g (emptyScalar m) := by
  have empty : Node.Sound text ⟨scalarTag none "" .plain, .scalar "" .plain, m⟩ :=
    scalar_sound (p := {}) (.inr rfl) (fun _ => Scan.isPlain_nil) m
  exact reads_add empty (scalar_plain fun _ => Scan.isPlain_nil)

theorem collectionTag_loose {p : Properties} (default : String)
    (written : '!' ∈ text ∨ p.tag = none) (loose : default ∈ Tag.loose) :
    '!' ∈ text ∨ collectionTag p.tag default ∈ Tag.loose := by
  refine written.imp id fun untagged => ?_
  simpa [untagged, collectionTag, isOpenTag] using loose

end Steps

/-! Nodes -/

structure Level (text : List Char) (fuel : Nat) : Prop where
  node : ∀ g allowed, Reads text g (node allowed fuel)
  blockItems : ∀ g, Reads text g (blockItems fuel)
  indentlessItems : ∀ g, Reads text g (indentlessItems fuel)
  blockEntries : ∀ g, Reads text g (blockEntries fuel)
  blockValue : ∀ g, Reads text g (blockValue fuel)
  flowItems : ∀ g isFirst, Reads text g (flowItems isFirst fuel)
  flowValue : ∀ g close, Reads text g (flowValue close fuel)
  flowEntries : ∀ g isFirst, Reads text g (flowEntries isFirst fuel)

section Nodes
variable {text : List Char} {g : Graph} {fuel : Nat}

theorem node_reads (below : Level text fuel) (allowed : Allowed) :
    Reads text g (node allowed (fuel + 1)) := by
  unfold node
  refine gives_after reads_peek fun first => ?_
  split
  · refine gives_after reads_advance fun _ => ?_
    refine gives_after reads_get fun r => ?_
    split
    · exact reads_pure _
    · exact gives_fail _ _
  · refine gives_bind properties_gives fun p written => ?_
    refine gives_bind peek_gives fun t token => ?_
    extract_lets start sequence mapping
    have sequences := collectionTag_loose Tag.seq written (by simp [Tag.loose])
    have mappings := collectionTag_loose Tag.map written (by simp [Tag.loose])
    split
    · rename_i s style kind
      refine gives_after reads_advance fun _ => ?_
      have plain : style = .plain → Scan.IsPlain text s.toList := by
        rintro rfl
        rwa [Token.Sound, kind] at token
      exact reads_add (scalar_sound written plain start) (scalar_plain plain)
    · refine gives_reserve (sequences.imp id .inl) (by simp) fun g' i there tag => ?_
      refine gives_after reads_advance fun _ => ?_
      exact reads_fill (by simp) there (tag ▸ sequences) (below.flowItems g' true)
    · refine gives_reserve (mappings.imp id .inl) (by simp) fun g' i there tag => ?_
      refine gives_after reads_advance fun _ => ?_
      exact reads_fill (by simp) there (tag ▸ mappings) (below.flowEntries g' true)
    · apply gives_ite
      · refine gives_reserve (sequences.imp id .inl) (by simp) fun g' i there tag => ?_
        exact reads_fill (by simp) there (tag ▸ sequences) (below.indentlessItems g')
      · apply gives_ite
        · refine gives_reserve (sequences.imp id .inl) (by simp) fun g' i there tag => ?_
          refine gives_after reads_advance fun _ => ?_
          exact reads_fill (by simp) there (tag ▸ sequences) (below.blockItems g')
        · apply gives_ite
          · refine gives_reserve (mappings.imp id .inl) (by simp) fun g' i there tag => ?_
            refine gives_after reads_advance fun _ => ?_
            exact reads_fill (by simp) there (tag ▸ mappings) (below.blockEntries g')
          · apply gives_ite
            · exact reads_add (scalar_sound written (fun _ => Scan.isPlain_nil) start)
                (scalar_plain fun _ => Scan.isPlain_nil)
            · exact gives_failAtToken _

theorem blockItems_reads (below : Level text fuel) : Reads text g (blockItems (fuel + 1)) := by
  unfold blockItems
  refine gives_after reads_kind fun k => ?_
  apply gives_ite
  · refine gives_after reads_take fun t => ?_
    refine gives_after reads_kind fun k => ?_
    apply gives_either (reads_emptyScalar _) (below.node g _)
    intro item
    exact gives_after (below.blockItems g) fun _ => reads_pure _
  · refine gives_after reads_kind fun k => ?_
    apply gives_ite
    · exact gives_after reads_advance fun _ => reads_pure _
    · exact gives_failAtToken _

theorem indentlessItems_reads (below : Level text fuel) :
    Reads text g (indentlessItems (fuel + 1)) := by
  unfold indentlessItems
  refine gives_after reads_kind fun k => ?_
  apply gives_ite
  · refine gives_after reads_take fun t => ?_
    refine gives_after reads_kind fun k => ?_
    apply gives_either (reads_emptyScalar _) (below.node g _)
    intro item
    exact gives_after (below.indentlessItems g) fun _ => reads_pure _
  · exact reads_pure _

theorem blockEntries_reads (below : Level text fuel) : Reads text g (blockEntries (fuel + 1)) := by
  unfold blockEntries
  refine gives_after reads_kind fun k => ?_
  apply gives_ite
  · refine gives_after reads_take fun t => ?_
    refine gives_after reads_kind fun k => ?_
    apply gives_either (reads_emptyScalar _) (below.node g _)
    intro key
    refine gives_after (below.blockValue g) fun value => ?_
    exact gives_after (below.blockEntries g) fun _ => reads_pure _
  · refine gives_after reads_kind fun k => ?_
    apply gives_ite
    · exact gives_after reads_advance fun _ => reads_pure _
    · exact gives_failAtToken _

theorem blockValue_reads (below : Level text fuel) : Reads text g (blockValue (fuel + 1)) := by
  unfold blockValue
  refine gives_after reads_peek fun t => ?_
  apply gives_ite
  · refine gives_after reads_advance fun _ => ?_
    refine gives_after reads_kind fun k => ?_
    exact gives_ite (reads_emptyScalar _) (below.node g _)
  · exact reads_emptyScalar _

theorem flowValue_reads (below : Level text fuel) (close : TokenKind) :
    Reads text g (flowValue close (fuel + 1)) := by
  unfold flowValue
  refine gives_after reads_peek fun t => ?_
  apply gives_ite
  · refine gives_after reads_advance fun _ => ?_
    refine gives_after reads_kind fun k => ?_
    exact gives_ite (reads_emptyScalar _) (below.node g _)
  · exact reads_emptyScalar _

theorem gives_separated {β : Type} {R : β → Prop} {isFirst : Bool} {message : String}
    {next : Unit → Read β} (later : ∀ u, Gives text g (next u) R) :
    Gives text g (if !isFirst then do
        if (← kind) = .flowEntry then advance else failAtToken message
        next ()
      else next ()) R := by
  apply gives_ite
  · refine gives_after reads_kind fun k => ?_
    exact gives_either reads_advance (gives_failAtToken _) later
  · exact later ()

theorem flowItems_reads (below : Level text fuel) (isFirst : Bool) :
    Reads text g (flowItems isFirst (fuel + 1)) := by
  unfold flowItems
  refine gives_after reads_kind fun k => ?_
  apply gives_ite
  · exact gives_after reads_advance fun _ => reads_pure _
  · extract_lets rest
    have reads_rest : ∀ u, Reads text g (rest u) := by
      intro u
      refine gives_after reads_peek fun t => ?_
      apply gives_ite
      · refine gives_reserve (.inr (.inl (by simp [Tag.loose]))) (by simp) fun g' i there tag => ?_
        refine gives_after reads_advance fun _ => ?_
        refine gives_after reads_kind fun k => ?_
        apply gives_either (reads_emptyScalar _) (below.node g' _)
        intro key
        refine gives_after (below.flowValue g' _) fun value => ?_
        refine gives_after (reads_setBody (by simp) there (.inr (by simp [tag, Tag.loose]))) fun _ => ?_
        exact gives_after (below.flowItems g' _) fun _ => reads_pure _
      · apply gives_ite
        · exact gives_after reads_advance fun _ => reads_pure _
        · refine gives_after (below.node g _) fun item => ?_
          exact gives_after (below.flowItems g _) fun _ => reads_pure _
    exact gives_separated reads_rest

theorem flowEntries_reads (below : Level text fuel) (isFirst : Bool) :
    Reads text g (flowEntries isFirst (fuel + 1)) := by
  unfold flowEntries
  refine gives_after reads_kind fun k => ?_
  apply gives_ite
  · exact gives_after reads_advance fun _ => reads_pure _
  · extract_lets finish rest
    have reads_finish : ∀ key, Reads text g (finish key) := by
      intro key
      refine gives_after (below.flowValue g _) fun value => ?_
      exact gives_after (below.flowEntries g _) fun _ => reads_pure _
    have reads_rest : ∀ u, Reads text g (rest u) := by
      intro u
      refine gives_after reads_peek fun t => ?_
      apply gives_ite
      · refine gives_after reads_advance fun _ => ?_
        refine gives_after reads_kind fun k => ?_
        exact gives_either (reads_emptyScalar _) (below.node g _) reads_finish
      · apply gives_ite
        · exact gives_after reads_advance fun _ => reads_pure _
        · refine gives_after (below.node g _) fun key => ?_
          refine gives_after reads_peek fun t => ?_
          refine gives_after (reads_emptyScalar _) fun value => ?_
          exact gives_after (below.flowEntries g _) fun _ => reads_pure _
    exact gives_separated reads_rest

/-- By induction on the fuel, all parts of a node together. -/
theorem level (text : List Char) (fuel : Nat) : Level text fuel := by
  induction fuel with
  | zero =>
    constructor <;> intros <;> exact gives_endless
  | succ fuel below =>
    exact ⟨fun _ => node_reads below, fun _ => blockItems_reads below,
      fun _ => indentlessItems_reads below, fun _ => blockEntries_reads below,
      fun _ => blockValue_reads below, fun _ => flowItems_reads below,
      fun _ => flowValue_reads below, fun _ => flowEntries_reads below⟩

end Nodes

section Documents
variable {text : List Char} {g : Graph}

theorem directives_reads (fuel : Nat) :
    ∀ hasVersion handles, Reads text g (directives hasVersion handles fuel) := by
  induction fuel with
  | zero => exact fun _ _ => gives_endless
  | succ fuel ih =>
    intro hasVersion handles
    refine gives_after reads_peek fun t => ?_
    split
    · refine gives_after reads_advance fun _ => ?_
      split
      · refine gives_when (gives_fail _ _) fun _ => ?_
        exact gives_when (gives_fail _ _) fun _ => ih _ _
      · exact gives_when (gives_fail _ _) fun _ => ih _ _
      · exact ih _ _
    · exact reads_pure _

theorem skipDocumentEnds_reads (fuel : Nat) : Reads text g (skipDocumentEnds fuel) := by
  induction fuel with
  | zero => exact reads_pure _
  | succ fuel ih =>
    refine gives_after reads_kind fun k => ?_
    exact gives_ite (gives_after reads_advance fun _ => ih) (reads_pure _)

theorem reads_setHandles (handles : List (String × String)) :
    Reads text g (modify fun r => { r with handles := handles }) :=
  fun _ at_ => ⟨⟨at_.tokens, at_.stop, at_.graph, at_.plain, at_.extends_⟩, trivial⟩

theorem explicitStart_reads (fuel : Nat) : Reads text g (explicitStart fuel) := by
  refine gives_after (directives_reads fuel _ _) fun handles => ?_
  refine gives_after (reads_setHandles handles) fun _ => ?_
  refine gives_after reads_kind fun k => ?_
  exact gives_when (gives_failAtToken _) fun _ => reads_advance

theorem explicitRoot_reads (fuel : Nat) : Reads text g (explicitRoot fuel) := by
  refine gives_after reads_peek fun t => ?_
  exact gives_ite (reads_emptyScalar _) ((level text fuel).node g _)

theorem startsExplicitly_reads : Reads text g startsExplicitly := by
  refine gives_after reads_kind fun k => ?_
  split <;> exact reads_pure _

theorem document_reads (fuel : Nat) : Reads text g (document fuel) := by
  refine gives_after reads_kind fun k => ?_
  apply gives_ite
  · exact reads_pure _
  · refine gives_after startsExplicitly_reads fun explicit => ?_
    extract_lets finish
    have reads_finish : ∀ root, Reads text g (finish root) := by
      intro root
      refine gives_after reads_kind fun k => ?_
      refine gives_when reads_advance fun _ => ?_
      refine gives_after (skipDocumentEnds_reads fuel) fun _ => ?_
      refine gives_after reads_peek fun t => ?_
      apply gives_ite
      · exact gives_after (explicitStart_reads fuel) fun _ => gives_after (gives_fail _ _) fun _ =>
          reads_pure _
      · exact reads_pure _
    apply gives_ite
    · refine gives_after (explicitStart_reads fuel) fun _ => ?_
      exact gives_after (explicitRoot_reads fuel) reads_finish
    · refine gives_after (reads_setHandles _) fun _ => ?_
      exact gives_after ((level text fuel).node g _) reads_finish

end Documents
end Read

theorem readTokens_sound {text : List Char} {s : Scanned} (sound : s.Sound text) :
    Ends (Stop.Allowed text) (fun tree => tree.graph.Sound text ∧ tree.graph.Plain text) (readTokens s) := by
  have absent : Graph.absent.Sound text := .inr (.inr ⟨"", .plain, rfl, rfl, Scan.isPlain_nil⟩)
  have empty : Graph.empty.Sound text := fun i => by simpa [Graph.empty, Graph.node] using absent
  have absentPlain : Graph.absent.Plain text := Read.scalar_plain fun _ => Scan.isPlain_nil
  have plain : Graph.empty.Plain text := fun i => by simpa [Graph.empty, Graph.node] using absentPlain
  refine ends_bind (Read.document_reads _ _ ⟨sound.tokens, sound.stop, empty, plain,
    Graph.extends_refl _⟩) fun e ended => ?_
  exact ⟨ended.1.graph, ended.1.plain⟩

def Refusal.Allowed (text : List Char) : Refusal → Prop
  | .badCharacter .. => True
  | .stop s => s.Allowed text

theorem Tree.ofText_known (text : List Char) :
    Ends (Refusal.Allowed text) (fun tree => tree.graph.Sound text ∧ tree.graph.Plain text)
      (Tree.ofText text) := by
  cases beyond : text.drop (text.takeWhile isAllowed).length with
  | cons c rest =>
    have refused : Tree.ofText text = .error (.badCharacter c (text.takeWhile isAllowed).length) := by
      simp [Tree.ofText, beyond]
    rw [refused]
    trivial
  | nil =>
    have tokens : Tree.ofText text = (readTokens (scan text)).mapError .stop := by
      simp [Tree.ofText, beyond]
    have sound := readTokens_sound (scan_sound text)
    rw [tokens]
    cases same : readTokens (scan text) with
    | ok tree => rwa [same] at sound
    | error stop => rwa [same] at sound

theorem Tree.ofText_sound (text : List Char) :
    match Tree.ofText text with
    | .ok tree => tree.graph.Sound text
    | .error refusal => refusal.Allowed text := by
  have known := Tree.ofText_known text
  cases opened : Tree.ofText text <;> rw [opened] at known
  · exact known
  · exact known.1

end MailRules.Yaml
