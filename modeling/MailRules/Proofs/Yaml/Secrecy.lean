import MailRules.Proofs.Yaml.Composing
import MailRules.Proofs.Yaml.Parts
import MailRules.Proofs.Document.Reader
/-!
Building the value of a node does not see what the node does not lead to. Of two graphs that differ in
one scalar, the same nodes are built alike: at every point the builders agree but for that scalar, so
that a node from which no way leads to it has the same value in both, or fails with the same problem.
-/
namespace MailRules.Yaml

/-- A scalar of a graph that is not to be seen, the scalar that another graph has in its place, and the
nodes from which no way leads to it. -/
structure Secret where
  graph : Graph
  hole : NodeId
  other : Node
  away : NodeId → Prop
  hidden : ¬away hole
  scalar : (graph.node hole).body.IsScalar
  otherScalar : other.body.IsScalar

namespace Secret

/-- What building may make of a node: it still leads away, a node that does not is as it was, and so is
the content of a scalar. -/
structure Seen (s : Secret) (i : NodeId) (n : Node) : Prop where
  inside : s.away i → ∀ j ∈ n.body.parts, s.away j
  outside : ¬s.away i → n = s.graph.node i
  text : ∀ text style, (s.graph.node i).body = .scalar text style → n.body = .scalar text style

structure Alike (s : Secret) (b b' : Builder) : Prop where
  size : b.graph.size = b'.graph.size
  nodes : ∀ i, i ≠ s.hole → b.graph.node i = b'.graph.node i
  other : b'.graph.node s.hole = s.other
  seen : ∀ i, s.Seen i (b.graph.node i)
  values : b.values = b'.values
  begun : b.begun = b'.begun

variable {s : Secret}

theorem ne_of_away {i : NodeId} (away : s.away i) : i ≠ s.hole := fun same => s.hidden (same ▸ away)

theorem Alike.node {b b' : Builder} (alike : s.Alike b b') {i : NodeId} (away : s.away i) :
    b.graph.node i = b'.graph.node i := alike.nodes i (ne_of_away away)

def AwayEntry (s : Secret) (e : NodeId × NodeId) : Prop := s.away e.1 ∧ s.away e.2

theorem awayEntries {entries : List (NodeId × NodeId)} {inFlow : Bool}
    (parts : ∀ j ∈ (NodeBody.mapping entries inFlow).parts, s.away j) :
    ∀ e ∈ entries, s.AwayEntry e := fun e member =>
  ⟨parts _ (NodeBody.mem_parts.mpr ⟨e, member, .inl rfl⟩),
    parts _ (NodeBody.mem_parts.mpr ⟨e, member, .inr rfl⟩)⟩

theorem away_parts {entries : List (NodeId × NodeId)} {inFlow : Bool}
    (away : ∀ e ∈ entries, s.AwayEntry e) :
    ∀ j ∈ (NodeBody.mapping entries inFlow).parts, s.away j := by
  intro j member
  obtain ⟨e, inside, rfl | rfl⟩ := NodeBody.mem_parts.mp member
  · exact (away e inside).1
  · exact (away e inside).2

theorem alike_modify {b b' : Builder} (alike : s.Alike b b') {i : NodeId} (away : s.away i)
    {f : Node → Node} (kept : ∀ n, s.Seen i n → s.Seen i (f n)) :
    s.Alike { b with graph := ⟨b.graph.nodes.modify i f⟩ }
      { b' with graph := ⟨b'.graph.nodes.modify i f⟩ } where
  size := by simpa [Graph.size] using alike.size
  nodes := fun j different => by
    simp only [Graph.node_modify, alike.size, alike.nodes j different]
  other := by
    rw [Graph.node_modify, if_neg fun here => ne_of_away away here.1]
    exact alike.other
  seen := fun j => by
    rw [Graph.node_modify]
    split
    · rename_i here
      exact here.1 ▸ kept _ (alike.seen i)
    · exact alike.seen j
  values := alike.values
  begun := alike.begun

/-! Two runs -/

inductive Matches {ε α β : Type} (E : ε → ε → Prop) (V : α → β → Prop) :
    Except ε α → Except ε β → Prop
  | ok {a : α} {b : β} : V a b → Matches E V (.ok a) (.ok b)
  | error {e e' : ε} : E e e' → Matches E V (.error e) (.error e')

/-- From builders that are alike, the steps end with matching results and leave builders that are
alike. -/
def Together {ε α β : Type} (s : Secret) (E : ε → ε → Prop) (V : α → β → Prop)
    (m : ExceptT ε (StateM Builder) α) (m' : ExceptT ε (StateM Builder) β) : Prop :=
  ∀ b b', s.Alike b b' → Matches E V (m b).1 (m' b').1 ∧ s.Alike (m b).2 (m' b').2

def Both {α : Type} (P : α → Prop) (a a' : α) : Prop := a = a' ∧ P a

section Rules
variable {ε α α' β β' : Type} {E : ε → ε → Prop} {V : α → α' → Prop} {W : β → β' → Prop} {P : α → Prop}

theorem together_pure {a : α} {a' : α'} (holds : V a a') : s.Together E V (pure a) (pure a') :=
  fun _ _ alike => ⟨.ok holds, alike⟩

theorem together_throw {e e' : ε} (holds : E e e') : s.Together E V (throw e) (throw e') :=
  fun _ _ alike => ⟨.error holds, alike⟩

theorem bind_run (m : ExceptT ε (StateM Builder) α) (next : α → ExceptT ε (StateM Builder) β)
    (b : Builder) : (m >>= next) b = match m b with
      | (.ok a, u) => next a u
      | (.error e, u) => (.error e, u) := by
  change (match m b with | (r, u) => ExceptT.bindCont next r u) = _
  cases m b with
  | mk r u => cases r <;> rfl

theorem together_bind {m : ExceptT ε (StateM Builder) α} {m' : ExceptT ε (StateM Builder) α'}
    {next : α → ExceptT ε (StateM Builder) β} {next' : α' → ExceptT ε (StateM Builder) β'}
    (first : s.Together E V m m') (later : ∀ a a', V a a' → s.Together E W (next a) (next' a')) :
    s.Together E W (m >>= next) (m' >>= next') := by
  intro b b' alike
  obtain ⟨ends, after⟩ := first b b' alike
  rw [bind_run, bind_run]
  cases left : m b with
  | mk r u =>
    cases right : m' b' with
    | mk r' u' =>
      rw [left, right] at ends after
      cases ends with
      | ok holds => exact later _ _ holds u u' after
      | error fails => exact ⟨.error fails, after⟩

theorem together_both {m m' : ExceptT ε (StateM Builder) α}
    {next : α → ExceptT ε (StateM Builder) β} {next' : α → ExceptT ε (StateM Builder) β'}
    (first : s.Together E (Both P) m m') (later : ∀ a, P a → s.Together E W (next a) (next' a)) :
    s.Together E W (m >>= next) (m' >>= next') :=
  together_bind first fun a _ same => same.1 ▸ later a same.2

theorem together_get {next : Builder → ExceptT ε (StateM Builder) β}
    {next' : Builder → ExceptT ε (StateM Builder) β'}
    (later : ∀ b b', s.Alike b b' → s.Together E W (next b) (next' b')) :
    s.Together E W (get >>= next) (get >>= next') :=
  fun b b' alike => later b b' alike b b' alike

theorem together_when {condition : Prop} [Decidable condition]
    {m : ExceptT ε (StateM Builder) PUnit} {m' : ExceptT ε (StateM Builder) PUnit}
    {next : PUnit → ExceptT ε (StateM Builder) β} {next' : PUnit → ExceptT ε (StateM Builder) β'}
    (first : s.Together E (Both fun _ => True) m m')
    (later : ∀ u, s.Together E W (next u) (next' u)) :
    s.Together E W (if condition then m >>= next else next ⟨⟩)
      (if condition then m' >>= next' else next' ⟨⟩) := by
  split
  · exact together_both first fun u _ => later u
  · exact later ⟨⟩

theorem together_weaken {V' : α → α' → Prop} {m : ExceptT ε (StateM Builder) α}
    {m' : ExceptT ε (StateM Builder) α'} (strong : s.Together E V' m m')
    (weaker : ∀ a a', V' a a' → V a a') : s.Together E V m m' := by
  intro b b' alike
  obtain ⟨ends, after⟩ := strong b b' alike
  refine ⟨?_, after⟩
  generalize (m b).1 = r, (m' b').1 = r' at ends
  cases ends with
  | ok holds => exact .ok (weaker _ _ holds)
  | error fails => exact .error fails

end Rules

/-! Building -/

/-- The step sees nothing of the secret, and gives a value with `P`. -/
abbrev Blind {α : Type} (s : Secret) (P : α → Prop) (m : Build α) : Prop := s.Together Eq (Both P) m m

section Steps
variable {α β : Type} {P : α → Prop} {Q : β → Prop}

theorem blind_pure {a : α} (holds : P a) : s.Blind P (pure a) := together_pure ⟨rfl, holds⟩

theorem blind_bind {m : Build α} {next : α → Build β} (first : s.Blind P m)
    (later : ∀ a, P a → s.Blind Q (next a)) : s.Blind Q (m >>= next) := together_both first later

theorem blind_throw (failure : BuildFailure) : s.Blind P (throw failure : Build α) :=
  together_throw rfl

theorem blind_fail (text : String) (m : Mark) : s.Blind P (Build.fail text m) := blind_throw _

theorem blind_failIn (context : String) (around : Mark) (text : String) (m : Mark) :
    s.Blind P (Build.failIn context around text m) := blind_throw _

theorem blind_nodeAt {i : NodeId} (away : s.away i) : s.Blind (s.Seen i) (Build.nodeAt i) :=
  fun _ _ alike => ⟨.ok ⟨alike.node away, alike.seen i⟩, alike⟩

theorem blind_setBody {i : NodeId} {body : NodeBody} (away : s.away i)
    (parts : ∀ j ∈ body.parts, s.away j) (noScalar : ¬(s.graph.node i).body.IsScalar) :
    s.Blind (fun _ => True) (Build.setBody i body) := by
  have kept : ∀ n, s.Seen i n → s.Seen i { n with body := body } := fun _ _ =>
    ⟨fun _ => parts, fun out => absurd away out, fun text style is =>
      absurd ⟨text, style, is⟩ noScalar⟩
  exact fun _ _ alike => ⟨.ok ⟨rfl, trivial⟩, alike_modify alike away kept⟩

theorem blind_setTag {i : NodeId} (away : s.away i) (tag : String) :
    s.Blind (fun _ => True)
      (modify fun b => { b with graph := b.graph.setTag i tag } : Build Unit) := by
  have kept : ∀ n, s.Seen i n → s.Seen i { n with tag := tag } := fun _ seen =>
    ⟨seen.inside, fun out => absurd away out, seen.text⟩
  exact fun _ _ alike => ⟨.ok ⟨rfl, trivial⟩, alike_modify alike away kept⟩

theorem blind_mapM {step : α → Build β} {as : List α} (each : ∀ a ∈ as, s.Blind Q (step a)) :
    s.Blind (fun _ => True) (as.mapM step) := by
  induction as with
  | nil => exact blind_pure trivial
  | cons a as ih =>
    rw [List.mapM_cons]
    refine blind_bind (each a List.mem_cons_self) fun _ _ => ?_
    refine blind_bind (ih fun a member => each a (List.mem_cons_of_mem _ member)) fun _ _ => ?_
    exact blind_pure trivial

end Steps

theorem blind_ite {α : Type} {P : α → Prop} {condition : Prop} [Decidable condition] {m m' : Build α}
    (yes : s.Blind P m) (no : s.Blind P m') : s.Blind P (if condition then m else m') := by
  split
  · exact yes
  · exact no

theorem noScalar_of_seen {i : NodeId} {n : Node} (seen : s.Seen i n)
    (noScalar : ∀ text style, n.body ≠ .scalar text style) : ¬(s.graph.node i).body.IsScalar := by
  rintro ⟨text, style, is⟩
  exact noScalar text style (seen.text text style is)

section Texts

theorem scalarText_blind (fuel : Nat) :
    ∀ {i}, s.away i → s.Blind (fun _ => True) (Build.scalarText i fuel) := by
  induction fuel with
  | zero => exact fun _ => blind_throw _
  | succ fuel ih =>
    intro i away
    unfold Build.scalarText
    refine together_get fun b b' alike => ?_
    have inside := (alike.seen i).inside away
    dsimp only
    rw [← alike.node away]
    cases body : (b.graph.node i).body with
    | scalar text style => exact blind_pure trivial
    | sequence items inFlow => exact blind_fail _ _
    | mapping entries inFlow =>
      -- the default value of a mapping is found by the tags of its keys, all of which lead away
      rw [body] at inside
      have found : entries.find? (fun e => (b'.graph.node e.1).tag = Tag.value) =
          entries.find? fun e => (b.graph.node e.1).tag = Tag.value :=
        List.find?_congr fun e member => by rw [alike.node (awayEntries inside e member).1]
      dsimp only
      rw [found]
      cases default : entries.find? fun e => (b.graph.node e.1).tag = Tag.value with
      | none => exact blind_fail _ _
      | some e => exact ih (awayEntries inside e (List.mem_of_find?_eq_some default)).2

theorem together_scalarText {i : NodeId} (away : s.away i) {b b' : Builder} (alike : s.Alike b b') :
    s.Together Eq (Both fun _ => True) (Build.scalarText i (b.graph.size + 1))
      (Build.scalarText i (b'.graph.size + 1)) := alike.size ▸ scalarText_blind _ away

theorem ofText_blind {i : NodeId} (away : s.away i) (read : List Char → Except ScalarFailure Datum) :
    s.Blind (fun _ => True) (Build.ofText i read) := by
  refine together_get fun b b' alike => ?_
  refine together_both (together_scalarText away alike) fun text _ => ?_
  split
  · exact blind_pure trivial
  · exact blind_throw _
  · exact blind_bind (blind_nodeAt away) fun _ _ => blind_fail _ _
  · exact blind_throw _

theorem timestamp_blind {i : NodeId} (away : s.away i) :
    s.Blind (fun _ => True) (Build.timestamp i) := by
  refine together_get fun b b' alike => ?_
  refine together_both (P := fun _ => True) ?_ fun _ _ => ?_
  · change s.Together _ _ ((fun _ => ()) <$> _) ((fun _ => ()) <$> _)
    rw [← bind_pure_comp, ← bind_pure_comp]
    exact together_both (together_scalarText away alike) fun _ _ => blind_pure trivial
  · refine blind_bind (blind_nodeAt away) fun n seen => ?_
    split
    · exact ofText_blind away _
    · exact blind_throw _

end Texts

/-! Merge keys -/

section Merging

theorem takeWhile_congr {α : Type} {p q : α → Bool} {as : List α} (same : ∀ a ∈ as, p a = q a) :
    as.takeWhile p = as.takeWhile q := by
  induction as with
  | nil => rfl
  | cons a as ih =>
    rw [List.takeWhile_cons, List.takeWhile_cons, same a List.mem_cons_self,
      ih fun a member => same a (List.mem_cons_of_mem _ member)]

theorem setTexts_together {b b' : Builder} (alike : s.Alike b b') {es : List (NodeId × NodeId)}
    (away : ∀ e ∈ es, s.AwayEntry e) :
    let setText (b : Builder) (e : NodeId × NodeId) : Build PUnit :=
      if (b.graph.node e.1).tag = Tag.value then
        modify fun b => { b with graph := b.graph.setTag e.1 Tag.str }
      else pure ⟨⟩
    s.Together Eq (Both fun _ => True) (es.forM (setText b)) (es.forM (setText b')) := by
  intro setText
  induction es with
  | nil => exact blind_pure trivial
  | cons e es ih =>
    have here := (away e List.mem_cons_self).1
    refine together_both (P := fun _ => True) ?_ fun _ _ =>
      ih fun e member => away e (List.mem_cons_of_mem _ member)
    dsimp only [setText]
    rw [alike.node here]
    split
    · exact blind_setTag here _
    · exact blind_pure trivial

theorem takeMerge_blind {i : NodeId} (away : s.away i) (place : Nat) :
    s.Blind (fun taken => ∀ t ∈ taken, s.away t.2) (Build.takeMerge i place) := by
  refine blind_bind (blind_nodeAt away) fun n seen => ?_
  split
  · rename_i entries inFlow body
    have inside := awayEntries (body ▸ seen.inside away)
    have noScalar := noScalar_of_seen seen (by simp [body])
    refine together_get fun b b' alike => ?_
    -- both builders pass the same keys, and tags are read before any of them changes
    have passed : ∀ e ∈ entries.drop place, s.AwayEntry e := fun e member =>
      inside e (List.mem_of_mem_drop member)
    have before : (entries.drop place).takeWhile (fun e => (b'.graph.node e.1).tag ≠ Tag.merge) =
        (entries.drop place).takeWhile fun e => (b.graph.node e.1).tag ≠ Tag.merge :=
      takeWhile_congr fun e member => by rw [alike.node (passed e member).1]
    dsimp only
    rw [before]
    refine together_both (setTexts_together alike ?_) fun _ _ => ?_
    · exact fun e member => passed e (List.takeWhile_subset _ member)
    · split
      · rename_i v rest found
        have merged : s.away v := by
          have member : (_, v) ∈ entries.drop place :=
            List.mem_of_mem_drop (found ▸ List.mem_cons_self)
          exact (passed _ member).2
        refine blind_bind (blind_setBody away (away_parts ?_) noScalar) fun _ _ => ?_
        · intro e member
          rcases List.mem_append.mp member with earlier | later
          · exact inside e (List.mem_of_mem_take earlier)
          · exact inside e (List.mem_of_mem_drop later)
        · exact blind_pure (by simpa using merged)
      · exact blind_pure (by simp)
  · exact blind_pure (by simp)

theorem entriesOf_blind {i : NodeId} (away : s.away i) :
    s.Blind (fun es => ∀ e ∈ es, s.AwayEntry e) (Build.entriesOf i) := by
  refine blind_bind (blind_nodeAt away) fun n seen => ?_
  split
  · rename_i entries inFlow body
    exact blind_pure (awayEntries (body ▸ seen.inside away))
  · exact blind_pure (by simp)

theorem mergedItems_blind {flatten : NodeId → Build Unit}
    (flattens : ∀ {i}, s.away i → s.Blind (fun _ => True) (flatten i)) (around : Mark)
    {items : List NodeId} (away : ∀ v ∈ items, s.away v) :
    s.Blind (fun parts => ∀ es ∈ parts, ∀ e ∈ es, s.AwayEntry e)
      (Build.mergedItems flatten around items) := by
  induction items with
  | nil => exact blind_pure (by simp)
  | cons v rest ih =>
    have here := away v List.mem_cons_self
    unfold Build.mergedItems
    refine blind_bind (blind_nodeAt here) fun n _ => ?_
    refine together_when (blind_failIn _ _ _ _) fun _ => ?_
    refine blind_bind (flattens here) fun _ _ => ?_
    refine blind_bind (entriesOf_blind here) fun own inOwn => ?_
    have later := ih fun v member => away v (List.mem_cons_of_mem _ member)
    refine blind_bind later fun parts inParts => blind_pure fun es member => ?_
    rcases List.mem_cons.mp member with rfl | inside
    · exact inOwn
    · exact inParts es inside

structure Merges (s : Secret) (fuel : Nat) : Prop where
  flatten : ∀ {i}, s.away i → s.Blind (fun _ => True) (Build.flatten i fuel)
  mergedFrom : ∀ {i} place, s.away i →
    s.Blind (fun es => ∀ e ∈ es, s.AwayEntry e) (Build.mergedFrom i place fuel)

variable {fuel : Nat} (below : s.Merges fuel)
include below

theorem flatten_blind {i : NodeId} (away : s.away i) :
    s.Blind (fun _ => True) (Build.flatten i (fuel + 1)) := by
  unfold Build.flatten
  refine blind_bind (below.mergedFrom 0 away) fun merged inMerged => ?_
  split
  · refine blind_bind (blind_nodeAt away) fun n seen => ?_
    split
    · rename_i entries inFlow body
      have inside := awayEntries (body ▸ seen.inside away)
      refine blind_setBody away (away_parts ?_) (noScalar_of_seen seen (by simp [body]))
      exact fun e member => (List.mem_append.mp member).elim (inMerged e) (inside e)
    · exact blind_pure trivial
  · exact blind_pure trivial

theorem mergedFrom_blind {i : NodeId} (place : Nat) (away : s.away i) :
    s.Blind (fun es => ∀ e ∈ es, s.AwayEntry e) (Build.mergedFrom i place (fuel + 1)) := by
  unfold Build.mergedFrom
  refine blind_bind (takeMerge_blind away place) fun taken inTaken => ?_
  split
  · exact blind_pure (by simp)
  · rename_i next v
    have merged : s.away v := inTaken _ rfl
    refine blind_bind (blind_nodeAt merged) fun n seen => ?_
    refine blind_bind (blind_nodeAt away) fun around _ => ?_
    extract_lets place finish
    have finish_blind : ∀ own, (∀ e ∈ own, s.AwayEntry e) →
        s.Blind (fun es => ∀ e ∈ es, s.AwayEntry e) (finish own) := fun own inOwn =>
      blind_bind (below.mergedFrom _ away) fun rest inRest =>
        blind_pure fun e member => (List.mem_append.mp member).elim (inOwn e) (inRest e)
    split
    · refine blind_bind (below.flatten merged) fun _ _ => ?_
      exact blind_bind (entriesOf_blind merged) finish_blind
    · rename_i items inFlow body
      have inItems : ∀ j ∈ items, s.away j := by simpa [body, NodeBody.parts] using seen.inside merged
      refine blind_bind (mergedItems_blind below.flatten _ inItems) fun parts inParts => ?_
      refine finish_blind _ fun e member => ?_
      obtain ⟨es, part, inside⟩ := List.mem_flatten.mp member
      exact inParts es (List.mem_reverse.mp part) e inside
    · exact blind_bind (P := fun es => ∀ e ∈ es, s.AwayEntry e) (blind_failIn _ _ _ _) finish_blind

omit below in
theorem merges (s : Secret) (fuel : Nat) : s.Merges fuel := by
  induction fuel with
  | zero => exact ⟨fun _ => blind_throw _, fun _ _ => blind_throw _⟩
  | succ fuel below => exact ⟨flatten_blind below, mergedFrom_blind below⟩

omit below in
/-- The fuel of a merge counts the items and the entries of all nodes; scalars have none. -/
theorem flattenFuel_together {b b' : Builder} (alike : s.Alike b b') :
    Build.flattenFuel b.graph = Build.flattenFuel b'.graph := by
  have fuel : ∀ g : Graph, Build.flattenFuel g =
      8 + 4 * (g.nodes.map fun x => x.body.count).foldl (fun n k => n + 1 + k) 0 := by
    intro g
    rw [Array.foldl_map]
    refine congrArg (fun step => 8 + 4 * g.nodes.foldl step 0) ?_
    funext n x
    cases x.body <;> rfl
  have scalar : ∀ {body : NodeBody}, body.IsScalar → body.count = 0 := by
    rintro body ⟨text, style, rfl⟩
    rfl
  have counts : ∀ i, (b.graph.node i).body.count = (b'.graph.node i).body.count := by
    intro i
    by_cases here : i = s.hole
    · rw [here, alike.other, (alike.seen s.hole).outside s.hidden, scalar s.scalar,
        scalar s.otherScalar]
    · rw [alike.nodes i here]
  have same : b.graph.nodes.map (fun x => x.body.count) = b'.graph.nodes.map fun x => x.body.count := by
    apply Array.ext (by simpa [Graph.size] using alike.size)
    intro i inside inside'
    rw [Array.size_map] at inside inside'
    simpa [Graph.node, inside, inside'] using counts i
  rw [fuel, fuel, same]

end Merging

/-! Values -/

section Values
variable {build : NodeId → Build Datum} (builds : ∀ {i}, s.away i → s.Blind (fun _ => True) (build i))

theorem originOf_blind {i : NodeId} (away : s.away i) (key : Datum) :
    s.Blind (fun _ => True) (Build.originOf i key) := by
  unfold Build.originOf
  split
  · refine together_get fun b b' alike => ?_
    exact together_both (together_scalarText away alike) fun _ _ => blind_pure trivial
  · exact blind_pure trivial

include builds

theorem entries_blind (around : Mark) {es : List (NodeId × NodeId)}
    (away : ∀ e ∈ es, s.AwayEntry e) :
    ∀ done, s.Blind (fun _ => True) (Build.entries build around done es) := by
  induction es with
  | nil => exact fun _ => blind_pure trivial
  | cons e es ih =>
    obtain ⟨keyAway, valueAway⟩ := away e List.mem_cons_self
    intro done
    refine blind_bind (builds keyAway) fun key _ => ?_
    extract_lets rest
    have rest_blind : ∀ u, s.Blind (fun _ => True) (rest u) := by
      intro u
      refine blind_bind (originOf_blind keyAway key) fun origin _ => ?_
      refine blind_bind (builds valueAway) fun value _ => ?_
      exact ih (fun e member => away e (List.mem_cons_of_mem _ member)) _
    split
    · refine blind_bind (blind_nodeAt keyAway) fun n _ => ?_
      exact blind_bind (P := fun _ => True) (blind_failIn _ _ _ _) fun u _ => rest_blind u
    · exact rest_blind ()

theorem mapping_blind {i : NodeId} (away : s.away i) :
    s.Blind (fun _ => True) (Build.mapping build i) := by
  refine blind_bind (blind_nodeAt away) fun n _ => ?_
  split
  · refine together_get fun b b' alike => ?_
    rw [← flattenFuel_together alike]
    refine blind_bind ((merges s _).flatten away) fun _ _ => ?_
    exact blind_bind (entriesOf_blind away) fun es inside => entries_blind builds _ inside []
  · exact blind_fail _ _

theorem pairItems_blind (context : String) (around : Mark) {items : List NodeId}
    (away : ∀ j ∈ items, s.away j) :
    s.Blind (fun _ => True) (Build.pairItems build context around items) := by
  induction items with
  | nil => exact blind_pure trivial
  | cons i rest ih =>
    have here := away i List.mem_cons_self
    refine blind_bind (blind_nodeAt here) fun n seen => ?_
    split
    · rename_i k v inFlow body
      obtain ⟨keyAway, valueAway⟩ :=
        awayEntries (body ▸ seen.inside here) (k, v) List.mem_cons_self
      refine blind_bind (builds keyAway) fun key _ => ?_
      refine blind_bind (builds valueAway) fun value _ => ?_
      refine blind_bind (ih fun j member => away j (List.mem_cons_of_mem _ member)) fun _ _ => ?_
      exact blind_pure trivial
    · exact blind_failIn _ _ _ _
    · exact blind_failIn _ _ _ _

theorem pairs_blind (context : String) {i : NodeId} (away : s.away i) :
    s.Blind (fun _ => True) (Build.pairs build context i) := by
  refine blind_bind (blind_nodeAt away) fun n seen => ?_
  split
  · rename_i items inFlow body
    have inItems : ∀ j ∈ items, s.away j := by simpa [body, NodeBody.parts] using seen.inside away
    exact blind_bind (pairItems_blind builds _ _ inItems) fun _ _ => blind_pure trivial
  · exact blind_failIn _ _ _ _

theorem sequence_blind {i : NodeId} (away : s.away i) :
    s.Blind (fun _ => True) (Build.sequence build i) := by
  refine blind_bind (blind_nodeAt away) fun n seen => ?_
  split
  · rename_i items inFlow body
    have inItems : ∀ j ∈ items, s.away j := by simpa [body, NodeBody.parts] using seen.inside away
    refine blind_bind (blind_mapM fun j member => builds (inItems j member)) fun _ _ => ?_
    exact blind_pure trivial
  · exact blind_fail _ _

theorem ofTag_blind {i : NodeId} (away : s.away i) :
    s.Blind (fun _ => True) (Build.ofTag build i) := by
  have entries : ∀ f : List Build.Entry → Datum,
      s.Blind (fun _ => True) (Build.mapping build i >>= fun es => pure (f es)) := fun _ =>
    blind_bind (mapping_blind builds away) fun _ _ => blind_pure trivial
  refine blind_bind (blind_nodeAt away) fun n _ => ?_
  apply blind_ite (ofText_blind away _)
  apply blind_ite (ofText_blind away _)
  apply blind_ite (sequence_blind builds away)
  apply blind_ite (entries _)
  apply blind_ite (ofText_blind away _)
  apply blind_ite (ofText_blind away _)
  apply blind_ite (ofText_blind away _)
  apply blind_ite (timestamp_blind away)
  apply blind_ite (ofText_blind away _)
  apply blind_ite (entries _)
  apply blind_ite (pairs_blind builds _ away)
  apply blind_ite (pairs_blind builds _ away)
  exact blind_fail _ _

omit builds in
theorem blind_modify {f : Builder → Builder} (same : ∀ b b', s.Alike b b' → s.Alike (f b) (f b')) :
    s.Blind (fun _ => True) (modify f : Build Unit) :=
  fun b b' alike => ⟨.ok ⟨rfl, trivial⟩, same b b' alike⟩

omit builds in
theorem datum_blind (fuel : Nat) :
    ∀ {i}, s.away i → s.Blind (fun _ => True) (Build.datum i fuel) := by
  induction fuel with
  | zero => exact fun _ => blind_throw _
  | succ fuel ih =>
    intro i away
    refine together_get fun b b' alike => ?_
    dsimp only
    rw [← alike.values, ← alike.begun, ← alike.node away]
    split
    · exact blind_pure trivial
    · refine together_when (blind_fail _ _) fun _ => ?_
      refine blind_bind (blind_modify fun _ _ alike => ?_) fun _ _ => ?_
      · exact { alike with begun := congrArg (i :: ·) alike.begun }
      refine blind_bind (ofTag_blind ih away) fun d _ => ?_
      refine blind_bind (blind_modify fun _ _ alike => ?_) fun _ _ => blind_pure trivial
      exact { alike with
        values := congrArg ((i, d) :: ·) alike.values
        begun := congrArg (List.filter (· ≠ i)) alike.begun }

omit builds in
/-- A node that leads nowhere near the secret is built alike whatever the secret. -/
theorem value_blind {i : NodeId} (away : s.away i) : s.Blind (fun _ => True) (Build.value i) :=
  together_get fun _ _ alike => alike.size ▸ datum_blind _ away

end Values

end Secret
end MailRules.Yaml
