import Mathlib
import MailRules.Proofs.Yaml.Filling
import MailRules.Proofs.Yaml.Composing
/-!
The trees of a text with a hole. The reader of tokens does not look at the text of a scalar, but for the
tag of the node that it makes of it. So tokens that are the same but for one scalar are read to trees that
are the same but for one node, or they are refused alike.
-/
namespace MailRules.Yaml
open MailRules.Text

/-- Graphs that are the same but for one node, a plain scalar that begins with the one filling or the
other. -/
structure Hole.Graphs (hole : Hole) (i : NodeId) (g g' : Graph) : Prop where
  size : g.size = g'.size
  inside : i < g.size
  others : ∀ j, j ≠ i → g.node j = g'.node j
  scalar : ∃ text, (g.node i).body = .scalar (String.ofList (hole.one ++ text)) .plain ∧
    (g'.node i).body = .scalar (String.ofList (hole.other ++ text)) .plain

theorem size_push (g : Graph) (n : Node) : (g.push n).2.size = g.size + 1 := by
  simp [Graph.push, Graph.size]

theorem Hole.Graphs.push {hole : Hole} {i : NodeId} {g g' : Graph} (graphs : hole.Graphs i g g')
    (n : Node) : hole.Graphs i (g.push n).2 (g'.push n).2 := by
  have old : i ≠ g.size := Nat.ne_of_lt graphs.inside
  have old' : i ≠ g'.size := graphs.size ▸ old
  refine ⟨by rw [size_push, size_push, graphs.size], ?_, fun j other => ?_, ?_⟩
  · rw [size_push]
    exact Nat.lt_succ_of_lt graphs.inside
  · rw [Graph.node_push, Graph.node_push, graphs.size, graphs.others j other]
  · rw [Graph.node_push, Graph.node_push, if_neg old, if_neg old']
    exact graphs.scalar

theorem Hole.Graphs.setBody {hole : Hole} {i k : NodeId} {g g' : Graph} (graphs : hole.Graphs i g g')
    (other : k ≠ i) (body : NodeBody) : hole.Graphs i (g.setBody k body) (g'.setBody k body) := by
  have size (g : Graph) : (g.setBody k body).size = g.size := by simp [Graph.setBody, Graph.size]
  refine ⟨by rw [size, size, graphs.size], by rw [size]; exact graphs.inside, fun j apart => ?_, ?_⟩
  · rw [Graph.setBody, Graph.setBody, Graph.node_modify, Graph.node_modify, graphs.size,
      graphs.others j apart]
  · rw [Graph.setBody, Graph.setBody, Graph.node_modify, Graph.node_modify, if_neg fun both => other both.1,
      if_neg fun both => other both.1]
    exact graphs.scalar

namespace Read

/-- The scalar is still ahead, or it has been read, to a node that is none of those in `kept`. -/
inductive Aside (hole : Hole) (kept : List NodeId) : List Token → Graph → List Token → Graph → Prop
  | ahead {ts ts' : List Token} (g : Graph) (tokens : hole.Tokens ts ts') : Aside hole kept ts g ts' g
  | same (ts : List Token) (g : Graph) : Aside hole kept ts g ts g
  | behind (ts : List Token) {g g' : Graph} {i : NodeId} (apart : i ∉ kept) (graphs : hole.Graphs i g g') :
      Aside hole kept ts g ts g'

namespace Aside
variable {hole : Hole} {kept : List NodeId} {ts ts' : List Token} {g g' : Graph} {k : NodeId}

theorem size (aside : Aside hole kept ts g ts' g') : g.size = g'.size := by
  cases aside with
  | ahead => rfl
  | same => rfl
  | behind _ graphs => exact graphs.size

theorem graphs (aside : Aside hole kept ts g ts' g') : g = g' ∨ ∃ i, hole.Graphs i g g' := by
  cases aside with
  | ahead => exact .inl rfl
  | same => exact .inl rfl
  | behind _ graphs => exact .inr ⟨_, graphs⟩

theorem fewer (aside : Aside hole (k :: kept) ts g ts' g') : Aside hole kept ts g ts' g' := by
  cases aside with
  | ahead _ tokens => exact .ahead _ tokens
  | same => exact .same _ _
  | behind apart graphs => exact .behind _ (fun inside => apart (List.mem_cons_of_mem k inside)) graphs

theorem drop (aside : Aside hole kept ts g ts' g') : Aside hole kept (ts.drop 1) g (ts'.drop 1) g' := by
  cases aside with
  | same => exact .same _ _
  | behind apart graphs => exact .behind _ apart graphs
  | ahead _ tokens =>
    obtain ⟨earlier, later, text, start, stop, rfl, rfl⟩ := tokens
    cases earlier with
    | nil => exact .same later g
    | cons t earlier => exact .ahead g ⟨earlier, later, text, start, stop, rfl, rfl⟩

/-- The same node is added to both graphs, and is known from then on. -/
theorem push (aside : Aside hole kept ts g ts' g') (n : Node) :
    Aside hole (g.size :: kept) ts (g.push n).2 ts' (g'.push n).2 := by
  cases aside with
  | ahead _ tokens => exact .ahead _ tokens
  | same => exact .same _ _
  | behind apart graphs =>
    refine .behind _ (fun inside => ?_) (graphs.push n)
    rcases List.mem_cons.mp inside with same | inside
    · exact Nat.ne_of_lt graphs.inside same
    · exact apart inside

theorem setBody (aside : Aside hole kept ts g ts' g') (inside : k ∈ kept) (body : NodeBody) :
    Aside hole kept ts (g.setBody k body) ts' (g'.setBody k body) := by
  cases aside with
  | ahead _ tokens => exact .ahead _ tokens
  | same => exact .same _ _
  | behind apart graphs => exact .behind _ apart (graphs.setBody (fun same => apart (same ▸ inside)) body)

end Aside

structure Twin (hole : Hole) (kept : List NodeId) (r r' : Reading) : Prop where
  stop : r.stop = r'.stop
  anchors : r.anchors = r'.anchors
  handles : r.handles = r'.handles
  aside : Aside hole kept r.tokens r.graph r'.tokens r'.graph
  known : ∀ k ∈ kept, k < r.graph.size

inductive Both (hole : Hole) (kept : List NodeId) {α : Type} :
    Except Stop (α × Reading) → Except Stop (α × Reading) → Prop
  | stopped (stop : Stop) : Both hole kept (.error stop) (.error stop)
  | twin (a : α) {r r' : Reading} (twin : Twin hole kept r r') : Both hole kept (.ok (a, r)) (.ok (a, r'))

def Agrees {α : Type} (hole : Hole) (kept : List NodeId) (m : Read α) : Prop :=
  ∀ r r', Twin hole kept r r' → Both hole kept (m r) (m r')

section Rules
variable {α β : Type} {hole : Hole} {kept : List NodeId}

theorem agrees_pure (a : α) : Agrees hole kept (pure a) := fun _ _ twin => .twin a twin

theorem agrees_throw (stop : Stop) : Agrees hole kept (throw stop : Read α) := fun _ _ _ => .stopped stop

theorem both_bind {x x' : Except Stop (α × Reading)} {f f' : α × Reading → Except Stop (β × Reading)}
    (first : Both hole kept x x')
    (later : ∀ a r r', Twin hole kept r r' → Both hole kept (f (a, r)) (f' (a, r'))) :
    Both hole kept (x >>= f) (x' >>= f') := by
  cases first with
  | stopped stop => exact .stopped stop
  | twin a twin => exact later a _ _ twin

theorem agrees_bind {m : Read α} {f : α → Read β} (first : Agrees hole kept m)
    (later : ∀ a, Agrees hole kept (f a)) : Agrees hole kept (m >>= f) :=
  fun r r' twin => both_bind (first r r' twin) fun a r r' twin => later a r r' twin

theorem agrees_ite {condition : Prop} [Decidable condition] {m m' : Read α} (yes : Agrees hole kept m)
    (no : Agrees hole kept m') : Agrees hole kept (if condition then m else m') := by
  split
  · exact yes
  · exact no

theorem agrees_when {condition : Prop} [Decidable condition] {m : Read PUnit} {f : PUnit → Read β}
    (first : Agrees hole kept m) (later : ∀ u, Agrees hole kept (f u)) :
    Agrees hole kept (if condition then m >>= f else f ⟨⟩) :=
  agrees_ite (agrees_bind first later) (later ⟨⟩)

theorem agrees_either {condition : Prop} [Decidable condition] {m m' : Read α} {f : α → Read β}
    (yes : Agrees hole kept m) (no : Agrees hole kept m') (later : ∀ a, Agrees hole kept (f a)) :
    Agrees hole kept (if condition then m >>= f else m' >>= f) :=
  agrees_ite (agrees_bind yes later) (agrees_bind no later)

/-- The scalar that begins with a filling is the next token. -/
structure AtScalar (hole : Hole) (text : List Char) (start stop : Mark) (r r' : Reading) : Prop where
  first : ∃ later, r.tokens = ⟨.scalar (String.ofList (hole.one ++ text)) .plain, start, stop⟩ :: later ∧
    r'.tokens = ⟨.scalar (String.ofList (hole.other ++ text)) .plain, start, stop⟩ :: later
  graph : r.graph = r'.graph

theorem Twin.heads {r r' : Reading} (twin : Twin hole kept r r') :
    (r.tokens = [] ∧ r'.tokens = []) ∨
    (∃ t later later', r.tokens = t :: later ∧ r'.tokens = t :: later') ∨
    ∃ text start stop, AtScalar hole text start stop r r' := by
  obtain ⟨-, -, -, aside, -⟩ := twin
  generalize sameTokens : r.tokens = ts, sameGraph : r.graph = g, sameTokens' : r'.tokens = ts',
    sameGraph' : r'.graph = g' at aside
  have common (ts : List Token) :
      (ts = [] ∧ ts = []) ∨ ∃ t later later', ts = t :: later ∧ ts = t :: later' := by
    cases ts with
    | nil => exact .inl ⟨rfl, rfl⟩
    | cons t later => exact .inr ⟨t, later, later, rfl, rfl⟩
  cases aside with
  | same => exact (common _).imp id .inl
  | behind => exact (common _).imp id .inl
  | ahead g tokens =>
    obtain ⟨earlier, later, text, start, stop, rfl, rfl⟩ := tokens
    cases earlier with
    | nil =>
      have graph := sameGraph.trans sameGraph'.symm
      exact .inr (.inr ⟨text, start, stop, ⟨later, sameTokens, sameTokens'⟩, graph⟩)
    | cons t earlier => exact .inr (.inl ⟨t, _, _, rfl, rfl⟩)

theorem peek_run (f : Token → Read β) (r : Reading) : (peek >>= f) r = match r.tokens with
    | t :: _ => f t r
    | [] => .error (r.stop.getD (.fault .endlessNesting)) := by
  obtain ⟨tokens, stop, graph, anchors, handles⟩ := r
  cases tokens <;> rfl

theorem agrees_look {f : Token → Read β} (each : ∀ t, Agrees hole kept (f t))
    (here : ∀ text start stop r r', Twin hole kept r r' → AtScalar hole text start stop r r' →
      Both hole kept (f ⟨.scalar (String.ofList (hole.one ++ text)) .plain, start, stop⟩ r)
        (f ⟨.scalar (String.ofList (hole.other ++ text)) .plain, start, stop⟩ r')) :
    Agrees hole kept (peek >>= f) := by
  intro r r' twin
  rw [peek_run, peek_run]
  rcases twin.heads with ⟨none, none'⟩ | ⟨t, later, later', some, some'⟩ | ⟨text, start, stop, there⟩
  · rw [none, none', twin.stop]
    exact .stopped _
  · rw [some, some']
    exact each t r r' twin
  · obtain ⟨later, first, first'⟩ := there.first
    rw [first, first']
    exact here text start stop r r' twin there

/-- What is done with a token may depend on all of it but the text of a plain scalar. -/
def Blind {γ : Type} (f : Token → γ) : Prop := ∀ text text' start stop,
  f ⟨.scalar text .plain, start, stop⟩ = f ⟨.scalar text' .plain, start, stop⟩

theorem agrees_peek {f : Token → Read β} (each : ∀ t, Agrees hole kept (f t)) (blind : Blind f) :
    Agrees hole kept (peek >>= f) :=
  agrees_look each fun text start stop r r' twin _ => by
    rw [blind _ (String.ofList (hole.other ++ text))]
    exact each _ r r' twin

theorem agrees_kind {f : TokenKind → Read β} (each : ∀ k, Agrees hole kept (f k))
    (blind : ∀ text text', f (.scalar text .plain) = f (.scalar text' .plain)) :
    Agrees hole kept (kind >>= f) := by
  have looked : Agrees hole kept (peek >>= fun t => f t.kind) :=
    agrees_peek (fun t => each t.kind) fun text text' _ _ => blind text text'
  have run (r : Reading) : (kind >>= f) r = (peek >>= fun t => f t.kind) r := by
    obtain ⟨tokens, stop, graph, anchors, handles⟩ := r
    cases tokens <;> rfl
  intro r r' twin
  rw [run, run]
  exact looked r r' twin

theorem agrees_get {f : Reading → Read β} (each : ∀ r, Agrees hole kept (f r))
    (blind : ∀ r r', r.anchors = r'.anchors → r.handles = r'.handles → f r = f r') :
    Agrees hole kept (get >>= f) := by
  intro r r' twin
  change Both hole kept (f r r) (f r' r')
  rw [← blind r r' twin.anchors twin.handles]
  exact each r r r' twin

theorem agrees_advance : Agrees hole kept advance := fun _ _ twin =>
  .twin () ⟨twin.stop, twin.anchors, twin.handles, twin.aside.drop, twin.known⟩

theorem agrees_take {f : Token → Read β} (each : ∀ t, Agrees hole kept (f t)) (blind : Blind f) :
    Agrees hole kept (take >>= f) := by
  have taken : Agrees hole kept (peek >>= fun t => advance >>= fun _ => f t) :=
    agrees_peek (fun t => agrees_bind agrees_advance fun _ => each t) fun text text' start stop => by
      rw [blind text text']
  have run (r : Reading) : (take >>= f) r = (peek >>= fun t => advance >>= fun _ => f t) r := by
    obtain ⟨tokens, stop, graph, anchors, handles⟩ := r
    cases tokens <;> rfl
  intro r r' twin
  rw [run, run]
  exact taken r r' twin

theorem agrees_fail (message : String) (m : Mark) : Agrees hole kept (fail message m : Read α) :=
  agrees_throw _

theorem agrees_failAtToken (message : String) : Agrees hole kept (failAtToken message : Read α) :=
  agrees_peek (fun _ => agrees_fail _ _) fun _ _ _ _ => rfl

theorem agrees_fullTag (handle : Option String) (suffix : String) (m : Mark) :
    Agrees hole kept (fullTag handle suffix m) := by
  cases handle with
  | none => exact agrees_pure _
  | some h =>
    refine agrees_get (fun r => ?_) fun r r' _ handles => by rw [handles]
    split
    · exact agrees_pure _
    · exact agrees_fail _ _

theorem agrees_anchorHere : Agrees hole kept anchorHere? := by
  refine agrees_peek (fun t => ?_) fun _ _ _ _ => rfl
  split
  · exact agrees_bind agrees_advance fun _ => agrees_pure _
  · exact agrees_pure _

theorem agrees_tagHere : Agrees hole kept tagHere? := by
  refine agrees_peek (fun t => ?_) fun _ _ _ _ => rfl
  split
  · exact agrees_bind agrees_advance fun _ => agrees_pure _
  · exact agrees_pure _

theorem agrees_properties : Agrees hole kept properties := by
  refine agrees_bind agrees_anchorHere fun anchor? => ?_
  split
  · refine agrees_bind agrees_tagHere fun tag? => ?_
    split
    · exact agrees_bind (agrees_fullTag _ _ _) fun tag => agrees_pure _
    · exact agrees_pure _
  · refine agrees_bind agrees_tagHere fun tag? => ?_
    split
    · refine agrees_bind agrees_anchorHere fun anchor? => ?_
      exact agrees_bind (agrees_fullTag _ _ _) fun tag => agrees_pure _
    · exact agrees_pure _

/-- The reading after a node has been added. -/
def added (p : Properties) (n : Node) (r : Reading) : Reading :=
  { r with
    graph := (r.graph.push n).2
    anchors := (p.anchor.map (·, r.graph.size)).toList ++ r.anchors }

theorem add_run (p : Properties) (n : Node) (r : Reading) :
    add p n r = if (p.anchor.bind fun name => r.anchors.lookup name).isSome
      then .error (.problem ⟨"second occurrence", n.mark⟩)
      else .ok (r.graph.size, added p n r) := by
  obtain ⟨anchor, tag, start⟩ := p
  cases anchor with
  | none => rfl
  | some name =>
    change (if (r.anchors.lookup name).isSome then _ else _ : Read NodeId) r = _
    split
    · rename_i second
      exact (if_pos second).symm
    · rename_i first
      exact (if_neg first).symm

theorem Twin.fewer {k : NodeId} {r r' : Reading} (twin : Twin hole (k :: kept) r r') :
    Twin hole kept r r' :=
  ⟨twin.stop, twin.anchors, twin.handles, twin.aside.fewer, fun j inside =>
    twin.known j (List.mem_cons_of_mem k inside)⟩

theorem Both.fewer {kept : List NodeId} {k : NodeId} {x x' : Except Stop (α × Reading)}
    (both : Both hole (k :: kept) x x') : Both hole kept x x' := by
  cases both with
  | stopped stop => exact .stopped stop
  | twin a twin => exact .twin a twin.fewer

theorem Twin.added {r r' : Reading} (twin : Twin hole kept r r') (p : Properties) (n : Node) :
    Twin hole (r.graph.size :: kept) (added p n r) (added p n r') := by
  refine ⟨twin.stop, ?_, twin.handles, twin.aside.push n, fun k inside => ?_⟩
  · simp only [Read.added, twin.aside.size, twin.anchors]
  · rw [Read.added, size_push]
    rcases List.mem_cons.mp inside with rfl | inside
    · exact Nat.lt_succ_self _
    · exact Nat.lt_succ_of_lt (twin.known k inside)

theorem agrees_reserve {p : Properties} {n : Node} {f : NodeId → Read β}
    (later : ∀ i, Agrees hole (i :: kept) (f i)) : Agrees hole kept (add p n >>= f) := by
  intro r r' twin
  change Both hole kept (add p n r >>= fun e => f e.1 e.2) (add p n r' >>= fun e => f e.1 e.2)
  rw [add_run, add_run, ← twin.anchors, ← twin.aside.size]
  split
  · exact .stopped _
  · exact (later _ _ _ (twin.added p n)).fewer

theorem agrees_add (p : Properties) (n : Node) : Agrees hole kept (add p n) := by
  intro r r' twin
  rw [add_run, add_run, ← twin.anchors, ← twin.aside.size]
  split
  · exact .stopped _
  · exact .twin _ (twin.added p n).fewer

theorem agrees_emptyScalar (m : Mark) : Agrees hole kept (emptyScalar m) := agrees_add _ _

theorem agrees_setBody {k : NodeId} (inside : k ∈ kept) (body : NodeBody) :
    Agrees hole kept (setBody k body) := by
  intro r r' twin
  have known : ∀ j ∈ kept, j < (r.graph.setBody k body).size := fun j known => by
    simpa [Graph.setBody, Graph.size] using twin.known j known
  exact .twin () ⟨twin.stop, twin.anchors, twin.handles, twin.aside.setBody inside body, known⟩

theorem agrees_fill {k : NodeId} (inside : k ∈ kept) {fill : Read β} (body : β → NodeBody)
    (fills : Agrees hole kept fill) : Agrees hole kept (do let b ← fill; setBody k (body b); return k) :=
  agrees_bind fills fun b => agrees_bind (agrees_setBody inside (body b)) fun _ => agrees_pure k

theorem added_graphs (p : Properties) {n n' : Node} {r r' : Reading} (graph : r.graph = r'.graph)
    (scalar : ∃ text, n.body = .scalar (String.ofList (hole.one ++ text)) .plain ∧
      n'.body = .scalar (String.ofList (hole.other ++ text)) .plain) :
    hole.Graphs r.graph.size (added p n r).graph (added p n' r').graph := by
  dsimp only [added]
  rw [← graph]
  refine ⟨by rw [size_push, size_push], by rw [size_push]; exact Nat.lt_succ_self _, fun j other => ?_, ?_⟩
  · rw [Graph.node_push, Graph.node_push, if_neg other, if_neg other]
  · rw [Graph.node_push, Graph.node_push, if_pos rfl, if_pos rfl]
    exact scalar

/-- The scalar itself is read, to a node of its own. -/
theorem scalar_both {text : List Char} {start stop : Mark} {r r' : Reading} (twin : Twin hole kept r r')
    (there : AtScalar hole text start stop r r') (p : Properties) (tag : String → String) (m : Mark) :
    let node (filling : List Char) : Node :=
      ⟨tag (String.ofList (filling ++ text)), .scalar (String.ofList (filling ++ text)) .plain, m⟩
    Both hole kept ((advance >>= fun _ => add p (node hole.one)) r)
      ((advance >>= fun _ => add p (node hole.other)) r') := by
  intro node
  obtain ⟨later, first, first'⟩ := there.first
  let passed (r : Reading) : Reading := { r with tokens := r.tokens.drop 1 }
  have graph : (passed r).graph = (passed r').graph := there.graph
  have graphs : hole.Graphs (passed r).graph.size (added p (node hole.one) (passed r)).graph
    (added p (node hole.other) (passed r')).graph := added_graphs p graph ⟨text, rfl, rfl⟩
  have tokens : (passed r).tokens = later := congrArg (List.drop 1) first
  have tokens' : (passed r').tokens = later := congrArg (List.drop 1) first'
  change Both hole kept (add p (node hole.one) (passed r)) (add p (node hole.other) (passed r'))
  have anchors : (passed r).anchors = (passed r').anchors := twin.anchors
  rw [add_run, add_run, ← anchors, ← graph]
  split
  · exact .stopped _
  · refine .twin _ ⟨twin.stop, ?_, twin.handles, ?_, fun k inside => ?_⟩
    · simp only [added, anchors, graph]
    · have apart : (passed r).graph.size ∉ kept := fun inside => Nat.lt_irrefl _ (twin.known _ inside)
      change Aside hole kept (passed r).tokens _ (passed r').tokens _
      rw [tokens, tokens']
      exact .behind later apart graphs
    · rw [added, size_push]
      exact Nat.lt_succ_of_lt (twin.known k inside)

end Rules

/-! Nodes -/

structure Exchanging (hole : Hole) (fuel : Nat) : Prop where
  node : ∀ kept allowed, Agrees hole kept (node allowed fuel)
  blockItems : ∀ kept, Agrees hole kept (blockItems fuel)
  indentlessItems : ∀ kept, Agrees hole kept (indentlessItems fuel)
  blockEntries : ∀ kept, Agrees hole kept (blockEntries fuel)
  blockValue : ∀ kept, Agrees hole kept (blockValue fuel)
  flowItems : ∀ kept isFirst, Agrees hole kept (flowItems isFirst fuel)
  flowValue : ∀ kept close, (∀ text, close ≠ .scalar text .plain) → Agrees hole kept (flowValue close fuel)
  flowEntries : ∀ kept isFirst, Agrees hole kept (flowEntries isFirst fuel)

section Nodes
variable {hole : Hole} {kept : List NodeId} {fuel : Nat}

theorem node_agrees (below : Exchanging hole fuel) (allowed : Allowed) :
    Agrees hole kept (node allowed (fuel + 1)) := by
  unfold node
  refine agrees_peek (fun first => ?_) fun _ _ _ _ => rfl
  split
  · refine agrees_bind agrees_advance fun _ => ?_
    refine agrees_get (fun r => ?_) fun r r' anchors _ => by rw [anchors]
    split
    · exact agrees_pure _
    · exact agrees_fail _ _
  · refine agrees_bind agrees_properties fun p => ?_
    refine agrees_look (fun t => ?_) fun text start stop r r' twin there => ?_
    · extract_lets start sequence mapping
      split
      · exact agrees_bind agrees_advance fun _ => agrees_add _ _
      · refine agrees_reserve fun i => agrees_bind agrees_advance fun _ => ?_
        exact agrees_fill List.mem_cons_self _ (below.flowItems _ true)
      · refine agrees_reserve fun i => agrees_bind agrees_advance fun _ => ?_
        exact agrees_fill List.mem_cons_self _ (below.flowEntries _ true)
      · apply agrees_ite
        · exact agrees_reserve fun i => agrees_fill List.mem_cons_self _ (below.indentlessItems _)
        apply agrees_ite
        · refine agrees_reserve fun i => agrees_bind agrees_advance fun _ => ?_
          exact agrees_fill List.mem_cons_self _ (below.blockItems _)
        apply agrees_ite
        · refine agrees_reserve fun i => agrees_bind agrees_advance fun _ => ?_
          exact agrees_fill List.mem_cons_self _ (below.blockEntries _)
        exact agrees_ite (agrees_add _ _) (agrees_failAtToken _)
    · exact scalar_both twin there p (fun text => scalarTag p.tag text .plain) _

theorem blockItems_agrees (below : Exchanging hole fuel) : Agrees hole kept (blockItems (fuel + 1)) := by
  unfold blockItems
  refine agrees_kind (fun k => ?_) fun _ _ => rfl
  apply agrees_ite
  · refine agrees_take (fun t => ?_) fun _ _ _ _ => rfl
    refine agrees_kind (fun k => ?_) fun _ _ => rfl
    apply agrees_either (agrees_emptyScalar _) (below.node kept _)
    intro item
    exact agrees_bind (below.blockItems kept) fun _ => agrees_pure _
  · refine agrees_kind (fun k => ?_) fun _ _ => rfl
    apply agrees_ite
    · exact agrees_bind agrees_advance fun _ => agrees_pure _
    · exact agrees_failAtToken _

theorem indentlessItems_agrees (below : Exchanging hole fuel) :
    Agrees hole kept (indentlessItems (fuel + 1)) := by
  unfold indentlessItems
  refine agrees_kind (fun k => ?_) fun _ _ => rfl
  apply agrees_ite
  · refine agrees_take (fun t => ?_) fun _ _ _ _ => rfl
    refine agrees_kind (fun k => ?_) fun _ _ => rfl
    apply agrees_either (agrees_emptyScalar _) (below.node kept _)
    intro item
    exact agrees_bind (below.indentlessItems kept) fun _ => agrees_pure _
  · exact agrees_pure _

theorem blockEntries_agrees (below : Exchanging hole fuel) :
    Agrees hole kept (blockEntries (fuel + 1)) := by
  unfold blockEntries
  refine agrees_kind (fun k => ?_) fun _ _ => rfl
  apply agrees_ite
  · refine agrees_take (fun t => ?_) fun _ _ _ _ => rfl
    refine agrees_kind (fun k => ?_) fun _ _ => rfl
    apply agrees_either (agrees_emptyScalar _) (below.node kept _)
    intro key
    refine agrees_bind (below.blockValue kept) fun value => ?_
    exact agrees_bind (below.blockEntries kept) fun _ => agrees_pure _
  · refine agrees_kind (fun k => ?_) fun _ _ => rfl
    apply agrees_ite
    · exact agrees_bind agrees_advance fun _ => agrees_pure _
    · exact agrees_failAtToken _

theorem blockValue_agrees (below : Exchanging hole fuel) : Agrees hole kept (blockValue (fuel + 1)) := by
  unfold blockValue
  refine agrees_peek (fun t => ?_) fun _ _ _ _ => rfl
  apply agrees_ite
  · refine agrees_bind agrees_advance fun _ => ?_
    refine agrees_kind (fun k => ?_) fun _ _ => rfl
    exact agrees_ite (agrees_emptyScalar _) (below.node kept _)
  · exact agrees_emptyScalar _

theorem flowValue_agrees (below : Exchanging hole fuel) (close : TokenKind)
    (ends : ∀ text, close ≠ .scalar text .plain) : Agrees hole kept (flowValue close (fuel + 1)) := by
  unfold flowValue
  refine agrees_peek (fun t => ?_) fun _ _ _ _ => rfl
  apply agrees_ite
  · refine agrees_bind agrees_advance fun _ => ?_
    refine agrees_kind (fun k => ?_) fun text text' => ?_
    · exact agrees_ite (agrees_emptyScalar _) (below.node kept _)
    · simp [isFlowValueEnd, (ends _).symm]
  · exact agrees_emptyScalar _

theorem agrees_separated {β : Type} {isFirst : Bool} {message : String} {next : Unit → Read β}
    (later : ∀ u, Agrees hole kept (next u)) :
    Agrees hole kept (if !isFirst then do
        if (← kind) = .flowEntry then advance else failAtToken message
        next ()
      else next ()) := by
  apply agrees_ite
  · refine agrees_kind (fun k => ?_) fun _ _ => rfl
    exact agrees_either agrees_advance (agrees_failAtToken _) later
  · exact later ()

theorem flowItems_agrees (below : Exchanging hole fuel) (isFirst : Bool) :
    Agrees hole kept (flowItems isFirst (fuel + 1)) := by
  unfold flowItems
  refine agrees_kind (fun k => ?_) fun _ _ => rfl
  apply agrees_ite
  · exact agrees_bind agrees_advance fun _ => agrees_pure _
  · extract_lets rest
    have agrees_rest : ∀ u, Agrees hole kept (rest u) := by
      intro u
      refine agrees_peek (fun t => ?_) fun _ _ _ _ => rfl
      apply agrees_ite
      · refine agrees_reserve fun i => ?_
        refine agrees_bind agrees_advance fun _ => ?_
        refine agrees_kind (fun k => ?_) fun _ _ => rfl
        apply agrees_either (agrees_emptyScalar _) (below.node _ _)
        intro key
        refine agrees_bind (below.flowValue _ _ (by simp)) fun value => ?_
        refine agrees_bind (agrees_setBody List.mem_cons_self _) fun _ => ?_
        exact agrees_bind (below.flowItems _ _) fun _ => agrees_pure _
      · apply agrees_ite
        · exact agrees_bind agrees_advance fun _ => agrees_pure _
        · refine agrees_bind (below.node _ _) fun item => ?_
          exact agrees_bind (below.flowItems _ _) fun _ => agrees_pure _
    exact agrees_separated agrees_rest

theorem flowEntries_agrees (below : Exchanging hole fuel) (isFirst : Bool) :
    Agrees hole kept (flowEntries isFirst (fuel + 1)) := by
  unfold flowEntries
  refine agrees_kind (fun k => ?_) fun _ _ => rfl
  apply agrees_ite
  · exact agrees_bind agrees_advance fun _ => agrees_pure _
  · extract_lets finish rest
    have agrees_finish : ∀ key, Agrees hole kept (finish key) := by
      intro key
      refine agrees_bind (below.flowValue _ _ (by simp)) fun value => ?_
      exact agrees_bind (below.flowEntries _ _) fun _ => agrees_pure _
    have agrees_rest : ∀ u, Agrees hole kept (rest u) := by
      intro u
      refine agrees_peek (fun t => ?_) fun _ _ _ _ => rfl
      apply agrees_ite
      · refine agrees_bind agrees_advance fun _ => ?_
        refine agrees_kind (fun k => ?_) fun _ _ => rfl
        exact agrees_either (agrees_emptyScalar _) (below.node _ _) agrees_finish
      · apply agrees_ite
        · exact agrees_bind agrees_advance fun _ => agrees_pure _
        · refine agrees_bind (below.node _ _) fun key => ?_
          refine agrees_peek (fun t => ?_) fun _ _ _ _ => rfl
          refine agrees_bind (agrees_emptyScalar _) fun value => ?_
          exact agrees_bind (below.flowEntries _ _) fun _ => agrees_pure _
    exact agrees_separated agrees_rest

theorem agrees_endless {α : Type} : Agrees hole kept (throw (.fault .endlessNesting) : Read α) :=
  agrees_throw _

/-- By induction on the fuel, all parts of a node together. -/
theorem exchanging (hole : Hole) (fuel : Nat) : Exchanging hole fuel := by
  induction fuel with
  | zero => constructor <;> intros <;> exact agrees_endless
  | succ fuel below =>
    exact ⟨fun _ => node_agrees below, fun _ => blockItems_agrees below,
      fun _ => indentlessItems_agrees below, fun _ => blockEntries_agrees below,
      fun _ => blockValue_agrees below, fun _ => flowItems_agrees below,
      fun _ => flowValue_agrees below, fun _ => flowEntries_agrees below⟩

end Nodes

section Documents
variable {hole : Hole} {kept : List NodeId}

theorem directives_agrees (fuel : Nat) :
    ∀ hasVersion handles, Agrees hole kept (directives hasVersion handles fuel) := by
  induction fuel with
  | zero => exact fun _ _ => agrees_endless
  | succ fuel ih =>
    intro hasVersion handles
    refine agrees_peek (fun t => ?_) fun _ _ _ _ => rfl
    split
    · refine agrees_bind agrees_advance fun _ => ?_
      split
      · refine agrees_when (agrees_fail _ _) fun _ => ?_
        exact agrees_when (agrees_fail _ _) fun _ => ih _ _
      · exact agrees_when (agrees_fail _ _) fun _ => ih _ _
      · exact ih _ _
    · exact agrees_pure _

theorem skipDocumentEnds_agrees (fuel : Nat) : Agrees hole kept (skipDocumentEnds fuel) := by
  induction fuel with
  | zero => exact agrees_pure _
  | succ fuel ih =>
    refine agrees_kind (fun k => ?_) fun _ _ => rfl
    exact agrees_ite (agrees_bind agrees_advance fun _ => ih) (agrees_pure _)

theorem agrees_setHandles (handles : List (String × String)) :
    Agrees hole kept (modify fun r => { r with handles := handles }) :=
  fun _ _ twin => .twin () ⟨twin.stop, twin.anchors, rfl, twin.aside, twin.known⟩

theorem explicitStart_agrees (fuel : Nat) : Agrees hole kept (explicitStart fuel) := by
  refine agrees_bind (directives_agrees fuel _ _) fun handles => ?_
  refine agrees_bind (agrees_setHandles handles) fun _ => ?_
  refine agrees_kind (fun k => ?_) fun _ _ => rfl
  exact agrees_when (agrees_failAtToken _) fun _ => agrees_advance

theorem explicitRoot_agrees (fuel : Nat) : Agrees hole kept (explicitRoot fuel) := by
  refine agrees_peek (fun t => ?_) fun _ _ _ _ => rfl
  exact agrees_ite (agrees_emptyScalar _) ((exchanging hole fuel).node _ _)

theorem startsExplicitly_agrees : Agrees hole kept startsExplicitly := by
  refine agrees_kind (fun k => ?_) fun _ _ => rfl
  split <;> exact agrees_pure _

theorem document_agrees (fuel : Nat) : Agrees hole kept (document fuel) := by
  refine agrees_kind (fun k => ?_) fun _ _ => rfl
  apply agrees_ite
  · exact agrees_pure _
  · refine agrees_bind startsExplicitly_agrees fun explicit => ?_
    extract_lets finish
    have agrees_finish : ∀ root, Agrees hole kept (finish root) := by
      intro root
      refine agrees_kind (fun k => ?_) fun _ _ => rfl
      refine agrees_when agrees_advance fun _ => ?_
      refine agrees_bind (skipDocumentEnds_agrees fuel) fun _ => ?_
      refine agrees_peek (fun t => ?_) fun _ _ _ _ => rfl
      apply agrees_ite
      · exact agrees_bind (explicitStart_agrees fuel) fun _ => agrees_bind (agrees_fail _ _) fun _ =>
          agrees_pure _
      · exact agrees_pure _
    apply agrees_ite
    · refine agrees_bind (explicitStart_agrees fuel) fun _ => ?_
      exact agrees_bind (explicitRoot_agrees fuel) agrees_finish
    · refine agrees_bind (agrees_setHandles _) fun _ => ?_
      exact agrees_bind ((exchanging hole fuel).node _ _) agrees_finish

end Documents
end Read

/-- Trees that are the same, or the same but for the scalar with the filling. -/
structure Hole.Trees (hole : Hole) (t t' : Tree) : Prop where
  root : t.root = t'.root
  graphs : t.graph = t'.graph ∨ ∃ i, hole.Graphs i t.graph t'.graph

theorem readTokens_filled {hole : Hole} {s s' : Scanned} (scanned : hole.Scanned s s') :
    (∃ stop, readTokens s = .error stop ∧ readTokens s' = .error stop) ∨
      ∃ t t', readTokens s = .ok t ∧ readTokens s' = .ok t' ∧ hole.Trees t t' := by
  obtain ⟨stop, tokens⟩ := scanned
  have count : s.tokens.length = s'.tokens.length := by
    rcases tokens with same | ⟨earlier, later, text, start, stop, same, same'⟩
    · rw [same]
    · simp [same, same']
  let start (s : Scanned) : Reading := { tokens := s.tokens, stop := s.stop }
  have twin : Read.Twin hole [] (start s) (start s') := by
    refine ⟨stop, rfl, rfl, ?_, by simp⟩
    rcases tokens with same | tokens
    · dsimp only [start]
      rw [same]
      exact .same _ _
    · exact .ahead _ tokens
  let fuel := 8 * s.tokens.length + 16
  have run : readTokens s = (Read.document fuel (start s)).map fun e => ⟨e.2.graph, e.1⟩ := rfl
  have run' : readTokens s' = (Read.document fuel (start s')).map fun e => ⟨e.2.graph, e.1⟩ := by
    dsimp only [fuel]
    rw [count]
    rfl
  rw [run, run']
  have both : Read.Both hole [] (Read.document fuel (start s)) (Read.document fuel (start s')) :=
    Read.document_agrees fuel _ _ twin
  generalize Read.document fuel (start s) = r, Read.document fuel (start s') = r' at both
  cases both with
  | stopped stop => exact .inl ⟨stop, rfl, rfl⟩
  | twin root twin => exact .inr ⟨_, _, rfl, rfl, rfl, twin.aside.graphs⟩

/-! Whole texts -/

theorem isAllowed_of_word {c : Char} (word : c.isAlphanum) : isAllowed c := by
  simp only [Char.isAlphanum, Char.isAlpha, Char.isUpper, Char.isLower, Char.isDigit, Bool.or_eq_true,
    Bool.and_eq_true, decide_eq_true_eq, UInt32.le_iff_toNat_le] at word
  simp only [isAllowed, Char.toNat, Bool.or_eq_true, Bool.and_eq_true, decide_eq_true_eq]
  have digits : '0'.val.toNat = 48 ∧ '9'.val.toNat = 57 := ⟨rfl, rfl⟩
  have capitals : 'A'.val.toNat = 65 ∧ 'Z'.val.toNat = 90 := ⟨rfl, rfl⟩
  have letters : 'a'.val.toNat = 97 ∧ 'z'.val.toNat = 122 := ⟨rfl, rfl⟩
  omega

/-- A text with a hole has a character that it may not have at the same place, whatever fills the hole. -/
theorem allowed_alike {cs cs' : List Char} (alike : List.Forall₂ Hole.Alike cs cs') :
    (cs.takeWhile isAllowed).length = (cs'.takeWhile isAllowed).length ∧
      (cs.drop (cs.takeWhile isAllowed).length).head? =
        (cs'.drop (cs'.takeWhile isAllowed).length).head? := by
  induction alike with
  | nil => exact ⟨rfl, rfl⟩
  | @cons c c' cs cs' same _ ih =>
    by_cases allowed : isAllowed c
    · have allowed' : isAllowed c' := by
        rcases same with rfl | ⟨_, word⟩
        · exact allowed
        · exact isAllowed_of_word word
      simpa [allowed, allowed'] using ih
    · have same : c = c' := same.resolve_right fun words => allowed (isAllowed_of_word words.1)
      subst same
      simp [allowed]

theorem Tree.ofText_run (cs : List Char) : Tree.ofText cs =
    match (cs.drop (cs.takeWhile isAllowed).length).head? with
    | some c => .error (.badCharacter c (cs.takeWhile isAllowed).length)
    | none => (readTokens (scan cs)).mapError .stop := by
  unfold Tree.ofText
  dsimp only
  cases cs.drop (cs.takeWhile isAllowed).length <;> rfl

theorem Tree.ofText_filled {hole : Hole} {before : List Char}
    (comes : Lexer.Comes hole (Lexer.ofText (before ++ hole.rest))) :
    (∃ refusal, Tree.ofText (before ++ hole.rest) = .error refusal ∧
      Tree.ofText (before ++ hole.twin) = .error refusal) ∨
    ∃ t t', Tree.ofText (before ++ hole.rest) = .ok t ∧ Tree.ofText (before ++ hole.twin) = .ok t' ∧
      hole.Trees t t' := by
  obtain ⟨length, head⟩ := allowed_alike (hole.alike_before before)
  rw [Tree.ofText_run, Tree.ofText_run, ← head, ← length]
  cases (List.drop _ _).head? with
  | some c => exact .inl ⟨_, rfl, rfl⟩
  | none =>
    rcases readTokens_filled (scan_filled comes) with ⟨stop, failed, failed'⟩ | ⟨t, t', read, read', trees⟩
    · exact .inl ⟨.stop stop, by rw [failed]; rfl, by rw [failed']; rfl⟩
    · exact .inr ⟨t, t', by rw [read]; rfl, by rw [read']; rfl, trees⟩

end MailRules.Yaml
