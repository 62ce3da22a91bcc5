import MailRules.Proofs.Document.Strictness
import MailRules.Proofs.Search.Compile
/-!
What the parts of a document are read from. Each part stands for a node of the text and keeps its place, and
the parts in a list stand for the items of one sequence of the text, as many and in their order.
-/
namespace MailRules
open MailRules.Yaml

namespace Yaml.Graph

def place (g : Graph) (name : String) (i : NodeId) : Location :=
  ⟨name, (g.node i).mark.line + 1, (g.node i).mark.column + 1⟩

/-- The node is a mapping with these values under these keys, once the entries that its merge keys stand for
may have taken their place. -/
def Shows (g : Graph) (keys : List String) (i : NodeId) (es : List (String × NodeId)) : Prop :=
  Build.isMapping (g.node i) = true ∧ ∃ n, g.Rework (fun _ => True) i n ∧ es = g.named n.body.entries ∧
    g.Conforms keys n.body.entries

def textUnder? (g : Graph) (es : List (String × NodeId)) (key : String) : Option String :=
  (es.lookup key).bind g.textOf?

end Yaml.Graph

/-! The places that the parts keep -/

def Precondition.places (p : Precondition) : List Location :=
  p.nodes.flatMap fun q => q.location :: q.operands.map Operand.location

def Action.places (a : Action) : List Location := a.location :: a.arguments.map Leaf.location

def Rule.places (r : Rule) : List Location :=
  r.location :: (r.preconditions.flatMap Precondition.places ++ r.actions.flatMap Action.places)

def Mailbox.places (m : Mailbox) : List Location := m.location :: m.rules.flatMap Rule.places

def Account.places (a : Account) : List Location := a.location :: a.mailboxes.flatMap Mailbox.places

def Document.places (d : Document) : List Location := d.accounts.flatMap Account.places

namespace DocumentReader

section Origins
variable (g : Graph) (name : String)

structure LeafFrom (i : NodeId) (l : Leaf) : Prop where
  location : l.location = g.place name i
  scalar : l.isScalar = true ↔ (g.node i).body.IsScalar
  text : ∀ text style, (g.node i).body = .scalar text style → l.text = text

mutual

inductive PreconditionFrom : NodeId → Precondition → Prop
  | mk {i : NodeId} {es : List (String × NodeId)} {field : String} {operands : List Operand}
      (shows : g.Shows ["field", "values"] i es) (text : g.textUnder? es "field" = some field)
      (given : field ≠ "") (values : List.Forall₂ OperandFrom (g.itemsOf (es.lookup "values")) operands) :
      PreconditionFrom i (.mk field operands (g.place name i))

inductive OperandFrom : NodeId → Operand → Prop
  | leaf {j : NodeId} {l : Leaf} (other : Build.isMapping (g.node j) = false) (leaf : LeafFrom g name j l) :
      OperandFrom j (.leaf l)
  | nested {j : NodeId} {p : Precondition} (mapping : Build.isMapping (g.node j) = true)
      (inner : PreconditionFrom j p) : OperandFrom j (.nested p)

end

structure ActionFrom (e : NodeId × NodeId) (a : Action) : Prop where
  location : a.location = g.place name e.1
  kind : g.textOf? e.1 = some a.kind
  arguments : List.Forall₂ (LeafFrom g name) (g.itemsOf (some e.2)) a.arguments

/-- The actions, where there are any, are read from the entries of a mapping; no two have one kind. -/
inductive ActionsFrom : List NodeId → List Action → Prop
  | none : ActionsFrom [] []
  | some {i : NodeId} {n : Node} {actions : List Action} (mapping : Build.isMapping (g.node i) = true)
      (rework : g.Rework (fun _ => True) i n) (entries : List.Forall₂ (ActionFrom g name) n.body.entries actions)
      (distinct : Distinct actions) : ActionsFrom [i] actions

structure RuleFrom (i : NodeId) (r : Rule) : Prop where
  location : r.location = g.place name i
  parts : ∃ es, g.Shows ["preconditions", "action"] i es ∧
    List.Forall₂ (PreconditionFrom g name) (g.itemsOf (es.lookup "preconditions")) r.preconditions ∧
    ActionsFrom g name (g.given (es.lookup "action")) r.actions

structure MailboxFrom (i : NodeId) (m : Mailbox) : Prop where
  location : m.location = g.place name i
  named : m.name ≠ ""
  parts : ∃ es, g.Shows ["name", "rules"] i es ∧ g.textUnder? es "name" = some m.name ∧
    List.Forall₂ (RuleFrom g name) (g.itemsOf (es.lookup "rules")) m.rules

structure AccountFrom (i : NodeId) (a : Account) : Prop where
  location : a.location = g.place name i
  hosted : a.host ≠ ""
  parts : ∃ es, g.Shows accountKeys i es ∧ g.textUnder? es "host" = some a.host ∧
    List.Forall₂ (MailboxFrom g name) (g.itemsOf (es.lookup "mailboxes")) a.mailboxes

structure DocumentFrom (i : NodeId) (d : Document) : Prop where
  source : d.source = name
  parts : ∃ es, g.Shows ["servers"] i es ∧
    List.Forall₂ (AccountFrom g name) (g.itemsOf (es.lookup "servers")) d.accounts

end Origins

/-! Reading -/

/-- From a builder that values have been built with, the reader ends with one, and with `P` of what it
gives, unless it fails. -/
def Finds {α : Type} (g : Graph) (source : Source) (m : DocumentReader α) (P : α → Prop) : Prop :=
  Sweep.Step.Triple (fun b : Builder => g.Reworked (fun _ => True) b.graph) (m source)
    (fun a b => P a ∧ g.Reworked (fun _ => True) b.graph) fun _ _ => True

section Rules
variable {α β : Type} {g : Graph} {source : Source} {P : α → Prop} {R : β → Prop}

theorem finds_pure {a : α} (holds : P a) : Finds g source (pure a) P := fun _ reworked => ⟨holds, reworked⟩

theorem finds_bind {m : DocumentReader α} {next : α → DocumentReader β} (first : Finds g source m P)
    (later : ∀ a, P a → Finds g source (next a) R) : Finds g source (m >>= next) R :=
  Sweep.Step.triple_bind first fun a b both => later a both.1 b both.2

theorem finds_throw (failure : Failure) : Finds g source (throw failure : DocumentReader α) P :=
  fun _ _ => trivial

theorem finds_looks {m : DocumentReader α} (looks : ∀ b : Builder, g.Reworked (fun _ => True) b.graph →
    Looks source b m P) : Finds g source m P := by
  intro b reworked
  have ended := looks b reworked
  unfold Looks at ended
  split <;> rename_i same <;> rw [same] at ended
  · obtain ⟨rfl, holds⟩ := ended
    exact ⟨holds, reworked⟩
  · trivial

theorem finds_refuse (flaw : Flaw) (i : NodeId) : Finds g source (refuse flaw i : DocumentReader α) P :=
  finds_looks fun _ _ => looks_refuse flaw i

theorem finds_nodeAt {i : NodeId} {next : Node → DocumentReader β}
    (later : ∀ n, g.Rework (fun _ => True) i n → Finds g source (next n) R) :
    Finds g source (nodeAt i >>= next) R :=
  fun b reworked => later _ (reworked.node i) b reworked

theorem finds_locationOf {i : NodeId} {n : Node} (rework : g.Rework (fun _ => True) i n) :
    Finds g source (locationOf n) fun l => l = g.place source.name i := by
  intro b reworked
  have same : (⟨source.name, n.mark.line + 1, n.mark.column + 1⟩ : Location) = g.place source.name i := by
    rw [rework.mark, Graph.place]
  exact ⟨same, reworked⟩

theorem finds_locate (i : NodeId) : Finds g source (locate i) fun l => l = g.place source.name i :=
  finds_nodeAt fun _ rework => finds_locationOf rework

theorem finds_mapM {step : α → DocumentReader β} {S : α → β → Prop} {as : List α}
    (each : ∀ a ∈ as, Finds g source (step a) (S a)) :
    Finds g source (as.mapM step) (List.Forall₂ S as) := by
  induction as with
  | nil => exact finds_pure .nil
  | cons a as ih =>
    rw [List.mapM_cons]
    refine finds_bind (each a List.mem_cons_self) fun b first => ?_
    refine finds_bind (ih fun x member => each x (List.mem_cons_of_mem a member)) fun bs rest => ?_
    exact finds_pure (.cons first rest)

end Rules

section Parts
variable {g : Graph} {source : Source}

theorem finds_build (i : NodeId) : Finds g source (build i) fun _ => True := by
  intro b reworked
  have built := Build.value_leads (fun _ _ _ _ => trivial) reworked (i := i) trivial
  unfold Build.Leads at built
  rw [build_apply]
  cases same : Build.value i b with
  | mk r b' =>
    rw [same] at built
    cases r with
    | ok d => exact ⟨trivial, built⟩
    | error failure => cases failure <;> first | exact ⟨trivial, built.1⟩ | trivial

theorem finds_datum (i : NodeId) : Finds g source (datum i) fun _ => True := by
  refine finds_bind (finds_build i) fun result _ => ?_
  split
  · exact finds_pure trivial
  · exact finds_refuse _ i

theorem finds_leaf (i : NodeId) : Finds g source (leaf i) (LeafFrom g source.name i) := by
  refine finds_nodeAt fun n rework => finds_bind (finds_locationOf rework) fun location same => ?_
  subst same
  split
  · rename_i text style body
    have own : (g.node i).body = .scalar text style := (rework.scalar_iff text style).mp body
    have from_ (d : Datum) : LeafFrom g source.name i ⟨text, d, true, g.place source.name i⟩ :=
      ⟨rfl, iff_of_true rfl ⟨text, style, own⟩, fun _ _ body => by cases own.symm.trans body; rfl⟩
    refine finds_bind (finds_build i) fun result _ => ?_
    split <;> exact finds_pure (from_ _)
  · rename_i other
    have collection (text : String) (style : ScalarStyle) : (g.node i).body ≠ .scalar text style :=
      fun body => other text style ((rework.scalar_iff text style).mpr body)
    refine finds_bind (P := fun _ => True) (fun b reworked => ⟨trivial, reworked⟩) fun b _ => ?_
    refine finds_bind (finds_datum i) fun d _ => finds_pure ⟨rfl, iff_of_false Bool.false_ne_true ?_, ?_⟩
    · exact fun ⟨text, style, body⟩ => collection text style body
    · exact fun text style body => absurd body (collection text style)

theorem finds_items (part : String) (i? : Option NodeId) :
    Finds g source (items part i?) fun is => is = g.itemsOf i? :=
  finds_looks fun _ reworked => items_looks reworked part i?

theorem finds_text (part : String) (i? : Option NodeId) :
    Finds g source (text? part i?) fun t => ∀ s, t = some s → i?.bind g.textOf? = some s := by
  cases i? with
  | none => exact finds_pure nofun
  | some i =>
    refine finds_nodeAt fun n rework => ?_
    split
    · exact finds_pure nofun
    · split
      · rename_i text style body
        refine finds_pure ?_
        rintro s ⟨⟩
        simp only [Option.bind_some, Graph.textOf?, (rework.scalar_iff text style).mp body]
      · exact finds_refuse _ i

theorem finds_requiredText (part : String) (flaw : Flaw) (i : NodeId) (i? : Option NodeId) :
    Finds g source (requiredText part flaw i i?) fun s => i?.bind g.textOf? = some s ∧ s ≠ "" := by
  refine finds_bind (finds_text part i?) fun found read => ?_
  split
  · split
    · exact finds_refuse _ i
    · rename_i text nonempty
      exact finds_pure ⟨read _ rfl, fun empty => nonempty (by simp [empty])⟩
  · exact finds_refuse _ i

theorem mapping_of_rework {i : NodeId} {n : Node} {es : List (NodeId × NodeId)} {inFlow : Bool}
    (rework : g.Rework (fun _ => True) i n) (body : n.body = .mapping es inFlow) :
    Build.isMapping (g.node i) = true := by
  rw [← rework.isMapping]
  simp only [Build.isMapping, body]

theorem finds_entries (part : String) (keys : List String) (i : NodeId) :
    Finds g source (entries part keys i) (g.Shows keys i) := by
  refine finds_nodeAt fun n rework => ?_
  split
  · rename_i es inFlow body
    have isMapping := mapping_of_rework rework body
    refine finds_looks fun b reworked => looks_weaken (entriesFrom_looks reworked part keys es []) ?_
    rintro found ⟨rfl, texts, spelled, within, nodup, -⟩
    have shown : n.body.entries = es := by rw [body]; rfl
    exact ⟨isMapping, n, rework, by rw [shown]; rfl, texts, by rwa [shown], within, nodup⟩
  · exact finds_refuse _ i

theorem finds_operand {fuel : Nat} {j : NodeId}
    (nested : Finds g source (precondition j fuel) (PreconditionFrom g source.name j)) :
    Finds g source (do
      match (← nodeAt j).body with
      | .mapping .. => return Operand.nested (← precondition j fuel)
      | _ => return Operand.leaf (← leaf j)) (OperandFrom g source.name j) := by
  refine finds_nodeAt fun n rework => ?_
  split
  · rename_i es inFlow body
    exact finds_bind nested fun p from_ => finds_pure (.nested (mapping_of_rework rework body) from_)
  · rename_i noMapping
    have other : Build.isMapping (g.node j) = false := by
      rw [← rework.isMapping]
      cases body : n.body with
      | mapping es inFlow => exact absurd body (noMapping es inFlow)
      | _ => simp [Build.isMapping, body]
    exact finds_bind (finds_leaf j) fun l from_ => finds_pure (.leaf other from_)

theorem finds_precondition (fuel : Nat) :
    ∀ i, Finds g source (precondition i fuel) (PreconditionFrom g source.name i) := by
  induction fuel with
  | zero => exact fun i => finds_throw _
  | succ fuel ih =>
    intro i
    refine finds_bind (finds_entries _ _ i) fun es shows => ?_
    refine finds_bind (finds_requiredText _ _ i _) fun field text => ?_
    refine finds_bind (finds_items _ _) fun values same => ?_
    subst same
    refine finds_bind (finds_mapM fun j _ => finds_operand (ih j)) fun operands from_ => ?_
    refine finds_bind (finds_locate i) fun location same => ?_
    subst same
    exact finds_pure (.mk shows text.1 text.2 from_)

theorem finds_action (e : NodeId × NodeId) : Finds g source (action e) (ActionFrom g source.name e) := by
  refine finds_bind (finds_text _ _) fun kind? text => ?_
  split
  · exact finds_refuse _ e.1
  · rename_i kind
    refine finds_bind (finds_items _ _) fun nodes same => ?_
    subst same
    refine finds_bind (finds_mapM fun j _ => finds_leaf j) fun arguments from_ => ?_
    refine finds_bind (finds_locate e.1) fun location same => ?_
    exact finds_pure ⟨same, text kind rfl, from_⟩

theorem finds_actions (i? : Option NodeId) :
    Finds g source (actions i?) (ActionsFrom g source.name (g.given i?)) := by
  cases i? with
  | none => exact finds_pure .none
  | some i =>
    refine finds_nodeAt fun n rework => ?_
    rw [isNull_eq rework]
    split
    · rename_i null
      rw [Graph.given_null null]
      exact finds_pure .none
    · rename_i there
      rw [Graph.given_some there]
      split
      · rename_i es inFlow body
        refine finds_bind (finds_mapM fun e _ => finds_action e) fun actions from_ => ?_
        split
        · exact finds_throw _
        · rename_i once
          have entries : List.Forall₂ (ActionFrom g source.name) n.body.entries actions := by rwa [body]
          exact finds_pure (.some (mapping_of_rework rework body) rework entries (distinct_of_none_repeated once))
      · exact finds_refuse _ i

theorem finds_rule (i : NodeId) : Finds g source (rule i) (RuleFrom g source.name i) := by
  refine finds_bind (finds_entries _ _ i) fun es shows => ?_
  refine finds_bind (P := fun _ => True) (fun b reworked => ⟨trivial, reworked⟩) fun b _ => ?_
  refine finds_bind (finds_items _ _) fun nodes same => ?_
  subst same
  refine finds_bind (finds_mapM fun j _ => finds_precondition _ j) fun preconditions first => ?_
  refine finds_bind (finds_actions _) fun actions second => ?_
  exact finds_bind (finds_locate i) fun location same => finds_pure ⟨same, es, shows, first, second⟩

theorem finds_mailbox (i : NodeId) : Finds g source (mailbox i) (MailboxFrom g source.name i) := by
  refine finds_bind (finds_entries _ _ i) fun es shows => ?_
  refine finds_bind (finds_requiredText _ _ i _) fun name text => ?_
  refine finds_bind (finds_items _ _) fun nodes same => ?_
  subst same
  refine finds_bind (finds_mapM fun j _ => finds_rule j) fun rules from_ => ?_
  exact finds_bind (finds_locate i) fun location same =>
    finds_pure ⟨same, text.2, es, shows, text.1, from_⟩

theorem finds_flagData (es : List (String × NodeId)) (flags : List Flag) :
    Finds g source (flagData es flags) fun _ => True := by
  induction flags with
  | nil => exact finds_pure trivial
  | cons flag rest ih =>
    unfold flagData
    split
    · exact ih
    · rename_i i _
      refine finds_nodeAt fun n _ => ?_
      split
      · exact ih
      · exact finds_bind (finds_datum i) fun d _ => finds_bind ih fun found _ => finds_pure trivial

theorem finds_account (i : NodeId) : Finds g source (account i) (AccountFrom g source.name i) := by
  refine finds_bind (finds_entries _ _ i) fun es shows => ?_
  refine finds_bind (finds_requiredText _ _ i _) fun host text => ?_
  refine finds_bind (finds_flagData es _) fun flags _ => ?_
  refine finds_bind (finds_text _ _) fun username _ => ?_
  refine finds_bind (finds_text _ _) fun password _ => ?_
  refine finds_bind (finds_text _ _) fun identity _ => ?_
  refine finds_bind (finds_items _ _) fun nodes same => ?_
  subst same
  refine finds_bind (finds_mapM fun j _ => finds_mailbox j) fun mailboxes from_ => ?_
  split
  · exact finds_refuse _ i
  · exact finds_bind (finds_locate i) fun location same =>
      finds_pure ⟨same, text.2, es, shows, text.1, from_⟩

theorem finds_document (root : Option NodeId) : Finds g source (document root) fun d =>
    ∃ i, root = some i ∧ DocumentFrom g source.name i d := by
  refine finds_bind (P := fun s => s = source) (fun _ reworked => ⟨rfl, reworked⟩) fun s same => ?_
  subst same
  split
  · exact finds_throw _
  · rename_i i
    refine finds_nodeAt fun n rework => ?_
    split
    · exact finds_bind (P := fun _ => False) (finds_throw _) fun _ impossible => impossible.elim
    · refine finds_bind (finds_entries _ _ i) fun es shows => ?_
      refine finds_bind (finds_items _ _) fun nodes same => ?_
      subst same
      refine finds_bind (finds_mapM fun j _ => finds_account j) fun accounts from_ => ?_
      exact finds_pure ⟨i, rfl, rfl, es, shows, from_⟩

end Parts

/-! What holds of the parts -/

section Parts
variable {g : Graph} {name : String}

theorem exists_of_forall₂ {α β : Type} {R : α → β → Prop} {as : List α} {bs : List β}
    (all : List.Forall₂ R as bs) : ∀ b ∈ bs, ∃ a, R a b := by
  induction all with
  | nil => nofun
  | cons first _ ih => exact List.forall_mem_cons.mpr ⟨⟨_, first⟩, ih⟩

def InText (name : String) (l : Location) : Prop := l.path = name ∧ 1 ≤ l.line ∧ 1 ≤ l.column

theorem place_inText (i : NodeId) : InText name (g.place name i) :=
  ⟨rfl, Nat.le_add_left 1 _, Nat.le_add_left 1 _⟩

/-- Each precondition inside another one is read from a node of its own. -/
theorem node_from {p : Precondition} : ∀ {i}, PreconditionFrom g name i p →
    ∀ q ∈ p.nodes, ∃ j, PreconditionFrom g name j q := by
  induction p using Precondition.induction with
  | step field operands location ih =>
    intro i from_ q member
    rw [Precondition.nodes] at member
    rcases List.mem_cons.mp member with rfl | deeper
    · exact ⟨i, from_⟩
    · obtain ⟨x, operand, inside⟩ := Operand.mem_nodes.mp deeper
      cases from_ with
      | mk shows text given values =>
        obtain ⟨j, nested⟩ := exists_of_forall₂ values _ operand
        cases nested with
        | nested _ inner => exact ih x operand inner q inside

theorem LeafFrom.inText {i : NodeId} {l : Leaf} (from_ : LeafFrom g name i l) : InText name l.location :=
  from_.location ▸ place_inText i

theorem PreconditionFrom.location {i : NodeId} {p : Precondition} (from_ : PreconditionFrom g name i p) :
    InText name p.location := by
  cases from_ with
  | mk => exact place_inText i

theorem OperandFrom.inText {i : NodeId} {o : Operand} (from_ : OperandFrom g name i o) :
    InText name o.location := by
  cases from_ with
  | leaf _ leaf => exact leaf.inText
  | nested _ inner => exact inner.location

theorem PreconditionFrom.inText {i : NodeId} {p : Precondition} (from_ : PreconditionFrom g name i p) :
    ∀ l ∈ p.places, InText name l := by
  intro l member
  obtain ⟨q, node, here⟩ := List.mem_flatMap.mp member
  obtain ⟨j, own⟩ := node_from from_ q node
  rcases List.mem_cons.mp here with rfl | operand
  · exact own.location
  · obtain ⟨o, among, rfl⟩ := List.mem_map.mp operand
    cases own with
    | mk shows text given values =>
      obtain ⟨k, nested⟩ := exists_of_forall₂ values o among
      exact nested.inText

theorem PreconditionFrom.fields {i : NodeId} {p : Precondition} (from_ : PreconditionFrom g name i p) :
    ∀ q ∈ p.nodes, q.field ≠ "" := by
  intro q node
  obtain ⟨j, own⟩ := node_from from_ q node
  cases own with
  | mk shows text given values => exact given

theorem ActionsFrom.distinct {given : List NodeId} {actions : List Action}
    (from_ : ActionsFrom g name given actions) : Distinct actions := by
  cases from_ with
  | none => exact List.nodup_nil
  | some _ _ _ distinct => exact distinct

theorem ActionsFrom.inText {given : List NodeId} {actions : List Action}
    (from_ : ActionsFrom g name given actions) : ∀ l ∈ actions.flatMap Action.places, InText name l := by
  cases from_ with
  | none => nofun
  | some _ _ entries _ =>
    intro l member
    obtain ⟨a, among, inside⟩ := List.mem_flatMap.mp member
    obtain ⟨e, own⟩ := exists_of_forall₂ entries a among
    rcases List.mem_cons.mp inside with rfl | argument
    · exact own.location ▸ place_inText e.1
    · obtain ⟨x, among, rfl⟩ := List.mem_map.mp argument
      obtain ⟨j, leaf⟩ := exists_of_forall₂ own.arguments x among
      exact leaf.inText

theorem places_of_each {α : Type} {R : NodeId → α → Prop} {as : List NodeId} {bs : List α}
    {places : α → List Location} (all : List.Forall₂ R as bs)
    (each : ∀ j b, R j b → ∀ l ∈ places b, InText name l) : ∀ l ∈ bs.flatMap places, InText name l := by
  intro l member
  obtain ⟨b, among, inside⟩ := List.mem_flatMap.mp member
  obtain ⟨j, from_⟩ := exists_of_forall₂ all b among
  exact each j b from_ l inside

theorem RuleFrom.inText (i : NodeId) (r : Rule) (from_ : RuleFrom g name i r) :
    ∀ l ∈ r.places, InText name l := by
  obtain ⟨es, -, preconditions, actions⟩ := from_.parts
  refine List.forall_mem_cons.mpr ⟨from_.location ▸ place_inText i, fun l member => ?_⟩
  rcases List.mem_append.mp member with first | second
  · exact places_of_each preconditions (fun _ _ => PreconditionFrom.inText) l first
  · exact actions.inText l second

theorem MailboxFrom.inText (i : NodeId) (m : Mailbox) (from_ : MailboxFrom g name i m) :
    ∀ l ∈ m.places, InText name l := by
  obtain ⟨es, -, -, rules⟩ := from_.parts
  exact List.forall_mem_cons.mpr ⟨from_.location ▸ place_inText i, places_of_each rules RuleFrom.inText⟩

theorem AccountFrom.inText (i : NodeId) (a : Account) (from_ : AccountFrom g name i a) :
    ∀ l ∈ a.places, InText name l := by
  obtain ⟨es, -, -, mailboxes⟩ := from_.parts
  exact List.forall_mem_cons.mpr ⟨from_.location ▸ place_inText i,
    places_of_each mailboxes MailboxFrom.inText⟩

end Parts

end DocumentReader

open DocumentReader

theorem Document.from_text {text name : String} {d : Document} (parsed : Document.parse text name = .ok d) :
    ∃ tree root, Tree.ofText text.toList = .ok tree ∧ tree.root = some root ∧
      DocumentFrom tree.graph name root d := by
  unfold Document.parse at parsed
  dsimp only at parsed
  split at parsed
  · cases parsed
  · cases parsed
  · cases parsed
  · rename_i tree opened
    have finds : Finds tree.graph ⟨name, text.toList⟩ (document tree.root) _ := finds_document tree.root
    have ended := finds { graph := tree.graph } (Graph.reworked_self tree.graph _)
    change (document tree.root ⟨name, text.toList⟩ { graph := tree.graph }).1 = .ok d at parsed
    split at ended <;> rename_i same <;> rw [same] at parsed <;> cases parsed
    obtain ⟨⟨root, rooted, from_⟩, -⟩ := ended
    exact ⟨tree, root, opened, rooted, from_⟩

/-- A document that is read has the parts that its text has. Every list of it stands for one sequence of the
text, item for item, and among the values of a precondition just the mappings are preconditions; hosts, names and
fields are there, the kinds of actions differ, and every place that is kept is in the text. -/
theorem Document.parse_mirrors_text {text name : String} {d : Document}
    (parsed : Document.parse text name = .ok d) :
    (∃ tree root, Tree.ofText text.toList = .ok tree ∧ tree.root = some root ∧
      DocumentFrom tree.graph name root d) ∧
    (∀ a ∈ d.accounts, a.host ≠ "" ∧ ∀ m ∈ a.mailboxes, m.name ≠ "" ∧ ∀ r ∈ m.rules,
      (r.actions.map Action.kind).Nodup ∧ ∀ p ∈ r.preconditions, ∀ q ∈ p.nodes, q.field ≠ "") ∧
    ∀ l ∈ d.places, InText name l := by
  obtain ⟨tree, root, opened, rooted, from_⟩ := Document.from_text parsed
  obtain ⟨es, -, accounts⟩ := from_.parts
  refine ⟨⟨tree, root, opened, rooted, from_⟩, ?_, places_of_each accounts AccountFrom.inText⟩
  intro a among
  obtain ⟨i, account⟩ := exists_of_forall₂ accounts a among
  refine ⟨account.hosted, ?_⟩
  obtain ⟨es, -, -, mailboxes⟩ := account.parts
  intro m among
  obtain ⟨i, mailbox⟩ := exists_of_forall₂ mailboxes m among
  refine ⟨mailbox.named, ?_⟩
  obtain ⟨es, -, -, rules⟩ := mailbox.parts
  intro r among
  obtain ⟨i, rule⟩ := exists_of_forall₂ rules r among
  obtain ⟨es, -, preconditions, actions⟩ := rule.parts
  refine ⟨actions.distinct, fun p among => ?_⟩
  obtain ⟨i, precondition⟩ := exists_of_forall₂ preconditions p among
  exact precondition.fields

theorem Document.merged_mirrors : Document.parse mergedText "c" = .ok mergedDocument ∧
    DocumentFrom mergedGraph "c" 0 mergedDocument ∧ ∀ l ∈ mergedDocument.places, InText "c" l := by
  obtain ⟨⟨tree, root, opened, rooted, from_⟩, -, places⟩ := parse_mirrors_text merged_parsed
  cases merged_tree.symm.trans opened
  cases rooted
  exact ⟨merged_parsed, from_, places⟩

end MailRules
