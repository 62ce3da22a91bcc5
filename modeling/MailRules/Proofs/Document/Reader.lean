import Mathlib
import MailRules.Document.Reader
import MailRules.Proofs.Sweep.Step
/-!
What every document that is read is like: no rule has two actions of one kind. The reader is followed
through its equations, which say what each step gives in a state of the builder.
-/
namespace MailRules
open MailRules.Yaml

namespace Yaml.Build

section Equations
variable {α β : Type} (b : Builder)

@[simp] theorem bind_apply (s : Build α) (next : α → Build β) :
    (s >>= next) b = match s b with
      | (.ok a, b') => next a b'
      | (.error failure, b') => (.error failure, b') := by
  change (match s b with | (r, b') => ExceptT.bindCont next r b') = _
  cases s b with
  | mk r b' => cases r <;> rfl

@[simp] theorem pure_apply (a : α) : (pure a : Build α) b = (.ok a, b) := rfl

@[simp] theorem map_apply (f : α → β) (s : Build α) :
    (f <$> s) b = match s b with
      | (.ok a, b') => (.ok (f a), b')
      | (.error failure, b') => (.error failure, b') := by
  rw [← bind_pure_comp, bind_apply]
  rfl

@[simp] theorem get_apply : (get : Build Builder) b = (.ok b, b) := rfl

@[simp] theorem modify_apply (f : Builder → Builder) :
    (modify f : Build Unit) b = (.ok (), f b) := rfl

@[simp] theorem nodeAt_apply (i : NodeId) : nodeAt i b = (.ok (b.graph.node i), b) := rfl

end Equations

theorem value_text {b : Builder} {i : NodeId} {text : String} {style : ScalarStyle} {mark : Mark}
    (node : b.graph.node i = ⟨Tag.str, .scalar text style, mark⟩)
    (fresh : b.values.lookup i = none) (idle : b.begun = []) :
    value i b = (.ok (.text text), { b with values := (i, .text text) :: b.values }) := by
  simp [value, datum, fresh, idle, ofTag, node, ofText, scalarText]

end Yaml.Build

namespace DocumentReader

section Equations
variable {α β : Type} (source : Source) (b : Builder)

@[simp] theorem bind_apply (m : DocumentReader α) (next : α → DocumentReader β) :
    (m >>= next) source b = match m source b with
      | (.ok a, b') => next a source b'
      | (.error failure, b') => (.error failure, b') := by
  change (match m source b with | (r, b') => ExceptT.bindCont (fun a => next a source) r b') = _
  cases m source b with
  | mk r b' => cases r <;> rfl

@[simp] theorem pure_apply (a : α) : (pure a : DocumentReader α) source b = (.ok a, b) := rfl

@[simp] theorem map_apply (f : α → β) (m : DocumentReader α) :
    (f <$> m) source b = match m source b with
      | (.ok a, b') => (.ok (f a), b')
      | (.error failure, b') => (.error failure, b') := by
  rw [← bind_pure_comp, bind_apply]
  rfl

@[simp] theorem read_apply : (read : DocumentReader Source) source b = (.ok source, b) := rfl

@[simp] theorem get_apply : (get : DocumentReader Builder) source b = (.ok b, b) := rfl

@[simp] theorem set_apply (b' : Builder) :
    (set b' : DocumentReader PUnit) source b = (.ok PUnit.unit, b') := rfl

@[simp] theorem nodeAt_apply (i : NodeId) : nodeAt i source b = (.ok (b.graph.node i), b) := rfl

@[simp] theorem refuse_apply (flaw : Flaw) (i : NodeId) :
    (refuse flaw i : DocumentReader α) source b =
      (.error (.error (.document flaw (some ⟨source.name, (b.graph.node i).mark.line + 1,
        (b.graph.node i).mark.column + 1⟩))), b) := rfl

@[simp] theorem locate_apply (i : NodeId) :
    locate i source b = (.ok ⟨source.name, (b.graph.node i).mark.line + 1,
      (b.graph.node i).mark.column + 1⟩, b) := rfl

theorem build_apply (i : NodeId) : build i source b =
    match Build.value i b with
    | (.ok d, b') => (.ok (.ok d), b')
    | (.error (.problem p), b') => (.ok (.error (p.message source.text)), b')
    | (.error (.refused reason), b') => (.ok (.error reason), b')
    | (.error (.fault f), b') => (.error (.fault f), b') := by
  cases result : Build.value i b with
  | mk r b' =>
    have built : (Build.value i).run.run b = (r, b') := result
    match r with
    | .ok d => simp [build, built]
    | .error (.problem p) => simp [build, built]
    | .error (.refused reason) => simp [build, built]
    | .error (.fault f) =>
      simp [build, built]
      rfl

theorem leaf_text {b : Builder} {i : NodeId} {text : String} {style : ScalarStyle} {mark : Mark}
    (node : b.graph.node i = ⟨Tag.str, .scalar text style, mark⟩)
    (fresh : b.values.lookup i = none) (idle : b.begun = []) :
    leaf i source b =
      (.ok ⟨text, .text text, true, ⟨source.name, mark.line + 1, mark.column + 1⟩⟩,
        { b with values := (i, .text text) :: b.values }) := by
  have built : build i source b =
      (.ok (.ok (.text text)), { b with values := (i, .text text) :: b.values }) := by
    rw [build_apply, Build.value_text node fresh idle]
  simp [leaf, node, locationOf, built]

end Equations

def Gives {α : Type} (m : DocumentReader α) (P : α → Prop) : Prop :=
  ∀ source, Sweep.Step.Triple (fun _ => True) (m source) (fun a _ => P a) fun _ _ => True

variable {α β : Type} {P : α → Prop} {Q : β → Prop}

theorem gives_any (m : DocumentReader α) : Gives m fun _ => True := by
  intro source st _
  split <;> trivial

theorem given_of_run {m : DocumentReader α} {source : Source} {b : Builder} {a : α}
    (gives : Gives m P) (ended : ((m.run source).run.run b).1 = .ok a) : P a := by
  have holds := gives source b trivial
  change (m source b).1 = .ok a at ended
  split at holds <;> rename_i same <;> rw [same] at ended <;> cases ended
  exact holds

theorem gives_pure {a : α} (holds : P a) : Gives (pure a) P := fun _ _ _ => holds

theorem gives_throw (failure : Failure) : Gives (throw failure : DocumentReader α) P :=
  fun _ _ _ => trivial

theorem gives_bind {m : DocumentReader α} {next : α → DocumentReader β} (first : Gives m P)
    (later : ∀ a, P a → Gives (next a) Q) : Gives (m >>= next) Q := by
  intro source
  apply Sweep.Step.triple_bind (first source)
  intro a st holds
  exact later a holds source st trivial

theorem gives_after {m : DocumentReader α} {next : α → DocumentReader β}
    (later : ∀ a, Gives (next a) Q) : Gives (m >>= next) Q :=
  gives_bind (gives_any m) fun a _ => later a

theorem gives_refuse (flaw : Flaw) (i : NodeId) : Gives (refuse flaw i : DocumentReader α) P :=
  gives_after fun _ => gives_throw _

theorem gives_mapM {items : List α} {read : α → DocumentReader β} (each : ∀ a, Gives (read a) Q) :
    Gives (items.mapM read) fun bs => ∀ b ∈ bs, Q b := by
  induction items with
  | nil => exact gives_pure (by simp)
  | cons a items ih =>
    rw [List.mapM_cons]
    apply gives_bind (each a)
    intro b holds
    apply gives_bind ih
    intro bs others
    exact gives_pure (by simpa using ⟨holds, others⟩)

def Distinct (actions : List Action) : Prop := (actions.map Action.kind).Nodup

theorem distinct_of_none_repeated {actions : List Action} (none : repeated? actions = none) :
    Distinct actions := by
  apply List.nodup_iff_count.mpr
  intro kind
  by_cases member : kind ∈ actions.map Action.kind
  · obtain ⟨a, inside, rfl⟩ := List.mem_map.mp member
    have once := List.find?_eq_none.mp none a inside
    have same : (actions.map Action.kind).count a.kind = actions.countP (·.kind = a.kind) := by
      rw [List.count_eq_countP, List.countP_map]
      rfl
    simpa [same] using once
  · simp [List.count_eq_zero.mpr member]

theorem actions_distinct (i? : Option NodeId) : Gives (actions i?) Distinct := by
  cases i? with
  | none => exact gives_pure List.nodup_nil
  | some i =>
    apply gives_after
    intro n
    split
    · exact gives_pure List.nodup_nil
    · split
      · apply gives_after
        intro actions
        split
        · exact gives_throw _
        · rename_i none
          exact gives_pure (distinct_of_none_repeated none)
      · exact gives_refuse _ _

theorem rule_distinct (i : NodeId) : Gives (rule i) fun r => Distinct r.actions := by
  apply gives_after
  intro es
  apply gives_after
  intro size
  apply gives_after
  intro nodes
  apply gives_after
  intro preconditions
  apply gives_bind (actions_distinct _)
  intro actions distinct
  exact gives_after fun _ => gives_pure distinct

theorem mailbox_distinct (i : NodeId) :
    Gives (mailbox i) fun m => ∀ r ∈ m.rules, Distinct r.actions := by
  apply gives_after
  intro es
  apply gives_after
  intro name
  apply gives_after
  intro nodes
  apply gives_bind (gives_mapM rule_distinct)
  intro rules distinct
  exact gives_after fun _ => gives_pure distinct

theorem account_distinct (i : NodeId) :
    Gives (account i) fun a => ∀ m ∈ a.mailboxes, ∀ r ∈ m.rules, Distinct r.actions := by
  iterate 7
    apply gives_after
    intro _
  apply gives_bind (gives_mapM mailbox_distinct)
  intro mailboxes distinct
  split
  · exact gives_refuse _ _
  · exact gives_after fun _ => gives_pure distinct

theorem document_distinct (root : Option NodeId) :
    Gives (document root) fun d =>
      ∀ a ∈ d.accounts, ∀ m ∈ a.mailboxes, ∀ r ∈ m.rules, Distinct r.actions := by
  apply gives_after
  intro source
  cases root with
  | none => exact gives_throw _
  | some i =>
    apply gives_after
    intro n
    extract_lets rest
    have read : ∀ u, Gives (rest u) fun d =>
        ∀ a ∈ d.accounts, ∀ m ∈ a.mailboxes, ∀ r ∈ m.rules, Distinct r.actions := by
      intro u
      apply gives_after
      intro es
      apply gives_after
      intro nodes
      apply gives_bind (gives_mapM account_distinct)
      intro accounts distinct
      exact gives_pure distinct
    split
    · exact gives_after read
    · exact read ()

end DocumentReader

/-- In a document that is read, no rule has two actions of one kind. -/
theorem Document.parse_distinct {text name : String} {d : Document}
    (parsed : Document.parse text name = .ok d) :
    ∀ a ∈ d.accounts, ∀ m ∈ a.mailboxes, ∀ r ∈ m.rules, DocumentReader.Distinct r.actions := by
  unfold Document.parse at parsed
  dsimp only at parsed
  split at parsed
  · cases parsed
  · cases parsed
  · cases parsed
  · exact DocumentReader.given_of_run (DocumentReader.document_distinct _) parsed

theorem Yaml.Tree.ofText_of_tokens {cs : List Char} {tokens : List Token} {tree : Tree}
    (allowed : cs.all isAllowed = true)
    (scanned : (scan cs).tokens = tokens ∧ (scan cs).stop = none)
    (composed : readTokens ⟨tokens, none⟩ = .ok tree) : Tree.ofText cs = .ok tree := by
  obtain ⟨rfl, through⟩ := scanned
  have whole : cs.takeWhile isAllowed = cs := List.takeWhile_eq_self_iff.mpr (List.all_eq_true.mp allowed)
  have same : scan cs = ⟨(scan cs).tokens, none⟩ := by rw [← through]
  simp only [Tree.ofText, whole, List.drop_length]
  rw [same, composed]
  rfl

/-! A document of two rules, of which one moves to two places and one to none -/

def place (name : String) (column : Nat) : Leaf := ⟨name, .text name, true, ⟨"c", 6, column⟩⟩

def moving (line : Nat) (places : List Leaf) : Rule :=
  ⟨[], [⟨"move", places, ⟨"c", line, 16⟩⟩], ⟨"c", line, 7⟩⟩

def twoRules : Document :=
  ⟨"c", [⟨"h", {}, {}, [⟨"INBOX", [moving 6 [place "A" 23, place "B" 26], moving 7 []],
    ⟨"c", 4, 5⟩⟩], ⟨"c", 2, 3⟩⟩]⟩

def twoRulesText : String :=
  "servers:\n- host: h\n  mailboxes:\n  - name: INBOX\n    rules:\n" ++
    "    - action: \x7bmove: [A, B]\x7d\n    - action: \x7bmove: []\x7d\n"

section Nodes

def word (text : String) (index line column : Nat) : Node :=
  ⟨Tag.str, .scalar text .plain, ⟨index, line, column⟩⟩

def sequence (items : List NodeId) (inFlow : Bool) (index line column : Nat) : Node :=
  ⟨Tag.seq, .sequence items inFlow, ⟨index, line, column⟩⟩

def mapping (entries : List (NodeId × NodeId)) (inFlow : Bool) (index line column : Nat) : Node :=
  ⟨Tag.map, .mapping entries inFlow, ⟨index, line, column⟩⟩

/-- A token of so many characters, all of them on one line. -/
def token (kind : TokenKind) (index line column length : Nat) : Token :=
  ⟨kind, ⟨index, line, column⟩, ⟨index + length, line, column + length⟩⟩

def plainToken (text : String) (index line column : Nat) : Token :=
  token (.scalar text .plain) index line column text.length

/-- What a document of one account starts with, up to its host. -/
def hostTokens : List Token :=
  [token .blockMappingStart 0 0 0 0, token .key 0 0 0 0, plainToken "servers" 0 0 0, token .value 7 0 7 1,
    token .blockEntry 9 1 0 1, token .blockMappingStart 11 1 2 0,
    token .key 11 1 2 0, plainToken "host" 11 1 2, token .value 15 1 6 1, plainToken "h" 17 1 8]

/-- The same, up to the rules of its one mailbox. -/
def rulesTokens : List Token :=
  hostTokens ++
  [token .key 21 2 2 0, plainToken "mailboxes" 21 2 2, token .value 30 2 11 1,
    token .blockEntry 34 3 2 1, token .blockMappingStart 36 3 4 0,
    token .key 36 3 4 0, plainToken "name" 36 3 4, token .value 40 3 8 1, plainToken "INBOX" 42 3 10,
    token .key 52 4 4 0, plainToken "rules" 52 4 4, token .value 57 4 9 1]

/-- So many collections end with the text. -/
def closingTokens (collections index line : Nat) : List Token :=
  List.replicate collections (token .blockEnd index line 0 0) ++ [token .streamEnd index line 0 0]

def twoRulesTokens : List Token :=
  rulesTokens ++
  [token .blockEntry 63 5 4 1, token .blockMappingStart 65 5 6 0,
    token .key 65 5 6 0, plainToken "action" 65 5 6, token .value 71 5 12 1,
    token .flowMappingStart 73 5 14 1, token .key 74 5 15 0, plainToken "move" 74 5 15, token .value 78 5 19 1,
    token .flowSequenceStart 80 5 21 1, plainToken "A" 81 5 22, token .flowEntry 82 5 23 1,
    plainToken "B" 84 5 25, token .flowSequenceEnd 85 5 26 1, token .flowMappingEnd 86 5 27 1,
    token .blockEnd 92 6 4 0, token .blockEntry 92 6 4 1, token .blockMappingStart 94 6 6 0,
    token .key 94 6 6 0, plainToken "action" 94 6 6, token .value 100 6 12 1,
    token .flowMappingStart 102 6 14 1, token .key 103 6 15 0, plainToken "move" 103 6 15,
    token .value 107 6 19 1, token .flowSequenceStart 109 6 21 1, token .flowSequenceEnd 110 6 22 1,
    token .flowMappingEnd 111 6 23 1] ++
  closingTokens 4 113 7

def twoRulesNodes : List Node :=
  [mapping [(1, 2)] false 0 0 0,
    word "servers" 0 0 0, sequence [3] false 9 1 0,
    mapping [(4, 5), (6, 7)] false 11 1 2,
    word "host" 11 1 2, word "h" 17 1 8,
    word "mailboxes" 21 2 2, sequence [8] false 34 3 2,
    mapping [(9, 10), (11, 12)] false 36 3 4,
    word "name" 36 3 4, word "INBOX" 42 3 10,
    word "rules" 52 4 4, sequence [13, 20] false 63 5 4,
    mapping [(14, 15)] false 65 5 6,
    word "action" 65 5 6, mapping [(16, 17)] true 73 5 14,
    word "move" 74 5 15, sequence [18, 19] true 80 5 21,
    word "A" 81 5 22, word "B" 84 5 25,
    mapping [(21, 22)] false 94 6 6,
    word "action" 94 6 6, mapping [(23, 24)] true 102 6 14,
    word "move" 103 6 15, sequence [] true 109 6 21]

end Nodes

def twoRulesGraph : Graph := ⟨twoRulesNodes.toArray⟩

theorem twoRules_node (i : NodeId) : twoRulesGraph.node i = twoRulesNodes.getD i Graph.absent := by
  simp [twoRulesGraph, Graph.node]

theorem twoRules_scanned :
    (scan twoRulesText.toList).tokens = twoRulesTokens ∧ (scan twoRulesText.toList).stop = none := by
  decide +kernel

theorem twoRules_tree : Tree.ofText twoRulesText.toList = .ok ⟨twoRulesGraph, some 0⟩ :=
  Yaml.Tree.ofText_of_tokens (by decide +kernel) twoRules_scanned (by decide +kernel)

open DocumentReader in
theorem twoRules_parsed : Document.parse twoRulesText "c" = .ok twoRules := by
  have firstNode : twoRulesGraph.node 18 = word "A" 81 5 22 := by
    simp [twoRules_node, twoRulesNodes]
  have first : leaf 18 ⟨"c", twoRulesText.toList⟩ { graph := twoRulesGraph } =
      (.ok (place "A" 23), { graph := twoRulesGraph, values := [(18, .text "A")] }) :=
    leaf_text (b := { graph := twoRulesGraph }) _ firstNode rfl rfl
  have secondNode : twoRulesGraph.node 19 = word "B" 84 5 25 := by
    simp [twoRules_node, twoRulesNodes]
  have second : leaf 19 ⟨"c", twoRulesText.toList⟩
      { graph := twoRulesGraph, values := [(18, .text "A")] } =
        (.ok (place "B" 26),
          { graph := twoRulesGraph, values := [(19, .text "B"), (18, .text "A")] }) :=
    leaf_text (b := { graph := twoRulesGraph, values := [(18, .text "A")] }) _ secondNode rfl rfl
  have read : document (some 0) ⟨"c", twoRulesText.toList⟩ { graph := twoRulesGraph } =
      (.ok twoRules,
        { graph := twoRulesGraph, values := [(19, .text "B"), (18, .text "A")] }) := by
    simp [document, account, mailbox, rule, actions, action, repeated?, entries, entriesFrom, items,
      flagData, requiredText, text?, isNull, accountKeys, Flag.all, Flag.key, Flags.read,
      Flags.problems, List.lookup_cons, List.mapM_cons, twoRules_node, twoRulesNodes, word, sequence,
      mapping, Tag.str, Tag.null, twoRules, moving, first, second]
  simp only [Document.parse, twoRules_tree]
  exact congrArg Prod.fst read

end MailRules
