import MailRules.Proofs.Document.Faults
import MailRules.Proofs.Document.Visits
/-!
How reading a composed document ends. Of all parts of a document only preconditions hold others like
themselves, and the reader does not remember which it is in the middle of: one that is among its own
values is read again and again.
-/
namespace MailRules
open MailRules.Yaml

/-- However a document is composed, reading it ends: with the document, of which every precondition
settled, with an error of it, or with a fault that the text provokes; that of endless nesting is met only
where preconditions hold themselves or default values lead around in a circle. -/
theorem Document.parse_ends (text name : String) {tree : Tree}
    (opened : Tree.ofText text.toList = .ok tree) :
    (∃ d root visits, Document.parse text name = .ok d ∧ tree.root = some root ∧
      DocumentReader.Faithful tree.graph [] visits ∧
        DocumentReader.Covers tree.graph [.part .document root] visits) ∨
      (∃ flaw location, Document.parse text name = .error (.error (.document flaw location))) ∨
        ∃ f, Document.parse text name = .error (.fault f) ∧ Yaml.Provokes text.toList f ∧
          (f = .endlessNesting → tree.graph.Endless) := by
  have ended := parse_visits text name opened
  cases parsed : Document.parse text name with
  | ok d =>
    rw [parsed] at ended
    obtain ⟨root, visits, top, faithful, covers⟩ := ended
    exact .inl ⟨d, root, visits, rfl, top, faithful, covers⟩
  | error failure =>
    rw [parsed] at ended
    obtain ⟨flaw, location, rfl⟩ | ⟨f, rfl, provoked⟩ := reported_iff.mp (parse_reported parsed)
    · exact .inr (.inl ⟨flaw, location, rfl⟩)
    · exact .inr (.inr ⟨f, rfl, provoked, fun endless => ended (by rw [endless])⟩)

namespace DocumentReader

/-- A precondition that is the first of its own values is read without end, however long it is. -/
theorem precondition_endless {source : Source} {b : Builder} {i : NodeId}
    {found : List (String × NodeId)} {field : String} {rest : List NodeId}
    (read : entries "precondition" ["field", "values"] i source b = (.ok found, b))
    (there : requiredText "field" .noField i (found.lookup "field") source b = (.ok field, b))
    (itself : items "values" (found.lookup "values") source b = (.ok (i :: rest), b))
    (isMapping : Build.isMapping (b.graph.node i) = true) (fuel : Nat) :
    precondition i fuel source b = (.error (.fault .endlessNesting), b) := by
  induction fuel with
  | zero => rfl
  | succ fuel ih =>
    cases body : (b.graph.node i).body with
    | mapping es inFlow =>
      unfold precondition
      simp [read, there, itself, List.mapM_cons, body, ih]
    | _ => simp [Build.isMapping, body] at isMapping

end DocumentReader

/-! A precondition that is its only value -/

def circleText : String :=
  "servers:\n- host: h\n  mailboxes:\n  - name: INBOX\n    rules:\n" ++
    "    - preconditions:\n      - &p\n        field: NOT\n        values:\n        - *p\n"

def circleTokens : List Token :=
  rulesTokens ++
  [token .blockEntry 63 5 4 1, token .blockMappingStart 65 5 6 0,
    token .key 65 5 6 0, plainToken "preconditions" 65 5 6, token .value 78 5 19 1,
    token .blockEntry 86 6 6 1, token (.anchor "p") 88 6 8 2, token .blockMappingStart 99 7 8 0,
    token .key 99 7 8 0, plainToken "field" 99 7 8, token .value 104 7 13 1, plainToken "NOT" 106 7 15,
    token .key 118 8 8 0, plainToken "values" 118 8 8, token .value 124 8 14 1,
    token .blockEntry 134 9 8 1, token (.reference "p") 136 9 10 2] ++
  closingTokens 5 139 10

def circleNodes : List Node :=
  [mapping [(1, 2)] false 0 0 0,
    word "servers" 0 0 0, sequence [3] false 9 1 0,
    mapping [(4, 5), (6, 7)] false 11 1 2,
    word "host" 11 1 2, word "h" 17 1 8,
    word "mailboxes" 21 2 2, sequence [8] false 34 3 2,
    mapping [(9, 10), (11, 12)] false 36 3 4,
    word "name" 36 3 4, word "INBOX" 42 3 10,
    word "rules" 52 4 4, sequence [13] false 63 5 4,
    mapping [(14, 15)] false 65 5 6,
    word "preconditions" 65 5 6, sequence [16] false 86 6 6,
    mapping [(17, 18), (19, 20)] false 88 6 8,
    word "field" 99 7 8, word "NOT" 106 7 15,
    word "values" 118 8 8, sequence [16] false 134 9 8]

def circleGraph : Graph := ⟨circleNodes.toArray⟩

theorem circle_node (i : NodeId) : circleGraph.node i = circleNodes.getD i Graph.absent := by
  simp [circleGraph, Graph.node]

theorem circle_scanned :
    (scan circleText.toList).tokens = circleTokens ∧ (scan circleText.toList).stop = none := by
  decide +kernel

theorem circle_tree : Tree.ofText circleText.toList = .ok ⟨circleGraph, some 0⟩ :=
  Tree.ofText_of_tokens (by decide +kernel) circle_scanned (by decide +kernel)

open DocumentReader in
theorem circle_parsed : Document.parse circleText "c" = .error (.fault .endlessNesting) := by
  let source : Source := ⟨"c", circleText.toList⟩
  have found : entries "precondition" ["field", "values"] 16 source { graph := circleGraph } =
      (.ok [("field", 18), ("values", 20)], { graph := circleGraph }) := by
    simp [entries, entriesFrom, circle_node, circleNodes, word, mapping]
  have field : requiredText "field" .noField 16 (some 18) source { graph := circleGraph } =
      (.ok "NOT", { graph := circleGraph }) := by
    simp [requiredText, text?, isNull, circle_node, circleNodes, word, Tag.str, Tag.null]
  have values : items "values" (some 20) source { graph := circleGraph } =
      (.ok [16], { graph := circleGraph }) := by
    simp [items, circle_node, circleNodes, sequence]
  have isMapping : Build.isMapping (circleGraph.node 16) = true := by
    simp [Build.isMapping, circle_node, circleNodes, mapping]
  have nested := precondition_endless found field values isMapping
  have read : document (some 0) source { graph := circleGraph } =
      (.error (.fault .endlessNesting), { graph := circleGraph }) := by
    simp [document, account, mailbox, rule, entries, entriesFrom, items, flagData, requiredText, text?,
      isNull, accountKeys, Flag.all, Flag.key, List.lookup_cons, List.mapM_cons, circle_node, circleNodes,
      word, sequence, mapping, Tag.str, Tag.null, nested]
  simp only [Document.parse, circle_tree]
  exact congrArg Prod.fst read

theorem Document.circle_endless : Tree.ofText circleText.toList = .ok ⟨circleGraph, some 0⟩ ∧
    Document.parse circleText "c" = .error (.fault .endlessNesting) ∧ circleGraph.Endless := by
  refine ⟨circle_tree, circle_parsed, ?_⟩
  rcases parse_ends circleText "c" circle_tree with
    ⟨d, _, _, read, -⟩ | ⟨flaw, location, failed⟩ | ⟨f, failed, -, endless⟩
  · cases circle_parsed.symm.trans read
  · cases circle_parsed.symm.trans failed
  · cases circle_parsed.symm.trans failed
    exact endless rfl

theorem Document.composed_beyond_errors :
    ¬∀ text name tree, Tree.ofText text.toList = .ok tree → (∃ d, Document.parse text name = .ok d) ∨
      ∃ flaw location, Document.parse text name = .error (.error (.document flaw location)) := by
  intro always
  rcases always circleText "c" _ circle_tree with ⟨d, read⟩ | ⟨flaw, location, failed⟩
  · cases circle_parsed.symm.trans read
  · cases circle_parsed.symm.trans failed

end MailRules
