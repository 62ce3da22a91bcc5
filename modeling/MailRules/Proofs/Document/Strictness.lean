import MailRules.Proofs.Document.Visits
/-!
How strict the reader is about the keys of a mapping. A mapping shows only keys of its level, each once,
and it shows them as it was composed, whatever was read before. Only where a merge key is among its
entries and it was already part of a value has the merge taken place, and shows the merged entries instead.
-/
namespace MailRules
open MailRules.Yaml

namespace DocumentReader

/-- A mapping has shown only these keys, and how far these are the ones that it was composed with. -/
structure Strict (g : Graph) (past : List Visit) (keys : List String) (i : NodeId)
    (shown : List (NodeId × NodeId)) : Prop where
  read : g.Conforms keys shown
  plain : g.Conforms keys (g.plainEntries (g.node i).body)
  own : ¬g.HasMerge i ∨ ¬LedBy g past i → shown = (g.node i).body.entries
  merge : ∀ e ∈ (g.node i).body.entries, g.textOf? e.1 = some "<<" → g.isMerge e = true ∧ LedBy g past i

/-- The builder after the values of these nodes, whatever came of each. -/
def builtAfter (g : Graph) (vs : List NodeId) : Builder :=
  vs.foldl (fun b v => (Build.value v b).2) { graph := g }

section Keys
variable {g : Graph} {keys : List String} {shown : List (NodeId × NodeId)}

theorem text_of_conforms (conforms : g.Conforms keys shown) {e : NodeId × NodeId} (entry : e ∈ shown)
    {text : String} (spelled : g.textOf? e.1 = some text) : text ∈ keys := by
  obtain ⟨texts, same, within, -⟩ := conforms
  have listed : g.textOf? e.1 ∈ shown.map fun e => g.textOf? e.1 := List.mem_map_of_mem entry
  rw [same, spelled] at listed
  exact within (by simpa using listed)

theorem Level.merge_not_mem {level : Level} (may : level.keys? = some keys) : "<<" ∉ keys := by
  cases level <;> cases may <;> decide

theorem strict_of_fits {past : List Visit} {level : Level} {i : NodeId} (may : level.keys? = some keys)
    (fits : Fits g past (.part level i shown)) : Strict g past keys i shown := by
  obtain ⟨⟨n, rework, rfl⟩, conforms⟩ := fits
  have shows := conforms keys may
  have plain : g.Conforms keys (g.plainEntries (g.node i).body) :=
    shows.sublist (rework.kept.trans List.filter_sublist)
  have own : ¬g.HasMerge i ∨ ¬LedBy g past i → n.body.entries = (g.node i).body.entries :=
    fun untouched => by rw [rework.body_of_untouched untouched]
  refine ⟨shows, plain, own, fun e entry spelled => ?_⟩
  have merge : g.isMerge e = true := by
    by_contra other
    have kept : e ∈ g.plainEntries (g.node i).body := List.mem_filter.mpr ⟨entry, by simpa using other⟩
    exact Level.merge_not_mem may (text_of_conforms plain kept spelled)
  refine ⟨merge, ?_⟩
  by_contra apart
  rw [own (.inr apart)] at shows
  exact Level.merge_not_mem may (text_of_conforms shows entry spelled)

end Keys

/-! Reading a mapping after values -/

section After
variable {g : Graph} {past : List Visit} {led : NodeId → Prop} {source : Source} {b : Builder}

theorem builtAfter_reworked (g : Graph) (vs : List NodeId) :
    g.Reworked (LedBy g (vs.map .value)) (builtAfter g vs).graph := by
  have run : ∀ (vs : List NodeId) (past : List Visit) (b : Builder), g.Reworked (LedBy g past) b.graph →
      g.Reworked (LedBy g (past ++ vs.map .value))
        (vs.foldl (fun b v => (Build.value v b).2) b).graph := by
    intro vs
    induction vs with
    | nil => exact fun past b reworked => by simpa using reworked
    | cons v vs ih =>
      intro past b reworked
      simpa using ih _ _ (value_ends reworked v).1
  exact run vs [] _ (Graph.reworked_self g _)

theorem entriesFrom_same (reworked : g.Reworked led b.graph) (part : String) (keys : List String)
    (es : List (NodeId × NodeId)) : ∀ done, (entriesFrom part keys done es source b).1 =
      (entriesFrom part keys done es source { graph := g }).1 := by
  induction es with
  | nil => exact fun _ => rfl
  | cons e es ih =>
    intro done
    have mark := (reworked.node e.1).mark
    have scalars := (reworked.node e.1).scalar_iff
    unfold entriesFrom
    cases own : (g.node e.1).body with
    | scalar key style =>
      have left := (scalars key style).mpr own
      by_cases again : (done.lookup key).isSome
      · simp [left, own, again, mark]
      · by_cases allowed : key ∈ keys
        · simpa [left, own, again, allowed] using ih ((key, e.2) :: done)
        · simp [left, own, again, allowed, mark]
    | _ =>
      cases left : (b.graph.node e.1).body with
      | scalar key style => simpa [own] using (scalars key style).mp left
      | _ => simp [left, own, mark]

theorem entries_same (reworked : g.Reworked led b.graph) {i : NodeId}
    (body : (b.graph.node i).body = (g.node i).body) (part : String) (keys : List String) :
    (entries part keys i source b).1 = (entries part keys i source { graph := g }).1 := by
  unfold entries
  cases own : (g.node i).body with
  | mapping es inFlow => simpa [body, own] using entriesFrom_same reworked part keys es []
  | _ => simp [body, own, (reworked.node i).mark]

end After
end DocumentReader

open DocumentReader in
/-- In a document that is read, every mapping shows only keys of its level, each once, and has only such
keys beside merge keys; they are those it was composed with, unless it has a merge key and a value visited
before leads to it. Nor do values built before change, but for this exception, whether and how the entries
of a mapping are read. -/
theorem Document.parse_strict (text name : String) {tree : Tree}
    (opened : Tree.ofText text.toList = .ok tree) :
    (∀ d, Document.parse text name = .ok d → ∃ root visits, tree.root = some root ∧
      Covers tree.graph [.part .document root] visits ∧
        ∀ before level i shown after keys, visits = before ++ .part level i shown :: after →
          level.keys? = some keys → Strict tree.graph before keys i shown) ∧
    ∀ part keys i source vs, ¬tree.graph.HasMerge i ∨ ¬LedBy tree.graph (vs.map .value) i →
      (entries part keys i source (builtAfter tree.graph vs)).1 =
        (entries part keys i source { graph := tree.graph }).1 := by
  constructor
  · intro d parsed
    have ended := parse_visits text name opened
    rw [parsed] at ended
    obtain ⟨root, visits, top, faithful, covers⟩ := ended
    refine ⟨root, visits, top, covers, fun before level i shown after keys split may => ?_⟩
    exact strict_of_fits may (faithful before _ after split)
  · intro part keys i source vs untouched
    have reworked := builtAfter_reworked tree.graph vs
    exact entries_same reworked ((reworked.node i).body_of_untouched untouched) part keys

/-! A value that merges another mapping into it, and is a precondition, too -/

def mergedText : String :=
  "servers:\n- host: h\n  mailboxes:\n  - name: INBOX\n    rules:\n" ++
    "    - action:\n        move:\n        - &p \x7b<<: \x7bfield: SEEN\x7d\x7d\n" ++
    "    - preconditions:\n      - *p\n"

def mergedTokens : List Token :=
  rulesTokens ++
  [token .blockEntry 63 5 4 1, token .blockMappingStart 65 5 6 0,
    token .key 65 5 6 0, plainToken "action" 65 5 6, token .value 71 5 12 1,
    token .blockMappingStart 81 6 8 0,
    token .key 81 6 8 0, plainToken "move" 81 6 8, token .value 85 6 12 1,
    token .blockEntry 95 7 8 1, token (.anchor "p") 97 7 10 2, token .flowMappingStart 100 7 13 1,
    token .key 101 7 14 0, plainToken "<<" 101 7 14, token .value 103 7 16 1,
    token .flowMappingStart 105 7 18 1,
    token .key 106 7 19 0, plainToken "field" 106 7 19, token .value 111 7 24 1, plainToken "SEEN" 113 7 26,
    token .flowMappingEnd 117 7 30 1, token .flowMappingEnd 118 7 31 1,
    token .blockEnd 124 8 4 0, token .blockEnd 124 8 4 0,
    token .blockEntry 124 8 4 1, token .blockMappingStart 126 8 6 0,
    token .key 126 8 6 0, plainToken "preconditions" 126 8 6, token .value 139 8 19 1,
    token .blockEntry 147 9 6 1, token (.reference "p") 149 9 8 2] ++
  closingTokens 4 152 10

def mergedNodes : List Node :=
  [mapping [(1, 2)] false 0 0 0,
    word "servers" 0 0 0, sequence [3] false 9 1 0,
    mapping [(4, 5), (6, 7)] false 11 1 2,
    word "host" 11 1 2, word "h" 17 1 8,
    word "mailboxes" 21 2 2, sequence [8] false 34 3 2,
    mapping [(9, 10), (11, 12)] false 36 3 4,
    word "name" 36 3 4, word "INBOX" 42 3 10,
    word "rules" 52 4 4, sequence [13, 23] false 63 5 4,
    mapping [(14, 15)] false 65 5 6,
    word "action" 65 5 6, mapping [(16, 17)] false 81 6 8,
    word "move" 81 6 8, sequence [18] false 95 7 8,
    mapping [(19, 20)] true 97 7 10,
    ⟨Tag.merge, .scalar "<<" .plain, ⟨101, 7, 14⟩⟩, mapping [(21, 22)] true 105 7 18,
    word "field" 106 7 19, word "SEEN" 113 7 26,
    mapping [(24, 25)] false 126 8 6,
    word "preconditions" 126 8 6, sequence [18] false 147 9 6]

def mergedGraph : Graph := ⟨mergedNodes.toArray⟩

def flattenedNodes : List Node := mergedNodes.set 18 (mapping [(21, 22)] true 97 7 10)

def seenField : Datum := .map [(.text "field", .text "SEEN")]

def flattenedBuilder : Builder :=
  ⟨⟨flattenedNodes.toArray⟩, [(18, seenField), (22, .text "SEEN"), (21, .text "field")], []⟩

theorem merged_node (i : NodeId) : mergedGraph.node i = mergedNodes.getD i Graph.absent := by
  simp [mergedGraph, Graph.node]

theorem flattened_node (i : NodeId) : flattenedBuilder.graph.node i = flattenedNodes.getD i Graph.absent := by
  simp [flattenedBuilder, Graph.node]

theorem merged_scanned :
    (scan mergedText.toList).tokens = mergedTokens ∧ (scan mergedText.toList).stop = none := by
  decide +kernel

theorem merged_tree : Tree.ofText mergedText.toList = .ok ⟨mergedGraph, some 0⟩ :=
  Tree.ofText_of_tokens (by decide +kernel) merged_scanned (by decide +kernel)

theorem merged_value : Build.value 18 { graph := mergedGraph } = (.ok seenField, flattenedBuilder) := by
  cbv

def movingRule : Rule :=
  ⟨[], [⟨"move", [⟨mergedGraph.render 18, seenField, false, ⟨"c", 8, 11⟩⟩], ⟨"c", 7, 9⟩⟩], ⟨"c", 6, 7⟩⟩

def seenRule : Rule := ⟨[.mk "SEEN" [] ⟨"c", 8, 11⟩], [], ⟨"c", 9, 7⟩⟩

def mergedDocument : Document :=
  ⟨"c", [⟨"h", {}, {}, [⟨"INBOX", [movingRule, seenRule], ⟨"c", 4, 5⟩⟩], ⟨"c", 2, 3⟩⟩]⟩

open DocumentReader in
theorem merged_parsed : Document.parse mergedText "c" = .ok mergedDocument := by
  let source : Source := ⟨"c", mergedText.toList⟩
  have argument : leaf 18 source { graph := mergedGraph } =
      (.ok ⟨mergedGraph.render 18, seenField, false, ⟨"c", 8, 11⟩⟩, flattenedBuilder) := by
    have built : build 18 source { graph := mergedGraph } = (.ok (.ok seenField), flattenedBuilder) := by
      rw [build_apply, merged_value]
    have node : mergedGraph.node 18 = mapping [(19, 20)] true 97 7 10 := by
      simp [merged_node, mergedNodes]
    simp [leaf, datum, built, node, mapping, locationOf, source]
  have read : document (some 0) source { graph := mergedGraph } = (.ok mergedDocument, flattenedBuilder) := by
    simp [document, account, mailbox, rule, precondition, actions, action, repeated?, entries, entriesFrom,
      items, flagData, requiredText, text?, isNull, accountKeys, Flag.all, Flag.key, Flags.read,
      Flags.problems, List.lookup_cons, List.mapM_cons, merged_node, mergedNodes, flattened_node,
      flattenedNodes, word, sequence, mapping, Tag.str, Tag.null, mergedDocument, movingRule, seenRule, argument,
      source]
  simp only [Document.parse, merged_tree]
  exact congrArg Prod.fst read

theorem merged_place {i : NodeId} (line : (mergedGraph.node i).mark.line + 1 = 8)
    (column : (mergedGraph.node i).mark.column + 1 = 11) : i = 18 := by
  rw [merged_node] at line column
  by_cases inside : i < mergedNodes.length
  · have only : ∀ i : Fin 26, (mergedNodes.getD i Graph.absent).mark.line + 1 = 8 →
        (mergedNodes.getD i Graph.absent).mark.column + 1 = 11 → i = 18 := by decide
    exact congrArg Fin.val (only ⟨i, inside⟩ line column)
  · rw [List.getD_eq_default _ _ (Nat.le_of_not_lt inside)] at line
    cases line

open DocumentReader in
theorem Document.merged_strict : Tree.ofText mergedText.toList = .ok ⟨mergedGraph, some 0⟩ ∧
    Document.parse mergedText "c" = .ok mergedDocument ∧
    (∃ visits, Covers mergedGraph [.part .document 0] visits ∧
      ∀ before level i shown after keys, visits = before ++ .part level i shown :: after →
        level.keys? = some keys → Strict mergedGraph before keys i shown) ∧
    ∀ source vs, (entries "rule" ["preconditions", "action"] 13 source (builtAfter mergedGraph vs)).1 =
      .ok [("action", 15)] := by
  obtain ⟨strict, apart⟩ := parse_strict mergedText "c" merged_tree
  refine ⟨merged_tree, merged_parsed, ?_, fun source vs => ?_⟩
  · obtain ⟨root, visits, top, covers, each⟩ := strict mergedDocument merged_parsed
    cases top
    exact ⟨visits, covers, each⟩
  · have noMerge : ¬mergedGraph.HasMerge 13 := by
      rintro ⟨e, entry, merge⟩
      obtain rfl : e = (14, 15) := by
        simpa [merged_node, mergedNodes, mapping, NodeBody.entries] using entry
      simp [Graph.isMerge, merged_node, mergedNodes, word, Tag.str, Tag.merge] at merge
    rw [apart _ _ 13 source vs (.inl noMerge)]
    simp [entries, entriesFrom, merged_node, mergedNodes, word, mapping]

open DocumentReader in
/-- A precondition may have been composed with a merge key, and whether a mapping is read may depend on a
value visited before. -/
theorem Document.merge_key_accepted :
    (¬∀ (text name : String) tree d, Tree.ofText text.toList = .ok tree →
      Document.parse text name = .ok d → ∀ a ∈ d.accounts, ∀ m ∈ a.mailboxes, ∀ r ∈ m.rules,
      ∀ p ∈ r.preconditions, ∃ i,
        p.location = ⟨name, (tree.graph.node i).mark.line + 1, (tree.graph.node i).mark.column + 1⟩ ∧
          tree.graph.Conforms ["field", "values"] (tree.graph.node i).body.entries) ∧
    ¬∀ (text : String) tree, Tree.ofText text.toList = .ok tree → ∀ i v source,
      (entries "precondition" ["field", "values"] i source (builtAfter tree.graph [v])).1 =
        (entries "precondition" ["field", "values"] i source { graph := tree.graph }).1 := by
  constructor
  · intro always
    have second : seenRule ∈ [movingRule, seenRule] := List.mem_cons_of_mem _ (List.mem_singleton_self _)
    obtain ⟨i, place, conforms⟩ := always mergedText "c" _ mergedDocument merged_tree merged_parsed
      _ (List.mem_singleton_self _) _ (List.mem_singleton_self _) seenRule second
      _ (List.mem_singleton_self _)
    obtain ⟨-, line, column⟩ := Location.mk.inj place
    obtain rfl := merged_place line.symm column.symm
    have entry : (19, 20) ∈ (mergedGraph.node 18).body.entries := by
      simp [merged_node, mergedNodes, mapping, NodeBody.entries]
    have spelled : mergedGraph.textOf? 19 = some "<<" := by
      simp [Graph.textOf?, merged_node, mergedNodes]
    have absent : "<<" ∉ ["field", "values"] := by decide
    exact absent (text_of_conforms conforms entry spelled)
  · intro always
    have same := always mergedText _ merged_tree 18 18 ⟨"c", []⟩
    have after : builtAfter mergedGraph [18] = flattenedBuilder := by
      simp only [builtAfter, List.foldl_cons, List.foldl_nil, merged_value]
    rw [after] at same
    simp [entries, entriesFrom, merged_node, mergedNodes, flattened_node, flattenedNodes, word,
      mapping] at same

end MailRules
