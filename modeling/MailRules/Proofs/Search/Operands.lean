import MailRules.Proofs.Search.Meaning
/-!
The operands of negations and alternatives. Tags are not closed by anything, so what a tag takes is one
key. It takes its operands and nothing else just if each operand is emitted as one key, and that
depends on the operands alone: no field but a list may be emitted as anything else.
-/
namespace MailRules
open MailRules.Search MailRules.Calendar

def Operand.precondition? : Operand → Option Precondition
  | .leaf _ => none
  | .nested p => some p

/-- The operands that a tag is put in front of: that of a negation, and those of two or more
alternatives. -/
def Precondition.tagged : Precondition → List Precondition
  | .mk field operands _ =>
    if field = "NOT" ∨ (field = "OR" ∧ 2 ≤ operands.length) then
      operands.filterMap Operand.precondition?
    else []

def Precondition.allTagged (p : Precondition) : List Precondition := p.nodes.flatMap Precondition.tagged

mutual

/-- Neither a list of message numbers that has not one of them, nor an empty list of identifiers or of
alternatives; a lone alternative counts as what it is. -/
def Precondition.Single : Precondition → Prop
  | .mk field operands _ =>
    (field = "MSG" → operands.length = 1) ∧ (field = "UID" → operands ≠ []) ∧
      (field = "OR" → Operand.LoneSingle operands)

def Operand.LoneSingle : List Operand → Prop
  | [] => False
  | [.nested p] => p.Single
  | _ => True

end

theorem Operand.preconditions_nested (qs : List Precondition) :
    (qs.map Operand.nested).filterMap Operand.precondition? = qs := by
  induction qs with
  | nil => rfl
  | cons q qs ih => simp [Operand.precondition?, ih]

@[simp] theorem Precondition.tagged_negation (q : Precondition) (location : Location) :
    (Precondition.mk "NOT" [.nested q] location).tagged = [q] := by
  simp [Precondition.tagged, Operand.precondition?]

theorem Precondition.tagged_alternatives (qs : List Precondition) (location : Location) :
    (Precondition.mk "OR" (qs.map .nested) location).tagged =
      if 2 ≤ qs.length then qs else [] := by
  rw [Precondition.tagged, Operand.preconditions_nested]
  simp

theorem Operand.loneSingle_nested (qs : List Precondition) :
    Operand.LoneSingle (qs.map .nested) ↔ qs ≠ [] ∧ (qs.length = 1 → ∀ q ∈ qs, q.Single) := by
  match qs with
  | [] => simp [Operand.LoneSingle]
  | [q] => simp [Operand.LoneSingle]
  | q :: q' :: qs => simp [Operand.LoneSingle]

namespace Search

/-- The tokens are one key, and no more. -/
def IsKey (tokens : List Token) : Prop := ∃ key, readKey tokens = some (key, [])

variable {now : Moment} {p q : Precondition}

theorem nodes_of_read {f : Field} {operands : List Operand} {texts : List String}
    (known : f ∈ Field.all) (plain : f.kind ≠ .nested ∧ f.kind ≠ .nestedList)
    (read : operands.map (reader now f) = texts.map .ok) : Operand.nodes operands = [] := by
  have meant := argumentTexts_of_read known plain read
  clear read
  induction operands generalizing texts with
  | nil => rfl
  | cons o operands ih =>
    cases texts with
    | nil => cases meant
    | cons s texts =>
      simp only [List.map_cons, List.cons.injEq] at meant
      cases o with
      | leaf l => exact ih meant.2
      | nested p => cases meant.1

/-! From keys to single operands -/

theorem numerals_one {texts : List String} (numerals : ∀ s ∈ texts, isNumeral s = true)
    (key : IsKey (texts.map .text)) : texts.length = 1 := by
  obtain ⟨k, read⟩ := key
  cases texts with
  | nil => cases read
  | cons s rest =>
    have first := readKey_written (k := .test (.number s)) (rest.map .text)
      (numerals s List.mem_cons_self)
    have same : SearchKey.tokens (.test (.number s)) ++ rest.map .text = (s :: rest).map .text := rfl
    rw [same, read] at first
    simp only [Option.some.injEq, Prod.mk.injEq] at first
    have none : rest = [] := by simpa using first.2.symm
    simp [none]

theorem not_isKey_nil : ¬ IsKey [] := by
  rintro ⟨key, read⟩
  cases read

theorem not_isKey_no_uids : ¬ IsKey [.opening, .text "UID", .closing] := by
  rintro ⟨key, read⟩
  cases read

theorem msg_tokens {f : Field} {texts : List String} (known : f ∈ Field.all) (name : f.name = "MSG") :
    fieldTokens f texts = texts.map .text := by
  have whole : f = ⟨"MSG", .uint32List, none, none⟩ := by
    revert f
    decide
  simp [whole, fieldTokens]

theorem uid_tokens {f : Field} (known : f ∈ Field.all) (name : f.name = "UID") :
    fieldTokens f [] = [.opening, .text "UID", .closing] := by
  have whole : f = ⟨"UID", .stringList, none, some "UID"⟩ := by
    revert f
    decide
  simp [whole, fieldTokens]

theorem single_of_isKey (p : Precondition) (accepted : (compile now p).outcome = .ok ())
    (key : IsKey (compile now p).tokens) : p.Single := by
  induction p using Precondition.induction with
  | step name operands location ih =>
    have compiled := compiled_of_ok accepted
    generalize (compile now (.mk name operands location)).tokens = tokens at compiled key
    rw [Precondition.Single]
    cases compiled with
    | negation q _ inner => simp
    | alternatives qs _ inner =>
      simp only [Operand.loneSingle_nested]
      refine ⟨by simp, by simp, fun _ => ⟨?_, ?_⟩⟩
      · rintro rfl
        exact not_isKey_nil key
      · intro one q member
        obtain ⟨lone, rfl⟩ := List.length_eq_one_iff.mp one
        rw [List.mem_singleton.mp member]
        exact ih lone List.mem_cons_self (inner lone List.mem_cons_self) key
    | field f _ _ texts known plain arity read =>
      have count : operands.length = texts.length := by simpa using congrArg List.length read
      have meant := argumentTexts_of_read known plain read
      refine ⟨?_, ?_, ?_⟩
      · intro isMsg
        have numerals := numbers_numeral (by simp [isMsg, numberFields]) meant
        rw [msg_tokens known isMsg] at key
        rw [count]
        exact numerals_one numerals key
      · rintro isUid rfl
        have none : texts = [] := by simpa using count.symm
        rw [none, uid_tokens known isUid] at key
        exact not_isKey_no_uids key
      · exact fun isOr => ((Field.plain_name known plain).2 isOr).elim

/-! From single operands to keys -/

theorem allTagged_of_node {n : Precondition} (node : n ∈ p.nodes) : ∀ q ∈ n.allTagged, q ∈ p.allTagged := by
  intro q member
  obtain ⟨m, inside, tagged⟩ := List.mem_flatMap.mp member
  exact List.mem_flatMap.mpr ⟨m, Precondition.nodes_trans p inside node, tagged⟩

theorem tagged_mem_allTagged (member : q ∈ p.tagged) : q ∈ p.allTagged :=
  List.mem_flatMap.mpr ⟨p, Precondition.self_mem_nodes p, member⟩

theorem nodes_accepted (p : Precondition) (accepted : (compile now p).outcome = .ok ()) :
    ∀ n ∈ p.nodes, (compile now n).outcome = .ok () := by
  induction p using Precondition.induction with
  | step name operands location ih =>
    intro n member
    rw [Precondition.nodes] at member
    rcases List.mem_cons.mp member with rfl | deeper
    · exact accepted
    · obtain ⟨q, operand, within⟩ := Operand.mem_nodes.mp deeper
      have compiled := compiled_of_ok accepted
      generalize (compile now (.mk name operands location)).tokens = tokens at compiled
      cases compiled with
      | negation q' _ inner =>
        cases List.mem_singleton.mp operand
        exact ih q operand inner n within
      | alternatives qs _ inner =>
        obtain ⟨q', listed, same⟩ := List.mem_map.mp operand
        cases same
        exact ih q operand (inner q listed) n within
      | field f _ _ texts known plain arity read =>
        rw [nodes_of_read known plain read] at deeper
        cases deeper

theorem allOneKeyShaped_of_leaves {operands : List Operand} (leaves : Operand.nodes operands = []) :
    Operand.AllOneKeyShaped operands := by
  induction operands with
  | nil => simp [Operand.AllOneKeyShaped]
  | cons o operands ih =>
    cases o with
    | leaf l => simpa [Operand.AllOneKeyShaped] using ih leaves
    | nested p =>
      have own := Precondition.self_mem_nodes p
      rw [(List.append_eq_nil_iff.mp leaves).1] at own
      cases own

theorem oneKeyShaped_of_single (p : Precondition) (accepted : (compile now p).outcome = .ok ())
    (inside : ∀ q ∈ p.allTagged, q.Single) (single : p.Single) : p.OneKeyShaped := by
  induction p using Precondition.induction with
  | step name operands location ih =>
    have compiled := compiled_of_ok accepted
    generalize (compile now (.mk name operands location)).tokens = tokens at compiled
    have deeper (q : Precondition) (member : .nested q ∈ operands) : ∀ x ∈ q.allTagged, x.Single :=
      fun x found => inside x (allTagged_of_node (Precondition.operand_mem_nodes member) x found)
    rw [Precondition.Single] at single
    obtain ⟨oneNumber, someUid, lone⟩ := single
    rw [Precondition.OneKeyShaped]
    cases compiled with
    | negation q _ inner =>
      have own : q.Single := inside q (tagged_mem_allTagged (by simp))
      have shaped := ih q List.mem_cons_self inner (deeper q List.mem_cons_self) own
      simpa [Operand.AllOneKeyShaped] using shaped
    | alternatives qs _ inner =>
      obtain ⟨some, loneSingle⟩ := (Operand.loneSingle_nested qs).mp (lone rfl)
      refine ⟨by simp, by simp, fun _ => by simpa using some, (Operand.allOneKeyShaped_nested qs).mpr ?_⟩
      intro q member
      have operand : Operand.nested q ∈ qs.map Operand.nested := List.mem_map_of_mem member
      have own : q.Single := by
        by_cases several : 2 ≤ qs.length
        · exact inside q (tagged_mem_allTagged (by simpa [Precondition.tagged_alternatives, several]))
        · have one : qs.length = 1 := by
            have positive := List.length_pos_iff.mpr some
            omega
          exact loneSingle one q member
      exact ih q operand (inner q member) (deeper q operand) own
    | field f _ _ texts known plain arity read =>
      refine ⟨oneNumber, someUid, ?_, allOneKeyShaped_of_leaves (nodes_of_read known plain read)⟩
      exact fun isOr => ((Field.plain_name known plain).2 isOr).elim

/-- A negation takes its operand and an alternative its operands, two at a time, whatever follows. -/
structure TakesItsOperands (now : Moment) (n : Precondition) : Prop where
  negation : n.field = "NOT" → ∃ q key, n.operands = [.nested q] ∧
    readKey (compile now q).tokens = some (key, []) ∧
    ∀ following, readKey ((compile now n).tokens ++ following) = some (.negation key, following)
  alternatives : n.field = "OR" → 2 ≤ n.operands.length → ∃ (qs : List Precondition) (key : SearchKey)
      (keys : List SearchKey), n.operands = qs.map .nested ∧
    qs.map (fun q => readKey (compile now q).tokens) = (key :: keys).map (fun k => some (k, [])) ∧
    ∀ following,
      readKey ((compile now n).tokens ++ following) = some (.anyOf key keys, following)

theorem tagged_mem_nodes (member : q ∈ p.tagged) : q ∈ p.nodes := by
  obtain ⟨name, operands, location⟩ := p
  rw [Precondition.tagged] at member
  split at member
  · obtain ⟨o, operand, same⟩ := List.mem_filterMap.mp member
    cases o with
    | leaf l => cases same
    | nested x =>
      cases same
      exact Precondition.operand_mem_nodes operand
  · cases member

theorem allTagged_mem_nodes (member : q ∈ p.allTagged) : q ∈ p.nodes := by
  obtain ⟨m, node, tagged⟩ := List.mem_flatMap.mp member
  exact Precondition.nodes_trans p (tagged_mem_nodes tagged) node

theorem key_of_tagged (accepted : (compile now p).outcome = .ok ())
    (inside : ∀ q ∈ p.allTagged, q.Single) : ∀ q ∈ p.allTagged, ∃ key, WrittenAs now q key := by
  intro q member
  have within := allTagged_mem_nodes member
  have acceptedQ := nodes_accepted p accepted q within
  have deeper : ∀ x ∈ q.allTagged, x.Single := fun x found =>
    inside x (allTagged_of_node within x found)
  exact compiled_key q (oneKeyShaped_of_single q acceptedQ deeper (inside q member)) acceptedQ

theorem WrittenAs.read {key : SearchKey} (same : WrittenAs now q key) (following : List Token) :
    readKey ((compile now q).tokens ++ following) = some (key, following) := by
  rw [same.2.1, readKey_written following same.1]

theorem takesItsOperands_of_single (n : Precondition) (accepted : (compile now n).outcome = .ok ())
    (inside : ∀ q ∈ n.allTagged, q.Single) : TakesItsOperands now n := by
  have keyOf (q : Precondition) (tagged : q ∈ n.tagged) : ∃ key, WrittenAs now q key :=
    key_of_tagged accepted inside q (tagged_mem_allTagged tagged)
  have compiled := compiled_of_ok accepted
  generalize emittedN : (compile now n).tokens = tokens at compiled
  cases compiled with
  | negation q location inner =>
    refine ⟨fun _ => ?_, fun isOr => by simp [Precondition.field] at isOr⟩
    obtain ⟨key, same⟩ := keyOf q (by simp)
    refine ⟨q, key, rfl, by simpa using same.read [], ?_⟩
    intro following
    rw [emittedN, same.2.1]
    exact readKey_written (k := .negation key) following same.1
  | alternatives qs location inner =>
    refine ⟨fun isNot => by simp [Precondition.field] at isNot, fun _ several => ?_⟩
    have many : 2 ≤ qs.length := by simpa [Precondition.operands] using several
    obtain ⟨keys, written, emitted, _⟩ := keys_of_each fun q member =>
      keyOf q (by simpa [Precondition.tagged_alternatives, many])
    have each : qs.map (fun q => readKey (compile now q).tokens) = keys.map (fun k => some (k, [])) := by
      have read := congrArg (List.map readKey) emitted
      rw [List.map_map, List.map_map] at read
      apply read.trans
      apply List.map_congr_left
      intro k member
      simpa using readKey_written [] (written k member)
    cases keys with
    | nil =>
      have none : qs = [] := by simpa using emitted
      simp [none] at many
    | cons key keys =>
      refine ⟨qs, key, keys, rfl, each, ?_⟩
      intro following
      rw [emittedN, emitted, ← SearchKey.anyOf_tokens]
      exact readKey_written following (SearchKey.anyOf_wellFormed written)
  | field f operands location texts known plain arity read =>
    obtain ⟨notNot, notOr⟩ := Field.plain_name known plain
    exact ⟨fun isNot => (notNot isNot).elim, fun isOr => (notOr isOr).elim⟩

/-- In an accepted tree, all operands behind a tag are one key each just if none of them is a list that
is empty or too long; and then every tag takes its own operands. -/
theorem operands_are_keys {p : Precondition} (accepted : (compile now p).outcome = .ok ()) :
    ((∀ q ∈ p.allTagged, IsKey (compile now q).tokens) ↔ ∀ q ∈ p.allTagged, q.Single) ∧
      ((∀ q ∈ p.allTagged, q.Single) → ∀ n ∈ p.nodes, TakesItsOperands now n) := by
  constructor
  · constructor
    · intro keys q member
      have acceptedQ := nodes_accepted p accepted q (allTagged_mem_nodes member)
      exact single_of_isKey q acceptedQ (keys q member)
    · intro inside q member
      obtain ⟨key, same⟩ := key_of_tagged accepted inside q member
      exact ⟨key, by simpa using same.read []⟩
  · intro inside n node
    apply takesItsOperands_of_single n (nodes_accepted p accepted n node)
    exact fun q member => inside q (allTagged_of_node node q member)

def fieldOf (name : String) (words : List String) : Precondition :=
  .mk name (words.map fun s => .leaf ⟨s, .text s, true, ⟨"c", 1, 1⟩⟩) ⟨"c", 1, 1⟩

def oneOf (ps : List Precondition) : Precondition := .mk "OR" (ps.map .nested) ⟨"c", 1, 1⟩

def negated (p : Precondition) : Precondition := .mk "NOT" [.nested p] ⟨"c", 1, 1⟩

theorem negated_alternatives_take_their_operands :
    TakesItsOperands newYear
      (negated (oneOf [fieldOf "SEEN" [], negated (fieldOf "FROM" ["OR"]), oneOf [fieldOf "UID" ["1"]]])) := by
  apply (operands_are_keys (accepted_of_isOk (by decide +kernel))).2 _ _ (Precondition.self_mem_nodes _)
  simp [Precondition.allTagged, Precondition.nodes, Operand.nodes, Precondition.tagged,
    Operand.precondition?, Precondition.Single, Operand.LoneSingle, fieldOf, oneOf, negated]

def number (i : Nat) : Operand :=
  .leaf ⟨Text.decimal i, .int i, true, ⟨"c", 1, 1⟩⟩

theorem negated_numbers_not_key : ¬ ∀ now p, (compile now p).outcome = .ok () →
    ∀ q ∈ p.allTagged, IsKey (compile now q).tokens := by
  intro always
  have key := always newYear (negated (.mk "MSG" [number 1, number 2] ⟨"c", 1, 1⟩))
    (accepted_of_isOk (by decide +kernel)) (.mk "MSG" [number 1, number 2] ⟨"c", 1, 1⟩)
    (by simp [Precondition.allTagged, Precondition.nodes, negated])
  have tokens : (compile newYear (.mk "MSG" [number 1, number 2] ⟨"c", 1, 1⟩)).tokens =
      ["1", "2"].map .text := by decide +kernel
  rw [tokens] at key
  have one := numerals_one (by decide) key
  simp at one

end Search
end MailRules
