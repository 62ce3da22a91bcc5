import MailRules.Proofs.Search.Grammar
import MailRules.Proofs.Search.Compile
import MailRules.Proofs.Text.Digits
/-!
What a precondition asks of a message, by its own tree, and that the tokens it is compiled into ask the
same: read as search keys they are one key, which ends where the tokens end and holds of the same
messages.
-/
namespace MailRules
open MailRules.Search MailRules.Calendar MailRules.Text

namespace Search

def numberFields : List String := ["LARGER", "SMALLER", "MSG"]

def dateFields : List String := ["BEFORE", "ON", "SENTBEFORE", "SENTON", "SENTSINCE", "SINCE"]

/-- What an argument stands for under a field, as it is written in a search: a number, a date, the
date that lies a duration back, or its own text. -/
def argumentText? (now : Moment) (field : String) : Operand → Option String
  | .nested _ => none
  | .leaf l =>
    if field ∈ numberFields then
      match l.datum with
      | .int (.ofNat n) => some (decimal n)
      | _ => none
    else if field ∈ dateFields then (dateOf? l.datum).map Date.searchText
    else if field = "OLDERTHAN" then
      match Duration.read l.text with
      | .ok span => (now.dateBefore? span).map Date.searchText
      | .error _ => none
    else some l.text

def fieldTag (field : String) : String := if field = "OLDERTHAN" then "BEFORE" else field

def fieldTest (field : String) (texts : List String) : Test :=
  if field = "UID" then .uids texts
  else if field = "MSG" then .number (texts.headD "")
  else .tagged (fieldTag field) texts

end Search

mutual

/-- Does the precondition hold of the messages that pass the tests so? -/
def Precondition.Holds (now : Moment) (passes : Test → Prop) : Precondition → Prop
  | .mk field operands _ =>
    if field = "NOT" then ¬ Operand.AnyHolds now passes operands
    else if field = "OR" then Operand.AnyHolds now passes operands
    else ∃ texts, operands.map (argumentText? now field) = texts.map some ∧
      passes (fieldTest field texts)

def Operand.AnyHolds (now : Moment) (passes : Test → Prop) : List Operand → Prop
  | [] => False
  | .leaf _ :: rest => Operand.AnyHolds now passes rest
  | .nested p :: rest => p.Holds now passes ∨ Operand.AnyHolds now passes rest

end

mutual

/-- In the whole tree, a list of message numbers has one of them, and a list of identifiers and a list
of alternatives at least one. -/
def Precondition.OneKeyShaped : Precondition → Prop
  | .mk field operands _ =>
    (field = "MSG" → operands.length = 1) ∧ (field = "UID" → operands ≠ []) ∧
      (field = "OR" → operands ≠ []) ∧ Operand.AllOneKeyShaped operands

def Operand.AllOneKeyShaped : List Operand → Prop
  | [] => True
  | .leaf _ :: rest => Operand.AllOneKeyShaped rest
  | .nested p :: rest => p.OneKeyShaped ∧ Operand.AllOneKeyShaped rest

end

@[simp] theorem Operand.anyHolds_nested (now : Moment) (passes : Test → Prop)
    (qs : List Precondition) :
    Operand.AnyHolds now passes (qs.map .nested) ↔ ∃ q ∈ qs, q.Holds now passes := by
  induction qs with
  | nil => simp [Operand.AnyHolds]
  | cons q qs ih => simp [Operand.AnyHolds, ih]

@[simp] theorem Operand.allOneKeyShaped_nested (qs : List Precondition) :
    Operand.AllOneKeyShaped (qs.map .nested) ↔ ∀ q ∈ qs, q.OneKeyShaped := by
  induction qs with
  | nil => simp [Operand.AllOneKeyShaped]
  | cons q qs ih => simp [Operand.AllOneKeyShaped, ih]

namespace Search

/-! The fields of the table -/

theorem number_field {f : Field} (known : f ∈ Field.all)
    (kind : f.kind = .uint32 ∨ f.kind = .uint32List) : f.name ∈ numberFields := by
  revert f
  decide

theorem date_field {f : Field} (known : f ∈ Field.all) (kind : f.kind = .date) :
    f.name ∉ numberFields ∧ f.name ∈ dateFields := by
  revert f
  decide

theorem duration_field {f : Field} (known : f ∈ Field.all) (kind : f.kind = .duration) :
    f.name = "OLDERTHAN" := by
  revert f
  decide

theorem text_field {f : Field} (known : f ∈ Field.all)
    (kind : f.kind = .none ∨ f.kind = .string ∨ f.kind = .stringList) :
    f.name ∉ numberFields ∧ f.name ∉ dateFields ∧ f.name ≠ "OLDERTHAN" := by
  revert f
  decide

theorem Field.stringList_is_uid {f : Field} (known : f ∈ Field.all) (kind : f.kind = .stringList) :
    f = ⟨"UID", .stringList, none, some "UID"⟩ := by
  revert f
  decide

theorem Field.uint32List_is_msg {f : Field} (known : f ∈ Field.all) (kind : f.kind = .uint32List) :
    f = ⟨"MSG", .uint32List, none, none⟩ := by
  revert f
  decide

theorem Field.tagged {f : Field} (known : f ∈ Field.all)
    (plain : f.kind ≠ .nested ∧ f.kind ≠ .nestedList)
    (single : f.kind ≠ .stringList ∧ f.kind ≠ .uint32List) :
    f.name ≠ "UID" ∧ f.name ≠ "MSG" ∧ f.tag = some (fieldTag f.name) ∧
      valueCount? (fieldTag f.name) = f.arity ∧ f.arity.isSome := by
  revert f
  decide

theorem Field.plain_name {f : Field} (known : f ∈ Field.all)
    (plain : f.kind ≠ .nested ∧ f.kind ≠ .nestedList) : f.name ≠ "NOT" ∧ f.name ≠ "OR" := by
  revert f
  decide

/-! Arguments -/

theorem bind_ok {α β : Type} {r : Except Failure α} {next : α → Except Failure β} {b : β}
    (ended : (r >>= next) = .ok b) : ∃ a, r = .ok a ∧ next a = .ok b := by
  cases r with
  | error failure => cases ended
  | ok a => exact ⟨a, rfl, ended⟩

theorem uint32Text_ok {field s : String} {o : Operand} (read : uint32Text field o = .ok s) :
    ∃ l n, o = .leaf l ∧ l.datum = .int (.ofNat n) ∧ s = decimal n := by
  obtain ⟨l, scalar, read⟩ := bind_ok read
  refine ⟨l, ?_⟩
  have leaf := scalarOf_ok scalar
  split at read
  · rename_i i datum
    split at read
    · rename_i range
      cases i with
      | ofNat n =>
        cases read
        exact ⟨n, leaf, datum, rfl⟩
      | negSucc n => omega
    · split at read <;> cases read
  · cases read

theorem dateText_ok {field s : String} {o : Operand} (read : dateText field o = .ok s) :
    ∃ l d, o = .leaf l ∧ dateOf? l.datum = some d ∧ s = d.searchText := by
  obtain ⟨l, scalar, read⟩ := bind_ok read
  refine ⟨l, ?_⟩
  split at read
  · rename_i d date
    cases read
    exact ⟨d, scalarOf_ok scalar, date, rfl⟩
  · cases read

theorem durationText_ok {now : Moment} {field s : String} {o : Operand}
    (read : durationText now field o = .ok s) :
    ∃ l span d, o = .leaf l ∧ Duration.read l.text = .ok span ∧ now.dateBefore? span = some d ∧
      s = d.searchText := by
  obtain ⟨l, scalar, read⟩ := bind_ok read
  refine ⟨l, ?_⟩
  split at read
  · cases read
  · rename_i span duration
    split at read
    · rename_i d date
      cases read
      exact ⟨span, d, scalarOf_ok scalar, duration, date, rfl⟩
    · cases read

theorem stringText_ok {field s : String} {o : Operand} (read : stringText field o = .ok s) :
    ∃ l, o = .leaf l ∧ s = l.text := by
  obtain ⟨l, scalar, read⟩ := bind_ok read
  cases read
  exact ⟨l, scalarOf_ok scalar, rfl⟩

theorem reader_ok {now : Moment} {f : Field} {o : Operand} {s : String} (known : f ∈ Field.all)
    (plain : f.kind ≠ .nested ∧ f.kind ≠ .nestedList) (read : reader now f o = .ok s) :
    argumentText? now f.name o = some s := by
  have text (kind : f.kind = .none ∨ f.kind = .string ∨ f.kind = .stringList)
      (read : stringText f.name o = .ok s) : argumentText? now f.name o = some s := by
    obtain ⟨l, rfl, rfl⟩ := stringText_ok read
    simp [argumentText?, text_field known kind]
  have number (kind : f.kind = .uint32 ∨ f.kind = .uint32List)
      (read : uint32Text f.name o = .ok s) : argumentText? now f.name o = some s := by
    obtain ⟨l, n, rfl, datum, rfl⟩ := uint32Text_ok read
    simp [argumentText?, number_field known kind, datum]
  unfold reader at read
  cases kind : f.kind with
  | none | string | stringList =>
    simp only [kind] at read
    exact text (by simp [kind]) read
  | uint32 | uint32List =>
    simp only [kind] at read
    exact number (by simp [kind]) read
  | date =>
    simp only [kind] at read
    obtain ⟨l, d, rfl, date, rfl⟩ := dateText_ok read
    simp [argumentText?, date_field known kind, date]
  | duration =>
    simp only [kind] at read
    obtain ⟨l, span, d, rfl, duration, date, rfl⟩ := durationText_ok read
    have name := duration_field known kind
    simp [argumentText?, name, numberFields, dateFields, duration, date]
  | nested => exact (plain.1 kind).elim
  | nestedList => exact (plain.2 kind).elim

theorem argumentTexts_of_read {now : Moment} {f : Field} {os : List Operand}
    {texts : List String} (known : f ∈ Field.all)
    (plain : f.kind ≠ .nested ∧ f.kind ≠ .nestedList)
    (read : os.map (reader now f) = texts.map .ok) :
    os.map (argumentText? now f.name) = texts.map some := by
  induction os generalizing texts with
  | nil => simpa using read
  | cons o os ih =>
    cases texts with
    | nil => cases read
    | cons s texts =>
      simp only [List.map_cons, List.cons.injEq] at read ⊢
      exact ⟨reader_ok known plain read.1, ih read.2⟩

/-! Keys -/

theorem decimal_numeral (n : Nat) : isNumeral (decimal n) = true := by
  have some : Nat.toDigits 10 n ≠ [] := Nat.toDigits_ne_nil
  simpa [isNumeral, decimal, some] using toDigits_digits n

theorem numbers_numeral {now : Moment} {field : String} {os : List Operand}
    {texts : List String} (number : field ∈ numberFields)
    (meant : os.map (argumentText? now field) = texts.map some) :
    ∀ s ∈ texts, isNumeral s = true := by
  intro s member
  have listed : some s ∈ os.map (argumentText? now field) := by simp [meant, member]
  obtain ⟨o, _, read⟩ := List.mem_map.mp listed
  cases o with
  | nested p => cases read
  | leaf l =>
    simp only [argumentText?, number, if_true] at read
    split at read
    · cases read
      exact decimal_numeral _
    · cases read

theorem numeral_of_single {now : Moment} {field : String} {os : List Operand}
    {texts : List String} (number : field ∈ numberFields) (one : os.length = 1)
    (meant : os.map (argumentText? now field) = texts.map some) :
    ∃ s, texts = [s] ∧ isNumeral s = true := by
  have single : texts.length = 1 := by simpa [one] using (congrArg List.length meant).symm
  obtain ⟨s, rfl⟩ := List.length_eq_one_iff.mp single
  exact ⟨s, rfl, numbers_numeral number meant s (List.mem_singleton_self s)⟩

/-- The tokens of a field are its test, if they are one key at all. -/
theorem fieldTokens_test {f : Field} {texts : List String} (known : f ∈ Field.all)
    (plain : f.kind ≠ .nested ∧ f.kind ≠ .nestedList)
    (arity : ∀ n, f.arity = some n → texts.length = n)
    (number : f.name = "MSG" → ∃ s, texts = [s] ∧ isNumeral s = true)
    (uids : f.name = "UID" → texts ≠ []) :
    (fieldTest f.name texts).WellFormed ∧ fieldTokens f texts = (fieldTest f.name texts).tokens := by
  by_cases list : f.kind = .stringList
  · have whole := Field.stringList_is_uid known list
    subst whole
    exact ⟨uids rfl, by simp [fieldTokens, fieldTest, Test.tokens]⟩
  · by_cases numbers : f.kind = .uint32List
    · have whole := Field.uint32List_is_msg known numbers
      subst whole
      obtain ⟨s, rfl, numeral⟩ := number rfl
      exact ⟨numeral, rfl⟩
    · obtain ⟨notUid, notMsg, tag, count, fixed⟩ := Field.tagged known plain ⟨list, numbers⟩
      obtain ⟨n, given⟩ := Option.isSome_iff_exists.mp fixed
      have test : fieldTest f.name texts = .tagged (fieldTag f.name) texts := by
        simp [fieldTest, notUid, notMsg]
      rw [test]
      exact ⟨by simp [Test.WellFormed, count, given, arity n given],
        by simp [fieldTokens, list, tag, Test.tokens]⟩

def SearchKey.anyOf : SearchKey → List SearchKey → SearchKey
  | k, [] => k
  | k, k' :: keys => .either k (anyOf k' keys)

theorem SearchKey.anyOf_wellFormed {k : SearchKey} {keys : List SearchKey}
    (written : ∀ x ∈ k :: keys, x.WellFormed) : (anyOf k keys).WellFormed := by
  induction keys generalizing k with
  | nil => exact written k List.mem_cons_self
  | cons k' keys ih =>
    exact ⟨written k List.mem_cons_self, ih fun x member => written x (List.mem_cons_of_mem k member)⟩

theorem SearchKey.anyOf_tokens (k : SearchKey) (keys : List SearchKey) :
    (anyOf k keys).tokens = joined ((k :: keys).map SearchKey.tokens) := by
  induction keys generalizing k with
  | nil => rfl
  | cons k' keys ih =>
    have rest := ih k'
    simp only [List.map_cons] at rest
    simp [anyOf, SearchKey.tokens, rest, joined]

theorem SearchKey.anyOf_holds (passes : Test → Prop) (k : SearchKey) (keys : List SearchKey) :
    (anyOf k keys).Holds passes ↔ ∃ x ∈ k :: keys, x.Holds passes := by
  induction keys generalizing k with
  | nil => simp [anyOf]
  | cons k' keys ih => simp [anyOf, SearchKey.Holds, ih]

/-- The tokens of the precondition are a key that means the same. -/
def WrittenAs (now : Moment) (p : Precondition) (key : SearchKey) : Prop :=
  key.WellFormed ∧ (compile now p).tokens = key.tokens ∧
    ∀ passes, key.Holds passes ↔ p.Holds now passes

theorem keys_of_each {now : Moment} {ps : List Precondition}
    (each : ∀ p ∈ ps, ∃ key, WrittenAs now p key) :
    ∃ keys : List SearchKey, (∀ k ∈ keys, k.WellFormed) ∧
      ps.map (fun p => (compile now p).tokens) = keys.map SearchKey.tokens ∧
      ∀ passes, ((∃ k ∈ keys, k.Holds passes) ↔ ∃ p ∈ ps, p.Holds now passes) ∧
        ((∀ k ∈ keys, k.Holds passes) ↔ ∀ p ∈ ps, p.Holds now passes) := by
  induction ps with
  | nil => exact ⟨[], by simp⟩
  | cons p ps ih =>
    obtain ⟨key, written, tokens, same⟩ := each p List.mem_cons_self
    obtain ⟨keys, others, more, alike⟩ := ih fun q member => each q (List.mem_cons_of_mem p member)
    refine ⟨key :: keys, by simpa using ⟨written, others⟩, by simp [tokens, more], ?_⟩
    intro passes
    obtain ⟨any, all⟩ := alike passes
    simp [same, any, all]

/-- An accepted precondition of the right shape is compiled into one key, which means the same. -/
theorem compiled_key {now : Moment} (p : Precondition) (shaped : p.OneKeyShaped)
    (accepted : (compile now p).outcome = .ok ()) : ∃ key, WrittenAs now p key := by
  induction p using Precondition.induction with
  | step name operands location ih =>
    have compiled := compiled_of_ok accepted
    unfold WrittenAs
    generalize (compile now (.mk name operands location)).tokens = tokens at compiled ⊢
    rw [Precondition.OneKeyShaped] at shaped
    obtain ⟨oneNumber, someUid, someOperand, operandsShaped⟩ := shaped
    cases compiled with
    | negation q _ inner =>
      have shapedQ : q.OneKeyShaped := by simpa [Operand.AllOneKeyShaped] using operandsShaped
      obtain ⟨key, written, emitted, same⟩ := ih q List.mem_cons_self shapedQ inner
      refine ⟨.negation key, written, by simp [emitted, SearchKey.tokens], ?_⟩
      intro passes
      simp [SearchKey.Holds, Precondition.Holds, Operand.AnyHolds, same]
    | alternatives qs _ inner =>
      have shapedQs := (Operand.allOneKeyShaped_nested qs).mp operandsShaped
      obtain ⟨keys, written, emitted, same⟩ := keys_of_each fun q member =>
        ih q (List.mem_map_of_mem member) (shapedQs q member) (inner q member)
      cases keys with
      | nil =>
        have none : qs = [] := by simpa using emitted
        exact (someOperand rfl (by simp [none])).elim
      | cons key keys =>
        refine ⟨.anyOf key keys, SearchKey.anyOf_wellFormed written, ?_, ?_⟩
        · rw [SearchKey.anyOf_tokens, emitted]
        · intro passes
          rw [SearchKey.anyOf_holds, (same passes).1]
          simp [Precondition.Holds]
    | field f _ _ texts known plain arity read =>
      have count : operands.length = texts.length := by simpa using congrArg List.length read
      have meant : operands.map (argumentText? now f.name) = texts.map some :=
        argumentTexts_of_read known plain read
      obtain ⟨written, emitted⟩ := fieldTokens_test known plain
        (fun n given => count ▸ arity n given)
        (fun msg => numeral_of_single (by simp [msg, numberFields]) (oneNumber msg) meant)
        (fun uid => by simpa [← List.length_eq_zero_iff, count] using someUid uid)
      refine ⟨.test (fieldTest f.name texts), written, emitted, ?_⟩
      intro passes
      simp only [SearchKey.Holds, Precondition.Holds, Field.plain_name known plain, if_false, meant]
      constructor
      · intro passed
        exact ⟨texts, rfl, passed⟩
      · rintro ⟨others, same, passed⟩
        have equal : texts = others := (List.map_inj_right fun _ _ => Option.some.inj).mp same
        exact equal ▸ passed

/-- A precondition of the right shape reads as one key that means the same, whatever follows it; the
preconditions of a rule read as keys all of which hold just where all of the preconditions do. -/
theorem emitted_reads_as_meant (now : Moment) :
    (∀ p : Precondition, p.OneKeyShaped → (compile now p).outcome = .ok () → ∀ following,
      ∃ key : SearchKey, readKey ((compile now p).tokens ++ following) = some (key, following) ∧
        ∀ passes, key.Holds passes ↔ p.Holds now passes) ∧
    ∀ ps : List Precondition, (∀ p ∈ ps, p.OneKeyShaped ∧ (compile now p).outcome = .ok ()) →
      ∃ keys, readKeys (emitted now ps) = some keys ∧
        ∀ passes, (∀ k ∈ keys, k.Holds passes) ↔ ∀ p ∈ ps, p.Holds now passes := by
  constructor
  · intro p shaped accepted following
    obtain ⟨key, written, tokens, same⟩ := compiled_key p shaped accepted
    exact ⟨key, by rw [tokens, readKey_written following written], same⟩
  · intro ps each
    obtain ⟨keys, written, tokens, same⟩ := keys_of_each fun p member =>
      compiled_key p (each p member).1 (each p member).2
    refine ⟨keys, ?_, fun passes => (same passes).2⟩
    rw [emitted, List.flatMap_def, tokens, ← List.flatMap_def, readKeys_written written]

/-- Not from a sender called NOT, and at least a day old or named like a parenthesis. -/
def lookalike : List Precondition :=
  let place : Location := ⟨"c", 1, 1⟩
  let word (s : String) : Operand := .leaf ⟨s, .text s, true, place⟩
  [.mk "NOT" [.nested (.mk "FROM" [word "NOT"] place)] place,
    .mk "OR" [.nested (.mk "OLDERTHAN" [word "1d"] place), .nested (.mk "SUBJECT" [word "("] place)] place]

def newYear : Moment := ⟨⟨2024, 1, 1⟩, 0, 0, 0, 0, some 0⟩

theorem lookalike_tokens : emitted newYear lookalike =
    ["NOT", "FROM", "NOT", "OR", "BEFORE", "31-Dec-2023", "SUBJECT", "("].map .text := by
  decide +kernel

theorem lookalike_reads_as_meant :
    (∀ p ∈ lookalike, ∃ key,
      readKey ((compile newYear p).tokens ++ [.text "SEEN"]) = some (key, [.text "SEEN"]) ∧
        ∀ passes, key.Holds passes ↔ p.Holds newYear passes) ∧
    ∃ keys, readKeys (["NOT", "FROM", "NOT", "OR", "BEFORE", "31-Dec-2023", "SUBJECT", "("].map .text) =
      some keys ∧
        ∀ passes, (∀ k ∈ keys, k.Holds passes) ↔ ∀ p ∈ lookalike, p.Holds newYear passes := by
  have each : ∀ p ∈ lookalike, p.OneKeyShaped ∧ (compile newYear p).outcome = .ok () := by
    intro p member
    simp only [lookalike, List.mem_cons, List.not_mem_nil, or_false] at member
    rcases member with rfl | rfl
    · exact ⟨by simp [Precondition.OneKeyShaped, Operand.AllOneKeyShaped],
        accepted_of_isOk (by decide +kernel)⟩
    · exact ⟨by simp [Precondition.OneKeyShaped, Operand.AllOneKeyShaped],
        accepted_of_isOk (by decide +kernel)⟩
  constructor
  · intro p member
    exact (emitted_reads_as_meant newYear).1 p (each p member).1 (each p member).2 _
  · rw [← lookalike_tokens]
    exact (emitted_reads_as_meant newYear).2 lookalike each

end Search
end MailRules
