import MailRules.Search.Token
import MailRules.Text.Digit
/-!
Search keys and their written form, a prefix grammar: a tag is followed by the values that it takes, a
negation by one key and an alternative by two. Nothing ends a key, so where one ends follows from
the grammar alone; the reader below finds it, and finds no other.
-/
namespace MailRules.Search
open MailRules.Text

inductive Test
  /-- A tag and the values after it. -/
  | tagged (tag : String) (values : List String)
  /-- The number of the message in its mailbox. -/
  | number (text : String)
  /-- The unique identifiers of messages. -/
  | uids (values : List String)
  deriving DecidableEq, Repr

inductive SearchKey
  | test (t : Test)
  | negation (k : SearchKey)
  | either (a b : SearchKey)
  deriving DecidableEq, Repr

def loneTags : List String :=
  ["ALL", "ANSWERED", "DELETED", "DRAFT", "FLAGGED", "NEW", "OLD", "RECENT", "SEEN", "UNANSWERED",
   "UNDELETED", "UNDRAFT", "UNFLAGGED", "UNSEEN"]

def valueTags : List String :=
  ["BCC", "BODY", "CC", "FROM", "KEYWORD", "SUBJECT", "TEXT", "TO", "UNKEYWORD", "BEFORE", "ON",
   "SENTBEFORE", "SENTON", "SENTSINCE", "SINCE", "LARGER", "SMALLER"]

def valueCount? (tag : String) : Option Nat :=
  if tag ∈ loneTags then some 0
  else if tag ∈ valueTags then some 1
  else if tag = "HEADER" then some 2
  else none

def isNumeral (text : String) : Bool := !text.toList.isEmpty && text.toList.all isAsciiDigit

def Test.WellFormed : Test → Prop
  | tagged tag values => valueCount? tag = some values.length
  | number text => isNumeral text = true
  | uids values => values ≠ []

def SearchKey.WellFormed : SearchKey → Prop
  | test t => t.WellFormed
  | negation k => k.WellFormed
  | either a b => a.WellFormed ∧ b.WellFormed

def Test.tokens : Test → List Token
  | tagged tag values => .text tag :: values.map .text
  | number text => [.text text]
  | uids values => .opening :: .text "UID" :: (values.map .text ++ [.closing])

def SearchKey.tokens : SearchKey → List Token
  | test t => t.tokens
  | negation k => .text "NOT" :: k.tokens
  | either a b => .text "OR" :: (a.tokens ++ b.tokens)

/-- Does the key hold of the messages that pass the tests so? -/
def SearchKey.Holds (passes : Test → Prop) : SearchKey → Prop
  | test t => passes t
  | negation k => ¬ k.Holds passes
  | either a b => a.Holds passes ∨ b.Holds passes

/-! Reading -/

def readValues : Nat → List Token → Option (List String × List Token)
  | 0, ts => some ([], ts)
  | n + 1, .text s :: ts => (readValues n ts).map fun r => (s :: r.1, r.2)
  | _ + 1, _ => none

def readGroup : List Token → Option (List String × List Token)
  | .text s :: ts => (readGroup ts).map fun r => (s :: r.1, r.2)
  | .closing :: ts => some ([], ts)
  | _ => none

def readTest (tag : String) (ts : List Token) : Option (SearchKey × List Token) :=
  match valueCount? tag with
  | some n => (readValues n ts).map fun r => (.test (.tagged tag r.1), r.2)
  | none => if isNumeral tag then some (.test (.number tag), ts) else none

def readNested : Nat → List Token → Option (SearchKey × List Token)
  | depth + 1, .text tag :: ts =>
    if tag = "NOT" then
      (readNested depth ts).map fun k => (.negation k.1, k.2)
    else if tag = "OR" then
      (readNested depth ts).bind fun a =>
        (readNested depth a.2).map fun b => (.either a.1 b.1, b.2)
    else readTest tag ts
  | _ + 1, .opening :: .text "UID" :: ts =>
    (readGroup ts).bind fun r => if r.1 = [] then none else some (.test (.uids r.1), r.2)
  | _, _ => none

def readKey (ts : List Token) : Option (SearchKey × List Token) := readNested ts.length ts

def readAtMost : Nat → List Token → Option (List SearchKey)
  | _, [] => some []
  | 0, _ :: _ => none
  | n + 1, t :: ts => (readKey (t :: ts)).bind fun k => (readAtMost n k.2).map (k.1 :: ·)

/-- The keys of a whole search, all of which a message has to satisfy. -/
def readKeys (ts : List Token) : Option (List SearchKey) := readAtMost ts.length ts

/-! The reader undoes writing -/

theorem readValues_written (values : List String) (rest : List Token) :
    readValues values.length (values.map .text ++ rest) = some (values, rest) := by
  induction values with
  | nil => rfl
  | cons s values ih => simp [readValues, ih]

theorem readGroup_written (values : List String) (rest : List Token) :
    readGroup (values.map .text ++ .closing :: rest) = some (values, rest) := by
  induction values with
  | nil => rfl
  | cons s values ih => simp [readGroup, ih]

theorem test_tag_not_joint {tag : String} (first : valueCount? tag ≠ none ∨ isNumeral tag = true) :
    tag ≠ "NOT" ∧ tag ≠ "OR" := by
  constructor <;> rintro rfl <;> revert first <;> decide

theorem numeral_not_tag {text : String} (numeral : isNumeral text = true) :
    valueCount? text = none := by
  cases count : valueCount? text with
  | none => rfl
  | some n =>
    have known : text ∈ loneTags ++ valueTags ++ ["HEADER"] := by
      simp only [valueCount?] at count
      grind
    have none : ∀ tag ∈ loneTags ++ valueTags ++ ["HEADER"], isNumeral tag = false := by decide
    simp [none text known] at numeral

theorem readTest_written {t : Test} (depth : Nat) (rest : List Token) (written : t.WellFormed) :
    readNested (depth + 1) (t.tokens ++ rest) = some (.test t, rest) := by
  cases t with
  | tagged tag values =>
    have count : valueCount? tag = some values.length := written
    have joint : tag ≠ "NOT" ∧ tag ≠ "OR" := test_tag_not_joint (Or.inl (by simp [count]))
    simp [Test.tokens, readNested, joint, readTest, count, readValues_written]
  | number text =>
    have numeral : isNumeral text = true := written
    have joint : text ≠ "NOT" ∧ text ≠ "OR" := test_tag_not_joint (Or.inr numeral)
    simp [Test.tokens, readNested, joint, readTest, numeral_not_tag numeral, numeral]
  | uids values =>
    have some : values ≠ [] := written
    simp [Test.tokens, readNested, readGroup_written, some]

def SearchKey.depth : SearchKey → Nat
  | test _ => 1
  | negation k => k.depth + 1
  | either a b => max a.depth b.depth + 1

theorem Test.tokens_length_pos (t : Test) : 1 ≤ t.tokens.length := by
  cases t <;> simp [Test.tokens]

theorem SearchKey.depth_le_length (k : SearchKey) : k.depth ≤ k.tokens.length := by
  induction k with
  | test t => exact t.tokens_length_pos
  | negation k ih => simpa [SearchKey.depth, SearchKey.tokens] using ih
  | either a b iha ihb =>
    simp only [SearchKey.depth, SearchKey.tokens, List.length_cons, List.length_append]
    omega

theorem readNested_written {k : SearchKey} {depth : Nat} (rest : List Token)
    (written : k.WellFormed) (enough : k.depth ≤ depth) :
    readNested depth (k.tokens ++ rest) = some (k, rest) := by
  induction k generalizing depth rest with
  | test t =>
    obtain ⟨n, rfl⟩ := Nat.exists_eq_add_of_le' enough
    exact readTest_written n rest written
  | negation k ih =>
    obtain ⟨n, rfl⟩ := Nat.exists_eq_add_of_le' (Nat.le_trans (Nat.le_add_left 1 k.depth) enough)
    have inner : k.depth ≤ n := by simpa [SearchKey.depth] using enough
    simp [SearchKey.tokens, readNested, ih rest written inner]
  | either a b iha ihb =>
    obtain ⟨n, rfl⟩ := Nat.exists_eq_add_of_le' (Nat.le_trans (Nat.le_add_left 1 _) enough)
    have inner : max a.depth b.depth ≤ n := by simpa [SearchKey.depth] using enough
    have left := iha (b.tokens ++ rest) written.1 (by omega : a.depth ≤ n)
    have right := ihb rest written.2 (by omega : b.depth ≤ n)
    simp [SearchKey.tokens, readNested, left, right]

theorem readKey_written {k : SearchKey} (rest : List Token) (written : k.WellFormed) :
    readKey (k.tokens ++ rest) = some (k, rest) := by
  apply readNested_written rest written
  have short := k.depth_le_length
  simp only [List.length_append]
  omega

theorem SearchKey.tokens_length_pos (k : SearchKey) : 1 ≤ k.tokens.length := by
  cases k with
  | test t => exact t.tokens_length_pos
  | _ => simp [SearchKey.tokens]

theorem readAtMost_written {keys : List SearchKey} {n : Nat}
    (written : ∀ k ∈ keys, k.WellFormed) (enough : keys.length ≤ n) :
    readAtMost n (keys.flatMap SearchKey.tokens) = some keys := by
  induction keys generalizing n with
  | nil => simp [readAtMost]
  | cons k keys ih =>
    obtain ⟨n, rfl⟩ := Nat.exists_eq_add_of_le' (Nat.le_trans (Nat.le_add_left 1 _) enough)
    have first := readKey_written (keys.flatMap SearchKey.tokens) (written k List.mem_cons_self)
    have later : ∀ k' ∈ keys, k'.WellFormed := fun k' member =>
      written k' (List.mem_cons_of_mem k member)
    have others := ih later (by simpa using enough : keys.length ≤ n)
    obtain ⟨t, ts, shape⟩ := List.exists_cons_of_length_pos k.tokens_length_pos
    rw [shape, List.cons_append] at first
    simp [readAtMost, shape, first, others]

theorem readKeys_written {keys : List SearchKey} (written : ∀ k ∈ keys, k.WellFormed) :
    readKeys (keys.flatMap SearchKey.tokens) = some keys := by
  apply readAtMost_written written
  induction keys with
  | nil => simp
  | cons k keys ih =>
    have first := k.tokens_length_pos
    have others := ih fun k' member => written k' (List.mem_cons_of_mem k member)
    simp only [List.flatMap_cons, List.length_append, List.length_cons]
    omega

/-! The reader accepts nothing else -/

theorem readValues_sound {n : Nat} {ts rest : List Token} {values : List String}
    (found : readValues n ts = some (values, rest)) :
    ts = values.map .text ++ rest ∧ values.length = n := by
  induction n generalizing ts values with
  | zero =>
    cases found
    exact ⟨rfl, rfl⟩
  | succ n ih =>
    match ts with
    | .text s :: ts =>
      obtain ⟨⟨vs, r⟩, inner, same⟩ := Option.map_eq_some_iff.mp found
      cases same
      obtain ⟨split, count⟩ := ih inner
      simp [split, count]
    | [] => cases found
    | .opening :: ts => cases found
    | .closing :: ts => cases found

theorem readGroup_sound {ts rest : List Token} {values : List String}
    (found : readGroup ts = some (values, rest)) :
    ts = values.map .text ++ .closing :: rest := by
  induction ts generalizing values with
  | nil => cases found
  | cons t ts ih =>
    cases t with
    | text s =>
      obtain ⟨⟨vs, r⟩, inner, same⟩ := Option.map_eq_some_iff.mp found
      cases same
      simp [ih inner]
    | opening => cases found
    | closing =>
      cases found
      rfl

theorem readTest_sound {tag : String} {ts rest : List Token} {k : SearchKey}
    (found : readTest tag ts = some (k, rest)) :
    k.WellFormed ∧ .text tag :: ts = k.tokens ++ rest := by
  unfold readTest at found
  split at found
  · rename_i n count
    obtain ⟨⟨values, r⟩, inner, same⟩ := Option.map_eq_some_iff.mp found
    cases same
    obtain ⟨split, length⟩ := readValues_sound inner
    subst length
    exact ⟨count, by simp [split, SearchKey.tokens, Test.tokens]⟩
  · split at found
    · rename_i numeral
      cases found
      exact ⟨numeral, rfl⟩
    · cases found

theorem readNested_sound {depth : Nat} {ts rest : List Token} {k : SearchKey}
    (found : readNested depth ts = some (k, rest)) : k.WellFormed ∧ ts = k.tokens ++ rest := by
  induction depth generalizing ts rest k with
  | zero => cases ts <;> cases found
  | succ depth ih =>
    match ts with
    | .text tag :: ts =>
      simp only [readNested] at found
      split at found
      · rename_i isNot
        obtain ⟨⟨a, r⟩, inner, same⟩ := Option.map_eq_some_iff.mp found
        cases same
        obtain ⟨written, split⟩ := ih inner
        exact ⟨written, by simp [split, isNot, SearchKey.tokens]⟩
      · split at found
        · rename_i isOr
          obtain ⟨⟨a, r⟩, first, found⟩ := Option.bind_eq_some_iff.mp found
          obtain ⟨⟨b, r'⟩, second, same⟩ := Option.map_eq_some_iff.mp found
          cases same
          obtain ⟨writtenA, splitA⟩ := ih first
          obtain ⟨writtenB, splitB⟩ := ih second
          have rest : r = b.tokens ++ r' := splitB
          exact ⟨⟨writtenA, writtenB⟩, by simp [splitA, rest, isOr, SearchKey.tokens]⟩
        · exact readTest_sound found
    | .opening :: .text s :: ts =>
      by_cases isUid : s = "UID"
      · subst isUid
        obtain ⟨⟨values, r⟩, inner, found⟩ := Option.bind_eq_some_iff.mp found
        split at found
        · cases found
        · rename_i nonempty
          cases found
          exact ⟨nonempty, by simp [readGroup_sound inner, SearchKey.tokens, Test.tokens]⟩
      · simp [readNested, isUid] at found
    | [] => cases found
    | [.opening] => cases found
    | .opening :: .opening :: ts => cases found
    | .opening :: .closing :: ts => cases found
    | .closing :: ts => cases found

theorem readKey_iff (ts rest : List Token) (k : SearchKey) :
    readKey ts = some (k, rest) ↔ k.WellFormed ∧ ts = k.tokens ++ rest := by
  constructor
  · exact readNested_sound
  · rintro ⟨written, rfl⟩
    exact readKey_written rest written

end MailRules.Search
