import MailRules.Proofs.Text.Digits
import MailRules.Proofs.Log.Redaction
import MailRules.Proofs.Log.Text
/-!
JSON texts and the values that they stand for. The reader takes the blanks between the parts of a text, every
escape, and whole numbers; of two entries of a mapping under one key the last counts. What is written of a value
reads back as that value, however deep it goes, if no text in it holds two surrogates that are a pair.
-/
namespace MailRules.Log
open MailRules.Text

/-! Reading values -/

def afterBlanks (cs : List Char) : List Char :=
  cs.dropWhile fun c => c = ' ' || c = '\t' || c = '\n' || c = '\r'

def word? : List Char → Option (Value Points × List Char)
  | 'n' :: 'u' :: 'l' :: 'l' :: rest => some (.null, rest)
  | 't' :: 'r' :: 'u' :: 'e' :: rest => some (.bool true, rest)
  | 'f' :: 'a' :: 'l' :: 's' :: 'e' :: rest => some (.bool false, rest)
  | _ => none

def natural? (cs : List Char) : Option (Nat × List Char) :=
  let digits := cs.takeWhile isAsciiDigit
  let rest := cs.dropWhile isAsciiDigit
  if digits = [] ∨ (digits.head? = some '0' ∧ digits ≠ ['0']) ∨ rest.head? ∈ [some '.', some 'e', some 'E'] then
    none
  else some (ofDigits (digits.map fun c => c.toNat - 48), rest)

def number? : List Char → Option (Value Points × List Char)
  | '-' :: cs => (natural? cs).map fun (n, rest) => (.int (-n), rest)
  | cs => (natural? cs).map fun (n, rest) => (.int n, rest)

mutual

def value? : Nat → List Char → Option (Value Points × List Char)
  | 0, _ => none
  | n + 1, cs =>
    match afterBlanks cs with
    | '"' :: rest => do
      let (s, rest) ← chars? n rest
      return (.text s, rest)
    | '[' :: rest =>
      match afterBlanks rest with
      | ']' :: rest => some (.list [], rest)
      | rest => do
        let (vs, rest) ← items? n rest
        return (.list vs, rest)
    | '\x7b' :: rest =>
      match afterBlanks rest with
      | '\x7d' :: rest => some (.map [], rest)
      | rest => do
        let (es, rest) ← entries? n rest
        return (.map (es.foldl put []), rest)
    | cs => (word? cs).or (number? cs)

def items? : Nat → List Char → Option (List (Value Points) × List Char)
  | 0, _ => none
  | n + 1, cs => do
    let (v, rest) ← value? n cs
    match afterBlanks rest with
    | ',' :: rest =>
      let (vs, rest) ← items? n rest
      return (v :: vs, rest)
    | ']' :: rest => return ([v], rest)
    | _ => none

def entries? : Nat → List Char → Option (List (Points × Value Points) × List Char)
  | 0, _ => none
  | n + 1, cs =>
    match afterBlanks cs with
    | '"' :: rest => do
      let (k, rest) ← chars? n rest
      match afterBlanks rest with
      | ':' :: rest =>
        let (v, rest) ← value? n rest
        match afterBlanks rest with
        | ',' :: rest =>
          let (es, rest) ← entries? n rest
          return ((k, v) :: es, rest)
        | '\x7d' :: rest => return ([(k, v)], rest)
        | _ => none
      | _ => none
    | _ => none

end

def readJson? (s : String) : Option (Value Points) :=
  match value? (s.toList.length + 1) s.toList with
  | some (v, rest) => if afterBlanks rest = [] then some v else none
  | none => none

/-! Numbers read back -/

def Ends (rest : List Char) : Prop :=
  ∀ c ∈ rest.head?, isAsciiDigit c = false ∧ some c ∉ [some '.', some 'e', some 'E']

theorem ends_cons {c : Char} (digit : isAsciiDigit c = false)
    (more : some c ∉ [some '.', some 'e', some 'E']) (rest : List Char) : Ends (c :: rest) := by
  rintro _ ⟨⟩
  exact ⟨digit, more⟩

section Numbers
variable {rest : List Char} (ends : Ends rest)
include ends

theorem digits_taken {ds : List Char} (digits : ∀ c ∈ ds, isAsciiDigit c = true) :
    (ds ++ rest).takeWhile isAsciiDigit = ds ∧ (ds ++ rest).dropWhile isAsciiDigit = rest := by
  rw [List.takeWhile_append_of_pos digits, List.dropWhile_append_of_pos digits]
  cases rest with
  | nil => simp
  | cons c rest =>
    have none := (ends c rfl).1
    rw [List.takeWhile_cons_of_neg (by simp [none]), List.dropWhile_cons_of_neg (by simp [none])]
    simp

theorem natural?_decimal (n : Nat) : natural? ((decimal n).toList ++ rest) = some (n, rest) := by
  have canonical := decimal_canonical n
  obtain ⟨taken, left⟩ := digits_taken ends canonical.digits
  have whole : rest.head? ∉ [some '.', some 'e', some 'E'] := by
    cases rest with
    | nil => decide
    | cons c rest => exact (ends c rfl).2
  have fine : ¬((decimal n).toList = [] ∨ ((decimal n).toList.head? = some '0' ∧ (decimal n).toList ≠ ['0']) ∨
      rest.head? ∈ [some '.', some 'e', some 'E']) := by
    rintro (empty | ⟨zero, more⟩ | further)
    · exact canonical.nonempty empty
    · exact more (by rw [canonical.noLead zero]; rfl)
    · exact whole further
  unfold natural?
  simp only [taken, left, if_neg fine, canonical.value]

theorem number?_signedDecimal (i : Int) :
    number? ((signedDecimal i).toList ++ rest) = some (.int i, rest) := by
  cases i with
  | ofNat n =>
    have positive : ∀ cs, (decimal n).toList ++ rest = '-' :: cs → False := by
      intro cs signed
      obtain ⟨d, ds, same⟩ := List.exists_cons_of_ne_nil (decimal_canonical n).nonempty
      have digit := (decimal_canonical n).digits d (same ▸ List.mem_cons_self)
      rw [same] at signed
      rw [(List.cons.inj signed).1] at digit
      cases digit
    rw [signedDecimal, number?, natural?_decimal ends]
    · rfl
    · exact positive
  | negSucc n =>
    rw [signedDecimal, String.toList_append]
    exact congrArg (Option.map _) (natural?_decimal ends (n + 1))

end Numbers

theorem signedDecimal_opens (i : Int) :
    ∃ c cs, (signedDecimal i).toList = c :: cs ∧ (c = '-' ∨ isAsciiDigit c = true) := by
  cases i with
  | ofNat n =>
    obtain ⟨d, ds, same⟩ := List.exists_cons_of_ne_nil (decimal_canonical n).nonempty
    exact ⟨d, ds, same, .inr ((decimal_canonical n).digits d (same ▸ List.mem_cons_self))⟩
  | negSucc n =>
    rw [signedDecimal, String.toList_append]
    exact ⟨'-', _, rfl, .inl rfl⟩

/-! Values read back -/

mutual

/-- No number with a fraction in the value, and in no mapping of it a key twice. -/
def Value.Plain : Value Points → Prop
  | .float _ => False
  | .list items => ItemsPlain items
  | .map entries => (entries.map (·.1)).Nodup ∧ EntriesPlain entries
  | _ => True

def ItemsPlain : List (Value Points) → Prop
  | [] => True
  | v :: vs => v.Plain ∧ ItemsPlain vs

def EntriesPlain : List (Points × Value Points) → Prop
  | [] => True
  | (_, v) :: es => v.Plain ∧ EntriesPlain es

end

mutual

/-- In no text of the value, and in no key, are two surrogates a pair. -/
def Value.Unsplit : Value Points → Prop
  | .text s => s.Unsplit
  | .list items => ItemsUnsplit items
  | .map entries => EntriesUnsplit entries
  | _ => True

def ItemsUnsplit : List (Value Points) → Prop
  | [] => True
  | v :: vs => v.Unsplit ∧ ItemsUnsplit vs

def EntriesUnsplit : List (Points × Value Points) → Prop
  | [] => True
  | (k, v) :: es => k.Unsplit ∧ v.Unsplit ∧ EntriesUnsplit es

end

mutual

/-- What the value reads back as. Keys that become the same are one key. -/
def Value.reread : Value Points → Value Points
  | .text s => .text s.joined
  | .list items => .list (rereadItems items)
  | .map entries => .map ((rereadEntries entries).foldl put [])
  | v => v

def rereadItems : List (Value Points) → List (Value Points)
  | [] => []
  | v :: vs => v.reread :: rereadItems vs

def rereadEntries : List (Points × Value Points) → List (Points × Value Points)
  | [] => []
  | (k, v) :: es => (k.joined, v.reread) :: rereadEntries es

end

theorem foldl_put_distinct {es fs : List (Points × Value Points)} (distinct : ((fs ++ es).map (·.1)).Nodup) :
    es.foldl put fs = fs ++ es := by
  induction es generalizing fs with
  | nil => exact (List.append_nil fs).symm
  | cons e es ih =>
    have fresh : e.1 ∉ fs.map (·.1) := by
      rw [List.map_append, List.map_cons] at distinct
      exact fun member => List.disjoint_of_nodup_append distinct member List.mem_cons_self
    have joined : fs ++ e :: es = fs ++ [e] ++ es := List.append_cons fs e es
    rw [joined] at distinct ⊢
    rw [List.foldl_cons, put_fresh fresh, ih distinct]

/-- Putting entries makes no more of them, and as many only if none takes the place of another. -/
theorem length_foldl_put (es fs : List (Points × Value Points)) :
    (es.foldl put fs).length ≤ fs.length + es.length ∧
      ((es.foldl put fs).length = fs.length + es.length → es.foldl put fs = fs ++ es) := by
  induction es generalizing fs with
  | nil => simp
  | cons e es ih =>
    obtain ⟨bound, exact⟩ := ih (put fs e)
    rw [List.foldl_cons, List.length_cons]
    by_cases there : e.1 ∈ fs.map (·.1)
    · have same : (put fs e).length = fs.length := by
        rw [put_there there, List.length_map]
      exact ⟨by omega, fun full => by omega⟩
    · rw [put_fresh there, List.length_append, List.length_singleton] at bound exact
      rw [put_fresh there]
      refine ⟨by omega, fun full => ?_⟩
      rw [exact (by omega), List.append_assoc, List.singleton_append]

@[simp] theorem length_rereadEntries (es : List (Points × Value Points)) :
    (rereadEntries es).length = es.length := by
  induction es with
  | nil => rfl
  | cons e es ih => rw [rereadEntries, List.length_cons, List.length_cons, ih]

mutual

theorem reread_eq_self_iff {v : Value Points} (plain : v.Plain) : v.reread = v ↔ v.Unsplit := by
  cases v with
  | text s => rw [Value.reread, Value.text.injEq, Points.joined_eq_self_iff, Value.Unsplit]
  | list items => rw [Value.reread, Value.list.injEq, rereadItems_eq_self_iff plain, Value.Unsplit]
  | map entries =>
    have kept : (rereadEntries entries).foldl put [] = entries ↔ rereadEntries entries = entries := by
      constructor
      · intro same
        have full : ((rereadEntries entries).foldl put []).length = (rereadEntries entries).length := by
          rw [same, length_rereadEntries]
        exact ((length_foldl_put _ _).2 (by simpa using full)).symm.trans same
      · intro same
        rw [same]
        exact foldl_put_distinct plain.1
    rw [Value.reread, Value.map.injEq, kept, rereadEntries_eq_self_iff plain.2, Value.Unsplit]
  | float x => exact plain.elim
  | _ => exact iff_of_true rfl trivial

theorem rereadItems_eq_self_iff {items : List (Value Points)} (plain : ItemsPlain items) :
    rereadItems items = items ↔ ItemsUnsplit items := by
  cases items with
  | nil => exact iff_of_true rfl trivial
  | cons v vs =>
    rw [rereadItems, List.cons.injEq, reread_eq_self_iff plain.1, rereadItems_eq_self_iff plain.2, ItemsUnsplit]

theorem rereadEntries_eq_self_iff {entries : List (Points × Value Points)} (plain : EntriesPlain entries) :
    rereadEntries entries = entries ↔ EntriesUnsplit entries := by
  cases entries with
  | nil => exact iff_of_true rfl trivial
  | cons e es =>
    obtain ⟨k, v⟩ := e
    rw [rereadEntries, List.cons.injEq, Prod.mk.injEq, Points.joined_eq_self_iff, reread_eq_self_iff plain.1,
      rereadEntries_eq_self_iff plain.2, EntriesUnsplit, and_assoc]

end

theorem jsonItems_more {vs : List (Value Points)} (more : vs ≠ []) :
    jsonItems false vs = ',' :: jsonItems true vs := by
  cases vs with
  | nil => exact absurd rfl more
  | cons v vs => simp [jsonItems]

theorem jsonEntries_more {es : List (Points × Value Points)} (more : es ≠ []) :
    jsonEntries false es = ',' :: jsonEntries true es := by
  cases es with
  | nil => exact absurd rfl more
  | cons e es => simp [jsonEntries]

def between : List Char := [' ', '\t', '\n', '\r', ']']

theorem afterBlanks_cons {c : Char} (opens : c ∉ between) (cs : List Char) :
    afterBlanks (c :: cs) = c :: cs := by
  simp only [between, List.mem_cons, List.not_mem_nil, or_false, not_or] at opens
  exact List.dropWhile_cons_of_neg (by simp [opens])

theorem digit_apart {c : Char} (number : c = '-' ∨ isAsciiDigit c = true) :
    c ∉ ['"', '[', '\x7b', 'n', 't', 'f'] ++ between := by
  have apart : (['"', '[', '\x7b', 'n', 't', 'f'] ++ between).all fun d => d ≠ '-' ∧ isAsciiDigit d = false := by
    decide
  intro member
  obtain ⟨unsigned, letter⟩ := of_decide_eq_true (List.all_eq_true.mp apart c member)
  rcases number with sign | digit
  · exact unsigned sign
  · exact absurd digit (by simp [letter])

theorem json_opens {v : Value Points} (plain : v.Plain) : ∃ c cs, json v = c :: cs ∧ c ∉ between := by
  cases v with
  | null => exact ⟨_, _, rfl, by decide⟩
  | bool b => cases b <;> exact ⟨_, _, rfl, by decide⟩
  | int i =>
    obtain ⟨c, cs, same, number⟩ := signedDecimal_opens i
    exact ⟨c, cs, by rw [json, same], fun member => digit_apart number (List.mem_append_right _ member)⟩
  | float x => exact plain.elim
  | text s => exact ⟨_, _, by rw [json, jsonText]; rfl, by decide⟩
  | list items => exact ⟨_, _, by rw [json]; rfl, by decide⟩
  | map entries => exact ⟨_, _, by rw [json]; rfl, by decide⟩

section Steps
variable {n : Nat} {c : Char} {cs rest : List Char}

theorem value?_number (ends : Ends rest) (i : Int) :
    value? (n + 1) ((signedDecimal i).toList ++ rest) = some (.int i, rest) := by
  have number := number?_signedDecimal ends i
  obtain ⟨c, cs, same, start⟩ := signedDecimal_opens i
  have apart := digit_apart start
  rw [same, List.cons_append] at number ⊢
  have wordless : word? (c :: (cs ++ rest)) = none := by
    unfold word?
    split <;> simp_all
  simp only [List.cons_append, List.nil_append, List.mem_cons, not_or] at apart
  obtain ⟨noText, noList, noMap, -, -, -, opens⟩ := apart
  rw [value?, afterBlanks_cons opens]
  split
  next same => exact absurd (List.cons.inj same).1 noText
  next same => exact absurd (List.cons.inj same).1 noList
  next same => exact absurd (List.cons.inj same).1 noMap
  next => rw [wordless, Option.none_or, number]

theorem value?_text (s : Points) (fuel : s.length < n) :
    value? (n + 1) (jsonText s ++ rest) = some (.text s.joined, rest) := by
  rw [jsonText_append, value?, afterBlanks_cons (by decide)]
  simp only [chars?_flatMap _ fuel, Option.bind_eq_bind, Option.bind_some]
  rfl

theorem value?_list (opens : c ∉ between) : value? (n + 1) ('[' :: c :: cs) =
    (items? n (c :: cs)).map fun (vs, rest) => (.list vs, rest) := by
  rw [value?, afterBlanks_cons (by decide)]
  simp only [afterBlanks_cons opens]
  split
  next same => exact absurd (by rw [(List.cons.inj same).1]; decide) opens
  next => cases items? n (c :: cs) <;> rfl

theorem value?_map : value? (n + 1) ('\x7b' :: '"' :: cs) =
    (entries? n ('"' :: cs)).map fun (es, rest) => (.map (es.foldl put []), rest) := by
  rw [value?, afterBlanks_cons (by decide)]
  simp only [afterBlanks_cons (show '"' ∉ between by decide)]
  split
  next same => exact absurd (List.cons.inj same).1 (by decide)
  next => cases entries? n ('"' :: cs) <;> rfl

variable {v : Value Points}

theorem items?_last (read : value? n cs = some (v, ']' :: rest)) : items? (n + 1) cs = some ([v], rest) := by
  rw [items?, read]
  rfl

theorem items?_more (read : value? n cs = some (v, ',' :: rest)) : items? (n + 1) cs =
    (items? n rest).map fun (vs, rest) => (v :: vs, rest) := by
  rw [items?, read]
  simp only [Option.bind_eq_bind, Option.bind_some, afterBlanks_cons (show ',' ∉ between by decide)]
  cases items? n rest <;> rfl

variable {k : Points} (fuel : k.length < n)
include fuel

theorem entries?_last (read : value? n cs = some (v, '\x7d' :: rest)) :
    entries? (n + 1) (jsonText k ++ ':' :: cs) = some ([(k.joined, v)], rest) := by
  rw [jsonText_append, entries?, afterBlanks_cons (by decide)]
  simp only [chars?_flatMap _ fuel, Option.bind_eq_bind, Option.bind_some,
    afterBlanks_cons (show ':' ∉ between by decide), read, afterBlanks_cons (show '\x7d' ∉ between by decide)]
  rfl

theorem entries?_more (read : value? n cs = some (v, ',' :: rest)) :
    entries? (n + 1) (jsonText k ++ ':' :: cs) =
      (entries? n rest).map fun (es, rest) => ((k.joined, v) :: es, rest) := by
  rw [jsonText_append, entries?, afterBlanks_cons (by decide)]
  simp only [chars?_flatMap _ fuel, Option.bind_eq_bind, Option.bind_some,
    afterBlanks_cons (show ':' ∉ between by decide), read, afterBlanks_cons (show ',' ∉ between by decide)]
  cases entries? n rest <;> rfl

end Steps

theorem items_open {items : List (Value Points)} (some : items ≠ []) (plain : ItemsPlain items) :
    ∃ c cs, jsonItems true items = c :: cs ∧ c ∉ between := by
  cases items with
  | nil => exact absurd rfl some
  | cons v vs =>
    obtain ⟨c, cs, same, opens⟩ := json_opens plain.1
    exact ⟨c, cs ++ jsonItems false vs, by simp [jsonItems, same], opens⟩

theorem entries_open {entries : List (Points × Value Points)} (some : entries ≠ []) :
    ∃ cs, jsonEntries true entries = '"' :: cs := by
  cases entries with
  | nil => exact absurd rfl some
  | cons e es => exact ⟨_, by rw [jsonEntries, jsonText]; rfl⟩

mutual

theorem value?_json {v : Value Points} (plain : v.Plain) {n : Nat} (fuel : (json v).length < n)
    {rest : List Char} (ends : Ends rest) : value? n (json v ++ rest) = some (v.reread, rest) := by
  obtain ⟨n, rfl⟩ := Nat.exists_eq_add_one.mpr (Nat.zero_lt_of_lt fuel)
  cases v with
  | null => rfl
  | bool b => cases b <;> rfl
  | int i => exact value?_number ends i
  | float x => exact plain.elim
  | text s =>
    have shorter := length_jsonText s
    rw [json] at fuel ⊢
    exact value?_text s (by omega)
  | list items =>
    rcases eq_or_ne items [] with rfl | more
    · rfl
    · rw [Value.Plain] at plain
      have shorter : (jsonItems true items).length + 1 < n := by
        simp [json] at fuel
        omega
      have read := items?_json more plain shorter rest
      have shape : json (.list items) ++ rest = '[' :: (jsonItems true items ++ ']' :: rest) := by
        simp [json]
      obtain ⟨c, cs, same, opens⟩ := items_open more plain
      rw [same, List.cons_append] at read shape
      rw [shape, value?_list opens, read]
      rfl
  | map entries =>
    rcases eq_or_ne entries [] with rfl | more
    · rfl
    · obtain ⟨-, plain⟩ := plain
      have shorter : (jsonEntries true entries).length + 1 < n := by
        simp [json] at fuel
        omega
      have read := entries?_json more plain shorter rest
      have shape : json (.map entries) ++ rest = '\x7b' :: (jsonEntries true entries ++ '\x7d' :: rest) := by
        simp [json]
      obtain ⟨cs, same⟩ := entries_open more
      rw [same, List.cons_append] at read shape
      rw [shape, value?_map, read]
      rfl

theorem items?_json {items : List (Value Points)} (more : items ≠ []) (plain : ItemsPlain items) {n : Nat}
    (fuel : (jsonItems true items).length + 1 < n) (rest : List Char) :
    items? n (jsonItems true items ++ ']' :: rest) = some (rereadItems items, rest) := by
  obtain ⟨n, rfl⟩ := Nat.exists_eq_add_one.mpr (Nat.zero_lt_of_lt fuel)
  cases items with
  | nil => exact absurd rfl more
  | cons v vs =>
    have shape : jsonItems true (v :: vs) = json v ++ jsonItems false vs := by
      simp [jsonItems]
    rw [shape, List.length_append] at fuel
    rw [shape, List.append_assoc]
    rcases eq_or_ne vs [] with rfl | others
    · have ends : Ends (']' :: rest) := ends_cons (by decide) (by decide) rest
      exact items?_last (value?_json plain.1 (by omega) ends)
    · rw [jsonItems_more others, List.length_cons] at fuel
      rw [jsonItems_more others, List.cons_append]
      have ends : Ends (',' :: (jsonItems true vs ++ ']' :: rest)) := ends_cons (by decide) (by decide) _
      rw [items?_more (value?_json plain.1 (by omega) ends), items?_json others plain.2 (by omega) rest]
      rfl

theorem entries?_json {entries : List (Points × Value Points)} (more : entries ≠ [])
    (plain : EntriesPlain entries) {n : Nat} (fuel : (jsonEntries true entries).length + 1 < n)
    (rest : List Char) :
    entries? n (jsonEntries true entries ++ '\x7d' :: rest) = some (rereadEntries entries, rest) := by
  obtain ⟨n, rfl⟩ := Nat.exists_eq_add_one.mpr (Nat.zero_lt_of_lt fuel)
  cases entries with
  | nil => exact absurd rfl more
  | cons e es =>
    obtain ⟨k, v⟩ := e
    have shape : jsonEntries true ((k, v) :: es) = jsonText k ++ ':' :: (json v ++ jsonEntries false es) := by
      simp [jsonEntries]
    have key := length_jsonText k
    rw [shape, List.length_append, List.length_cons, List.length_append] at fuel
    rw [shape, List.append_assoc, List.cons_append, List.append_assoc]
    rcases eq_or_ne es [] with rfl | others
    · have ends : Ends ('\x7d' :: rest) := ends_cons (by decide) (by decide) rest
      exact entries?_last (by omega) (value?_json plain.1 (by omega) ends)
    · rw [jsonEntries_more others, List.length_cons] at fuel
      rw [jsonEntries_more others, List.cons_append]
      have ends : Ends (',' :: (jsonEntries true es ++ '\x7d' :: rest)) := ends_cons (by decide) (by decide) _
      rw [entries?_more (by omega) (value?_json plain.1 (by omega) ends),
        entries?_json others plain.2 (by omega) rest]
      rfl

end

theorem readJson?_json {v : Value Points} (plain : v.Plain) {after : List Char} (blank : afterBlanks after = [])
    (ends : Ends after) : readJson? (String.ofList (json v ++ after)) = some v.reread := by
  have fuel : (json v).length < (json v ++ after).length + 1 := by
    rw [List.length_append]
    omega
  rw [readJson?, String.toList_ofList, value?_json plain fuel ends]
  exact if_pos blank

end MailRules.Log
