import Mathlib
import MailRules.Log.Record
/-!
What redaction hides. A sensitive key that mappings alone lead to shows nothing of its value; everything else is
written as it is given. Lists are not looked into, so a sensitive key within a list shows its value.
-/
namespace MailRules.Log
open MailRules.Text

inductive Turn
  | key (k : String)
  | item (i : Nat)
  deriving DecidableEq, Repr

def Value.at? (v : Value) : List Turn → Option Value
  | [] => some v
  | .key k :: way =>
    match v with
    | .map entries => (entries.lookup k).bind fun w => w.at? way
    | _ => none
  | .item i :: way =>
    match v with
    | .list items => items[i]?.bind fun w => w.at? way
    | _ => none

/-- The way passes a sensitive key, and only mappings before it. -/
def Guarded : List Turn → Prop
  | .key k :: way => k ∈ sensitiveKeys ∨ Guarded way
  | _ => False

def SameFace : Value → Value → Prop
  | .map es, .map fs => es.map (·.1) = fs.map (·.1)
  | v, w => v = w

mutual

/-- The values differ only below sensitive keys that mappings alone lead to. -/
def Value.Agrees : Value → Value → Prop
  | .map es, .map fs => EntriesAgree es fs
  | v, w => v = w

def EntriesAgree : List (String × Value) → List (String × Value) → Prop
  | [], [] => True
  | (k, v) :: es, (l, w) :: fs => k = l ∧ (k ∈ sensitiveKeys ∨ v.Agrees w) ∧ EntriesAgree es fs
  | _, _ => False

end

/-! Entries by their keys -/

section Wording
variable {τ : Type} [DecidableEq τ] {es : List (τ × Value τ)} {k : τ}

theorem redactEntries_map [Wording τ] (es : List (τ × Value τ)) : redactEntries es =
    es.map fun e => (e.1, if e.1 ∈ sensitiveKeys.map Wording.word then redacted else redactValue e.2) := by
  induction es with
  | nil => rw [redactEntries, List.map_nil]
  | cons e es ih =>
    rw [redactEntries, ih]
    simp only [List.contains_eq_mem, decide_eq_true_eq, List.map_cons]

theorem redactEntries_keys [Wording τ] (es : List (τ × Value τ)) :
    (redactEntries es).map (·.1) = es.map (·.1) := by
  rw [redactEntries_map, List.map_map]
  rfl

theorem any_key : es.any (·.1 = k) = true ↔ k ∈ es.map (·.1) := by
  simp only [List.any_eq_true, decide_eq_true_eq, List.mem_map]

theorem put_fresh {v : Value τ} (fresh : k ∉ es.map (·.1)) : put es (k, v) = es ++ [(k, v)] := by
  rw [put, if_neg (mt any_key.mp fresh)]

theorem put_there {v : Value τ} (there : k ∈ es.map (·.1)) :
    put es (k, v) = es.map fun f => (f.1, if f.1 = k then v else f.2) := by
  rw [put, if_pos (any_key.mpr there)]
  refine List.map_congr_left fun f _ => ?_
  split
  next same => exact Prod.ext same.symm rfl
  next => rfl

end Wording

section Entries
variable {es fs : List (String × Value)} {k : String}

theorem sensitiveKeys_words : sensitiveKeys.map (Wording.word : String → String) = sensitiveKeys := rfl

theorem lookup_map (f : String → Value → Value) :
    (es.map fun e => (e.1, f e.1 e.2)).lookup k = (es.lookup k).map (f k) := by
  induction es with
  | nil => rfl
  | cons e es ih =>
    obtain ⟨l, v⟩ := e
    simp only [List.map_cons, List.lookup_cons]
    cases here : k == l with
    | false => exact ih
    | true => rw [eq_of_beq here]; rfl

theorem lookup_redactEntries : (redactEntries es).lookup k =
    (es.lookup k).map fun v => if k ∈ sensitiveKeys then redacted else redactValue v := by
  rw [redactEntries_map, sensitiveKeys_words]
  exact lookup_map fun k v => if k ∈ sensitiveKeys then redacted else redactValue v

theorem lookup_isSome : (es.lookup k).isSome ↔ k ∈ es.map (·.1) := by
  induction es with
  | nil => simp
  | cons e es ih =>
    obtain ⟨l, v⟩ := e
    simp only [List.lookup_cons, List.map_cons, List.mem_cons]
    cases here : k == l with
    | false => simp [ne_of_beq_false here, ih]
    | true => simp [eq_of_beq here]

theorem lookup_put {l : String} {v : Value} :
    (put es (l, v)).lookup k = if k = l then some v else es.lookup k := by
  by_cases there : l ∈ es.map (·.1)
  · rw [put_there there, lookup_map fun key w => if key = l then v else w]
    split
    next same =>
      obtain ⟨w, found⟩ := Option.isSome_iff_exists.mp (lookup_isSome.mpr (same ▸ there))
      rw [found, Option.map_some]
    next => exact Option.map_id_apply
  · rw [put_fresh there, List.lookup_append, List.lookup_cons, List.lookup_nil]
    cases here : k == l with
    | true =>
      have absent : es.lookup k = none := by
        rw [← Option.not_isSome_iff_eq_none, lookup_isSome, eq_of_beq here]
        exact there
      rw [absent, if_pos (eq_of_beq here)]
      rfl
    | false =>
      rw [if_neg (ne_of_beq_false here)]
      exact Option.or_none

theorem lookup_foldl_put (distinct : (es.map (·.1)).Nodup) :
    (es.foldl put fs).lookup k = (es.lookup k).or (fs.lookup k) := by
  induction es generalizing fs with
  | nil => rfl
  | cons e es ih =>
    obtain ⟨l, v⟩ := e
    rw [List.map_cons, List.nodup_cons] at distinct
    rw [List.foldl_cons, ih distinct.2, lookup_put, List.lookup_cons]
    cases here : k == l with
    | false => rw [if_neg (ne_of_beq_false here)]
    | true =>
      -- The key comes once, so no later entry replaces the value again.
      have last : es.lookup k = none := by
        rw [← Option.not_isSome_iff_eq_none, lookup_isSome, eq_of_beq here]
        exact distinct.1
      rw [if_pos (eq_of_beq here), last]
      rfl

end Entries

/-! Ways into a redacted value -/

section Ways
variable {v : Value} {way : List Turn}

theorem SameFace.refl (v : Value) : SameFace v v := by
  cases v with
  | _ => exact rfl

theorem SameFace.redactValue (v : Value) : SameFace v (redactValue v) := by
  cases v with
  | map es =>
    rw [Log.redactValue, SameFace]
    exact (redactEntries_keys es).symm
  | _ => exact SameFace.refl _

theorem at_redactValue (unguarded : ¬Guarded way) :
    Option.Rel SameFace (v.at? way) ((redactValue v).at? way) := by
  induction way generalizing v with
  | nil => exact .some (.redactValue v)
  | cons turn way ih =>
    cases turn with
    | key k =>
      obtain ⟨plain, unguarded⟩ := not_or.mp unguarded
      cases v with
      | map es =>
        simp only [redactValue, Value.at?, lookup_redactEntries, if_neg plain]
        cases es.lookup k with
        | none => exact .none
        | some w => exact ih unguarded
      | _ => exact .none
    | item i =>
      cases v with
      | list items =>
        have same : redactValue (.list items) = .list items := by
          rw [redactValue]
          rintro _ ⟨⟩
        rw [same]
        cases Value.at? (.list items) (.item i :: way) with
        | none => exact .none
        | some w => exact .some (.refl w)
      | _ => exact .none

theorem at_key {k : String} {w : Value} : v.at? (.key k :: way) = some w ↔
    ∃ es u, v = .map es ∧ es.lookup k = some u ∧ u.at? way = some w := by
  cases v with
  | map es => simp [Value.at?, Option.bind_eq_some_iff]
  | _ => simp [Value.at?]

theorem at_key_redacted {k : String} {w : Value} : (redactValue v).at? (.key k :: way) = some w ↔
    ∃ es u, v = .map es ∧ es.lookup k = some u ∧
      (if k ∈ sensitiveKeys then redacted else redactValue u).at? way = some w := by
  cases v with
  | map es => simp [redactValue, at_key, lookup_redactEntries]
  | _ => simp [redactValue, Value.at?]

def keyed (ks : List String) : List Turn :=
  ks.map .key

theorem at_sensitive (ks : List String) {k : String} {w : Value} (sensitive : k ∈ sensitiveKeys)
    (found : (redactValue v).at? (keyed (ks ++ [k])) = some w) : w = redacted := by
  induction ks generalizing v with
  | nil =>
    obtain ⟨es, u, -, -, here⟩ := at_key_redacted.mp found
    rw [if_pos sensitive] at here
    exact (Option.some.inj here).symm
  | cons l ks ih =>
    obtain ⟨es, u, -, -, below⟩ := at_key_redacted.mp found
    split at below
    next =>
      -- Nothing is below the mark.
      cases ks <;> cases below
    next => exact ih below

theorem at_hidden {ks : List String} {k : String} (sensitive : k ∈ sensitiveKeys)
    (plain : ∀ l ∈ ks, l ∉ sensitiveKeys) (given : (v.at? (keyed (ks ++ [k]))).isSome) :
    (redactValue v).at? (keyed (ks ++ [k])) = some redacted := by
  induction ks generalizing v with
  | nil =>
    obtain ⟨w, given⟩ := Option.isSome_iff_exists.mp given
    obtain ⟨es, u, same, found, -⟩ := at_key.mp given
    refine at_key_redacted.mpr ⟨es, u, same, found, ?_⟩
    rw [if_pos sensitive]
    rfl
  | cons l ks ih =>
    obtain ⟨w, given⟩ := Option.isSome_iff_exists.mp given
    obtain ⟨es, u, same, found, below⟩ := at_key.mp given
    refine at_key_redacted.mpr ⟨es, u, same, found, ?_⟩
    rw [if_neg (plain l List.mem_cons_self)]
    exact ih (fun l member => plain l (List.mem_cons_of_mem _ member))
      (Option.isSome_iff_exists.mpr ⟨w, below⟩)

end Ways

/-! Values that differ below sensitive keys alone -/

mutual

theorem redactValue_agrees (v w : Value) (agree : v.Agrees w) : redactValue v = redactValue w := by
  cases v with
  | map es =>
    cases w with
    | map fs =>
      rw [Value.Agrees] at agree
      rw [redactValue, redactValue, redactEntries_agrees es fs agree]
    | _ => cases agree
  | _ => exact congrArg redactValue agree

theorem redactEntries_agrees (es fs : List (String × Value)) (agree : EntriesAgree es fs) :
    redactEntries es = redactEntries fs := by
  cases es with
  | nil =>
    cases fs with
    | nil => rfl
    | cons f fs => cases agree
  | cons e es =>
    cases fs with
    | nil => cases agree
    | cons f fs =>
      obtain ⟨k, v⟩ := e
      obtain ⟨l, w⟩ := f
      obtain ⟨rfl, value, rest⟩ := agree
      rw [redactEntries, redactEntries, redactEntries_agrees es fs rest]
      rcases value with sensitive | agree
      · simp only [sensitiveKeys_words, List.contains_eq_mem, decide_eq_true_eq, if_pos sensitive]
      · rw [redactValue_agrees v w agree]

end
/-! Records -/

def Record.header (r : Record) (time : String) : List (String × Value) :=
  [("ts", .text time), ("lvl", .text (upperCase r.level)), ("msg", .text r.message),
    ("component", .text r.component)]

section Records
variable {r : Record} {time : String}

theorem header_text {k : String} {v : Value} (found : (r.header time).lookup k = some v) :
    ∃ s, v = .text s := by
  simp only [Record.header, List.lookup_cons, List.lookup_nil] at found
  iterate 4
    split at found
    · exact ⟨_, (Option.some.inj found).symm⟩
  cases found

theorem header_insensitive {k : String} (sensitive : k ∈ sensitiveKeys) :
    (r.header time).lookup k = none := by
  have apart : ∀ k ∈ sensitiveKeys, k ∉ ["ts", "lvl", "msg", "component"] := by decide
  rw [← Option.not_isSome_iff_eq_none, lookup_isSome]
  exact apart k sensitive

variable (distinct : (r.fields.map (·.1)).Nodup)
include distinct

theorem lookup_entries {k : String} : (r.entries time).lookup k =
    ((redactEntries r.fields).lookup k).or ((r.header time).lookup k) := by
  refine lookup_foldl_put ?_
  rwa [redactEntries_keys]

theorem at_given {k : String} {way : List Turn} (there : k ∈ r.fields.map (·.1)) :
    (Value.map (r.entries time)).at? (.key k :: way) =
      (redactValue (.map r.fields)).at? (.key k :: way) := by
  rw [← redactEntries_keys, ← lookup_isSome] at there
  simp only [redactValue, Value.at?, lookup_entries distinct]
  rw [Option.or_eq_left_of_isSome there]

theorem at_header {k : String} {way : List Turn} (fresh : k ∉ r.fields.map (·.1)) :
    (Value.map (r.entries time)).at? (.key k :: way) =
      (Value.map (r.header time)).at? (.key k :: way) := by
  rw [← redactEntries_keys, ← lookup_isSome, Option.not_isSome_iff_eq_none] at fresh
  simp only [Value.at?, lookup_entries distinct, fresh, Option.none_or]

theorem entries_at_sensitive {ks : List String} {k : String} {w : Value} (sensitive : k ∈ sensitiveKeys)
    (found : (Value.map (r.entries time)).at? (keyed (ks ++ [k])) = some w) : w = redacted := by
  cases ks with
  | nil =>
    by_cases there : k ∈ r.fields.map (·.1)
    · exact at_sensitive [] sensitive ((at_given distinct there).symm.trans found)
    · obtain ⟨_, u, ⟨⟩, here, -⟩ := at_key.mp ((at_header distinct there).symm.trans found)
      rw [header_insensitive sensitive] at here
      cases here
  | cons l ks =>
    by_cases there : l ∈ r.fields.map (·.1)
    · exact at_sensitive (l :: ks) sensitive ((at_given distinct there).symm.trans found)
    · obtain ⟨_, u, ⟨⟩, here, below⟩ := at_key.mp ((at_header distinct there).symm.trans found)
      obtain ⟨s, rfl⟩ := header_text here
      cases ks <;> cases below

theorem entries_at_hidden {ks : List String} {k : String} (sensitive : k ∈ sensitiveKeys)
    (plain : ∀ l ∈ ks, l ∉ sensitiveKeys)
    (given : ((Value.map r.fields).at? (keyed (ks ++ [k]))).isSome) :
    (Value.map (r.entries time)).at? (keyed (ks ++ [k])) = some redacted := by
  obtain ⟨w, here⟩ := Option.isSome_iff_exists.mp given
  rw [← at_hidden sensitive plain given]
  cases ks with
  | nil | cons =>
    obtain ⟨_, u, ⟨⟩, found, -⟩ := at_key.mp here
    exact at_given distinct (lookup_isSome.mp (Option.isSome_of_eq_some found))

theorem entries_at_unguarded {k : String} {way : List Turn} (there : k ∈ r.fields.map (·.1))
    (unguarded : ¬Guarded (.key k :: way)) :
    Option.Rel SameFace ((Value.map r.fields).at? (.key k :: way))
      ((Value.map (r.entries time)).at? (.key k :: way)) := by
  rw [at_given distinct there]
  exact at_redactValue unguarded

end Records

theorem line_agrees (r : Record) {fields : List (String × Value)} (agree : EntriesAgree r.fields fields)
    (time : String) : Record.line { r with fields := fields } time = r.line time := by
  rw [Record.line, Record.line, Record.entries, Record.entries, redactEntries_agrees _ _ agree]

/-- A line is the JSON text of a value that has the mark under every sensitive key that keys alone lead to, under
each such key of the further fields among them, and the further fields as given wherever no such key was passed;
what is below those keys does not matter. Items of lists count as given, with the sensitive keys in them. -/
theorem mappings_redacted (r : Record) (time : String) (distinct : (r.fields.map (·.1)).Nodup) :
    (∃ shown, r.line time = String.ofList (json shown) ∧
      (∀ ks, ∀ k ∈ sensitiveKeys, ∀ w, shown.at? (keyed (ks ++ [k])) = some w → w = redacted) ∧
      (∀ ks, ∀ k ∈ sensitiveKeys, (∀ l ∈ ks, l ∉ sensitiveKeys) →
        ((Value.map r.fields).at? (keyed (ks ++ [k]))).isSome →
        shown.at? (keyed (ks ++ [k])) = some redacted) ∧
      ∀ k ∈ r.fields.map (·.1), ∀ way, ¬Guarded (.key k :: way) →
        Option.Rel SameFace ((Value.map r.fields).at? (.key k :: way)) (shown.at? (.key k :: way))) ∧
    ∀ fields, EntriesAgree r.fields fields →
      Record.line { r with fields := fields } time = r.line time := by
  refine ⟨⟨.map (r.entries time), rfl, ?_, ?_, ?_⟩, fun fields agree => line_agrees r agree time⟩
  · exact fun ks k sensitive w => entries_at_sensitive distinct sensitive
  · exact fun ks k sensitive => entries_at_hidden distinct sensitive
  · exact fun k there way => entries_at_unguarded distinct there

def accounted (password : String) : Record :=
  info "imapsweep" "m" [("account", .map [("host", .text "h"), ("password", .text password)])]

theorem nested_secret_hidden :
    ((accounted "p").fields.map (·.1)).Nodup ∧
    (∃ shown, (accounted "p").line "t" = String.ofList (json shown) ∧
      shown.at? [.key "account", .key "password"] = some redacted ∧
      shown.at? [.key "account", .key "host"] = some (.text "h")) ∧
    (accounted "q").line "t" = (accounted "p").line "t" := by
  have distinct : ((accounted "p").fields.map (·.1)).Nodup := by decide
  obtain ⟨⟨shown, line, -, hidden, unguarded⟩, alike⟩ := mappings_redacted (accounted "p") "t" distinct
  refine ⟨distinct, ⟨shown, line, ?_, ?_⟩, ?_⟩
  · exact hidden ["account"] "password" (by decide) (by decide) rfl
  · have passed : ¬Guarded [.key "account", .key "host"] := by simp [Guarded, sensitiveKeys]
    have host : Option.Rel SameFace (some (.text "h")) (shown.at? [.key "account", .key "host"]) :=
      unguarded "account" (by decide) [.key "host"] passed
    cases found : shown.at? [.key "account", .key "host"] with
    | none =>
      rw [found] at host
      cases host
    | some w =>
      rw [found] at host
      cases host with
      | some same => exact congrArg some same.symm
  · exact alike _ ⟨rfl, .inr ⟨rfl, .inr rfl, rfl, .inl (by decide), trivial⟩, trivial⟩

def listed (password : String) : Record :=
  info "imapsweep" "m" [("items", .list [.map [("password", .text password)]])]

theorem listed_secret_shown :
    (¬∀ (r : Record) (time : String) (way : List Turn) (k : String) (v : Value), k ∈ sensitiveKeys →
      (Value.map (r.entries time)).at? (way ++ [.key k]) = some v → v = redacted) ∧
    (listed "leak").line "t" = "\x7b\"ts\":\"t\",\"lvl\":\"INFO\",\"msg\":\"m\"," ++
      "\"component\":\"imapsweep\",\"items\":[\x7b\"password\":\"leak\"\x7d]\x7d" ∧
    (listed "leak").line "t" ≠ (listed "hidden").line "t" := by
  refine ⟨fun hidden => ?_, by decide +kernel, by decide +kernel⟩
  have leaked : Value.text "leak" = redacted :=
    hidden (listed "leak") "t" [.key "items", .item 0] "password" (.text "leak") (by decide) rfl
  have same : "leak" = "[redacted]" := Value.text.inj leaked
  exact absurd same (by decide)

end MailRules.Log
