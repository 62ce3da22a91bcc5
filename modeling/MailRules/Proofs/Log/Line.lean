import Mathlib
import MailRules.Text.Lines
import MailRules.Proofs.Log.Json
/-!
The line of a record. It is of printable ASCII characters whatever the texts of the record hold, so that no text
can end it or begin another, and it reads back as the record with its further fields redacted, unless a text
holds two surrogates that are a pair. An integer with too many digits keeps the line from being written.
-/
namespace MailRules.Log
open MailRules.Text

/-! Printable characters -/

def AsciiPrintable (c : Char) : Prop := ' ' ≤ c ∧ c ≤ '~'

instance (c : Char) : Decidable (AsciiPrintable c) := inferInstanceAs (Decidable (_ ∧ _))

theorem hexPadded_printable {n : Nat} (fits : n < 0x10000) : ∀ c ∈ hexPadded 4 n, AsciiPrintable c := by
  have digit : ∀ d < 16, AsciiPrintable d.digitChar := by decide
  rw [hexPadded_four fits]
  simp only [List.forall_mem_cons]
  exact ⟨digit _ (by omega), digit _ (by omega), digit _ (by omega), digit _ (by omega), by simp⟩

theorem unicodeEscape_printable {n : Nat} (fits : n < 0x10000) : ∀ c ∈ unicodeEscape n, AsciiPrintable c :=
  List.forall_mem_append.mpr ⟨by simp [AsciiPrintable], hexPadded_printable fits⟩

theorem jsonChar_printable (c : Char) : ∀ d ∈ jsonChar c, AsciiPrintable d := by
  unfold jsonChar
  split
  -- The seven characters that have an escape letter.
  iterate 7 simp [AsciiPrintable]
  dsimp only
  split
  next printable => simpa [AsciiPrintable] using printable
  next =>
    split
    next basic => exact unicodeEscape_printable basic
    next astral =>
      have bound : c.toNat < 0x110000 := (CodePoint.ofChar c).isLt
      exact List.forall_mem_append.mpr
        ⟨unicodeEscape_printable (by omega), unicodeEscape_printable (by omega)⟩

theorem jsonPoint_printable (p : CodePoint) : ∀ c ∈ jsonPoint p, AsciiPrintable c := by
  unfold jsonPoint
  split
  next c _ => exact jsonChar_printable c
  next surrogate => exact unicodeEscape_printable (surrogate_basic surrogate)

theorem jsonText_printable (s : Points) : ∀ c ∈ jsonText s, AsciiPrintable c := by
  have inner : ∀ c ∈ s.flatMap jsonPoint, AsciiPrintable c := by
    intro c member
    obtain ⟨p, -, there⟩ := List.mem_flatMap.mp member
    exact jsonPoint_printable p c there
  rw [jsonText]
  exact List.forall_mem_append.mpr ⟨List.forall_mem_cons.mpr ⟨by decide, inner⟩, by simp [AsciiPrintable]⟩

theorem signedDecimal_printable (i : Int) : ∀ c ∈ (signedDecimal i).toList, AsciiPrintable c := by
  have digits (n : Nat) : ∀ c ∈ (decimal n).toList, AsciiPrintable c := by
    intro c member
    have digit := (decimal_canonical n).digits c member
    simp only [isAsciiDigit, Bool.and_eq_true, decide_eq_true_eq] at digit
    exact ⟨Char.le_trans (by decide) digit.1, Char.le_trans digit.2 (by decide)⟩
  cases i with
  | ofNat n => exact digits n
  | negSucc n =>
    rw [signedDecimal, String.toList_append]
    exact List.forall_mem_append.mpr ⟨by simp [AsciiPrintable], digits (n + 1)⟩

mutual

theorem json_printable {v : Value Points} (plain : v.Plain) : ∀ c ∈ json v, AsciiPrintable c := by
  cases v with
  | null => simp [json, AsciiPrintable]
  | bool b => cases b <;> simp [json, AsciiPrintable]
  | int i => exact signedDecimal_printable i
  | float x => exact plain.elim
  | text s => exact jsonText_printable s
  | list items =>
    rw [json]
    exact List.forall_mem_append.mpr
      ⟨List.forall_mem_cons.mpr ⟨by decide, jsonItems_printable plain true⟩, by simp [AsciiPrintable]⟩
  | map entries =>
    rw [json]
    exact List.forall_mem_append.mpr
      ⟨List.forall_mem_cons.mpr ⟨by decide, jsonEntries_printable plain.2 true⟩, by simp [AsciiPrintable]⟩

theorem jsonItems_printable {items : List (Value Points)} (plain : ItemsPlain items) (isFirst : Bool) :
    ∀ c ∈ jsonItems isFirst items, AsciiPrintable c := by
  cases items with
  | nil => simp [jsonItems]
  | cons v vs =>
    rw [jsonItems]
    refine List.forall_mem_append.mpr ⟨List.forall_mem_append.mpr ⟨?_, json_printable plain.1⟩,
      jsonItems_printable plain.2 false⟩
    cases isFirst <;> simp [AsciiPrintable]

theorem jsonEntries_printable {entries : List (Points × Value Points)} (plain : EntriesPlain entries)
    (isFirst : Bool) : ∀ c ∈ jsonEntries isFirst entries, AsciiPrintable c := by
  cases entries with
  | nil => simp [jsonEntries]
  | cons e es =>
    obtain ⟨k, v⟩ := e
    rw [jsonEntries]
    refine List.forall_mem_append.mpr ⟨List.forall_mem_append.mpr ⟨List.forall_mem_append.mpr
      ⟨?_, jsonText_printable k⟩, List.forall_mem_cons.mpr ⟨by decide, json_printable plain.1⟩⟩,
      jsonEntries_printable plain.2 false⟩
    cases isFirst <;> simp [AsciiPrintable]

end

/-! One line -/

theorem AsciiPrintable.within {c : Char} (printable : AsciiPrintable c) : isLineBoundary c = false := by
  have low : 0x20 ≤ c.toNat := printable.1
  have high : c.toNat ≤ 0x7E := printable.2
  simp only [isLineBoundary, List.mem_cons, List.not_mem_nil, or_false, decide_eq_false_iff_not]
  omega

theorem linesFrom_only {cs : List Char} (within : ∀ c ∈ cs, isLineBoundary c = false) (current : List Char) :
    linesFrom current (cs ++ ['\n']) = [current.reverse ++ cs] := by
  induction cs generalizing current with
  | nil => simp [linesFrom, show isLineBoundary '\n' = true from rfl]
  | cons c cs ih =>
    obtain ⟨inside, within⟩ := List.forall_mem_cons.mp within
    have single : ∀ rest, c = '\r' → cs ++ ['\n'] = '\n' :: rest → False := by
      rintro _ rfl
      cases inside
    rw [List.cons_append, linesFrom, inside, if_neg Bool.false_ne_true, ih within]
    · simp
    · exact single

/-! Redaction keeps what can be read back -/

mutual

theorem redactValue_plain {v : Value Points} (plain : v.Plain) : (redactValue v).Plain := by
  cases v with
  | map entries =>
    rw [redactValue]
    refine ⟨?_, redactEntries_plain plain.2⟩
    rw [redactEntries_keys]
    exact plain.1
  | _ => exact plain

theorem redactEntries_plain {es : List (Points × Value Points)} (plain : EntriesPlain es) :
    EntriesPlain (redactEntries es) := by
  cases es with
  | nil => exact plain
  | cons e es =>
    obtain ⟨k, v⟩ := e
    rw [redactEntries]
    refine ⟨?_, redactEntries_plain plain.2⟩
    split
    · trivial
    · exact redactValue_plain plain.1

end

/-- What a record shows: its time, its level in capitals, its message and its component, and then its further
fields, redacted. -/
def Record.shown (r : Record Points) (time : Points) : List (Points × Value Points) :=
  [(Wording.word "ts", .text time), (Wording.word "lvl", .text r.level.upperCase),
    (Wording.word "msg", .text r.message), (Wording.word "component", .text r.component)] ++
    redactEntries r.fields

section Shown
variable {r : Record Points} {time : Points} (plain : (Value.map r.fields).Plain)
  (free : ∀ k ∈ ["ts", "lvl", "msg", "component"], Wording.word k ∉ r.fields.map (·.1))
include plain free

theorem shown_distinct : ((r.shown time).map (·.1)).Nodup := by
  have header : (["ts", "lvl", "msg", "component"].map (Wording.word : String → Points)).Nodup := by decide
  rw [Record.shown, List.map_append, redactEntries_keys, List.nodup_append]
  refine ⟨header, plain.1, ?_⟩
  rintro k inside _ field rfl
  have own : k ∈ ["ts", "lvl", "msg", "component"].map Wording.word := inside
  obtain ⟨word, named, rfl⟩ := List.mem_map.mp own
  exact free word named field

theorem entries_shown : r.entries time = r.shown time :=
  foldl_put_distinct (shown_distinct plain free)

theorem shown_plain : (Value.map (r.shown time)).Plain :=
  ⟨shown_distinct plain free, trivial, trivial, trivial, trivial, redactEntries_plain plain.2⟩

theorem line_shown : r.line time = String.ofList (json (.map (r.shown time))) := by
  rw [Record.line, entries_shown plain free]

theorem write_shown : r.write time =
    if writableEntries (redactEntries r.fields) = true then .ok (r.line time ++ "\n")
    else .error .integerTooLong := by
  rw [Record.write, entries_shown plain free]
  rfl

theorem line_printable : ∀ c ∈ (r.line time).toList, AsciiPrintable c := by
  rw [line_shown plain free, String.toList_ofList]
  exact json_printable (shown_plain plain free)

theorem line_alone : lines (r.line time ++ "\n") = [r.line time] := by
  have within : ∀ c ∈ (r.line time).toList, isLineBoundary c = false :=
    fun c member => (line_printable plain free c member).within
  have only := linesFrom_only within []
  rw [lines, String.toList_append]
  exact (congrArg (List.map String.ofList) only).trans (by simp)

theorem readJson?_line : readJson? (r.line time ++ "\n") = some (Value.map (r.shown time)).reread := by
  have together : String.ofList (json (.map (r.shown time))) ++ "\n" =
      String.ofList (json (.map (r.shown time)) ++ ['\n']) :=
    String.ofList_append.symm
  have ends : Ends ['\n'] := ends_cons (by decide) (by decide) []
  rw [line_shown plain free, together, readJson?_json (shown_plain plain free) rfl ends]

end Shown

/-- A record whose further fields have keys of their own is written if and only if its integers can be written.
What is written is one line of printable ASCII characters, and it reads back as what the record shows exactly if
no text that it shows holds two surrogates that are a pair. -/
theorem line_reads_back (r : Record Points) (time : Points) (plain : (Value.map r.fields).Plain)
    (free : ∀ k ∈ ["ts", "lvl", "msg", "component"], Wording.word k ∉ r.fields.map (·.1)) :
    (writableEntries (redactEntries r.fields) = false → r.write time = .error .integerTooLong) ∧
    (writableEntries (redactEntries r.fields) = true → ∃ line, r.write time = .ok (line ++ "\n") ∧
      (∀ c ∈ line.toList, ' ' ≤ c ∧ c ≤ '~') ∧
      lines (line ++ "\n") = [line] ∧
      (readJson? (line ++ "\n") = some (.map (r.shown time)) ↔ (Value.map (r.shown time)).Unsplit)) := by
  rw [write_shown plain free]
  refine ⟨fun long => by rw [long, if_neg Bool.false_ne_true], fun fits => ⟨r.line time, if_pos fits, ?_⟩⟩
  refine ⟨line_printable plain free, line_alone plain free, ?_⟩
  rw [readJson?_line plain free, Option.some.injEq]
  exact reread_eq_self_iff (shown_plain plain free)

def word (s : String) : Points := Wording.word s

-- The two surrogates that `😀` is written with.
def high : CodePoint := ⟨0xD83D, by decide⟩

def low : CodePoint := ⟨0xDE00, by decide⟩

/-- A record whose texts try to end its line, to close its message and to leave ASCII, one of them by two
surrogates in the wrong order. -/
def hostile : Record Points :=
  ⟨word "c", word "info", word "\"\n\\😀" ++ [low, high],
    [(word "items", .list [.map [(word "n", .int (-7)), (word "secret", .text (word "s"))], .null]),
      (word "secret", .bool true)]⟩

def hostileShown : List (Points × Value Points) :=
  [(word "ts", .text (word "t")), (word "lvl", .text (word "INFO")),
    (word "msg", .text (word "\"\n\\😀" ++ [low, high])), (word "component", .text (word "c")),
    (word "items", .list [.map [(word "n", .int (-7)), (word "secret", .text (word "s"))], .null]),
    (word "secret", redacted)]

def hostileLine : String :=
  "\x7b\"ts\":\"t\",\"lvl\":\"INFO\",\"msg\":\"\\\"\\n\\\\\\ud83d\\ude00\\ude00\\ud83d\"," ++
    "\"component\":\"c\",\"items\":[\x7b\"n\":-7,\"secret\":\"s\"\x7d,null],\"secret\":\"[redacted]\"\x7d"

theorem hostile_reads_back :
    (Value.map hostile.fields).Plain ∧
    (∀ k ∈ ["ts", "lvl", "msg", "component"], Wording.word k ∉ hostile.fields.map (·.1)) ∧
    hostile.write (word "t") = .ok (hostileLine ++ "\n") ∧
    lines (hostileLine ++ "\n") = [hostileLine] ∧
    readJson? (hostileLine ++ "\n") = some (.map hostileShown) := by
  have plain : (Value.map hostile.fields).Plain := by
    refine ⟨by decide, ⟨⟨by decide, trivial, trivial, trivial⟩, trivial, trivial⟩, trivial, trivial⟩
  have free : ∀ k ∈ ["ts", "lvl", "msg", "component"], Wording.word k ∉ hostile.fields.map (·.1) := by
    decide
  have shown : hostile.shown (word "t") = hostileShown := by
    have level : hostile.level.upperCase = word "INFO" := by decide +kernel
    rw [Record.shown, level]
    rfl
  have unsplit : (Value.map hostileShown).Unsplit := by
    simp only [hostileShown, Value.Unsplit, EntriesUnsplit, ItemsUnsplit, redacted]
    decide +kernel
  obtain ⟨line, written, _, alone, back⟩ :=
    (line_reads_back hostile (word "t") plain free).2 (by decide +kernel)
  have same : hostile.write (word "t") = .ok (hostileLine ++ "\n") := by decide +kernel
  obtain rfl : line = hostileLine := by
    have ends := Except.ok.inj (written.symm.trans same)
    exact (String.append_left_inj "\n").mp ends
  rw [shown] at back
  exact ⟨plain, free, same, alone, back.mpr unsplit⟩

def enormous : Record Points := ⟨word "c", word "info", word "m", [(word "n", .int (10 ^ 4300))]⟩

def paired : Record Points := ⟨word "c", word "info", [high, low], []⟩

/-- Not every record is written, and not everything that is written reads back. -/
theorem integer_unwritten_and_pair_joined :
    (¬ ∀ (r : Record Points) (time : Points), (Value.map r.fields).Plain →
      (∀ k ∈ ["ts", "lvl", "msg", "component"], Wording.word k ∉ r.fields.map (·.1)) →
      ∃ text, r.write time = .ok text) ∧
    ¬ ∀ (r : Record Points) (time : Points) (text : String), (Value.map r.fields).Plain →
      (∀ k ∈ ["ts", "lvl", "msg", "component"], Wording.word k ∉ r.fields.map (·.1)) →
      r.write time = .ok text → readJson? text = some (.map (r.shown time)) := by
  constructor
  · intro writes
    have plain : (Value.map enormous.fields).Plain := ⟨by decide, trivial, trivial⟩
    have free : ∀ k ∈ ["ts", "lvl", "msg", "component"], Wording.word k ∉ enormous.fields.map (·.1) := by
      decide
    obtain ⟨text, written⟩ := writes enormous (word "t") plain free
    have long : writableEntries (redactEntries enormous.fields) = false := by decide +kernel
    rw [write_shown plain free, long, if_neg Bool.false_ne_true] at written
    cases written
  · intro reads
    have plain : (Value.map paired.fields).Plain := ⟨List.nodup_nil, trivial⟩
    have free : ∀ k ∈ ["ts", "lvl", "msg", "component"], Wording.word k ∉ paired.fields.map (·.1) := by
      decide
    have back := reads paired (word "t") _ plain free (write_shown plain free)
    rw [readJson?_line plain free, Option.some.injEq, reread_eq_self_iff (shown_plain plain free)] at back
    have joined : ¬(Points.Unsplit paired.message) := by decide
    exact joined back.2.2.2.2.2.1

end MailRules.Log
