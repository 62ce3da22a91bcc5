import MailRules.Fault
import MailRules.Number.Numeral
import MailRules.Number.Shortest
import MailRules.Text.CodePoint
/-!
Log records, one JSON object on a line each. The value of a field that holds a secret is never
written. The texts of a record are texts of characters, or any others that have code points.
-/
namespace MailRules.Log
open MailRules.Text MailRules.Number

class Wording (τ : Type) where
  /-- The words that every record has. -/
  word : String → τ
  points : τ → Points
  upperCase : τ → τ

instance : Wording String where
  word := id
  points := Points.ofString
  upperCase := Text.upperCase

instance : Wording Points where
  word := Points.ofString
  points := id
  upperCase := Points.upperCase

inductive Value (τ : Type := String)
  | null
  | bool (b : Bool)
  | int (i : Int)
  | float (x : Double)
  | text (s : τ)
  | list (items : List (Value τ))
  | map (entries : List (τ × Value τ))

structure Record (τ : Type := String) where
  component : τ
  level : τ
  message : τ
  /-- Further fields, in the order in which they are written. -/
  fields : List (τ × Value τ)

section Wording
variable {τ : Type} [DecidableEq τ] [Wording τ]

/-! Redaction -/

def sensitiveKeys : List String := ["password", "secret", "credentials"]

def redacted : Value τ := .text (Wording.word "[redacted]")

mutual

def redactEntries : List (τ × Value τ) → List (τ × Value τ)
  | [] => []
  | (k, v) :: rest =>
    (k, if (sensitiveKeys.map Wording.word).contains k then redacted else redactValue v) ::
      redactEntries rest

/-- Lists stay as they are. -/
def redactValue : Value τ → Value τ
  | .map entries => .map (redactEntries entries)
  | v => v

end

/-! JSON -/

def unicodeEscape (n : Nat) : List Char := ['\\', 'u'] ++ hexPadded 4 n

/-- A character of a JSON text; outside ASCII by its UTF-16 units. -/
def jsonChar (c : Char) : List Char :=
  match c with
  | '"' => ['\\', '"']
  | '\\' => ['\\', '\\']
  | '\n' => ['\\', 'n']
  | '\r' => ['\\', 'r']
  | '\t' => ['\\', 't']
  | '\x08' => ['\\', 'b']
  | '\x0C' => ['\\', 'f']
  | c =>
    let n := c.toNat
    if ' ' ≤ c ∧ c ≤ '~' then [c]
    else if n < 0x10000 then unicodeEscape n
    else
      let m := n - 0x10000
      unicodeEscape (0xD800 + m / 0x400) ++ unicodeEscape (0xDC00 + m % 0x400)

def jsonPoint (p : CodePoint) : List Char :=
  match p.char? with
  | some c => jsonChar c
  | none => unicodeEscape p

def jsonText (s : τ) : List Char := '"' :: (Wording.points s).flatMap jsonPoint ++ ['"']

mutual

def json : Value τ → List Char
  | .null => "null".toList
  | .bool b => (if b then "true" else "false").toList
  | .int i => (signedDecimal i).toList
  | .float x => (Shortest.text x).toList
  | .text s => jsonText s
  | .list items => '[' :: jsonItems true items ++ [']']
  | .map entries => '\x7b' :: jsonEntries true entries ++ ['\x7d']

def jsonItems (isFirst : Bool) : List (Value τ) → List Char
  | [] => []
  | v :: rest => (if isFirst then [] else [',']) ++ json v ++ jsonItems false rest

def jsonEntries (isFirst : Bool) : List (τ × Value τ) → List Char
  | [] => []
  | (k, v) :: rest =>
    (if isFirst then [] else [',']) ++ jsonText k ++ ':' :: json v ++ jsonEntries false rest

end

mutual

def writableValue : Value τ → Bool
  | .int i => writable i
  | .list items => writableItems items
  | .map entries => writableEntries entries
  | _ => true

def writableItems : List (Value τ) → Bool
  | [] => true
  | v :: rest => writableValue v && writableItems rest

def writableEntries : List (τ × Value τ) → Bool
  | [] => true
  | (_, v) :: rest => writableValue v && writableEntries rest

end

/-! Records -/

def put (entries : List (τ × Value τ)) (e : τ × Value τ) : List (τ × Value τ) :=
  if entries.any (·.1 = e.1) then entries.map fun f => if f.1 = e.1 then e else f
  else entries ++ [e]

/-- What is written of a record: the time, the level in capitals, the message and the component, then
its further fields. A further field of one of these names takes its place. -/
def Record.entries (r : Record τ) (time : τ) : List (τ × Value τ) :=
  (redactEntries r.fields).foldl put
    [(Wording.word "ts", .text time), (Wording.word "lvl", .text (Wording.upperCase r.level)),
     (Wording.word "msg", .text r.message), (Wording.word "component", .text r.component)]

def Record.line (r : Record τ) (time : τ) : String :=
  String.ofList (json (.map (r.entries time)))

/-- Writes a record. An integer that cannot be written keeps the whole line back. -/
def Record.write (r : Record τ) (time : τ) : Except Fault String :=
  if writableEntries (r.entries time) then .ok (r.line time ++ "\n") else .error .integerTooLong

end Wording

def info (component message : String) (fields : List (String × Value)) : Record :=
  ⟨component, "INFO", message, fields⟩

def warning (component message : String) (fields : List (String × Value)) : Record :=
  ⟨component, "WARN", message, fields⟩

def error (component message : String) (fields : List (String × Value)) : Record :=
  ⟨component, "ERROR", message, fields⟩

end MailRules.Log
