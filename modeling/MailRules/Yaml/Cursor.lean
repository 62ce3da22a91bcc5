import MailRules.Yaml.Problem
import MailRules.Text.Quoted
/-!
Reading a text character by character. A cursor holds what is left of the text and the place where
it starts.
-/
namespace MailRules.Yaml
open MailRules.Text

structure Cursor where
  rest : List Char
  mark : Mark
  deriving Repr

namespace Cursor

def ofText (cs : List Char) : Cursor := ⟨cs, .start⟩

def peekAt (c : Cursor) (k : Nat) : Char := c.rest.getD k endOfText

def peek (c : Cursor) : Char := c.rest.headD endOfText

/-- The place after a character. A carriage return breaks the line only where no line feed follows;
a byte order mark takes no column. -/
def markAfter (m : Mark) (ch : Char) (rest : List Char) : Mark :=
  if isBreak ch && !(ch = '\r' && rest.head? = some '\n') then ⟨m.index + 1, m.line + 1, 0⟩
  else if ch = '\uFEFF' then ⟨m.index + 1, m.line, m.column⟩
  else ⟨m.index + 1, m.line, m.column + 1⟩

def step (c : Cursor) : Cursor :=
  match c.rest with
  | [] => c
  | ch :: rest => ⟨rest, markAfter c.mark ch rest⟩

def forward : Nat → Cursor → Cursor
  | 0, c => c
  | n + 1, c => forward n c.step

def atSeparator (c : Cursor) : Bool :=
  (c.rest.take 3 = ['-', '-', '-'] || c.rest.take 3 = ['.', '.', '.']) && endsWord (c.peekAt 3)

end Cursor

abbrev Scan := StateT Cursor (Except Stop)

namespace Scan

def peek : Scan Char := return (← get).peek

def peekAt (k : Nat) : Scan Char := return (← get).peekAt k

def mark : Scan Mark := return (← get).mark

def column : Scan Nat := return (← get).mark.column

def advance (n : Nat) : Scan Unit := modify (·.forward n)

def fail {α : Type} (text : String) : Scan α := do throw (.problem ⟨text, ← mark⟩)

def failAtChar {α : Type} (text : String) : Scan α := do
  fail (text ++ String.ofList (quotedChars [← peek]))

def takeWhile (p : Char → Bool) : Scan (List Char) := do
  let run := (← get).rest.takeWhile p
  advance run.length
  return run

def skipSpaces : Scan Unit := discard (takeWhile (· = ' '))

def skipLine : Scan Unit := discard (takeWhile (!endsLine ·))

/-- Passes a line break, if one is here. The breaks of a text are line feeds, except for the two
Unicode separators, which stand for themselves. -/
def lineBreak : Scan (List Char) := do
  match (← get).rest with
  | '\r' :: '\n' :: _ => advance 2; return ['\n']
  | c :: _ =>
    if c = '\u2028' ∨ c = '\u2029' then advance 1; return [c]
    else if isBreak c then advance 1; return ['\n']
    else return []
  | [] => return []

end Scan
end MailRules.Yaml
