import MailRules.Text.Digit
/-!
Places in a source text and the way a message shows them: line and column, and the part of the line
around the place with a caret under it.
-/
namespace MailRules.Yaml
open MailRules.Text

/-- A place: the number of characters before it, and its line and column, all counted from 0. -/
structure Mark where
  index : Nat
  line : Nat
  column : Nat
  deriving DecidableEq, Repr

def Mark.start : Mark := ⟨0, 0, 0⟩

def isBreak (c : Char) : Bool :=
  c = '\r' || c = '\n' || c = '\u0085' || c = '\u2028' || c = '\u2029'

def endOfText : Char := '\x00'

def endsLine (c : Char) : Bool := c = endOfText || isBreak c

def endsItem (c : Char) : Bool := c = ' ' || endsLine c

def endsWord (c : Char) : Bool := c = '\t' || endsItem c

def reach : Nat := 37

def shown : Nat := 32

def ellipsis : List Char := " ... ".toList

def cutSide (cs : List Char) : List Char × Bool :=
  if reach ≤ cs.length then (cs.take shown, true) else (cs, false)

def Mark.snippet (source : List Char) (m : Mark) : List Char :=
  let (before, cutBefore) := cutSide ((source.take m.index).reverse.takeWhile (!endsLine ·))
  let (after, cutAfter) := cutSide ((source.drop m.index).takeWhile (!endsLine ·))
  let head := if cutBefore then ellipsis else []
  let tail := if cutAfter then ellipsis else []
  List.replicate 4 ' ' ++ head ++ before.reverse ++ after ++ tail ++ ['\n'] ++
    List.replicate (4 + head.length + before.length) ' ' ++ ['^']

def Mark.message (source : List Char) (m : Mark) : String :=
  "  in \"<unicode string>\", line " ++ decimal (m.line + 1) ++ ", column " ++
    decimal (m.column + 1) ++ ":\n" ++ String.ofList (m.snippet source)

end MailRules.Yaml
