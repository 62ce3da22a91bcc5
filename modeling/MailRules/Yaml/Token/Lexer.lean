import MailRules.Yaml.Token.Scalar
/-!
From a text to its tokens. Indentation shows in the tokens as starts and ends of block collections.
Whether a lexeme begins a mapping key is seen only when a colon follows on the same line; until then
its place is kept as a candidate, and the key indicator is put in front of it afterwards.

A reader of tokens is served as early as possible: a token is due as soon as it stands before every
candidate. So a text with a problem still has the tokens that are due before the problem is met.
-/
namespace MailRules.Yaml
open MailRules.Text

structure KeyCandidate where
  /-- The number of the token that the lexeme gives. -/
  number : Nat
  /-- Only a key can stand here. -/
  required : Bool
  mark : Mark
  deriving Repr

structure Lexer where
  cursor : Cursor
  /-- How many flow collections are open, less those closed without having been opened. -/
  flowLevel : Int := 0
  /-- The column of the innermost block collection, -1 outside all. -/
  indent : Int := -1
  /-- The columns of the block collections around it, innermost first. -/
  indents : List Int := []
  /-- May the next lexeme begin a key? -/
  keyAllowed : Bool := true
  /-- The candidate of each flow level. -/
  candidates : List (Int × KeyCandidate) := []
  /-- The tokens so far, last first. -/
  tokens : List Token := []
  /-- How many tokens there are so far. -/
  count : Nat := 0

namespace Lexer

def inFlow (l : Lexer) : Bool := l.flowLevel ≠ 0

def mark (l : Lexer) : Mark := l.cursor.mark

def push (l : Lexer) (t : Token) : Lexer :=
  { l with tokens := t :: l.tokens, count := l.count + 1 }

def insertAt (l : Lexer) (number : Nat) (kind : TokenKind) (m : Mark) : Lexer :=
  let later := l.count - number
  { l with
    tokens := l.tokens.take later ++ ⟨kind, m, m⟩ :: l.tokens.drop later
    count := l.count + 1 }

def pushChar (l : Lexer) (kind : TokenKind) : Lexer :=
  let next := l.cursor.step
  { l with cursor := next }.push ⟨kind, l.mark, next.mark⟩

def problem (text : String) (m : Mark) : Stop := .problem ⟨text, m⟩

def noColon (l : Lexer) : Stop := problem "could not find expected ':'" l.mark

def keyReach : Nat := 1024

def KeyCandidate.stale (k : KeyCandidate) (m : Mark) : Bool :=
  k.mark.line ≠ m.line || keyReach < m.index - k.mark.index

def dropStale (l : Lexer) : Except Stop Lexer :=
  if l.candidates.any fun k => KeyCandidate.stale k.2 l.mark && k.2.required then .error l.noColon
  else .ok { l with candidates := l.candidates.filter fun k => !KeyCandidate.stale k.2 l.mark }

def candidate? (l : Lexer) : Option KeyCandidate := l.candidates.lookup l.flowLevel

def withoutCandidate (l : Lexer) : Lexer :=
  { l with candidates := l.candidates.filter fun k => k.1 ≠ l.flowLevel }

def removeCandidate (l : Lexer) : Except Stop Lexer :=
  match l.candidate? with
  | some k => if k.required then .error l.noColon else .ok l.withoutCandidate
  | none => .ok l

def saveCandidate (l : Lexer) : Except Stop Lexer := do
  if l.keyAllowed then
    let l' ← l.removeCandidate
    let k : KeyCandidate := ⟨l.count, !l.inFlow && l.indent = l.mark.column, l.mark⟩
    return { l' with candidates := l'.candidates ++ [(l.flowLevel, k)] }
  else return l

/-- Ends the block collections that are indented deeper than `column`, given the columns of those
around. -/
def unwindTo (column : Int) (l : Lexer) : List Int → Lexer
  | [] => l
  | outer :: rest =>
    if column < l.indent then
      unwindTo column ({ l with indent := outer, indents := rest }.push ⟨.blockEnd, l.mark, l.mark⟩)
        rest
    else l

def unwind (l : Lexer) (column : Int) : Lexer :=
  if l.inFlow then l else unwindTo column l l.indents

def indentTo (l : Lexer) (column : Nat) : Lexer × Bool :=
  if l.indent < column then
    ({ l with indents := l.indent :: l.indents, indent := column }, true)
  else (l, false)

def openBlock (l : Lexer) (kind : TokenKind) : Lexer :=
  let (l, opened) := l.indentTo l.mark.column
  if opened then l.push ⟨kind, l.mark, l.mark⟩ else l

def scan {α : Type} (l : Lexer) (s : Scan α) : Except Stop (α × Lexer) := do
  let (a, c) ← s.run l.cursor
  return (a, { l with cursor := c })

/-- Passes spaces, comments and line breaks. A line break outside flow collections lets a key
begin. -/
def skipToToken (l : Lexer) : Nat → Except Stop Lexer
  | 0 => .ok l
  | fuel + 1 => do
    let ((), l) ← l.scan (do Scan.skipSpaces; if (← Scan.peek) = '#' then Scan.skipLine)
    let (b, l) ← l.scan Scan.lineBreak
    if b.isEmpty then return l
    else skipToToken { l with keyAllowed := l.keyAllowed || !l.inFlow } fuel

def leaveBlocks (l : Lexer) : Except Stop Lexer := do
  let l ← (l.unwind (-1)).removeCandidate
  return { l with keyAllowed := false }

def documentMark (l : Lexer) (kind : TokenKind) : Except Stop Lexer := do
  let l ← l.leaveBlocks
  let next := Cursor.forward 3 l.cursor
  return { l with cursor := next }.push ⟨kind, l.mark, next.mark⟩

def openFlow (l : Lexer) (kind : TokenKind) : Except Stop Lexer := do
  let l ← l.saveCandidate
  return { l with flowLevel := l.flowLevel + 1, keyAllowed := true }.pushChar kind

def closeFlow (l : Lexer) (kind : TokenKind) : Except Stop Lexer := do
  let l ← l.removeCandidate
  return { l with flowLevel := l.flowLevel - 1, keyAllowed := false }.pushChar kind

def flowEntry (l : Lexer) : Except Stop Lexer := do
  let l ← { l with keyAllowed := true }.removeCandidate
  return l.pushChar .flowEntry

def blockEntry (l : Lexer) : Except Stop Lexer := do
  if !l.inFlow && !l.keyAllowed then
    throw (problem "sequence entries are not allowed here" l.mark)
  let l := if l.inFlow then l else l.openBlock .blockSequenceStart
  let l ← { l with keyAllowed := true }.removeCandidate
  return l.pushChar .blockEntry

def keyIndicator (l : Lexer) : Except Stop Lexer := do
  if !l.inFlow && !l.keyAllowed then
    throw (problem "mapping keys are not allowed here" l.mark)
  let l := if l.inFlow then l else l.openBlock .blockMappingStart
  let l ← { l with keyAllowed := !l.inFlow }.removeCandidate
  return l.pushChar .key

def valueIndicator (l : Lexer) : Except Stop Lexer := do
  match l.candidate? with
  | some k =>
    let l := l.withoutCandidate.insertAt k.number .key k.mark
    let l :=
      if l.inFlow then l
      else
        let (l, opened) := l.indentTo k.mark.column
        if opened then l.insertAt k.number .blockMappingStart k.mark else l
    return { l with keyAllowed := false }.pushChar .value
  | none =>
    if !l.inFlow && !l.keyAllowed then
      throw (problem "mapping values are not allowed here" l.mark)
    let l := if l.inFlow then l else l.openBlock .blockMappingStart
    let l ← { l with keyAllowed := !l.inFlow }.removeCandidate
    return l.pushChar .value

/-- A lexeme that may begin a key and after which, on the same line, no other may. -/
def keyLexeme (l : Lexer) (s : Scan Token) : Except Stop Lexer := do
  let l ← l.saveCandidate
  let (t, l) ← { l with keyAllowed := false }.scan s
  return l.push t

def plain (l : Lexer) : Except Stop Lexer := do
  let l ← l.saveCandidate
  let ((t, brokeLine), l) ← l.scan (Scan.plainScalar l.inFlow l.indent)
  return { l with keyAllowed := brokeLine }.push t

def blockScalar (l : Lexer) (style : ScalarStyle) : Except Stop Lexer := do
  let l ← { l with keyAllowed := true }.removeCandidate
  let (t, l) ← l.scan (Scan.blockScalar l.indent style)
  return l.push t

def startsPlain (l : Lexer) : Bool :=
  let c := l.cursor.peek
  !(endsWord c || "-?:,[]\x7b\x7d#&*!|>'\"%@`".toList.contains c) ||
    (!endsWord (l.cursor.peekAt 1) && (c = '-' || (!l.inFlow && (c = '?' || c = ':'))))

def lexeme (l : Lexer) : Except Stop Lexer := do
  let c := l.cursor.peek
  let beforeBlank := endsWord (l.cursor.peekAt 1)
  let atMark := l.mark.column = 0 && l.cursor.atSeparator
  if c = endOfText then
    let l ← l.leaveBlocks
    return { l with candidates := [] }.push ⟨.streamEnd, l.mark, l.mark⟩
  else if c = '%' && l.mark.column = 0 then
    let l ← l.leaveBlocks
    let (t, l) ← l.scan Scan.directive
    return l.push t
  else if c = '-' && atMark then l.documentMark .documentStart
  else if c = '.' && atMark then l.documentMark .documentEnd
  else if c = '[' then l.openFlow .flowSequenceStart
  else if c = '\x7b' then l.openFlow .flowMappingStart
  else if c = ']' then l.closeFlow .flowSequenceEnd
  else if c = '\x7d' then l.closeFlow .flowMappingEnd
  else if c = ',' then l.flowEntry
  else if c = '-' && beforeBlank then l.blockEntry
  else if c = '?' && (l.inFlow || beforeBlank) then l.keyIndicator
  else if c = ':' && (l.inFlow || beforeBlank) then l.valueIndicator
  else if c = '*' then l.keyLexeme (Scan.anchorWith .reference)
  else if c = '&' then l.keyLexeme (Scan.anchorWith .anchor)
  else if c = '!' then l.keyLexeme Scan.tag
  else if c = '|' && !l.inFlow then l.blockScalar .literal
  else if c = '>' && !l.inFlow then l.blockScalar .folded
  else if c = '\'' then l.keyLexeme (Scan.quotedScalar false)
  else if c = '"' then l.keyLexeme (Scan.quotedScalar true)
  else if l.startsPlain then l.plain
  else
    throw (problem ("found character " ++ String.ofList (quotedChars [c]) ++
      " that cannot start any token") l.mark)

def next (l : Lexer) : Except Stop Lexer := do
  let l ← l.skipToToken (l.cursor.rest.length + 1)
  let l ← l.dropStale
  (l.unwind l.mark.column).lexeme

def due (l : Lexer) : List Token :=
  let first := l.candidates.foldl (fun n k => min n k.2.number) l.count
  l.tokens.reverse.take first

def finished (l : Lexer) : Bool :=
  match l.tokens with
  | ⟨.streamEnd, _, _⟩ :: _ => true
  | _ => false

end Lexer

structure Scanned where
  tokens : List Token
  stop : Option Stop

def Lexer.run (l : Lexer) : Nat → Scanned
  | 0 => ⟨l.due, none⟩
  | fuel + 1 =>
    if l.finished then ⟨l.tokens.reverse, none⟩
    else
      match l.next with
      | .error stop => ⟨l.due, some stop⟩
      | .ok after =>
        match after.dropStale with
        | .error stop => ⟨l.due, some stop⟩
        | .ok settled => settled.run fuel

/-- A byte order mark in front is passed over. -/
def Lexer.ofText (text : List Char) : Lexer :=
  let start := Cursor.ofText text
  { cursor := if start.peek = '\uFEFF' then start.step else start }

def scan (text : List Char) : Scanned := (Lexer.ofText text).run (text.length + 2)

end MailRules.Yaml
