import MailRules.Yaml.Token.Property
/-!
The lexemes of scalars: block scalars, quoted scalars and plain scalars.
-/
namespace MailRules.Yaml.Scan
open MailRules.Text

/-! Block scalars -/

inductive Chomping
  | clip
  | keep
  | strip
  deriving DecidableEq, Repr

def chompingMark? (c : Char) : Option Chomping :=
  if c = '+' then some .keep else if c = '-' then some .strip else none

def indentationMark? : Scan (Option Nat) := do
  let c ← peek
  if isAsciiDigit c then
    if c = '0' then fail "expected indentation indicator in the range 1-9, but found 0"
    advance 1
    return some (c.toNat - 48)
  else return none

def blockHeader : Scan (Chomping × Option Nat) := do
  let (chomping, increment) ←
    match chompingMark? (← peek) with
    | some chomping =>
      advance 1
      pure (chomping, ← indentationMark?)
    | none =>
      match ← indentationMark? with
      | some increment =>
        match chompingMark? (← peek) with
        | some chomping => do advance 1; pure (chomping, some increment)
        | none => pure (.clip, some increment)
      | none => pure (.clip, none)
  if !endsItem (← peek) then
    failAtChar "expected chomping or indentation indicators, but found "
  return (chomping, increment)

def skipIndentation (indent : Nat) : Scan Unit := do
  let room := indent - (← column)
  advance (((← get).rest.takeWhile (· = ' ')).take room).length

def leadingBreaks (deepest : Nat) : Nat → Scan (List Char × Nat)
  | 0 => return ([], deepest)
  | fuel + 1 => do
    let c ← peek
    if c = ' ' then
      advance 1
      leadingBreaks (max deepest (← column)) fuel
    else if isBreak c then
      let b ← lineBreak
      let (more, deepest) ← leadingBreaks deepest fuel
      return (b ++ more, deepest)
    else return ([], deepest)

def indentedBreaks (indent : Nat) : Nat → Scan (List Char)
  | 0 => return []
  | fuel + 1 => do
    skipIndentation indent
    if isBreak (← peek) then
      let b ← lineBreak
      return b ++ (← indentedBreaks indent fuel)
    else return []

def isSpaceOrTab (c : Char) : Bool := c = ' ' || c = '\t'

/-- The lines of a block scalar, from a line on whose indentation has been passed and before which
the breaks `before` were read. Gives the text, the break after the last line and the breaks after
that. -/
def blockLines (isFolded : Bool) (indent : Nat) (before : List Char) :
    Nat → Scan (List Char × List Char × List Char)
  | 0 => return ([], [], before)
  | fuel + 1 => do
    let startsDark := !isSpaceOrTab (← peek)
    let line ← takeWhile (!endsLine ·)
    let b ← lineBreak
    let breaks ← indentedBreaks indent ((← get).rest.length + 1)
    if (← column) = indent ∧ (← peek) ≠ endOfText then
      let joint :=
        if isFolded && b = ['\n'] && startsDark && !isSpaceOrTab (← peek) then
          if breaks.isEmpty then [' '] else []
        else b
      let (more, last, after) ← blockLines isFolded indent breaks fuel
      return (before ++ line ++ joint ++ more, last, after)
    else return (before ++ line, b, breaks)

def blockScalar (parentIndent : Int) (style : ScalarStyle) : Scan Token := do
  let start ← mark
  advance 1
  let (chomping, increment) ← blockHeader
  restOfLine
  let least := (max 1 (parentIndent + 1)).toNat
  let size := (← get).rest.length + 1
  let (indent, breaks) ←
    match increment with
    | none =>
      let (breaks, deepest) ← leadingBreaks 0 size
      pure (max least deepest, breaks)
    | some n =>
      let indent := least + n - 1
      pure (indent, ← indentedBreaks indent size)
  let (text, last, after) ←
    if (← column) = indent ∧ (← peek) ≠ endOfText then
      blockLines (style = .folded) indent breaks size
    else pure ([], [], breaks)
  let text := text ++ (if chomping = .strip then [] else last) ++
    (if chomping = .keep then after else [])
  return ⟨.scalar (String.ofList text) style, start, ← mark⟩

/-! Quoted scalars -/

def escapeChar? (c : Char) : Option Char :=
  match c with
  | '0' => some '\x00'
  | 'a' => some '\x07'
  | 'b' => some '\x08'
  | 't' | '\t' => some '\t'
  | 'n' => some '\n'
  | 'v' => some '\x0B'
  | 'f' => some '\x0C'
  | 'r' => some '\r'
  | 'e' => some '\x1B'
  | ' ' | '"' | '\\' | '/' => some c
  | 'N' => some '\u0085'
  | '_' => some '\u00A0'
  | 'L' => some '\u2028'
  | 'P' => some '\u2029'
  | _ => none

def escapeWidth? (c : Char) : Option Nat :=
  match c with
  | 'x' => some 2
  | 'u' => some 4
  | 'U' => some 8
  | _ => none

/-- A code point as a character. A surrogate is none and is not told apart from another: where a text
that may hold surrogates would keep it, the replacement character stands here for all of them. -/
def charOfCode (n : Nat) : Except Fault Char :=
  if n < 0x110000 then
    if 0xD800 ≤ n ∧ n ≤ 0xDFFF then .ok '\uFFFD' else .ok (Char.ofNat n)
  else if n < 0x80000000 then .error .codePointTooLarge
  else .error .codePointBeyondWord

def quotedBreaks : Nat → Scan (List Char)
  | 0 => return []
  | fuel + 1 => do
    if (← get).atSeparator then fail "found unexpected document separator"
    discard (takeWhile isSpaceOrTab)
    if isBreak (← peek) then
      let b ← lineBreak
      return b ++ (← quotedBreaks fuel)
    else return []

def quotedBreaksHere : Scan (List Char) := do quotedBreaks ((← get).rest.length + 1)

def escape : Scan (List Char) := do
  let c ← peek
  match escapeChar? c with
  | some e => advance 1; return [e]
  | none =>
    match escapeWidth? c with
    | some width =>
      advance 1
      requireHex ("expected escape sequence of " ++ decimal width ++ " hexadecimal numbers") width
      match charOfCode (ofHexDigits ((← get).rest.take width)) with
      | .ok e => advance width; return [e]
      | .error f => throw (.fault f)
    | none =>
      if isBreak c then
        discard lineBreak
        quotedBreaksHere
      else failAtChar "found unknown escape character "

def quotedDark (isDouble : Bool) : Nat → Scan (List Char)
  | 0 => return []
  | fuel + 1 => do
    let run ← takeWhile fun c => !(endsWord c || c = '\'' || c = '"' || c = '\\')
    let c ← peek
    if !isDouble && c = '\'' && (← peekAt 1) = '\'' then
      advance 2
      return run ++ '\'' :: (← quotedDark isDouble fuel)
    else if (isDouble && c = '\'') || (!isDouble && (c = '"' || c = '\\')) then
      advance 1
      return run ++ c :: (← quotedDark isDouble fuel)
    else if isDouble && c = '\\' then
      advance 1
      let e ← escape
      return run ++ e ++ (← quotedDark isDouble fuel)
    else return run

/-- Blanks and breaks between the characters of a quoted scalar. A lone line feed becomes a space;
further breaks after it are kept. -/
def quotedBlank : Scan (List Char) := do
  let blanks ← takeWhile isSpaceOrTab
  let c ← peek
  if c = endOfText then fail "found unexpected end of stream"
  else if isBreak c then
    let b ← lineBreak
    let breaks ← quotedBreaksHere
    if b ≠ ['\n'] then return b ++ breaks
    else if breaks.isEmpty then return [' ']
    else return breaks
  else return blanks

def quotedText (isDouble : Bool) : Nat → Scan (List Char)
  | 0 => return []
  | fuel + 1 => do
    let dark ← quotedDark isDouble ((← get).rest.length + 1)
    if (← peek) = (if isDouble then '"' else '\'') then
      advance 1
      return dark
    else
      let blank ← quotedBlank
      return dark ++ blank ++ (← quotedText isDouble fuel)

def quotedScalar (isDouble : Bool) : Scan Token := do
  let start ← mark
  advance 1
  let text ← quotedText isDouble ((← get).rest.length + 1)
  let style := if isDouble then ScalarStyle.doubleQuoted else .singleQuoted
  return ⟨.scalar (String.ofList text) style, start, ← mark⟩

/-! Plain scalars -/

/-- How many characters a plain scalar goes on for. In a flow collection it ends at an indicator of
the collection; a colon ends it before the end of a word. -/
def plainLength (inFlow : Bool) : List Char → Nat
  | [] => 0
  | c :: rest =>
    let next := rest.headD endOfText
    if endsWord c || (inFlow && [',', '?', '[', ']', '\x7b', '\x7d'].contains c) ||
        (c = ':' && (endsWord next || (inFlow && [',', '[', ']', '\x7b', '\x7d'].contains next)))
    then 0
    else plainLength inFlow rest + 1

def plainBreaks : Nat → Scan (Option (List Char))
  | 0 => return some []
  | fuel + 1 => do
    let c ← peek
    if c = ' ' then
      advance 1
      plainBreaks fuel
    else if isBreak c then
      let b ← lineBreak
      if (← get).atSeparator then return none
      return (← plainBreaks fuel).map (b ++ ·)
    else return some []

/-- What stands between two words of a plain scalar: the text it gives and whether a line was
broken. No text means that the scalar ends. -/
def plainSpaces : Scan (List Char × Bool) := do
  let spaces ← takeWhile (· = ' ')
  if isBreak (← peek) then
    let b ← lineBreak
    if (← get).atSeparator then return ([], true)
    match ← plainBreaks ((← get).rest.length + 1) with
    | none => return ([], true)
    | some breaks =>
      if b ≠ ['\n'] then return (b ++ breaks, true)
      else if breaks.isEmpty then return ([' '], true)
      else return (breaks, true)
  else return (spaces, false)

/-- The words of a plain scalar from here on, with `spaces` before the first: the text, the place
after its last word, and whether a line was broken after it. -/
def plainWords (inFlow : Bool) (indent : Int) (spaces : List Char) (brokeLine : Bool) (stop : Mark) :
    Nat → Scan (List Char × Mark × Bool)
  | 0 => return ([], stop, brokeLine)
  | fuel + 1 => do
    let rest := (← get).rest
    let length := plainLength inFlow rest
    if (← peek) = '#' || length = 0 then return ([], stop, brokeLine)
    advance length
    let stop ← mark
    let (gap, brokeLine) ← plainSpaces
    let text := spaces ++ rest.take length
    if gap.isEmpty || (← peek) = '#' || (!inFlow && (← column) < indent) then
      return (text, stop, brokeLine)
    else
      let (more, stop, brokeLine) ← plainWords inFlow indent gap brokeLine stop fuel
      return (text ++ more, stop, brokeLine)

def plainScalar (inFlow : Bool) (parentIndent : Int) : Scan (Token × Bool) := do
  let start ← mark
  let (text, stop, brokeLine) ←
    plainWords inFlow (parentIndent + 1) [] false start ((← get).rest.length + 1)
  return (⟨.scalar (String.ofList text) .plain, start, stop⟩, brokeLine)

end MailRules.Yaml.Scan
