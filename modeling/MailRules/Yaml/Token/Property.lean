import MailRules.Yaml.Cursor
import MailRules.Yaml.Token
import MailRules.Text.Encoding
import MailRules.Number.Numeral
/-!
The lexemes that stand in front of a document or a node: directives, anchors, aliases and tags.
-/
namespace MailRules.Yaml.Scan
open MailRules.Text

def isNameChar (c : Char) : Bool := c.isAlphanum || c = '-' || c = '_'

def isUriChar (c : Char) : Bool := c.isAlphanum || "-;/?:@&=+$,_.!~*'()[]".toList.contains c

def isHexDigit (c : Char) : Bool := isAsciiDigit c || 'a' ≤ c && c ≤ 'f' || 'A' ≤ c && c ≤ 'F'

def ofHexDigits (cs : List Char) : Nat :=
  cs.foldl (fun n c => 16 * n + (Number.placeValue? c).getD 0) 0

def name : Scan (List Char) := do
  if !isNameChar (← peek) then failAtChar "expected alphabetic or numeric character, but found "
  takeWhile isNameChar

def requireHex (expectation : String) (count : Nat) : Scan Unit := do
  let cs := (← get).rest ++ [endOfText]
  match (cs.take count).find? (!isHexDigit ·) with
  | some c => fail (expectation ++ ", but found " ++ String.ofList (quotedChars [c]))
  | none => return

def percentOctets : Nat → Scan (List Nat)
  | 0 => return []
  | fuel + 1 => do
    if (← peek) = '%' then
      advance 1
      requireHex "expected URI escape sequence of 2 hexadecimal numbers" 2
      let octet := ofHexDigits ((← get).rest.take 2)
      advance 2
      return octet :: (← percentOctets fuel)
    else return []

def percentChars : Scan (List Char) := do
  let start ← mark
  let octets ← percentOctets (← get).rest.length
  match utf8Chars octets with
  | .ok cs => return cs
  | .error bad => throw (.problem ⟨bad.message "utf-8", start⟩)

def uriChunks : Nat → Scan (List Char)
  | 0 => return []
  | fuel + 1 => do
    let run ← takeWhile isUriChar
    if (← peek) = '%' then
      let escaped ← percentChars
      return run ++ escaped ++ (← uriChunks fuel)
    else return run

def uri : Scan (List Char) := do
  let cs ← uriChunks ((← get).rest.length + 1)
  if cs.isEmpty then failAtChar "expected URI, but found "
  return cs

def tagHandle : Scan (List Char) := do
  if (← peek) ≠ '!' then failAtChar "expected '!', but found "
  advance 1
  if (← peek) = ' ' then return ['!']
  let run ← takeWhile isNameChar
  if (← peek) ≠ '!' then failAtChar "expected '!', but found "
  advance 1
  return '!' :: run ++ ['!']

def versionNumber : Scan Nat := do
  if !isAsciiDigit (← peek) then failAtChar "expected a digit, but found "
  let digits ← takeWhile isAsciiDigit
  if Number.digitLimit < digits.length then throw (.fault .versionTooLong)
  return ofDigits (digits.map fun c => c.toNat - 48)

def versionDirective : Scan Directive := do
  skipSpaces
  let major ← versionNumber
  if (← peek) ≠ '.' then failAtChar "expected a digit or '.', but found "
  advance 1
  discard versionNumber
  if !endsItem (← peek) then failAtChar "expected a digit or ' ', but found "
  return .version major

def tagDirective : Scan Directive := do
  skipSpaces
  let handle ← tagHandle
  if (← peek) ≠ ' ' then failAtChar "expected ' ', but found "
  skipSpaces
  let text ← uri
  if !endsItem (← peek) then failAtChar "expected ' ', but found "
  return .tag (String.ofList handle) (String.ofList text)

def restOfLine : Scan Unit := do
  skipSpaces
  if (← peek) = '#' then skipLine
  if !endsLine (← peek) then failAtChar "expected a comment or a line break, but found "
  discard lineBreak

def directive : Scan Token := do
  let start ← mark
  advance 1
  let word ← name
  if !endsItem (← peek) then failAtChar "expected alphabetic or numeric character, but found "
  if word = "YAML".toList then
    let d ← versionDirective
    let stop ← mark
    restOfLine
    return ⟨.directive d, start, stop⟩
  else if word = "TAG".toList then
    let d ← tagDirective
    let stop ← mark
    restOfLine
    return ⟨.directive d, start, stop⟩
  else
    let stop ← mark
    skipLine
    restOfLine
    return ⟨.directive .other, start, stop⟩

def endsAnchor (c : Char) : Bool := endsWord c || "?:,]\x7d%@`".toList.contains c

def anchorWith (kind : String → TokenKind) : Scan Token := do
  let start ← mark
  advance 1
  let word ← name
  if !endsAnchor (← peek) then failAtChar "expected alphabetic or numeric character, but found "
  return ⟨kind (String.ofList word), start, ← mark⟩

def tag : Scan Token := do
  let start ← mark
  let c ← peekAt 1
  let (handle, suffix) ←
    if c = '<' then do
      advance 2
      let suffix ← uri
      if (← peek) ≠ '>' then failAtChar "expected '>', but found "
      advance 1
      pure (none, suffix)
    else if endsWord c then do
      advance 1
      pure (none, ['!'])
    else do
      let ahead := ((← get).rest.drop 1).takeWhile (!endsItem ·)
      let handle ← if ahead.contains '!' then tagHandle else do advance 1; pure ['!']
      let suffix ← uri
      pure (some (String.ofList handle), suffix)
  if !endsItem (← peek) then failAtChar "expected ' ', but found "
  return ⟨.tag handle (String.ofList suffix), start, ← mark⟩

end MailRules.Yaml.Scan
