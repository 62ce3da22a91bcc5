import MailRules.Text.Quoted
/-!
Octets and characters: the strict readers of UTF-8 and ASCII and the strict writer of ASCII, each
with the place and the reason of the first failure.
-/
namespace MailRules.Text

/-- Why octets are no text: the octets `first, …, last` of the input, and the reason. -/
structure BadOctets where
  first : Nat
  last : Nat
  /-- The octet at `first`. -/
  octet : Nat
  reason : String

def BadOctets.message (codec : String) (b : BadOctets) : String :=
  if b.first = b.last then
    "'" ++ codec ++ "' codec can't decode byte 0x" ++ String.ofList (hexPadded 2 b.octet) ++
      " in position " ++ toString b.first ++ ": " ++ b.reason
  else
    "'" ++ codec ++ "' codec can't decode bytes in position " ++ toString b.first ++ "-" ++
      toString b.last ++ ": " ++ b.reason

def utf8Width? (b : Nat) : Option Nat :=
  if b < 0x80 then some 1
  else if b < 0xC2 then none
  else if b < 0xE0 then some 2
  else if b < 0xF0 then some 3
  else if b < 0xF5 then some 4
  else none

/-- May `b` stand second after `lead`? Overlong forms, surrogates and code points beyond the last
plane are ruled out here. -/
def utf8Second (lead b : Nat) : Bool :=
  let low := if lead = 0xE0 then 0xA0 else if lead = 0xF0 then 0x90 else 0x80
  let high := if lead = 0xED then 0x9F else if lead = 0xF4 then 0x8F else 0xBF
  low ≤ b && b ≤ high

def utf8Tail (b : Nat) : Bool := 0x80 ≤ b && b ≤ 0xBF

def utf8Follow (lead : Nat) (count : Nat) (bs : List Nat) : List Nat :=
  match count, bs with
  | count + 1, b :: rest =>
    if utf8Second lead b then b :: (rest.takeWhile utf8Tail).take count else []
  | _, _ => []

def utf8Value (lead width : Nat) (follow : List Nat) : Nat :=
  follow.foldl (fun n b => n * 64 + b % 64)
    (if width = 1 then lead else if width = 2 then lead % 32 else if width = 3 then lead % 16
      else lead % 8)

/-- Reads the octets from position `at_` on; `skip` of them belong to a character already read. -/
def utf8CharsFrom (at_ skip : Nat) : List Nat → Except BadOctets (List Char)
  | [] => .ok []
  | b :: rest =>
    match skip with
    | skip + 1 => utf8CharsFrom (at_ + 1) skip rest
    | 0 =>
      match utf8Width? b with
      | none => .error ⟨at_, at_, b, "invalid start byte"⟩
      | some width =>
        let follow := utf8Follow b (width - 1) rest
        if follow.length + 1 = width then
          (utf8CharsFrom (at_ + 1) (width - 1) rest).map (Char.ofNat (utf8Value b width follow) :: ·)
        else
          let reason :=
            if follow.length = rest.length then "unexpected end of data"
            else "invalid continuation byte"
          .error ⟨at_, at_ + follow.length, b, reason⟩

def utf8Chars (octets : List Nat) : Except BadOctets (List Char) := utf8CharsFrom 0 0 octets

def asciiCharsFrom (at_ : Nat) : List Nat → Except BadOctets (List Char)
  | [] => .ok []
  | b :: rest =>
    if b < 0x80 then (asciiCharsFrom (at_ + 1) rest).map (Char.ofNat b :: ·)
    else .error ⟨at_, at_, b, "ordinal not in range(128)"⟩

def asciiChars (octets : List Nat) : Except BadOctets (List Char) := asciiCharsFrom 0 octets

structure BadCharacters where
  first : Nat
  run : List Char

def BadCharacters.message (b : BadCharacters) : String :=
  match b.run with
  | [c] =>
    "'ascii' codec can't encode character '" ++ String.ofList (codePointEscape c) ++
      "' in position " ++ toString b.first ++ ": ordinal not in range(128)"
  | run =>
    "'ascii' codec can't encode characters in position " ++ toString b.first ++ "-" ++
      toString (b.first + run.length - 1) ++ ": ordinal not in range(128)"

def isAscii (c : Char) : Bool := c.toNat < 0x80

def asciiOctets (cs : List Char) : Except BadCharacters (List Nat) :=
  if cs.all isAscii then .ok (cs.map Char.toNat)
  else
    let before := cs.takeWhile isAscii
    .error ⟨before.length, (cs.drop before.length).takeWhile (!isAscii ·)⟩

end MailRules.Text
