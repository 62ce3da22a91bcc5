/-!
The lenient reader of base64. Octets outside the alphabet are skipped, and the text ends at the
padding that completes a group of four.
-/
namespace MailRules.Text.Base64

inductive Failure
  /-- The padding of the last group is missing. -/
  | incorrectPadding
  /-- One lone character is left after `groups` full groups. -/
  | loneCharacter (groups : Nat)

def Failure.message : Failure → String
  | .incorrectPadding => "Incorrect padding"
  | .loneCharacter groups =>
    "Invalid base64-encoded string: number of data characters (" ++ toString (groups * 4 + 1) ++
      ") cannot be 1 more than a multiple of 4"

def sextet? (b : Nat) : Option Nat :=
  if 65 ≤ b ∧ b ≤ 90 then some (b - 65)
  else if 97 ≤ b ∧ b ≤ 122 then some (b - 71)
  else if 48 ≤ b ∧ b ≤ 57 then some (b + 4)
  else if b = 43 then some 62
  else if b = 47 then some 63
  else none

structure State where
  /-- How many characters of the current group were read. -/
  position : Nat := 0
  /-- The bits of the last character that no octet holds yet. -/
  left : Nat := 0
  /-- The padding characters since the last character of the alphabet. -/
  pads : Nat := 0
  /-- The octets read so far, last first. -/
  octets : List Nat := []

def State.push (s : State) (v : Nat) : State :=
  match s.position with
  | 0 => { s with position := 1, left := v, pads := 0 }
  | 1 => ⟨2, v % 16, 0, (s.left * 4 + v / 16) :: s.octets⟩
  | 2 => ⟨3, v % 4, 0, (s.left * 16 + v / 4) :: s.octets⟩
  | _ => ⟨0, 0, 0, (s.left * 64 + v) :: s.octets⟩

def decodeFrom (s : State) : List Nat → Except Failure (List Nat)
  | [] =>
    if s.position = 0 then .ok s.octets.reverse
    else if s.position = 1 then .error (.loneCharacter (s.octets.length / 3))
    else .error .incorrectPadding
  | b :: rest =>
    if b = 61 then
      if 2 ≤ s.position then
        if 4 ≤ s.position + s.pads + 1 then .ok s.octets.reverse
        else decodeFrom { s with pads := s.pads + 1 } rest
      else decodeFrom s rest
    else
      match sextet? b with
      | some v => decodeFrom (s.push v) rest
      | none => decodeFrom s rest

def decode (octets : List Nat) : Except Failure (List Nat) := decodeFrom {} octets

end MailRules.Text.Base64
