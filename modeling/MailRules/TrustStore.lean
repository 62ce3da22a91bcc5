import MailRules.Content
import MailRules.Error
/-!
The certificates that are trusted besides those of the system. They stand in one file, in blocks
between a BEGIN line and an END line of the same label; what stands between blocks is passed over.
Every block that cannot be used is reported, and those after it are still offered.
-/
namespace MailRules.TrustStore
open MailRules.Text

/-- A block: its label, and its text from the BEGIN marker to the end of the END marker. -/
structure Block where
  label : List Char
  text : List Char
  deriving DecidableEq, Repr

def isLabelChar (c : Char) : Bool := ('A' ≤ c && c ≤ 'Z') || ('0' ≤ c && c ≤ '9') || c = ' '

def dashes : List Char := "-----".toList

def beginWord : List Char := "-----BEGIN ".toList

def beginMarker (label : List Char) : List Char := beginWord ++ label ++ dashes

def endMarker (label : List Char) : List Char := "-----END ".toList ++ label ++ dashes

def labelAt? (cs : List Char) : Option (List Char) :=
  let label := (cs.drop beginWord.length).takeWhile isLabelChar
  if label ≠ [] ∧ (beginMarker label).isPrefixOf cs then some label else none

def before? (marker : List Char) : List Char → Option (List Char)
  | [] => if marker.isEmpty then some [] else none
  | c :: rest =>
    if marker.isPrefixOf (c :: rest) then some []
    else (before? marker rest).map (c :: ·)

/-- The block that `cs` starts with. Its END marker is the first one of its label. -/
def blockAt? (cs : List Char) : Option Block := do
  let label ← labelAt? cs
  let body ← before? (endMarker label) (cs.drop (beginMarker label).length)
  return ⟨label, beginMarker label ++ body ++ endMarker label⟩

/-- The blocks of `cs`, of which the first `skip` characters belong to a block already read. -/
def blocksFrom (skip : Nat) : List Char → List Block
  | [] => []
  | c :: rest =>
    match skip with
    | skip + 1 => blocksFrom skip rest
    | 0 =>
      match blockAt? (c :: rest) with
      | some b => b :: blocksFrom (b.text.length - 1) rest
      | none => blocksFrom 0 rest

def blocks (cs : List Char) : List Block := blocksFrom 0 cs

inductive Verdict
  | accepted
  | rejected (reason : String)
  | failed (f : Fault)

def certificateLabel : List Char := "CERTIFICATE".toList

structure Loading where
  offered : List String
  outcome : Except Failure Unit

def Loading.accepted (judge : String → Verdict) (l : Loading) : List String :=
  l.offered.filter fun text => match judge text with | .accepted => true | _ => false

/-- Offers the blocks from the one of the given number on. `offered` and `problems` are those of the
blocks before. What is said to a certificate may depend on those offered before it. -/
def offerEach (judge : List String → String → Verdict) (file : String) (number : Nat)
    (offered problems : List String) : List Block → Loading
  | [] =>
    if problems.isEmpty then ⟨offered, .ok ()⟩
    else ⟨offered, .error (.error (.trustStore ("\n".intercalate problems)))⟩
  | b :: rest =>
    let place := file ++ ": block " ++ decimal number ++ ": "
    if b.label = certificateLabel then
      let text := String.ofList b.text
      let extended := offered ++ [text]
      match judge offered text with
      | .accepted => offerEach judge file (number + 1) extended problems rest
      | .rejected reason =>
        offerEach judge file (number + 1) extended (problems ++ [place ++ reason]) rest
      | .failed f => ⟨extended, .error (.fault f)⟩
    else
      let problem := place ++ "pem type " ++ String.ofList b.label ++ " not supported"
      offerEach judge file (number + 1) offered (problems ++ [problem]) rest

def loadInTurn (judge : List String → String → Verdict) (p : Path) (content : Content) : Loading :=
  let unreadable (reason : String) : Loading :=
    ⟨[], .error (.error (.trustStore ("unable to read " ++ p.text ++ ": " ++ reason)))⟩
  match content with
  | .missing => ⟨[], .ok ()⟩
  | .unreadable code reason => unreadable (systemReason code reason p)
  | .unnameable => ⟨[], .error (.fault .unnameable)⟩
  | .octets bs =>
    match asciiChars bs with
    | .error b => unreadable (b.message "ascii")
    | .ok cs => offerEach judge p.text 1 [] [] (blocks (unifyLineBreaks cs))

def load (judge : String → Verdict) (p : Path) (content : Content) : Loading :=
  loadInTurn (fun _ => judge) p content

end MailRules.TrustStore
