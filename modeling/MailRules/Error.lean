import MailRules.Document.Flags
import MailRules.Fault
/-!
The errors of a run and their messages. An error that belongs to a place of the document is shown
with the place in front. Errors met side by side are kept together, in the order in which they were
met and never nested.
-/
namespace MailRules
open MailRules.Text

inductive Flaw
  | missingFile (path : String)
  | unreadableFile (path reason : String)
  /-- A character that no YAML text may hold, after `position` others. -/
  | badCharacter (source : String) (code position : Nat)
  /-- The text is not YAML. -/
  | notYaml (problem : String)
  | empty (source : String)
  | notMapping (part : String)
  | keyNotScalar (part : String)
  | duplicateKey (key part : String)
  | unsupportedKey (key part : String)
  | notList (part : String)
  | notScalar (part : String)
  | invalidValue (reason : String)
  | noHost
  | noMailboxName
  | noField
  | actionsNotMapping
  | noActionKind
  | duplicateAction (kind : String)
  | invalidFlags (problems : List (Flag × Flag.Problem))
  /-- A flaw in the words of whoever found it. -/
  | stated (text : String)
  deriving DecidableEq, Repr

def Flaw.message : Flaw → String
  | missingFile path => "configuration file missing: " ++ path
  | unreadableFile path reason => "unable to read configuration file " ++ path ++ ": " ++ reason
  | badCharacter source code position =>
    source ++ ": invalid YAML: unacceptable character #x" ++ String.ofList (hexPadded 4 code) ++
      ": special characters are not allowed\n  in \"<unicode string>\", position " ++
      decimal position
  | notYaml problem => "invalid YAML: " ++ problem
  | empty source => source ++ ": document is empty"
  | notMapping part => part ++ " must be a mapping"
  | keyNotScalar part => part ++ " keys must be scalars"
  | duplicateKey key part => "duplicate key '" ++ key ++ "' in " ++ part
  | unsupportedKey key part => "unsupported key '" ++ key ++ "' in " ++ part
  | notList part => part ++ " must be a list"
  | notScalar part => part ++ " must be a scalar"
  | invalidValue reason => "invalid value: " ++ reason
  | noHost => "server requires a host"
  | noMailboxName => "mailbox requires a name"
  | noField => "precondition requires a field"
  | actionsNotMapping => "action must be a mapping"
  | noActionKind => "action kind must not be empty"
  | duplicateAction kind => "duplicate action '" ++ kind ++ "'"
  | invalidFlags problems =>
    "invalid server flags: " ++
      "; ".intercalate (problems.map fun p => p.1.name ++ ": " ++ p.2.message)
  | stated text => text

inductive Error
  /-- An error that is no more than its text. -/
  | plain (text : String)
  /-- The document cannot be read. -/
  | document (flaw : Flaw) (location : Option Location)
  /-- The certificates cannot be used. -/
  | trustStore (text : String)
  /-- A precondition cannot be turned into a search. -/
  | compile (text : String) (location : Option Location)
  | unknownField (field : String) (location : Option Location)
  | arityMismatch (field : String) (expected actual : Nat) (location : Option Location)
  /-- A value is not of the kind that its field needs. -/
  | valueDecode (field kind detail : String) (location : Option Location)
  | unknownAction (action : String) (location : Option Location)
  /-- The server, or the way to it, refused an operation. -/
  | protocol (operation detail : String)
  /-- No way to log in succeeded. -/
  | authentication (host : String)
  /-- Several errors. -/
  | aggregate (members : List Error)
  /-- The errors of a validation pass; no live pass followed. -/
  | validationFailed (members : List Error)
  /-- The errors of a live pass. -/
  | runFailed (members : List Error)
  /-- A fault that was put among errors. -/
  | fault (f : Fault)

def located (location : Option Location) (message : String) : String :=
  match location with
  | none => message
  | some l => l.text ++ ": " ++ message

def Fault.message : Fault → String
  | .homeUnknown => "Could not determine home directory."
  | .notConnected => "IMAP session not connected"
  | .foreign _ message => message
  | _ => ""

mutual

def Error.message : Error → String
  | .plain text => text
  | .document flaw location => located location flaw.message
  | .trustStore text => text
  | .compile text location => located location text
  | .unknownField field location => located location ("unknown search field " ++ field)
  | .arityMismatch field expected actual location =>
    located location ("search field " ++ field ++ " takes " ++ decimal expected ++ " args.  " ++
      decimal actual ++ " args given")
  | .valueDecode field kind detail location =>
    located location (field ++ ": cannot decode " ++ kind ++ " value: " ++ detail)
  | .unknownAction action location => located location ("unknown action type " ++ action)
  | .protocol operation detail => operation ++ ": " ++ detail
  | .authentication host => host ++ ": authentication failed"
  | .aggregate members => "\n".intercalate (Error.messages members)
  | .validationFailed members => "\n".intercalate (Error.messages members)
  | .runFailed members => "\n".intercalate (Error.messages members)
  | .fault f => f.message

def Error.messages : List Error → List String
  | [] => []
  | e :: es => e.message :: Error.messages es

end

namespace Error

/-- The single errors of an error: the members of an aggregate, else the error itself. -/
def flat : Error → List Error
  | aggregate members => members
  | e => [e]

/-- Errors met one after another; those of an aggregate take its place. -/
def collect (errors : List Error) : List Error := errors.flatMap flat

def isCompilation : Error → Bool
  | compile .. | unknownField .. | arityMismatch .. | valueDecode .. | aggregate _ => true
  | _ => false

/-- What several errors are reported as: nothing, the lone error, or an aggregate. -/
def ofList? : List Error → Option Error
  | [] => none
  | [e] => some e
  | es => some (aggregate es)

end Error

/-- Why a step of a run ends early: an error, which those around it collect, or a fault. -/
inductive Failure
  | error (e : Error)
  | fault (f : Fault)

def Failure.leaving : Failure → Failure
  | .error e => .error e
  | .fault f => .fault f.leaving

/-- Fails with the errors, if there are any. A fault that is alone among them is a fault again. -/
def raiseErrors (errors : List Error) : Except Failure Unit :=
  match Error.ofList? errors with
  | none => .ok ()
  | some (.fault f) => .error (.fault f)
  | some e => .error (.error e)

end MailRules
