import MailRules.Yaml.Datum
import MailRules.Text.Digit
/-!
The document of a run: accounts, their mailboxes, and the rules of each mailbox. Whatever a later
report may point at keeps the place where it is written.
-/
namespace MailRules
open MailRules.Text

/-- A place in a document; line and column count from 1. -/
structure Location where
  path : String
  line : Nat
  column : Nat
  deriving DecidableEq, Repr

def Location.text (l : Location) : String :=
  l.path ++ ":" ++ decimal l.line ++ "." ++ decimal l.column

structure Leaf where
  /-- The scalar as written, or the collection as a text of its own. -/
  text : String
  /-- What the text stands for in YAML. -/
  datum : Yaml.Datum
  /-- Collections are kept so that they can be refused where a scalar is needed. -/
  isScalar : Bool
  location : Location

mutual

inductive Precondition
  | mk (field : String) (operands : List Operand) (location : Location)

inductive Operand
  | leaf (l : Leaf)
  | nested (p : Precondition)

end

namespace Precondition

def field : Precondition → String
  | mk f _ _ => f

def operands : Precondition → List Operand
  | mk _ os _ => os

def location : Precondition → Location
  | mk _ _ l => l

end Precondition

def Operand.location : Operand → Location
  | leaf l => l.location
  | nested p => p.location

structure Action where
  kind : String
  arguments : List Leaf
  location : Location

structure Rule where
  preconditions : List Precondition
  actions : List Action
  location : Location

structure Mailbox where
  name : String
  rules : List Rule
  location : Location

structure Flags where
  noTls : Bool := false
  noSimpleLogin : Bool := false
  noSaslPlain : Bool := false
  noSaslExternal : Bool := false
  deriving DecidableEq, Repr

/-- What an account logs in with. The identity is the one to act as, if it is another. -/
structure Credentials where
  username : String := ""
  password : String := ""
  identity : String := ""
  deriving DecidableEq, Repr

structure Account where
  host : String
  flags : Flags
  credentials : Credentials
  mailboxes : List Mailbox
  location : Location

structure Document where
  /-- The name that locations have as their path. -/
  source : String
  accounts : List Account

end MailRules
