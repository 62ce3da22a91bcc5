import MailRules.Search.Token
import MailRules.Number.Double
/-!
Servers, seen from a client: the commands that are issued, and how they are answered. An answer may
depend on all commands issued before.
-/
namespace MailRules.Live
open MailRules.Search MailRules.Number

inductive Command
  | dial (name : String) (port : Nat) (tls trusts : Bool)
  | hasCapability (name : String)
  | startTls (trusts : Bool)
  /-- A mechanism and the octets that it is answered with. -/
  | saslLogin (mechanism : String) (reply : List Nat)
  | plainLogin (username password : String) (identity : Option String)
  | login (username password : String)
  | selectFolder (name : String) (readOnly : Bool)
  | search (criteria : List Criterion) (charset : Option String)
  | copy (messages : List Nat) (folder : String)
  | addFlags (messages : List Nat) (flags : List String) (silent : Bool)
  | closeFolder
  | socket
  | setTimeout (seconds : Double)
  | logout
  | shutdown
  deriving Repr

inductive RefusalClass
  | server
  | transport
  | encoding
  | unexpected
  deriving DecidableEq, Repr

structure Refusal where
  cls : RefusalClass
  /-- The name of the failure where it is not expected. -/
  name : String
  message : String
  deriving DecidableEq, Repr

def Refusal.fault (r : Refusal) : Fault := .foreign r.name r.message

/-- The answers of a server to a command, from the commands before it, in order. -/
structure Server where
  refusal : List Command → Command → Option Refusal
  hasCapability : List Command → String → Bool
  found : List Command → List Nat

def Server.unreachable (message : String) : Server where
  refusal := fun _ _ => some ⟨.transport, "OSError", message⟩
  hasCapability := fun _ _ => false
  found := fun _ => []

end MailRules.Live
