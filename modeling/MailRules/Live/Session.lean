import MailRules.Live.Server
import MailRules.Live.Host
import MailRules.Sweep.Family
import MailRules.Log.Record
/-!
Sessions with servers. A session is dialled, secured where the server offers it, and authenticated by
the first way to log in that succeeds. Whatever a server, the transport or the encoder refuses is an
error of the operation that met it.
-/
namespace MailRules.Live
open MailRules.Search MailRules.Number MailRules.Log MailRules.Sweep

structure Session where
  host : String
  deriving DecidableEq, Repr

structure OpenRule where
  session : Session
  tokens : List Token := []
  /-- The messages that its last successful search found. -/
  matched : List Nat := []
  deriving Repr

structure State where
  commands : List Command := []
  log : List Record := []
  /-- The session of the current account, while it is connected. -/
  session : Option Session := none
  /-- The session of the current mailbox. -/
  mailbox : Option Session := none
  rule : Option OpenRule := none

structure Options where
  /-- Is a set of trusted certificates given? -/
  trusts : Bool
  logoutTimeout : Double
  /-- The name in log records. -/
  component : String

abbrev LiveStep (α : Type) := Step State α

def deletedFlag : String := "\\Deleted"

def raise {α : Type} (e : Error) : LiveStep α := throw (.error e)

def note (r : Record) : LiveStep Unit := modify fun s => { s with log := s.log ++ [r] }

def issue (server : Server) (c : Command) : LiveStep (Option Refusal) := do
  let s ← get
  set { s with commands := s.commands ++ [c] }
  return server.refusal s.commands c

/-- Issues a command for an operation. A refusal is an error of the operation, at the host. -/
def perform (server : Server) (session : Session) (operation : String) (c : Command) :
    LiveStep Unit := do
  match ← issue server c with
  | none => return
  | some r =>
    if r.cls = .unexpected then throw (.fault r.fault)
    raise (.protocol operation (session.host ++ ": " ++ r.message))

inductive Scheme
  | saslExternal
  | saslPlain
  | login
  deriving DecidableEq, Repr

namespace Scheme

def label : Scheme → String
  | saslExternal => "sasl external"
  | saslPlain => "sasl plain"
  | login => "login"

def enabled (flags : Flags) : List Scheme :=
  (if flags.noSaslExternal then [] else [saslExternal]) ++
    (if flags.noSaslPlain then [] else [saslPlain]) ++
    (if flags.noSimpleLogin then [] else [login])

def command (c : Credentials) : Scheme → Command
  | saslExternal => .saslLogin "EXTERNAL" []
  | saslPlain =>
    .plainLogin c.username c.password (if c.identity.isEmpty then none else some c.identity)
  | login => .login c.username c.password

end Scheme

/-- Tries the ways to log in until one succeeds. Refusals of the server and of the transport lead to
the next way. -/
def authenticate (server : Server) (o : Options) (host : String) (c : Credentials) :
    List Scheme → LiveStep Unit
  | [] => raise (.authentication host)
  | scheme :: rest => do
    let place := [("host", Value.text host), ("scheme", .text scheme.label)]
    match ← issue server (scheme.command c) with
    | none => note (info o.component "authenticated" place)
    | some r =>
      if r.cls = .server ∨ r.cls = .transport then do
        note (warning o.component "authentication attempt failed" (place ++ [("error", .text r.message)]))
        authenticate server o host c rest
      else throw (.fault r.fault)

def shutdown (server : Server) (o : Options) (host : String) : LiveStep Unit := do
  match ← issue server .shutdown with
  | none => return
  | some r =>
    if r.cls = .transport then
      note (warning o.component "shutdown failed" [("host", .text host), ("error", .text r.message)])
    else throw (.fault r.fault)

def secure (server : Server) (o : Options) (session : Session) : LiveStep Unit := do
  perform server session "capability" (.hasCapability "STARTTLS")
  if server.hasCapability (← get).commands "STARTTLS" then
    perform server session "starttls" (.startTls o.trusts)

def onError (body cleanup : LiveStep Unit) : LiveStep Unit := do
  match ← body.attempt with
  | none => return
  | some e =>
    cleanup
    raise e

/-- Opens a session that is ready for use. If it cannot be secured or authenticated, its connection
is dropped. -/
def openSession (server : Server) (o : Options) (host : String) (flags : Flags) (c : Credentials) :
    LiveStep Session := do
  let tls := !flags.noTls
  let (name, port) ← (fun st => (splitHost host tls, st) : LiveStep (String × Nat))
  match ← issue server (.dial name port tls o.trusts) with
  | none => pure ()
  | some r =>
    if r.cls = .server ∨ r.cls = .transport then
      raise (.protocol "dial" (host ++ ": " ++ r.message))
    else throw (.fault r.fault)
  let session : Session := ⟨host⟩
  onError
    (do
      if !tls then secure server o session
      authenticate server o host c (Scheme.enabled flags))
    (shutdown server o host)
  note (info o.component "connected" [("host", .text host), ("port", .int port), ("tls", .bool tls)])
  return session

namespace Session

def hostField (s : Session) : String × Value := ("host", .text s.host)

def select (s : Session) (server : Server) (o : Options) (name : String) : LiveStep Unit := do
  perform server s "select" (.selectFolder name false)
  note (info o.component "mailbox selected" [s.hostField, ("mailbox", .text name)])

def searchFor (s : Session) (server : Server) (o : Options) (tokens : List Token) :
    LiveStep (List Nat) := do
  let criteria ← match tokens with
    | [] => pure [.text "ALL"]
    | _ => (fun st => ((nest tokens).mapError .error, st) : LiveStep (List Criterion))
  let ascii := tokens.all fun t => t.shown.toList.all Text.isAscii
  perform server s "search" (.search criteria (if ascii then none else some "UTF-8"))
  let found := server.found (← get).commands
  note (info o.component "search finished"
    [s.hostField, ("criteria", .list (tokens.map fun t => .text t.shown)), ("matches", .int found.length)])
  return found

def copyTo (s : Session) (server : Server) (o : Options) (messages : List Nat) (folder : String) :
    LiveStep Unit := do
  perform server s "copy" (.copy messages folder)
  note (info o.component "messages copied"
    [s.hostField, ("destination", .text folder), ("count", .int messages.length)])

def markDeleted (s : Session) (server : Server) (o : Options) (messages : List Nat) :
    LiveStep Unit := do
  perform server s "store" (.addFlags messages [deletedFlag] true)
  note (info o.component "messages flagged deleted" [s.hostField, ("count", .int messages.length)])

def closeFolder (s : Session) (server : Server) : LiveStep Unit :=
  perform server s "close" .closeFolder

/-- Only the logout has a time limit. The limit is set on the socket, which is asked for first. -/
def logout (s : Session) (server : Server) (o : Options) : LiveStep Unit := do
  match ← issue server .socket with
  | none => pure ()
  | some r => throw (.fault r.fault)
  perform server s "logout" (.setTimeout o.logoutTimeout)
  perform server s "logout" .logout
  note (info o.component "logged out" [s.hostField])

end Session
end MailRules.Live
