import MailRules.Live.Session
/-!
The family that talks to servers. An account owns its session from the connection to the logout;
mailboxes and rules work in the session that was open when they were begun.
-/
namespace MailRules.Live
open MailRules.Search MailRules.Sweep

def currentSession : LiveStep Session := do
  match (← get).session with
  | some s => return s
  | none => throw (.fault .notConnected)

def currentMailbox : LiveStep Session := do
  match (← get).mailbox with
  | some s => return s
  | none => throw (.fault .notBegun)

def currentRule : LiveStep OpenRule := do
  match (← get).rule with
  | some r => return r
  | none => throw (.fault .notBegun)

def newAccount : LiveStep Unit := modify fun s => { s with session := none }

/-- A session takes the place of the one before only once it is ready. -/
def connect (server : Server) (o : Options) (host : String) (flags : Flags) (c : Credentials) :
    LiveStep Unit := do
  let session ← openSession server o host flags c
  modify fun s => { s with session := some session }

def newMailbox : LiveStep Unit := do
  let session ← currentSession
  modify fun s => { s with mailbox := some session }

def newRule : LiveStep Unit := do
  let session ← currentMailbox
  modify fun s => { s with rule := some { session := session } }

def append (t : Token) : LiveStep Unit := do
  let r ← currentRule
  modify fun s => { s with rule := some { r with tokens := r.tokens ++ [t] } }

/-- A search that fails leaves the messages found before. -/
def search (server : Server) (o : Options) : LiveStep Unit := do
  let r ← currentRule
  let found ← r.session.searchFor server o r.tokens
  modify fun s => { s with rule := some { r with matched := found } }

def move (server : Server) (o : Options) (destination : String) : LiveStep Unit := do
  let r ← currentRule
  if !r.matched.isEmpty then r.session.copyTo server o r.matched destination

def mark (server : Server) (o : Options) : LiveStep Unit := do
  let r ← currentRule
  if !r.matched.isEmpty then r.session.markDeleted server o r.matched

/-- The account loses its session even where the logout fails. -/
def logout (server : Server) (o : Options) : LiveStep Unit := fun s =>
  let (result, s') := (do (← currentSession).logout server o : LiveStep Unit) s
  (result, { s' with session := none })

def family (server : Server) (o : Options) : Family State where
  newAccount := newAccount
  connect := connect server o
  newMailbox := newMailbox
  select := fun name => do (← currentMailbox).select server o name
  newRule := newRule
  append := append
  search := search server o
  move := move server o
  mark := mark server o
  close := do (← currentMailbox).closeFolder server
  logout := logout server o

end MailRules.Live
