import MailRules.Search.Token
/-!
What a pass over a document asks for: sessions, mailboxes and rules, each begun before it is used.
A family answers these requests; one family does nothing, another talks to servers. The pass and its
order are the same for all of them.
-/
namespace MailRules.Sweep
open MailRules.Search

/-- A step of a pass. It may fail, and what it did to the state stays done. -/
abbrev Step (σ α : Type) := ExceptT Failure (StateM σ) α

structure Family (σ : Type) where
  /-- Begins an account. -/
  newAccount : Step σ Unit
  /-- Opens the session of the account and logs in. -/
  connect : String → Flags → Credentials → Step σ Unit
  /-- Begins a mailbox of the account. -/
  newMailbox : Step σ Unit
  /-- Opens the mailbox of the given name for reading and writing. -/
  select : String → Step σ Unit
  /-- Begins a rule of the mailbox, without tokens. -/
  newRule : Step σ Unit
  /-- Adds a token to the search of the rule. -/
  append : Token → Step σ Unit
  /-- Searches the mailbox and keeps the messages found. -/
  search : Step σ Unit
  /-- Copies the messages found to another mailbox. -/
  move : String → Step σ Unit
  /-- Flags the messages found for deletion. -/
  mark : Step σ Unit
  /-- Closes the mailbox, which removes what is flagged. -/
  close : Step σ Unit
  /-- Ends the session. -/
  logout : Step σ Unit

def Family.idle (σ : Type) : Family σ where
  newAccount := pure ()
  connect := fun _ _ _ => pure ()
  newMailbox := pure ()
  select := fun _ => pure ()
  newRule := pure ()
  append := fun _ => pure ()
  search := pure ()
  move := fun _ => pure ()
  mark := pure ()
  close := pure ()
  logout := pure ()

namespace Step

def attempt {σ : Type} (s : Step σ Unit) : Step σ (Option Error) := fun st =>
  match s st with
  | (.ok (), st') => (.ok none, st')
  | (.error (.error e), st') => (.ok (some e), st')
  | (.error (.fault f), st') => (.error (.fault f), st')

def collected {σ : Type} (s : Step σ Unit) : Step σ (List Error) := do
  match ← s.attempt with
  | none => return []
  | some e => return e.flat

/-- Runs a step and gives the errors that it raised if they are such as a precondition fails with;
all else goes on. -/
def compiled {σ : Type} (s : Step σ Unit) : Step σ (List Error) := do
  match ← s.attempt with
  | none => return []
  | some e => if e.isCompilation then return e.flat else throw (.error e)

def leaving {σ : Type} (s : Step σ Unit) : Step σ Unit := fun st =>
  match s st with
  | (.ok (), st') => (.ok (), st')
  | (.error failure, st') => (.error failure.leaving, st')

/-- Runs `body`, and `release` after it in any case. The errors of the release come last; a fault of
the release takes the place of a failure of the body. -/
def released {σ : Type} (body : Step σ (List Error)) (release : Step σ Unit) :
    Step σ (List Error) := fun st =>
  match body st with
  | (.ok errors, st') => (do return errors ++ (← release.leaving.collected)) st'
  | (.error failure, st') => (do discard release.leaving.collected; throw failure) st'

def collectEach {α σ : Type} (items : List α) (s : α → Step σ Unit) : Step σ (List Error) :=
  match items with
  | [] => pure []
  | a :: rest => do
    let errors ← (s a).collected
    return errors ++ (← collectEach rest s)

def raise {σ : Type} (errors : List Error) : Step σ Unit := fun st => (raiseErrors errors, st)

end Step
end MailRules.Sweep
