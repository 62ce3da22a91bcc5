import MailRules.Proofs.Live.Conduct
/-!
The operations of an open session. Each has its commands and issues them in order; the first one that is
refused ends it, with an error of the operation if its refusal is expected and with a fault otherwise. The
socket is the one command whose refusals are not.
-/
namespace MailRules.Search

theorem nestFrom_error {outer : List (List Criterion)} {done : List Criterion} {tokens : List Token}
    {e : Error} (failed : nestFrom outer done tokens = .error e) :
    ∃ message, e = .protocol "search" message := by
  induction tokens generalizing outer done with
  | nil =>
    unfold nestFrom at failed
    split at failed <;> cases failed
    exact ⟨_, rfl⟩
  | cons t tokens ih =>
    cases t with
    | text s => exact ih failed
    | opening => exact ih failed
    | closing =>
      cases outer with
      | nil =>
        cases failed
        exact ⟨_, rfl⟩
      | cons before outer => exact ih failed

end MailRules.Search
namespace MailRules.Live
open MailRules.Search MailRules.Sweep MailRules.Sweep.Step MailRules.Text MailRules.Log

inductive Operation
  | select (mailbox : String)
  | search (tokens : List Token)
  | copy (messages : List Nat) (folder : String)
  | store (messages : List Nat)
  | close
  | logout

namespace Operation

def name : Operation → String
  | select _ => "select"
  | search _ => "search"
  | copy .. => "copy"
  | store _ => "store"
  | close => "close"
  | logout => "logout"

def step (server : Server) (o : Options) (s : Session) : Operation → LiveStep Unit
  | select mailbox => s.select server o mailbox
  | search tokens => do
    let _ ← s.searchFor server o tokens
  | copy messages folder => s.copyTo server o messages folder
  | store messages => s.markDeleted server o messages
  | close => s.closeFolder server
  | logout => s.logout server o

def criteria (tokens : List Token) : Except Error (List Criterion) :=
  if tokens = [] then .ok [.text "ALL"] else nest tokens

def charset (tokens : List Token) : Option String :=
  if tokens.all fun t => t.shown.toList.all isAscii then none else some "UTF-8"

def commands (o : Options) : Operation → Except Error (List Command)
  | select mailbox => .ok [.selectFolder mailbox false]
  | search tokens => (criteria tokens).map fun found => [.search found (charset tokens)]
  | copy messages folder => .ok [.copy messages folder]
  | store messages => .ok [.addFlags messages [deletedFlag] true]
  | close => .ok [.closeFolder]
  | logout => .ok [.socket, .setTimeout o.logoutTimeout, .logout]

end Operation

/-- How an operation ends, by what it issues. -/
inductive Concluded (server : Server) (o : Options) (s : Session) (op : Operation) (h : List Command) :
    List Command → Except Failure Unit → Prop
  | done {cs : List Command} (planned : op.commands o = .ok cs) (accepted : Accepts server h cs) :
      Concluded server o s op h cs (.ok ())
  | unwritten {message : String} (planned : op.commands o = .error (.protocol op.name message)) :
      Concluded server o s op h [] (.error (.error (.protocol op.name message)))
  | reported {front rest : List Command} {c : Command} {r : Refusal}
      (planned : op.commands o = .ok (front ++ c :: rest)) (accepted : Accepts server h front)
      (answer : server.refusal (h ++ front) c = some r) (expected : c.expects r.cls = true) :
      Concluded server o s op h (front ++ [c])
        (.error (.error (.protocol op.name (s.host ++ ": " ++ r.message))))
  | escaped {front rest : List Command} {c : Command} {r : Refusal}
      (planned : op.commands o = .ok (front ++ c :: rest)) (accepted : Accepts server h front)
      (answer : server.refusal (h ++ front) c = some r) (unexpected : c.expects r.cls = false) :
      Concluded server o s op h (front ++ [c]) (.error (.fault r.fault))

section Steps
variable {server : Server} {o : Options} {s : Session} {h rest : List Command} {c : Command}

theorem performed_concludes (op : Operation) (front : List Command) {next : LiveStep Unit}
    (planned : op.commands o = .ok (front ++ c :: rest)) (accepted : Accepts server h front)
    (usual : ∀ side, c.expects side = decide (side ≠ .unexpected))
    (later : server.refusal (h ++ front) c = none →
      Issues (h ++ front ++ [c]) next fun cs => Concluded server o s op h (front ++ c :: cs)) :
    Issues (h ++ front) (do perform server s op.name c; next) fun cs =>
      Concluded server o s op h (front ++ cs) := by
  apply issues_bind (M := fun cs r => cs = [c] ∧ match r with
    | .ok () => server.refusal (h ++ front) c = none
    | .error failure => Concluded server o s op h (front ++ [c]) (.error failure))
  · apply issues_perform
    · exact fun answer => ⟨rfl, answer⟩
    · intro r answer
      refine ⟨rfl, ?_⟩
      unfold Refusal.reported
      by_cases unexpected : r.cls = .unexpected
      · rw [if_pos unexpected]
        exact .escaped planned accepted answer (by simp [usual, unexpected])
      · rw [if_neg unexpected]
        exact .reported planned accepted answer (by simp [usual, unexpected])
  · rintro cs failure ⟨rfl, ended⟩
    exact ended
  · rintro cs _ ⟨rfl, answer⟩
    apply issues_weaken (later answer)
    intro more r ended
    simpa using ended

theorem last_concludes (op : Operation) (front : List Command) {next : LiveStep Unit}
    (planned : op.commands o = .ok (front ++ [c])) (accepted : Accepts server h front)
    (usual : ∀ side, c.expects side = decide (side ≠ .unexpected))
    (quiet : Issues (h ++ front ++ [c]) next fun cs r => cs = [] ∧ r = .ok ()) :
    Issues (h ++ front) (do perform server s op.name c; next) fun cs =>
      Concluded server o s op h (front ++ cs) := by
  apply performed_concludes op front planned accepted usual
  intro answer
  apply issues_weaken quiet
  rintro _ _ ⟨rfl, rfl⟩
  exact .done planned ((accepts_append front [c]).mpr ⟨accepted, answer, trivial⟩)

theorem only_concludes (op : Operation) {next : LiveStep Unit} (planned : op.commands o = .ok [c])
    (usual : ∀ side, c.expects side = decide (side ≠ .unexpected))
    (quiet : Issues (h ++ [c]) next fun cs r => cs = [] ∧ r = .ok ()) :
    Issues h (do perform server s op.name c; next) (Concluded server o s op h) := by
  have concludes : Issues (h ++ []) (do perform server s op.name c; next) fun cs =>
      Concluded server o s op h ([] ++ cs) :=
    last_concludes op [] planned trivial usual (by simpa using quiet)
  simpa using concludes

theorem notes_quietly (r : Record) : Issues h (note r) fun cs r => cs = [] ∧ r = .ok () := by
  have noted : Issues h (do note r; pure ()) fun cs r => cs = [] ∧ r = .ok () :=
    issues_note (issues_outcome ⟨rfl, rfl⟩)
  simpa using noted

theorem searchFor_eq (tokens : List Token) : s.searchFor server o tokens = do
    let criteria ← (fun st => ((Operation.criteria tokens).mapError .error, st) : LiveStep (List Criterion))
    perform server s "search" (.search criteria (Operation.charset tokens))
    let found := server.found (← get).commands
    note (info o.component "search finished" [s.hostField,
      ("criteria", .list (tokens.map fun t => .text t.shown)), ("matches", .int found.length)])
    return found := by
  cases tokens <;> rfl

theorem criteria_error {tokens : List Token} {e : Error} (failed : Operation.criteria tokens = .error e) :
    ∃ message, e = .protocol "search" message := by
  unfold Operation.criteria at failed
  split at failed
  · cases failed
  · exact nestFrom_error failed

theorem searchFor_concludes (tokens : List Token) :
    Issues h (Operation.step server o s (.search tokens)) (Concluded server o s (.search tokens) h) := by
  change Issues h (s.searchFor server o tokens >>= fun _ => pure ()) _
  rw [searchFor_eq, bind_assoc]
  apply issues_bind (M := fun cs r => cs = [] ∧ r = (Operation.criteria tokens).mapError .error)
    (issues_outcome ⟨rfl, rfl⟩)
  · rintro cs failure ⟨rfl, failed⟩
    cases written : Operation.criteria tokens with
    | ok criteria =>
      rw [written] at failed
      cases failed
    | error e =>
      obtain ⟨message, rfl⟩ := criteria_error written
      rw [written] at failed
      cases failed
      have planned : (Operation.search tokens).commands o =
          .error (.protocol (Operation.search tokens).name message) := by
        simp [Operation.commands, written, Except.map, Operation.name]
      exact .unwritten planned
  · rintro cs criteria ⟨rfl, wrote⟩
    have written : Operation.criteria tokens = .ok criteria := by
      cases found : Operation.criteria tokens with
      | ok other =>
        rw [found] at wrote
        cases wrote
        rfl
      | error e =>
        rw [found] at wrote
        cases wrote
    rw [List.append_nil, bind_assoc]
    apply only_concludes (.search tokens)
    · simp [Operation.commands, written, Except.map]
    · exact fun _ => rfl
    · rw [bind_assoc]
      exact issues_get fun _ _ => issues_note (issues_outcome ⟨rfl, rfl⟩)

theorem logout_concludes :
    Issues h (Operation.step server o s .logout) (Concluded server o s .logout h) := by
  apply issues_issue
  cases answer : server.refusal h .socket with
  | some r =>
    have planned : Operation.logout.commands o =
        .ok ([] ++ .socket :: [.setTimeout o.logoutTimeout, .logout]) := rfl
    exact issues_outcome (.escaped planned trivial (by simpa using answer) rfl)
  | none =>
    have first : Accepts server h [.socket] := ⟨answer, trivial⟩
    apply performed_concludes .logout [.socket] rfl first fun _ => rfl
    intro limited
    have second : Accepts server h [.socket, .setTimeout o.logoutTimeout] :=
      ⟨answer, by simpa using limited, trivial⟩
    have ends : Issues (h ++ [.socket, .setTimeout o.logoutTimeout]) (do
          perform server s "logout" .logout
          note (info o.component "logged out" [s.hostField]))
        fun cs => Concluded server o s .logout h ([.socket, .setTimeout o.logoutTimeout] ++ cs) :=
      last_concludes .logout _ rfl second (fun _ => rfl) (notes_quietly _)
    simpa using ends

theorem operation_concludes (op : Operation) :
    Issues h (op.step server o s) (Concluded server o s op h) := by
  cases op with
  | select mailbox => exact only_concludes (.select mailbox) rfl (fun _ => rfl) (notes_quietly _)
  | search tokens => exact searchFor_concludes tokens
  | copy messages folder =>
    exact only_concludes (.copy messages folder) rfl (fun _ => rfl) (notes_quietly _)
  | store messages => exact only_concludes (.store messages) rfl (fun _ => rfl) (notes_quietly _)
  | close =>
    have closes : Issues h (do perform server s "close" .closeFolder; pure ())
        (Concluded server o s .close h) :=
      only_concludes .close rfl (fun _ => rfl) (issues_outcome ⟨rfl, rfl⟩)
    simpa [Operation.step, Session.closeFolder] using closes
  | logout => exact logout_concludes

end Steps
end MailRules.Live
