import MailRules.Live.Family
import MailRules.Proofs.Sweep.Step
/-!
What the steps of a live family do to the commands issued so far. A command is only ever added, and its
refusal depends on those before it. Opening and ending a session, and closing a mailbox, never touch a
message; the steps of a rule do nothing else.
-/
namespace MailRules.Live
open MailRules.Search MailRules.Sweep MailRules.Sweep.Step MailRules.Log

def State.issued (st : State) (c : Command) : State := { st with commands := st.commands ++ [c] }

@[simp] theorem State.issued_commands (st : State) (c : Command) :
    (st.issued c).commands = st.commands ++ [c] := rfl

@[simp] theorem get_apply (st : State) : (get : LiveStep State) st = (.ok st, st) := rfl

section Rules
variable {server : Server} {P : State → Prop} {E : Failure → State → Prop} {c : Command}

theorem triple_issue {Q : Option Refusal → State → Prop}
    (after : ∀ st, P st → Q (server.refusal st.commands c) (st.issued c)) :
    Triple P (issue server c) Q E := after

theorem triple_note {r : Record} {Q : Unit → State → Prop}
    (after : ∀ st, P st → Q () { st with log := st.log ++ [r] }) : Triple P (note r) Q E := after

theorem triple_get {Q : State → State → Prop} (after : ∀ st, P st → Q st st) :
    Triple P (get : LiveStep State) Q E := after

theorem triple_modify {g : State → State} {Q : Unit → State → Prop}
    (after : ∀ st, P st → Q () (g st)) : Triple P (modify g : LiveStep Unit) Q E := after

theorem triple_perform_answered {session : Session} {operation : String} {Q : Unit → State → Prop}
    (accepted : ∀ st, P st → server.refusal st.commands c = none → Q () (st.issued c))
    (refused : ∀ st r failure, P st → server.refusal st.commands c = some r → failure.Reported →
      E failure (st.issued c)) :
    Triple P (perform server session operation c) Q E := by
  apply triple_bind (M := fun r st' => ∃ st, P st ∧ r = server.refusal st.commands c ∧ st' = st.issued c)
  · exact triple_issue fun st holds => ⟨st, holds, rfl, rfl⟩
  · rintro r? st' ⟨st, holds, answer, rfl⟩
    cases r? with
    | none => exact accepted st holds answer.symm
    | some r =>
      by_cases unexpected : r.cls = .unexpected
      · simp only [unexpected, if_true]
        exact refused st r (.fault r.fault) holds answer.symm trivial
      · simp only [unexpected, if_false]
        exact refused st r _ holds answer.symm trivial

theorem triple_perform {session : Session} {operation : String} {Q : Unit → State → Prop}
    (accepted : ∀ st, P st → server.refusal st.commands c = none → Q () (st.issued c))
    (refused : ∀ st failure, P st → failure.Reported → E failure (st.issued c)) :
    Triple P (perform server session operation c) Q E :=
  triple_perform_answered accepted fun st _ failure holds _ reported => refused st failure holds reported

theorem triple_onError {body cleanup : LiveStep Unit} {M : State → Prop} {Q : Unit → State → Prop}
    (inner : Triple P body Q fun failure => match failure with
      | .error _ => M
      | .fault f => E (.fault f))
    (last : ∀ e, Triple M cleanup (fun _ => E (.error e)) E) : Triple P (onError body cleanup) Q E := by
  apply triple_bind (M := fun raised => raised.elim (Q ()) fun _ => M)
  · apply triple_attempt
    apply triple_weaken inner (fun _ => id) (fun _ _ => id)
    intro failure st holds
    cases failure <;> exact holds
  · intro raised
    cases raised with
    | none => exact triple_pure fun _ => id
    | some e => exact triple_bind (last e) fun _ _ holds => holds

end Rules

/-! Steps that touch no message -/

def Command.touchesMessages : Command → Bool
  | .search .. | .copy .. | .addFlags .. => true
  | _ => false

def OnCommands (P : List Command → Prop) (st : State) : Prop := P st.commands

section Quiet
variable {P : List Command → Prop} {server : Server} {o : Options} {host : String}

theorem issue_keeps {c : Command} (one : ∀ h, P h → P (h ++ [c])) :
    Keeps (OnCommands P) (issue server c) := triple_issue fun st => one st.commands

theorem note_keeps (r : Record) : Keeps (OnCommands P) (note r) := triple_note fun _ => id

theorem get_keeps : Keeps (OnCommands P) (get : LiveStep State) := triple_get fun _ => id

theorem throw_keeps {α : Type} (failure : Failure) :
    Keeps (OnCommands P) (throw failure : LiveStep α) := fun _ => id

theorem perform_keeps {c : Command} {session : Session} {operation : String}
    (one : ∀ h, P h → P (h ++ [c])) : Keeps (OnCommands P) (perform server session operation c) :=
  triple_perform (fun st holds _ => one st.commands holds) fun st _ holds _ => one st.commands holds

theorem modify_keeps {g : State → State} (same : ∀ st, (g st).commands = st.commands) :
    Keeps (OnCommands P) (modify g : LiveStep Unit) :=
  triple_modify fun st holds => by simpa [OnCommands, same] using holds

theorem authenticate_keeps {c : Credentials} (one : ∀ h (s : Scheme), P h → P (h ++ [s.command c]))
    (schemes : List Scheme) : Keeps (OnCommands P) (authenticate server o host c schemes) := by
  induction schemes with
  | nil => exact throw_keeps _
  | cons scheme rest ih =>
    apply keeps_bind (issue_keeps fun h => one h scheme)
    intro refused
    cases refused with
    | none => exact note_keeps _
    | some r =>
      dsimp only
      split
      · exact keeps_bind (note_keeps _) fun _ => ih
      · exact throw_keeps _

theorem shutdown_issues {Q : List Command → Prop} (one : ∀ h, P h → Q (h ++ [.shutdown])) :
    Triple (OnCommands P) (shutdown server o host) (fun _ => OnCommands Q) fun _ => OnCommands Q := by
  apply triple_bind (M := fun _ => OnCommands Q) (triple_issue fun st => one st.commands)
  intro refused
  cases refused with
  | none => exact keeps_pure _
  | some r =>
    dsimp only
    split
    · exact note_keeps _
    · exact throw_keeps _

theorem secure_keeps (session : Session) (asks : ∀ h, P h → P (h ++ [.hasCapability "STARTTLS"]))
    (starts : ∀ h, P h → P (h ++ [.startTls o.trusts])) :
    Keeps (OnCommands P) (secure server o session) := by
  apply keeps_bind (perform_keeps asks)
  intro _
  apply keeps_bind get_keeps
  intro st
  split
  · exact perform_keeps starts
  · exact keeps_pure _

theorem onError_keeps {I : State → Prop} {body cleanup : LiveStep Unit} (inner : Keeps I body)
    (last : Keeps I cleanup) : Keeps I (onError body cleanup) := by
  refine triple_onError (M := I) (E := fun _ => I) ?_ fun _ => last
  apply triple_weaken inner (fun _ => id) (fun _ _ => id)
  intro failure st holds
  cases failure <;> exact holds

theorem currentSession_keeps : Keeps (OnCommands P) currentSession := by
  apply keeps_bind get_keeps
  intro st
  split
  · exact keeps_pure _
  · exact throw_keeps _

theorem currentMailbox_keeps : Keeps (OnCommands P) currentMailbox := by
  apply keeps_bind get_keeps
  intro st
  split
  · exact keeps_pure _
  · exact throw_keeps _

theorem closeFolder_keeps (session : Session) (closes : ∀ h, P h → P (h ++ [.closeFolder])) :
    Keeps (OnCommands P) (session.closeFolder server) := perform_keeps closes

section Leaving
variable (asks : ∀ h, P h → P (h ++ [.socket]))
  (limits : ∀ h, P h → P (h ++ [.setTimeout o.logoutTimeout])) (leaves : ∀ h, P h → P (h ++ [.logout]))
include asks limits leaves

theorem sessionLogout_keeps (session : Session) :
    Keeps (OnCommands P) (session.logout server o) := by
  apply keeps_bind (issue_keeps asks)
  intro refused
  extract_lets rest
  have limited : ∀ u, Keeps (OnCommands P) (rest u) := by
    intro u
    apply keeps_bind (perform_keeps limits)
    intro _
    exact keeps_bind (perform_keeps leaves) fun _ => note_keeps _
  cases refused with
  | none => exact limited ()
  | some r => exact keeps_bind (throw_keeps _) limited

theorem logout_keeps : Keeps (OnCommands P) (logout server o) := by
  intro st holds
  have ended : Keeps (OnCommands P) (do (← currentSession).logout server o) :=
    keeps_bind currentSession_keeps (sessionLogout_keeps asks limits leaves)
  have after := ended st holds
  unfold logout
  split at after <;> rename_i same <;> simpa [same, OnCommands] using after

end Leaving

variable (quiet : ∀ h c, c.touchesMessages = false → P h → P (h ++ [c]))
include quiet

theorem openSession_keeps (flags : Flags) (c : Credentials) :
    Keeps (OnCommands P) (openSession server o host flags c) := by
  apply keeps_bind (keeps_outcome (splitHost host _))
  rintro ⟨name, port⟩
  apply keeps_bind (issue_keeps fun h => quiet h _ rfl)
  intro refused
  extract_lets session attempt rest
  have logsIn : ∀ u, Keeps (OnCommands P) (rest u) := by
    intro u
    have authenticated : Keeps (OnCommands P) (authenticate server o host c (Scheme.enabled flags)) :=
      authenticate_keeps (fun h scheme => quiet h _ (by cases scheme <;> rfl)) _
    apply keeps_bind (onError_keeps _ (shutdown_issues fun h => quiet h _ rfl))
    · intro _
      exact keeps_bind (note_keeps _) fun _ => keeps_pure _
    · split
      · apply keeps_bind (secure_keeps _ (fun h => quiet h _ rfl) fun h => quiet h _ rfl)
        exact fun _ => authenticated
      · exact authenticated
  cases refused with
  | none => exact logsIn ()
  | some r =>
    dsimp only
    split <;> exact keeps_bind (throw_keeps _) logsIn

theorem connect_keeps (flags : Flags) (c : Credentials) :
    Keeps (OnCommands P) (connect server o host flags c) :=
  keeps_bind (openSession_keeps quiet flags c) fun _ => modify_keeps fun _ => rfl

end Quiet

/-! Steps of a rule -/

section Busy
variable {P : List Command → Prop} {server : Server} {o : Options}

theorem currentRule_keeps : Keeps (OnCommands P) currentRule := by
  apply keeps_bind get_keeps
  intro st
  split
  · exact keeps_pure _
  · exact throw_keeps _

theorem newRule_keeps : Keeps (OnCommands P) newRule :=
  keeps_bind currentMailbox_keeps fun _ => modify_keeps fun _ => rfl

theorem append_keeps (t : Token) : Keeps (OnCommands P) (append t) :=
  keeps_bind currentRule_keeps fun _ => modify_keeps fun _ => rfl

variable (busy : ∀ h c, c.touchesMessages = true → P h → P (h ++ [c]))
include busy

theorem searchFor_keeps (session : Session) (tokens : List Token) :
    Keeps (OnCommands P) (session.searchFor server o tokens) := by
  unfold Session.searchFor
  extract_lets ascii rest
  have asked : ∀ criteria, Keeps (OnCommands P) (rest criteria) := by
    intro criteria
    apply keeps_bind (perform_keeps fun h => busy h _ rfl)
    intro _
    apply keeps_bind get_keeps
    intro st
    exact keeps_bind (note_keeps _) fun _ => keeps_pure _
  split
  · exact asked _
  · exact keeps_bind (keeps_outcome _) asked

theorem search_keeps : Keeps (OnCommands P) (search server o) := by
  apply keeps_bind currentRule_keeps
  intro r
  exact keeps_bind (searchFor_keeps busy r.session r.tokens) fun _ => modify_keeps fun _ => rfl

theorem move_keeps (destination : String) : Keeps (OnCommands P) (move server o destination) := by
  apply keeps_bind currentRule_keeps
  intro r
  split
  · exact keeps_bind (perform_keeps fun h => busy h _ rfl) fun _ => note_keeps _
  · exact keeps_pure _

theorem mark_keeps : Keeps (OnCommands P) (mark server o) := by
  apply keeps_bind currentRule_keeps
  intro r
  split
  · exact keeps_bind (perform_keeps fun h => busy h _ rfl) fun _ => note_keeps _
  · exact keeps_pure _

end Busy
end MailRules.Live
