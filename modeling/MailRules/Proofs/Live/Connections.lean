import MailRules.Proofs.Sweep.Run
import MailRules.Proofs.Live.Deletion
/-!
What becomes of connections. A history of commands is settled when each accepted dial in it has been dealt
with: the connection was logged out or shut down before the next dial, or a time limit for its logout was
refused, and then that was the last command on it. Between two accounts the history is settled; while an
account is worked on, its connection is open.
-/
namespace MailRules.Live
open MailRules.Search MailRules.Sweep MailRules.Sweep.Step MailRules.Calendar

def Command.isDial : Command → Bool
  | .dial .. => true
  | _ => false

def Command.isRelease : Command → Bool
  | .logout | .shutdown => true
  | _ => false

/-- The commands on a connection are those up to the next dial. -/
def onConnection (after : List Command) : List Command := after.takeWhile fun c => !c.isDial

def Released (share : List Command) : Prop := ∃ c ∈ share, c.isRelease = true

/-- The last of the commands sets a time limit, and it is refused. -/
def LimitRefused (server : Server) (history share : List Command) : Prop :=
  ∃ front seconds, share = front ++ [.setTimeout seconds] ∧
    server.refusal (history ++ front) (.setTimeout seconds) ≠ none

/-- Either the connection is released, or the time limit of its logout is refused. -/
def DealtWith (server : Server) (history share : List Command) : Prop :=
  Released share ↔ ¬ LimitRefused server history share

/-- The history is made of refused dials and of connections that have been dealt with. -/
inductive Settled (server : Server) : List Command → Prop
  | nil : Settled server []
  | refused {history : List Command} {c : Command} (settled : Settled server history)
      (dial : c.isDial = true) (refused : server.refusal history c ≠ none) :
      Settled server (history ++ [c])
  | connection {history share : List Command} {c : Command} (settled : Settled server history)
      (dial : c.isDial = true) (one : ∀ x ∈ share, x.isDial = false)
      (dealt : DealtWith server (history ++ [c]) share) : Settled server (history ++ c :: share)

/-- After a settled history a dial was accepted, and its connection is not released. -/
def Open (server : Server) (history : List Command) : Prop :=
  ∃ before c share, history = before ++ c :: share ∧ Settled server before ∧ c.isDial = true ∧
    (∀ x ∈ share, x.isDial = false) ∧ ¬ Released share

variable {server : Server} {history share : List Command} {c : Command}

theorem onConnection_of_no_dial (none : ∀ x ∈ share, x.isDial = false) :
    onConnection share = share :=
  List.takeWhile_eq_self_iff.mpr fun x member => by simp [none x member]

theorem onConnection_append_dial (dial : c.isDial = true) (first rest : List Command) :
    onConnection (first ++ c :: rest) = onConnection first := by
  simp only [onConnection, List.takeWhile_append, dial, List.takeWhile_cons, Bool.not_true,
    Bool.false_eq_true, if_false, List.append_nil]
  split
  · rename_i whole
    exact ((List.takeWhile_prefix _).eq_of_length whole).symm
  · rfl

/-- Every accepted dial of a settled history has been dealt with. -/
theorem settled_dealt (settled : Settled server history) {before after : List Command}
    (split : history = before ++ c :: after) (dial : c.isDial = true)
    (accepted : server.refusal before c = none) :
    DealtWith server (before ++ [c]) (onConnection after) := by
  induction settled generalizing after with
  | nil => simp at split
  | @refused history last _ dials refused ih =>
    rcases List.eq_nil_or_concat after with rfl | ⟨after', x, rfl⟩
    · obtain ⟨rfl, same⟩ := List.append_inj' split rfl
      cases same
      exact (refused accepted).elim
    · have longer : history ++ [last] = (before ++ c :: after') ++ [x] := by simpa using split
      obtain ⟨inner, same⟩ := List.append_inj' longer rfl
      cases same
      rw [List.concat_eq_append, onConnection_append_dial dials]
      exact ih inner
  | @connection history share first _ dials one dealt ih =>
    rcases List.append_eq_append_iff.mp split with ⟨_ | ⟨y, more⟩, rfl, inner⟩ | ⟨_ | ⟨y, more⟩, rfl, inner⟩
    · obtain ⟨rfl, rfl⟩ := List.cons_eq_cons.mp inner
      rw [onConnection_of_no_dial one]
      simpa using dealt
    · -- A dial after the last one would be on its connection.
      obtain ⟨rfl, rfl⟩ := List.cons_eq_cons.mp inner
      have other := one c (by simp)
      simp [dial] at other
    · obtain ⟨rfl, rfl⟩ := List.cons_eq_cons.mp inner
      rw [onConnection_of_no_dial one]
      simpa using dealt
    · obtain ⟨rfl, rfl⟩ := List.cons_eq_cons.mp inner
      change DealtWith server (before ++ [c]) (onConnection (more ++ first :: share))
      rw [onConnection_append_dial dials]
      exact ih rfl

/-! How a history goes on -/

theorem open_dial (settled : Settled server history) (dial : c.isDial = true) :
    Open server (history ++ [c]) :=
  ⟨history, c, [], rfl, settled, dial, by simp, by simp [Released]⟩

theorem released_snoc : Released (share ++ [c]) ↔ Released share ∨ c.isRelease = true := by
  simp [Released, or_and_right, exists_or]

theorem open_snoc (noDial : c.isDial = false) (noRelease : c.isRelease = false)
    (opened : Open server history) : Open server (history ++ [c]) := by
  obtain ⟨before, first, share, rfl, settled, dial, one, held⟩ := opened
  refine ⟨before, first, share ++ [c], by simp, settled, dial, ?_, ?_⟩
  · intro x member
    rcases List.mem_append.mp member with old | new
    · exact one x old
    · rw [List.mem_singleton.mp new]
      exact noDial
  · simp [released_snoc, held, noRelease]

theorem settled_last (opened : Open server history) (noDial : c.isDial = false)
    (deals : ∀ before first share, history = before ++ first :: share → ¬ Released share →
      DealtWith server (before ++ [first]) (share ++ [c])) : Settled server (history ++ [c]) := by
  obtain ⟨before, first, share, rfl, settled, dial, one, held⟩ := opened
  have dealt := deals before first share rfl held
  have none : ∀ x ∈ share ++ [c], x.isDial = false := by
    intro x member
    rcases List.mem_append.mp member with old | new
    · exact one x old
    · rw [List.mem_singleton.mp new]
      exact noDial
  simpa using Settled.connection settled dial none dealt

theorem settled_release (release : c.isRelease = true) (opened : Open server history) :
    Settled server (history ++ [c]) := by
  apply settled_last opened (by cases c <;> first | rfl | cases release)
  intro before first share _ _
  have released : Released (share ++ [c]) := released_snoc.mpr (Or.inr release)
  refine iff_of_true released ?_
  rintro ⟨front, seconds, same, _⟩
  obtain ⟨_, last⟩ := List.append_inj' same rfl
  cases last
  cases release

theorem settled_limit_refused {seconds : Number.Double} (opened : Open server history)
    (refused : server.refusal history (.setTimeout seconds) ≠ none) :
    Settled server (history ++ [.setTimeout seconds]) := by
  apply settled_last opened rfl
  rintro before first share rfl held
  have limit : LimitRefused server (before ++ [first]) (share ++ [.setTimeout seconds]) :=
    ⟨share, seconds, rfl, by simpa using refused⟩
  refine iff_of_false ?_ (not_not_intro limit)
  simpa [released_snoc, Command.isRelease] using held

/-! The steps of an account -/

section Steps
variable {o : Options}

/-- Errors leave the history settled. Nothing is said of faults: they end the run. -/
def Stops (server : Server) : Failure → State → Prop
  | .error _, st => OnCommands (Settled server) st
  | .fault _, _ => True

theorem stays_open (c : Command) (noDial : c.isDial = false) (noRelease : c.isRelease = false) :
    ∀ h, Open server h → Open server (h ++ [c]) := fun _ => open_snoc noDial noRelease

theorem stops_of_settled (failure : Failure) (st : State) (settled : OnCommands (Settled server) st) :
    Stops server failure st := by
  cases failure with
  | error e => exact settled
  | fault f => trivial

theorem stops_of_keeps {α : Type} {s : LiveStep α} (keeps : Keeps (OnCommands (Settled server)) s) :
    Triple (OnCommands (Settled server)) s (fun _ => OnCommands (Settled server)) (Stops server) :=
  triple_weaken keeps (fun _ => id) (fun _ _ => id) stops_of_settled

theorem authenticates_open (host : String) (credentials : Credentials) (schemes : List Scheme) :
    Keeps (OnCommands (Open server)) (authenticate server o host credentials schemes) :=
  authenticate_keeps (fun h scheme => stays_open _ (by cases scheme <;> rfl) (by cases scheme <;> rfl) h) _

theorem secures_open (session : Session) : Keeps (OnCommands (Open server)) (secure server o session) :=
  secure_keeps session (stays_open _ rfl rfl) (stays_open _ rfl rfl)

theorem openSession_opens (host : String) (flags : Flags) (credentials : Credentials) :
    Triple (OnCommands (Settled server)) (openSession server o host flags credentials)
      (fun _ => OnCommands (Open server)) (Stops server) := by
  apply triple_bind (stops_of_keeps (keeps_outcome (splitHost host _)))
  rintro ⟨name, port⟩
  apply triple_bind (M := fun refused =>
    OnCommands (refused.elim (Open server) fun _ => Settled server))
  · apply triple_issue
    intro st settled
    match answer : server.refusal st.commands (.dial name port (!flags.noTls) o.trusts) with
    | none => exact open_dial settled rfl
    | some r =>
      have refused : server.refusal st.commands (.dial name port (!flags.noTls) o.trusts) ≠ none := by
        simp [answer]
      exact Settled.refused settled rfl refused
  · intro refused
    extract_lets session logIn rest
    have readies : ∀ u, Triple (OnCommands (Open server)) (rest u) (fun _ => OnCommands (Open server))
        (Stops server) := by
      intro u
      apply triple_bind (M := fun _ => OnCommands (Open server))
      · apply triple_onError (M := OnCommands (Open server))
        · have body : Keeps (OnCommands (Open server)) (do
              if !!flags.noTls then secure server o session
              authenticate server o host credentials (Scheme.enabled flags)) := by
            split
            · exact keeps_bind (secures_open session) fun _ => authenticates_open host credentials _
            · exact authenticates_open host credentials _
          apply triple_weaken body (fun _ => id) (fun _ _ => id)
          intro failure st opened
          cases failure with
          | error e => exact opened
          | fault f => trivial
        · intro e
          exact triple_weaken (shutdown_issues fun h => settled_release rfl) (fun _ => id) (fun _ _ => id)
            stops_of_settled
      · intro _
        exact triple_bind (triple_note fun _ => id) fun _ => triple_pure fun _ => id
    cases refused with
    | none => exact readies ()
    | some r =>
      dsimp only [Option.elim]
      split
      · exact triple_bind (fun _ settled => settled) readies
      · exact triple_bind (fun _ _ => trivial) readies

theorem connect_opens (host : String) (flags : Flags) (credentials : Credentials) :
    Triple (OnCommands (Settled server)) (connect server o host flags credentials)
      (fun _ => OnCommands (Open server)) (Stops server) :=
  triple_bind (openSession_opens host flags credentials) fun _ => triple_modify fun _ => id

theorem mailbox_keeps_commands {P : List Command → Prop}
    (busy : ∀ h c, c.touchesMessages = true → P h → P (h ++ [c]))
    (selects : ∀ h name, P h → P (h ++ [.selectFolder name false]))
    (closes : ∀ h, P h → P (h ++ [.closeFolder])) (now : Moment) (m : Mailbox) :
    Keeps (OnCommands P) (mailbox (family server o) now m) := by
  apply mailbox_keeps (J := OnCommands P) fun _ => id
  · apply keeps_bind currentMailbox_keeps
    intro session
    exact keeps_bind (perform_keeps fun h => selects h m.name) fun _ => note_keeps _
  · intro r _
    apply keeps_bind newRule_keeps
    intro _
    exact (keeping _).rule (f := family server o) (g := family server o) append_keeps (search_keeps busy)
      (move_keeps busy) (mark_keeps busy) r
  · exact keeps_bind currentMailbox_keeps fun session => closeFolder_keeps session closes

theorem mailbox_open (now : Moment) (m : Mailbox) :
    Keeps (OnCommands (Open server)) (mailbox (family server o) now m) := by
  apply mailbox_keeps_commands
  · exact fun h c touches => stays_open c (by cases c <;> first | rfl | cases touches)
      (by cases c <;> first | rfl | cases touches) h
  · exact fun h name => stays_open _ rfl rfl h
  · exact stays_open _ rfl rfl

theorem sessionLogout_settles (session : Session) :
    Triple (OnCommands (Open server)) (session.logout server o)
      (fun _ => OnCommands (Settled server)) (Stops server) := by
  apply triple_bind (M := fun _ => OnCommands (Open server))
  · exact triple_issue fun st opened => stays_open .socket rfl rfl _ opened
  · intro refused
    extract_lets rest
    have limited : ∀ u, Triple (OnCommands (Open server)) (rest u)
        (fun _ => OnCommands (Settled server)) (Stops server) := by
      intro u
      apply triple_bind (M := fun _ => OnCommands (Open server))
      · apply triple_perform_answered
        · exact fun st opened _ => stays_open _ rfl rfl _ opened
        · intro st r failure opened answer _
          exact stops_of_settled failure _ (settled_limit_refused opened (by simp [answer]))
      · intro _
        apply triple_bind (M := fun _ => OnCommands (Settled server))
        · apply triple_perform
          · exact fun st opened _ => settled_release rfl opened
          · exact fun st failure opened _ =>
              stops_of_settled failure _ (settled_release rfl opened)
        · exact fun _ => triple_note fun _ => id
    cases refused with
    | none => exact limited ()
    | some r => exact triple_bind (fun _ _ => trivial) limited

theorem logout_settles : Triple (OnCommands (Open server)) (logout server o)
    (fun _ => OnCommands (Settled server)) (Stops server) := by
  intro st opened
  have ended : Triple (OnCommands (Open server)) (do (← currentSession).logout server o)
      (fun _ => OnCommands (Settled server)) (Stops server) := by
    apply triple_bind (M := fun _ => OnCommands (Open server))
    · apply triple_bind (triple_get fun st opened => opened)
      intro st
      split
      · exact triple_pure fun _ => id
      · exact fun _ _ => trivial
    · exact sessionLogout_settles
  have after := ended st opened
  unfold logout
  split at after <;> rename_i same
  · simpa [same, OnCommands] using after
  · rename_i failure _
    cases failure with
    | error e => simpa [same, OnCommands, Stops] using after
    | fault f => simp [same, Stops]

theorem account_settled (now : Moment) (a : Account) :
    Triple (OnCommands (Settled server)) (account (family server o) now a)
      (fun _ => OnCommands (Settled server)) (Stops server) := by
  apply triple_bind (connect_opens a.host a.flags a.credentials)
  intro _
  have mailboxes : Keeps (OnCommands (Open server)) (collectEach a.mailboxes fun m => do
      (family server o).newMailbox
      mailbox (family server o) now m) := by
    apply keeps_collectEach
    intro m _
    apply keeps_bind
    · exact keeps_bind currentSession_keeps fun _ => modify_keeps fun _ => rfl
    · exact fun _ => mailbox_open now m
  have logsOut : Triple (OnCommands (Open server)) (logout server o).leaving.collected
      (fun _ => OnCommands (Settled server)) (Stops server) := by
    apply triple_collected
    apply triple_leaving
    apply triple_weaken logout_settles (fun _ => id) (fun _ _ => id)
    intro failure st stopped
    cases failure <;> exact stopped
  apply triple_bind (M := fun _ => OnCommands (Settled server))
  · exact triple_released mailboxes (fun _ => logsOut) fun failure =>
      triple_weaken logsOut (fun _ => id) (fun _ => stops_of_settled failure) fun _ _ => id
  · exact fun errors => stops_of_keeps (keeps_raise errors)

theorem pass_settled (now : Moment) (d : Document) :
    Triple (OnCommands (Settled server)) (pass (family server o) now d)
      (fun _ => OnCommands (Settled server)) (Stops server) := by
  apply triple_collectEach fun _ _ => OnCommands (Settled server)
  intro done a rest errors _
  apply triple_bind (M := fun _ => OnCommands (Settled server))
  · exact triple_modify fun _ => id
  · intro _
    apply triple_weaken (account_settled now a) (fun _ => id) (fun _ _ => id)
    intro failure st stopped
    cases failure <;> exact stopped

end Steps

/-! Runs -/

def runOutcome (server : Server) (o : Options) (component : String) (now : Moment) (d : Document) :
    Except Failure Unit :=
  (run (family server o) (Family.idle Unit) component now d {} ()).outcome

def EndsLive (server : Server) (o : Options) (component : String) (now : Moment) (d : Document) : Prop :=
  runOutcome server o component now d = .ok () ∨
    ∃ errors, runOutcome server o component now d = .error (.error (.runFailed errors))

theorem run_settled {o : Options} {component : String} {now : Moment} {d : Document}
    (ended : EndsLive server o component now d) :
    Settled server (runCommands server o component now d) := by
  unfold EndsLive runOutcome at ended
  unfold runCommands
  by_cases passed : (pass (Family.idle Unit) now d ()).1 = .ok []
  · obtain ⟨commands, outcome⟩ := run_passed (family server o) (Family.idle Unit) component now d {} ()
      passed
    have settles : Triple (OnCommands (Settled server)) (pass (family server o) now d)
        (fun _ => OnCommands (Settled server)) (Stops server) := pass_settled now d
    have settled := settles {} .nil
    rw [commands]
    match same : pass (family server o) now d {} with
    | (.ok errors, st) =>
      rw [same] at settled
      exact settled
    | (.error failure, st) =>
      obtain ⟨f, rfl⟩ := pass_fails_by_fault (family server o) now d {} (congrArg Prod.fst same)
      rw [outcome, same] at ended
      simp [ending] at ended
  · rw [(run_refused (family server o) (Family.idle Unit) component now d {} () passed).1]
    exact .nil

/-- In a run that comes to the end of its live pass, each opened connection is logged out or shut down
before the next one is opened and before the end, unless the time limit for its logout is refused; then it
is left as it is. -/
theorem released_iff_limit_not_refused {o : Options} {component : String} {now : Moment} {d : Document}
    (ended : EndsLive server o component now d) {before after : List Command} {name : String} {port : Nat}
    {tls trusts : Bool}
    (split : runCommands server o component now d = before ++ .dial name port tls trusts :: after)
    (accepted : server.refusal before (.dial name port tls trusts) = none) :
    Released (onConnection after) ↔
      ¬ LimitRefused server (before ++ [.dial name port tls trusts]) (onConnection after) :=
  settled_dealt (run_settled ended) split rfl accepted

def refusesFirstLimit : Server where
  refusal := fun h c => match c with
    | .setTimeout _ => if h.length < 4 then some ⟨.transport, "OSError", "gone"⟩ else none
    | _ => none
  hasCapability := fun _ _ => false
  found := fun _ => []

def twoAccounts : Document :=
  ⟨"c", [⟨"g", {}, {}, [], ⟨"c", 2, 3⟩⟩, ⟨"h", {}, {}, [], ⟨"c", 3, 3⟩⟩]⟩

def limitSet : List Command := [.saslLogin "EXTERNAL" [], .socket, .setTimeout (.zero false)]

theorem twoAccounts_commands : runCommands refusesFirstLimit plainOptions "live" noon twoAccounts =
    .dial "g" 993 true false :: limitSet ++ .dial "h" 993 true false :: (limitSet ++ [.logout]) := by
  cbv

theorem twoAccounts_ended : EndsLive refusesFirstLimit plainOptions "live" noon twoAccounts := by
  have outcome : runOutcome refusesFirstLimit plainOptions "live" noon twoAccounts =
      .error (.error (.runFailed [.protocol "logout" "g: gone"])) := by cbv
  exact Or.inr ⟨_, outcome⟩

theorem twoAccounts_dealt_with :
    EndsLive refusesFirstLimit plainOptions "live" noon twoAccounts ∧
      (Released limitSet ↔
        ¬ LimitRefused refusesFirstLimit [.dial "g" 993 true false] limitSet) ∧
      (Released (limitSet ++ [.logout]) ↔
        ¬ LimitRefused refusesFirstLimit
          (.dial "g" 993 true false :: limitSet ++ [.dial "h" 993 true false]) (limitSet ++ [.logout])) := by
  have first : runCommands refusesFirstLimit plainOptions "live" noon twoAccounts =
      [] ++ .dial "g" 993 true false ::
        (limitSet ++ .dial "h" 993 true false :: (limitSet ++ [.logout])) := twoAccounts_commands
  exact ⟨twoAccounts_ended, released_iff_limit_not_refused twoAccounts_ended first rfl,
    released_iff_limit_not_refused twoAccounts_ended twoAccounts_commands rfl⟩

/-- A connection may be left as it is: the logout gives up when its time limit is refused. -/
theorem left_connected : ¬ ∀ server o component now d, EndsLive server o component now d →
    ∀ before name port tls trusts after,
      runCommands server o component now d = before ++ .dial name port tls trusts :: after →
      server.refusal before (.dial name port tls trusts) = none → Released (onConnection after) := by
  intro always
  have released := always _ _ _ _ _ twoAccounts_ended [] _ _ _ _ _ twoAccounts_commands rfl
  obtain ⟨c, member, release⟩ := released
  have share : c ∈ limitSet := member
  simp only [limitSet, List.mem_cons, List.not_mem_nil, or_false] at share
  rcases share with rfl | rfl | rfl <;> cases release

end MailRules.Live
