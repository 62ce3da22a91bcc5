import MailRules.Proofs.Sweep.Gate
import MailRules.Proofs.Sweep.Release
import MailRules.Proofs.Live.Reporting
import MailRules.Proofs.Live.Operations
/-!
What keeps a run from its end. Nothing that a session or a set-up meets does, unless it is a refusal that is
not foreseen or a port that cannot be read; until then all accounts are processed, whatever is refused. The
invariant is that of a pass that is watched: either no request has ended in a fault, and then all that was
refused so far is foreseen, or one has, and then something was not.
-/
namespace MailRules.Live
open MailRules.Search MailRules.Sweep MailRules.Sweep.Step MailRules.Calendar

inductive Stage
  | account
  | session
  | mailbox
  | rule

def Stage.At : Stage → State → Prop
  | account, _ => True
  | session, st => st.session ≠ none
  | mailbox, st => st.session ≠ none ∧ st.mailbox ≠ none
  | rule, st => st.session ≠ none ∧ st.mailbox ≠ none ∧ st.rule ≠ none

/-- All that was refused is foreseen, and just the accounts that are done or begun have been dialled. -/
structure Working (server : Server) (o : Options) (begun : List Account) (stage : Stage) (st : State) :
    Prop where
  foreseen : Foreseen server [] st.commands
  dialled : st.commands.filter Command.isDial = begun.flatMap fun a => (dialOf o a.host a.flags).toList
  readable : ∀ a ∈ begun, ¬ PortUnreadable a.host
  reached : stage.At st

/-- Some refusal is not foreseen, or some port cannot be read. -/
def Doomed (server : Server) (d : Document) : State → Prop :=
  OnCommands fun h => ¬ Foreseen server [] h ∨ ∃ a ∈ d.accounts, PortUnreadable a.host

def Falls (W : State → Prop) (server : Server) (d : Document) : Failure → State → Prop
  | .error e, st => W st ∧ e.OfSetUp
  | .fault _, st => Doomed server d st

section Steps
variable {server : Server} {o : Options} {begun : List Account} {stage : Stage} {d : Document} {st : State}

theorem Stage.at_issued {commands : List Command} {log : List Log.Record} (reached : stage.At st) :
    stage.At { st with commands := commands, log := log } := by
  cases stage <;> exact reached

theorem Working.weaken {stage' : Stage} (working : Working server o begun stage st)
    (weaker : stage.At st → stage'.At st) : Working server o begun stage' st :=
  ⟨working.foreseen, working.dialled, working.readable, weaker working.reached⟩

theorem Working.issued {cs : List Command} {log : List Log.Record} (working : Working server o begun stage st)
    (foreseen : Foreseen server st.commands cs) (noDial : ∀ c ∈ cs, c.isDial = false) :
    Working server o begun stage { st with commands := st.commands ++ cs, log := log } where
  foreseen := (throughout_append _ _).mpr ⟨working.foreseen, foreseen⟩
  dialled := by simp [filter_no_dial noDial, working.dialled]
  readable := working.readable
  reached := Stage.at_issued working.reached

theorem Working.begins {a : Account} {cs : List Command} {log : List Log.Record}
    (working : Working server o begun .account st) (foreseen : Foreseen server st.commands cs)
    (dialled : cs.filter Command.isDial = (dialOf o a.host a.flags).toList)
    (readable : ¬ PortUnreadable a.host) :
    Working server o (begun ++ [a]) .account { st with commands := st.commands ++ cs, log := log } where
  foreseen := (throughout_append _ _).mpr ⟨working.foreseen, foreseen⟩
  dialled := by simp [working.dialled, dialled]
  readable := List.forall_mem_append.mpr ⟨working.readable, by simpa using readable⟩
  reached := trivial

theorem doomed_issued {cs : List Command} {log : List Log.Record}
    (unforeseen : ¬ Foreseen server st.commands cs) :
    Doomed server d { st with commands := st.commands ++ cs, log := log } :=
  Or.inl fun all => unforeseen ((throughout_append st.commands cs).mp all).2

/-! Operations -/

theorem foreseen_of_accepts {h cs : List Command} (accepted : Accepts server h cs) :
    Foreseen server h cs := by
  induction cs generalizing h with
  | nil => trivial
  | cons c cs ih => exact ⟨by simp [accepted.1], ih accepted.2⟩

theorem operation_no_dial {op : Operation} {cs : List Command} (planned : op.commands o = .ok cs) :
    ∀ c ∈ cs, c.isDial = false := by
  cases op with
  | search tokens =>
    unfold Operation.commands at planned
    cases written : Operation.criteria tokens with
    | ok criteria =>
      simp only [written, Except.map, Except.ok.injEq] at planned
      simp [← planned, Command.isDial]
    | error e => simp [written, Except.map] at planned
  | _ =>
    cases planned
    simp [Command.isDial]

theorem operation_works (op : Operation) (s : Session) :
    Triple (Working server o begun stage) (op.step server o s) (fun _ => Working server o begun stage)
      (Falls (Working server o begun stage) server d) := by
  apply triple_of_issues fun st _ => operation_concludes op
  · intro st cs log _ working ended
    cases ended with
    | done planned accepted => exact working.issued (foreseen_of_accepts accepted) (operation_no_dial planned)
  · intro st cs log failure working ended
    cases ended with
    | unwritten planned => exact ⟨working.issued trivial (by simp), trivial⟩
    | @reported front rest c r planned accepted answer expected =>
      have noDial := operation_no_dial planned
      refine ⟨working.issued ?_ ?_, trivial⟩
      · exact (throughout_snoc front).mpr ⟨foreseen_of_accepts accepted, by simp [answer, expected]⟩
      · intro x member
        apply noDial x
        simp only [List.mem_append, List.mem_cons, List.not_mem_nil, or_false] at member ⊢
        tauto
    | @escaped front rest c r planned accepted answer unexpected =>
      apply doomed_issued
      intro all
      have expected := ((throughout_snoc front).mp all).2 r answer
      simp [unexpected] at expected

/-! Requests -/

theorem begun_found {β : Type} {current : LiveStep β} {E : Failure → State → Prop}
    (found : ∀ st, stage.At st → ∃ b, current st = (.ok b, st)) :
    Triple (Working server o begun stage) current (fun _ => Working server o begun stage) E := by
  intro st working
  obtain ⟨b, same⟩ := found st working.reached
  rw [same]
  exact working

theorem currentSession_found {E : Failure → State → Prop} :
    Triple (Working server o begun .session) currentSession (fun _ => Working server o begun .session) E := by
  apply begun_found
  intro st reached
  obtain ⟨s, found⟩ := Option.ne_none_iff_exists'.mp reached
  exact ⟨s, by simp [currentSession, bind_apply, found]⟩

theorem currentMailbox_found {E : Failure → State → Prop} :
    Triple (Working server o begun .mailbox) currentMailbox (fun _ => Working server o begun .mailbox) E := by
  apply begun_found
  intro st reached
  obtain ⟨s, found⟩ := Option.ne_none_iff_exists'.mp reached.2
  exact ⟨s, by simp [currentMailbox, bind_apply, found]⟩

theorem currentRule_found {E : Failure → State → Prop} :
    Triple (Working server o begun .rule) currentRule (fun _ => Working server o begun .rule) E := by
  apply begun_found
  intro st reached
  obtain ⟨r, found⟩ := Option.ne_none_iff_exists'.mp reached.2.2
  exact ⟨r, by simp [currentRule, bind_apply, found]⟩

theorem Working.rule_changed {rule : Option OpenRule} (working : Working server o begun .rule st)
    (some : rule ≠ none) : Working server o begun .rule { st with rule := rule } :=
  ⟨working.foreseen, working.dialled, working.readable, working.reached.1, working.reached.2.1, some⟩

theorem newMailbox_works : Triple (Working server o begun .session) newMailbox
    (fun _ => Working server o begun .mailbox) (Falls (Working server o begun .session) server d) := by
  apply triple_bind currentSession_found
  intro s
  apply triple_modify
  exact fun st working => ⟨working.foreseen, working.dialled, working.readable, working.reached, by simp⟩

theorem newRule_works : Triple (Working server o begun .mailbox) newRule
    (fun _ => Working server o begun .rule) (Falls (Working server o begun .mailbox) server d) := by
  apply triple_bind currentMailbox_found
  intro s
  apply triple_modify
  exact fun st working =>
    ⟨working.foreseen, working.dialled, working.readable, working.reached.1, working.reached.2, by simp⟩

theorem append_works (t : Token) : Triple (Working server o begun .rule) (append t)
    (fun _ => Working server o begun .rule) (Falls (Working server o begun .rule) server d) := by
  apply triple_bind currentRule_found
  intro r
  exact triple_modify fun st working => working.rule_changed (by simp)

theorem search_works : Triple (Working server o begun .rule) (search server o)
    (fun _ => Working server o begun .rule) (Falls (Working server o begun .rule) server d) := by
  apply triple_bind currentRule_found
  intro r
  apply triple_bind (M := fun _ => Working server o begun .rule)
  · exact triple_of_discard (operation_works (.search r.tokens) r.session)
  · intro found
    exact triple_modify fun st working => working.rule_changed (by simp)

theorem move_works (destination : String) : Triple (Working server o begun .rule) (move server o destination)
    (fun _ => Working server o begun .rule) (Falls (Working server o begun .rule) server d) := by
  apply triple_bind currentRule_found
  intro r
  split
  · exact operation_works (.copy r.matched destination) r.session
  · exact triple_pure fun _ => id

theorem mark_works : Triple (Working server o begun .rule) (mark server o)
    (fun _ => Working server o begun .rule) (Falls (Working server o begun .rule) server d) := by
  apply triple_bind currentRule_found
  intro r
  split
  · exact operation_works (.store r.matched) r.session
  · exact triple_pure fun _ => id

theorem select_works (name : String) :
    Triple (Working server o begun .mailbox) ((family server o).select name)
      (fun _ => Working server o begun .mailbox) (Falls (Working server o begun .mailbox) server d) :=
  triple_bind currentMailbox_found fun s => operation_works (.select name) s

theorem close_works : Triple (Working server o begun .mailbox) (family server o).close
    (fun _ => Working server o begun .mailbox) (Falls (Working server o begun .mailbox) server d) :=
  triple_bind currentMailbox_found fun s => operation_works .close s

theorem logout_works : Triple (Working server o begun .session) (logout server o)
    (fun _ => Working server o begun .account) (Falls (Working server o begun .account) server d) := by
  intro st working
  have ended : Triple (Working server o begun .session) (do (← currentSession).logout server o)
      (fun _ => Working server o begun .session) (Falls (Working server o begun .session) server d) :=
    triple_bind currentSession_found fun s => operation_works .logout s
  have after := ended st working
  have weaker {st : State} (kept : Working server o begun .session st) :
      Working server o begun .account { st with session := none } :=
    ⟨kept.foreseen, kept.dialled, kept.readable, trivial⟩
  unfold logout
  match same : (do (← currentSession).logout server o : LiveStep Unit) st with
  | (.ok (), st') =>
    rw [same] at after
    exact weaker after
  | (.error (.error e), st') =>
    rw [same] at after
    exact ⟨weaker after.1, after.2⟩
  | (.error (.fault x), st') =>
    rw [same] at after
    exact after

theorem connect_works (a : Account) (listed : a ∈ d.accounts) :
    Triple (Working server o begun .account) (connect server o a.host a.flags a.credentials)
      (fun _ => Working server o (begun ++ [a]) .session)
      (Falls (Working server o (begun ++ [a]) .account) server d) := by
  apply triple_bind (M := fun _ => Working server o (begun ++ [a]) .account)
  · apply triple_of_issues fun st _ => openSession_issues
    · rintro st cs log s working ⟨dialled, ended⟩
      cases ended with
      | reported reports readable foreseen => exact working.begins foreseen dialled readable
    · rintro st cs log failure working ⟨dialled, ended⟩
      cases ended with
      | reported reports readable foreseen =>
        cases reports <;> exact ⟨working.begins foreseen dialled readable, ‹_›⟩
      | fault unforeseen =>
        -- A port that cannot be read dooms the pass before anything is dialled.
        by_cases unreadable : PortUnreadable a.host
        · exact Or.inr ⟨a, listed, unreadable⟩
        · exact doomed_issued (unforeseen unreadable)
  · intro s
    exact triple_modify fun st working =>
      ⟨working.foreseen, working.dialled, working.readable, by simp [Stage.At]⟩

theorem answer_keeps {P : List Command → Prop} (every : ∀ h c, P h → P (h ++ [c])) (q : Request) :
    Keeps (OnCommands P) ((family server o).answer q) := by
  have quiet : ∀ h c, c.touchesMessages = false → P h → P (h ++ [c]) := fun h c _ => every h c
  have busy : ∀ h c, c.touchesMessages = true → P h → P (h ++ [c]) := fun h c _ => every h c
  cases q with
  | newAccount => exact modify_keeps fun _ => rfl
  | connect host flags credentials => exact connect_keeps quiet flags credentials
  | newMailbox => exact keeps_bind currentSession_keeps fun _ => modify_keeps fun _ => rfl
  | select name =>
    apply keeps_bind currentMailbox_keeps
    intro s
    exact keeps_bind (perform_keeps fun h => every h _) fun _ => note_keeps _
  | newRule => exact newRule_keeps
  | append token => exact append_keeps token
  | search => exact search_keeps busy
  | move destination => exact move_keeps busy destination
  | mark => exact mark_keeps busy
  | close => exact keeps_bind currentMailbox_keeps fun s => closeFolder_keeps s fun h => every h _
  | logout => exact logout_keeps (fun h => every h _) (fun h => every h _) fun h => every h _

theorem answer_keeps_doomed (q : Request) : Keeps (Doomed server d) ((family server o).answer q) := by
  apply answer_keeps
  rintro h c (unforeseen | unreadable)
  · exact Or.inl fun all => unforeseen ((throughout_snoc h).mp all).1
  · exact Or.inr unreadable

end Steps

/-! Watched passes -/

def Untroubled (events : List Event) : Prop :=
  ∀ e ∈ events, ∀ failure, e.failure = some failure → ∃ error : Error, failure = .error error ∧ error.OfSetUp

/-- Either the pass is untroubled, and it is at work, or a request has ended in a fault, for a reason. -/
def Sure (W : State → Prop) (server : Server) (d : Document) (w : Watched State) : Prop :=
  (Untroubled w.events ∧ W w.state) ∨ (¬ Calm w.events ∧ Doomed server d w.state)

section Passes
variable {server : Server} {o : Options} {begun : List Account} {d : Document} {W W' W'' : State → Prop}

theorem untroubled_snoc {events : List Event} {e : Event} (untroubled : Untroubled events)
    (last : ∀ failure, e.failure = some failure → ∃ error : Error, failure = .error error ∧ error.OfSetUp) :
    Untroubled (events ++ [e]) :=
  List.forall_mem_append.mpr ⟨untroubled, by simpa using last⟩

theorem Sure.weaken {w : Watched State} (sure : Sure W server d w) (weaker : ∀ st, W st → W' st) :
    Sure W' server d w :=
  sure.imp (fun ⟨untroubled, works⟩ => ⟨untroubled, weaker _ works⟩) id

theorem sure_watch {q : Request}
    (answers : Triple W ((family server o).answer q) (fun _ => W') (Falls W'' server d)) :
    Triple (Sure W server d) (watch (family server o) q) (fun _ => Sure W' server d)
      fun _ => Sure W'' server d := by
  -- After a fault it only matters that nothing mends it.
  have doomed {st : State} {events : List Event} {e : Event} {r : Except Failure Unit} {st' : State}
      (troubled : ¬ Calm events) (before : Doomed server d st)
      (answered : (family server o).answer q st = (r, st')) :
      ¬ Calm (events ++ [e]) ∧ Doomed server d st' := by
    refine ⟨fun calm => troubled fun x member => calm x (by simp [member]), ?_⟩
    have kept := answer_keeps_doomed (o := o) q st before
    rw [answered] at kept
    cases r <;> exact kept
  apply triple_watch
  · rintro st events st' (⟨untroubled, works⟩ | ⟨troubled, before⟩) answered
    · have ended := answers st works
      rw [answered] at ended
      exact Or.inl ⟨untroubled_snoc untroubled (by simp), ended⟩
    · exact Or.inr (doomed troubled before answered)
  · rintro st events failure st' (⟨untroubled, works⟩ | ⟨troubled, before⟩) answered
    · have ended := answers st works
      rw [answered] at ended
      cases failure with
      | error e => exact Or.inl ⟨untroubled_snoc untroubled (by simp [ended.2]), ended.1⟩
      | fault x =>
        refine Or.inr ⟨fun calm => ?_, ended⟩
        have none := calm ⟨q, some (.fault x)⟩ (by simp)
        simp [fault?_of_raised] at none
    · exact Or.inr (doomed troubled before answered)

theorem rule_sure (now : Moment) (r : Rule) :
    Keeps (Sure (Working server o begun .mailbox) server d) (do
      (family server o).watched.newRule
      rule (family server o).watched now r) := by
  have toMailbox (w : Watched State) (sure : Sure (Working server o begun .rule) server d w) :
      Sure (Working server o begun .mailbox) server d w :=
    sure.weaken fun st working => working.weaken fun reached => ⟨reached.1, reached.2.1⟩
  apply triple_bind (M := fun _ => Sure (Working server o begun .rule) server d) (sure_watch newRule_works)
  intro _
  have inside : Keeps (Sure (Working server o begun .rule) server d) (rule (family server o).watched now r) :=
    (keeping _).rule (f := (family server o).watched) (g := (family server o).watched)
      (fun t => sure_watch (append_works t)) (sure_watch search_works)
      (fun destination => sure_watch (move_works destination)) (sure_watch mark_works) r
  exact triple_weaken inside (fun _ => id) (fun _ => toMailbox) fun _ => toMailbox

theorem mailbox_sure (now : Moment) (m : Mailbox) :
    Keeps (Sure (Working server o begun .session) server d) (do
      (family server o).watched.newMailbox
      mailbox (family server o).watched now m) := by
  have toSession (w : Watched State) (sure : Sure (Working server o begun .mailbox) server d w) :
      Sure (Working server o begun .session) server d w :=
    sure.weaken fun st working => working.weaken And.left
  apply triple_bind (M := fun _ => Sure (Working server o begun .mailbox) server d)
    (sure_watch newMailbox_works)
  intro _
  have inside : Keeps (Sure (Working server o begun .mailbox) server d)
      (mailbox (family server o).watched now m) :=
    mailbox_keeps (J := Sure (Working server o begun .mailbox) server d) (fun _ => id)
      (sure_watch (select_works m.name)) (fun r _ => rule_sure now r) (sure_watch close_works)
  exact triple_weaken inside (fun _ => id) (fun _ => toSession) fun _ => toSession

theorem account_sure (now : Moment) (a : Account) (listed : a ∈ d.accounts) :
    Triple (Sure (Working server o begun .account) server d) (do
        (family server o).watched.newAccount
        account (family server o).watched now a)
      (fun _ => Sure (Working server o (begun ++ [a]) .account) server d)
      fun _ => Sure (Working server o (begun ++ [a]) .account) server d := by
  have loggedOut : Triple (Sure (Working server o (begun ++ [a]) .session) server d)
      (family server o).watched.logout.leaving.collected
      (fun _ => Sure (Working server o (begun ++ [a]) .account) server d)
      fun _ => Sure (Working server o (begun ++ [a]) .account) server d :=
    triple_collected_alike (triple_leaving (sure_watch logout_works))
  apply triple_bind (M := fun _ => Sure (Working server o begun .account) server d)
  · exact sure_watch (o := o) (q := .newAccount) (triple_modify fun st working =>
      ⟨working.foreseen, working.dialled, working.readable, trivial⟩)
  · intro _
    apply triple_bind (M := fun _ => Sure (Working server o (begun ++ [a]) .session) server d)
    · exact sure_watch (connect_works a listed)
    · intro _
      apply triple_bind (M := fun _ => Sure (Working server o (begun ++ [a]) .account) server d)
      · apply triple_released (keeps_collectEach fun m _ => mailbox_sure now m)
        · exact fun _ => loggedOut
        · exact fun _ => loggedOut
      · exact keeps_raise

theorem raised_of_untroubled {events : List Event} (untroubled : Untroubled events) :
    ∀ e ∈ raised events, e.OfSetUp := by
  intro e member
  unfold raised at member
  obtain ⟨event, inside, part⟩ := List.mem_flatMap.mp member
  obtain ⟨failure, met, within⟩ := List.mem_flatMap.mp part
  obtain ⟨raised, failed, leaves⟩ := Event.raised_of_met (Option.mem_toList.mp met)
  obtain ⟨error, rfl, ofSetUp⟩ := untroubled event inside raised failed
  obtain rfl : failure = .error error := leaves.elim id id
  have alone : error.parts = [error] := by cases error <;> first | rfl | cases ofSetUp
  simp only [Failure.asError, alone, List.mem_singleton] at within
  rw [within]
  exact ofSetUp

theorem pass_sure (server : Server) (o : Options) {now : Moment} (accepted : DocumentAccepted now d) :
    match pass (family server o) now d {} with
    | (.ok _, st) => Working server o d.accounts .account st
    | (.error _, st) => Doomed server d st := by
  have watched : Triple (Sure (Working server o [] .account) server d) (pass (family server o).watched now d)
      (fun _ => Sure (Working server o d.accounts .account) server d)
      (fun _ w => Untroubled w.events ∨ ¬ Calm w.events ∧ Doomed server d w.state) := by
    apply triple_collectEach fun done _ => Sure (Working server o done .account) server d
    intro done a rest errors split
    have listed : a ∈ d.accounts := by simp [split]
    apply triple_weaken (account_sure now a listed) (fun _ => id) (fun _ _ => id)
    intro failure w sure
    cases failure with
    | error e => exact sure
    | fault x => exact sure.imp And.left id
  have ended := watched ⟨{}, []⟩ (Or.inl ⟨by simp [Untroubled], trivial, rfl, by simp, trivial⟩)
  have carries := pass_carries (f := family server o) accepted [] ⟨{}, []⟩ (List.nil_sublist _)
  have orderly := orderly_pass (f := family server o) now d ⟨{}, []⟩ ⟨by simp [Calm], rfl⟩
  have same : pass (family server o) now d {} = _ := pass_watched (family server o) now d ⟨{}, []⟩
  rw [same]
  -- The last fault is how a pass ends, and an accepted document adds none of its own.
  rcases result : pass (family server o).watched now d ⟨{}, []⟩ with ⟨r, w⟩
  cases r with
  | ok errors =>
    rw [result] at ended orderly
    rcases ended with ⟨_, works⟩ | ⟨troubled, _⟩
    · exact works
    · exact (troubled orderly.1).elim
  | error failure =>
    rw [result] at ended carries
    rcases ended with untroubled | ⟨_, doomed⟩
    · obtain ⟨x, rfl⟩ := pass_fails_by_fault (family server o).watched now d _ (congrArg Prod.fst result)
      have told : Error.fault x ∈ raised w.events := carries.subset (by simp [Failure.asError, Error.parts])
      exact (raised_of_untroubled untroubled _ told).elim
    · exact doomed

/-! Runs -/

theorem ending_runFailed_of_ok (errors : List Error) :
    ending .runFailed (.ok errors) = .ok () ∨
      ∃ es, ending .runFailed (.ok errors) = .error (.error (.runFailed es)) := by
  cases errors with
  | nil => exact Or.inl rfl
  | cons e es => exact Or.inr ⟨e :: es, rfl⟩

theorem endsLive_iff {component : String} {now : Moment}
    (passed : (pass (Family.idle Unit) now d ()).1 = .ok []) :
    EndsLive server o component now d ↔ ∃ errors, (pass (family server o) now d {}).1 = .ok errors := by
  unfold EndsLive runOutcome
  rw [(run_passed (family server o) (Family.idle Unit) component now d {} () passed).2]
  cases ended : (pass (family server o) now d {}).1 with
  | ok errors => exact iff_of_true (ending_runFailed_of_ok errors) ⟨errors, rfl⟩
  | error failure =>
    obtain ⟨x, rfl⟩ := pass_fails_by_fault (family server o) now d {} ended
    simp [ending]

end Passes

/-- Each operation of a session ends well, or with an error of its own at the first refusal that is expected,
or it escapes. A run with a live pass comes to its end if and only if all its refusals are expected and all
ports can be read; and then every account has been dialled, in order. -/
theorem operations_contained (server : Server) (o : Options) :
    (∀ (op : Operation) s st, ∃ issued, (op.step server o s st).2.commands = st.commands ++ issued ∧
      Concluded server o s op st.commands issued (op.step server o s st).1) ∧
    ∀ component now d, (pass (Family.idle Unit) now d ()).1 = .ok [] →
      (EndsLive server o component now d ↔ Foreseen server [] (runCommands server o component now d) ∧
        ∀ a ∈ d.accounts, ¬ PortUnreadable a.host) ∧
      (EndsLive server o component now d → (runCommands server o component now d).filter Command.isDial =
        d.accounts.flatMap fun a => (dialOf o a.host a.flags).toList) := by
  constructor
  · intro op s st
    obtain ⟨issued, log, same, concluded⟩ := operation_concludes op st rfl
    exact ⟨issued, by rw [same], concluded⟩
  · intro component now d passed
    have found : pass (Family.idle Unit) now d () = (.ok [], _) := Prod.ext passed rfl
    have accepted := accepted_of_no_errors found
    have ended := pass_sure server o accepted
    have commands : runCommands server o component now d = (pass (family server o) now d {}).2.commands :=
      congrArg State.commands (run_passed (family server o) (Family.idle Unit) component now d {} () passed).1
    rw [endsLive_iff passed, commands]
    rcases result : pass (family server o) now d {} with ⟨r, st⟩
    cases r with
    | ok errors =>
      rw [result] at ended
      exact ⟨iff_of_true ⟨errors, rfl⟩ ⟨ended.foreseen, ended.readable⟩, fun _ => ended.dialled⟩
    | error failure =>
      rw [result] at ended
      have notOk : ¬ ∃ errors, (Except.error failure : Except Failure (List Error)) = .ok errors := by simp
      refine ⟨iff_of_false notOk ?_, fun ok => (notOk ok).elim⟩
      rintro ⟨foreseen, readable⟩
      rcases ended with unforeseen | ⟨a, listed, unreadable⟩
      · exact unforeseen foreseen
      · exact readable a listed unreadable

def refusesMailboxes : Server where
  refusal := fun _ c => match c with
    | .selectFolder .. => some ⟨.encoding, "UnicodeError", "no such character"⟩
    | _ => none
  hasCapability := fun _ _ => false
  found := fun _ => []

def inboxFirst : Document :=
  ⟨"c", [⟨"g", {}, {}, [⟨"INBOX", [], ⟨"c", 4, 5⟩⟩], ⟨"c", 2, 3⟩⟩,
    ⟨"h", {}, {}, [], ⟨"c", 5, 3⟩⟩]⟩

theorem inboxFirst_goes_on :
    (pass (Family.idle Unit) noon inboxFirst ()).1 = .ok [] ∧
      EndsLive refusesMailboxes plainOptions "live" noon inboxFirst ∧
      (runCommands refusesMailboxes plainOptions "live" noon inboxFirst).filter Command.isDial =
        [.dial "g" 993 true false, .dial "h" 993 true false] := by
  have passed : (pass (Family.idle Unit) noon inboxFirst ()).1 = .ok [] := by cbv
  have outcome : runOutcome refusesMailboxes plainOptions "live" noon inboxFirst =
      .error (.error (.runFailed [.protocol "select" "g: no such character"])) := by cbv
  have ended : EndsLive refusesMailboxes plainOptions "live" noon inboxFirst := Or.inr ⟨_, outcome⟩
  have dials := ((operations_contained refusesMailboxes plainOptions).2 "live" noon inboxFirst passed).2 ended
  have own : inboxFirst.accounts.flatMap (fun a => (dialOf plainOptions a.host a.flags).toList) =
      [.dial "g" 993 true false, .dial "h" 993 true false] := by cbv
  exact ⟨passed, ended, dials.trans own⟩

def refusesSockets : Server where
  refusal := fun _ c => match c with
    | .socket => some ⟨.transport, "OSError", "gone"⟩
    | _ => none
  hasCapability := fun _ _ => false
  found := fun _ => []

theorem socket_refusal_escapes : ¬ ∀ (server : Server) o (op : Operation) s st,
    (∀ h c r, server.refusal h c = some r → r.cls ≠ .unexpected) →
    (op.step server o s st).1 = .ok () ∨
      ∃ detail, (op.step server o s st).1 = .error (.error (.protocol op.name detail)) := by
  intro always
  have failed : (Operation.logout.step refusesSockets plainOptions ⟨"g"⟩ {}).1 =
      .error (.fault (.foreign "OSError" "gone")) := by cbv
  have usual : ∀ h c r, refusesSockets.refusal h c = some r → r.cls ≠ .unexpected := by
    intro h c r answer
    simp only [refusesSockets] at answer
    split at answer
    · cases answer
      decide
    · cases answer
  rcases always refusesSockets plainOptions .logout ⟨"g"⟩ {} usual with done | ⟨detail, reported⟩
  · cases failed.symm.trans done
  · cases failed.symm.trans reported

end MailRules.Live
