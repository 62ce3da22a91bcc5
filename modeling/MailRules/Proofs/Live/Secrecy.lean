import Mathlib
import MailRules.Proofs.Sweep.Run
import MailRules.Proofs.Live.Search
/-!
Passwords show nowhere but in the commands that log in. Two runs over documents that differ only in
passwords go in step against a server that does not look at passwords: at every point their states agree
but for the passwords sent, so that their records and their outcomes are the same.
-/
namespace MailRules

def Credentials.withoutPassword (c : Credentials) : Credentials := { c with password := "" }

def Account.withoutPassword (a : Account) : Account :=
  { a with credentials := a.credentials.withoutPassword }

def Document.withoutPasswords (d : Document) : Document :=
  { d with accounts := d.accounts.map Account.withoutPassword }

end MailRules
namespace MailRules.Live
open MailRules.Search MailRules.Sweep MailRules.Calendar MailRules.Log

def Command.withoutPassword : Command → Command
  | .plainLogin username _ identity => .plainLogin username "" identity
  | .login username _ => .login username ""
  | c => c

/-- The answers of the server do not depend on the passwords that it has been given; so it is with every
server that does not look at what is sent to log in. -/
structure Server.IgnoresPasswords (server : Server) : Prop where
  refusal : ∀ h h' c c', h.map Command.withoutPassword = h'.map Command.withoutPassword →
    c.withoutPassword = c'.withoutPassword → server.refusal h c = server.refusal h' c'
  hasCapability : ∀ h h' name, h.map Command.withoutPassword = h'.map Command.withoutPassword →
    server.hasCapability h name = server.hasCapability h' name
  found : ∀ h h', h.map Command.withoutPassword = h'.map Command.withoutPassword →
    server.found h = server.found h'

structure Agree (st st' : State) : Prop where
  commands : st.commands.map Command.withoutPassword = st'.commands.map Command.withoutPassword
  log : st.log = st'.log
  session : st.session = st'.session
  mailbox : st.mailbox = st'.mailbox
  rule : st.rule = st'.rule

abbrev inStep : Congruence State State := lockstep Agree

section Steps
variable {α : Type}

theorem inStep_get {next next' : State → LiveStep α}
    (later : ∀ st st', Agree st st' → inStep.Related (next st) (next' st')) :
    inStep.Related (get >>= next) (get >>= next') :=
  fun st st' agree => later st st' agree st st' agree

theorem inStep_modify {g g' : State → State} (same : ∀ st st', Agree st st' → Agree (g st) (g' st')) :
    inStep.Related (modify g : LiveStep Unit) (modify g') :=
  fun st st' agree => ⟨.ok (), g st, g' st', rfl, rfl, same st st' agree⟩

theorem inStep_note (r : Record) : inStep.Related (note r) (note r) :=
  inStep_modify fun _ _ agree => { agree with log := congrArg (· ++ [r]) agree.log }

theorem inStep_throw (failure : Failure) :
    inStep.Related (throw failure : LiveStep α) (throw failure) := inStep.outcome (.error failure)

theorem inStep_onError {body body' cleanup cleanup' : LiveStep Unit} (inner : inStep.Related body body')
    (last : inStep.Related cleanup cleanup') :
    inStep.Related (onError body cleanup) (onError body' cleanup') := by
  apply inStep.bind (inStep.attempt inner)
  intro raised
  cases raised with
  | none => exact inStep.outcome _
  | some e => exact inStep.bind last fun _ => inStep_throw _

theorem inStep_currentSession : inStep.Related currentSession currentSession := by
  apply inStep_get
  intro st st' agree
  rw [agree.session]
  cases st'.session <;> exact inStep.outcome _

theorem inStep_currentMailbox : inStep.Related currentMailbox currentMailbox := by
  apply inStep_get
  intro st st' agree
  rw [agree.mailbox]
  cases st'.mailbox <;> exact inStep.outcome _

theorem inStep_currentRule : inStep.Related currentRule currentRule := by
  apply inStep_get
  intro st st' agree
  rw [agree.rule]
  cases st'.rule <;> exact inStep.outcome _

end Steps

section Commands
variable {server : Server} (ignores : server.IgnoresPasswords) {o : Options} {session : Session}
include ignores

theorem inStep_issue {c c' : Command} (same : c.withoutPassword = c'.withoutPassword) :
    inStep.Related (issue server c) (issue server c') := by
  intro st st' agree
  have answer := ignores.refusal st.commands st'.commands c c' agree.commands same
  refine ⟨.ok (server.refusal st.commands c), _, _, rfl, by rw [answer]; rfl, ?_⟩
  exact { agree with commands := by simp [agree.commands, same] }

theorem inStep_perform (operation : String) (c : Command) :
    inStep.Related (perform server session operation c) (perform server session operation c) := by
  apply inStep.bind (inStep_issue ignores rfl)
  intro refused
  cases refused with
  | none => exact inStep.outcome _
  | some r =>
    dsimp only
    split
    · exact inStep.bind (inStep_throw _) fun _ => inStep_throw _
    · exact inStep_throw _

omit ignores in
theorem command_withoutPassword {c c' : Credentials} (same : c.withoutPassword = c'.withoutPassword)
    (scheme : Scheme) :
    (scheme.command c).withoutPassword = (scheme.command c').withoutPassword := by
  have names : c.username = c'.username := (congrArg Credentials.username same :)
  have identities : c.identity = c'.identity := (congrArg Credentials.identity same :)
  cases scheme <;> simp [Scheme.command, Command.withoutPassword, names, identities]

theorem inStep_authenticate {host : String} {c c' : Credentials}
    (same : c.withoutPassword = c'.withoutPassword) (schemes : List Scheme) :
    inStep.Related (authenticate server o host c schemes) (authenticate server o host c' schemes) := by
  induction schemes with
  | nil => exact inStep_throw _
  | cons scheme rest ih =>
    apply inStep.bind (inStep_issue ignores (command_withoutPassword same scheme))
    intro refused
    cases refused with
    | none => exact inStep_note _
    | some r =>
      dsimp only
      split
      · exact inStep.bind (inStep_note _) fun _ => ih
      · exact inStep_throw _

theorem inStep_shutdown (host : String) :
    inStep.Related (shutdown server o host) (shutdown server o host) := by
  apply inStep.bind (inStep_issue ignores rfl)
  intro refused
  cases refused with
  | none => exact inStep.outcome _
  | some r =>
    dsimp only
    split
    · exact inStep_note _
    · exact inStep_throw _

theorem inStep_secure : inStep.Related (secure server o session) (secure server o session) := by
  apply inStep.bind (inStep_perform ignores _ _)
  intro _
  apply inStep_get
  intro st st' agree
  rw [ignores.hasCapability _ _ _ agree.commands]
  split
  · exact inStep_perform ignores _ _
  · exact inStep.outcome _

theorem inStep_openSession {host : String} {flags : Flags} {c c' : Credentials}
    (same : c.withoutPassword = c'.withoutPassword) :
    inStep.Related (openSession server o host flags c) (openSession server o host flags c') := by
  apply inStep.bind (inStep.outcome (splitHost host _))
  rintro ⟨name, port⟩
  apply inStep.bind (inStep_issue ignores rfl)
  intro refused
  extract_lets session logIn rest logIn' rest'
  have readies : ∀ u, inStep.Related (rest u) (rest' u) := by
    intro u
    apply inStep.bind (inStep_onError _ (inStep_shutdown ignores host))
    · intro _
      exact inStep.bind (inStep_note _) fun _ => inStep.outcome _
    · split
      · apply inStep.bind (inStep_secure ignores)
        exact fun _ => inStep_authenticate ignores same _
      · exact inStep_authenticate ignores same _
  cases refused with
  | none => exact readies ()
  | some r =>
    dsimp only
    split <;> exact inStep.bind (inStep_throw _) readies

theorem inStep_connect {host : String} {flags : Flags} {c c' : Credentials}
    (same : c.withoutPassword = c'.withoutPassword) :
    inStep.Related (connect server o host flags c) (connect server o host flags c') := by
  apply inStep.bind (inStep_openSession ignores same)
  intro session
  exact inStep_modify fun _ _ agree => { agree with session := rfl }

theorem inStep_searchFor (tokens : List Token) :
    inStep.Related (session.searchFor server o tokens) (session.searchFor server o tokens) := by
  unfold Session.searchFor
  extract_lets ascii rest
  have asked : ∀ criteria, inStep.Related (rest criteria) (rest criteria) := by
    intro criteria
    apply inStep.bind (inStep_perform ignores _ _)
    intro _
    apply inStep_get
    intro st st' agree
    rw [ignores.found _ _ agree.commands]
    exact inStep.bind (inStep_note _) fun _ => inStep.outcome _
  split
  · exact asked _
  · exact inStep.bind (inStep.outcome _) asked

theorem inStep_search : inStep.Related (search server o) (search server o) := by
  apply inStep.bind inStep_currentRule
  intro r
  apply inStep.bind (inStep_searchFor ignores r.tokens)
  intro found
  exact inStep_modify fun _ _ agree => { agree with rule := rfl }

theorem inStep_move (destination : String) :
    inStep.Related (move server o destination) (move server o destination) := by
  apply inStep.bind inStep_currentRule
  intro r
  split
  · exact inStep.bind (inStep_perform ignores _ _) fun _ => inStep_note _
  · exact inStep.outcome _

theorem inStep_mark : inStep.Related (mark server o) (mark server o) := by
  apply inStep.bind inStep_currentRule
  intro r
  split
  · exact inStep.bind (inStep_perform ignores _ _) fun _ => inStep_note _
  · exact inStep.outcome _

theorem inStep_sessionLogout :
    inStep.Related (session.logout server o) (session.logout server o) := by
  apply inStep.bind (inStep_issue ignores rfl)
  intro refused
  extract_lets rest
  have limited : ∀ u, inStep.Related (rest u) (rest u) := by
    intro u
    apply inStep.bind (inStep_perform ignores _ _)
    intro _
    exact inStep.bind (inStep_perform ignores _ _) fun _ => inStep_note _
  cases refused with
  | none => exact limited ()
  | some r => exact inStep.bind (inStep_throw _) limited

theorem inStep_logout : inStep.Related (logout server o) (logout server o) := by
  have ended : inStep.Related (do (← currentSession).logout server o)
      (do (← currentSession).logout server o) :=
    inStep.bind inStep_currentSession fun _ => inStep_sessionLogout ignores
  intro st st' agree
  obtain ⟨r, u, u', left, right, after⟩ := ended st st' agree
  refine ⟨r, { u with session := none }, { u' with session := none }, ?_, ?_, ?_⟩
  · simp [logout, left]
  · simp [logout, right]
  · exact { after with session := rfl }

theorem inStep_requests : inStep.Requests (family server o) (family server o) where
  newAccount := inStep_modify fun _ _ agree => { agree with session := rfl }
  newMailbox := inStep.bind inStep_currentSession fun _ =>
    inStep_modify fun _ _ agree => { agree with mailbox := rfl }
  select := fun _ => inStep.bind inStep_currentMailbox fun _ =>
    inStep.bind (inStep_perform ignores _ _) fun _ => inStep_note _
  newRule := inStep.bind inStep_currentMailbox fun _ =>
    inStep_modify fun _ _ agree => { agree with rule := rfl }
  append := fun _ => inStep.bind inStep_currentRule fun _ =>
    inStep_modify fun _ _ agree => { agree with rule := rfl }
  search := inStep_search ignores
  move := inStep_move ignores
  mark := inStep_mark ignores
  close := inStep.bind inStep_currentMailbox fun _ => inStep_perform ignores _ _
  logout := inStep_logout ignores

end Commands

/-! Runs -/

theorem accounts_alike {d d' : Document} (same : d.withoutPasswords = d'.withoutPasswords) :
    List.Forall₂ (fun a a' => a.withoutPassword = a'.withoutPassword) d.accounts d'.accounts := by
  have lists : d.accounts.map Account.withoutPassword = d'.accounts.map Account.withoutPassword :=
    (congrArg Document.accounts same :)
  rw [← List.forall₂_eq_eq_eq, List.forall₂_map_left_iff, List.forall₂_map_right_iff] at lists
  exact lists

/-- Passes over documents that differ only in passwords go in step where requests do, and where
connections do whatever the passwords. -/
theorem pass_inStep {σ τ : Type} {R : σ → τ → Prop} {f : Family σ} {g : Family τ} {now : Moment}
    {d d' : Document} (same : d.withoutPasswords = d'.withoutPasswords)
    (requests : (lockstep R).Requests f g)
    (connect : ∀ host flags c c', Credentials.withoutPassword c = Credentials.withoutPassword c' →
      InStep R (f.connect host flags c) (g.connect host flags c')) :
    InStep R (pass f now d) (pass g now d') := by
  apply Congruence.pass requests lockstep_released
  apply (accounts_alike same).imp
  intro a a' alike
  have hosts : a.host = a'.host := (congrArg Account.host alike :)
  have flags : a.flags = a'.flags := (congrArg Account.flags alike :)
  have credentials : a.credentials.withoutPassword = a'.credentials.withoutPassword :=
    (congrArg Account.credentials alike :)
  have mailboxes : a.mailboxes = a'.mailboxes := (congrArg Account.mailboxes alike :)
  exact ⟨hosts ▸ flags ▸ connect a.host a.flags _ _ credentials, mailboxes⟩

theorem idle_inStep (now : Moment) {d d' : Document}
    (same : d.withoutPasswords = d'.withoutPasswords) :
    (pass (Family.idle Unit) now d ()).1 = (pass (Family.idle Unit) now d' ()).1 := by
  have done : ∀ r : Except Failure Unit,
      (lockstep fun _ _ : Unit => True).Related (fun st => (r, st)) (fun st => (r, st)) :=
    fun r => (lockstep _).outcome r
  have requests : (lockstep fun _ _ : Unit => True).Requests (Family.idle Unit) (Family.idle Unit) :=
    ⟨done _, done _, fun _ => done _, done _, fun _ => done _, done _, fun _ => done _, done _, done _,
      done _⟩
  obtain ⟨r, _, _, left, right, _⟩ :=
    pass_inStep same requests (fun _ _ _ _ _ => done _) () () trivial
  rw [left, right]

/-- Runs over documents that differ only in passwords, against a server that ignores passwords, write
the same records, end alike with the same errors, and issue the same commands but for the passwords with
which they log in. -/
theorem passwords_show_only_in_logins {server : Server} (ignores : server.IgnoresPasswords)
    {d d' : Document} (same : d.withoutPasswords = d'.withoutPasswords) (o : Options)
    (component : String) (now : Moment) :
    let run₁ := run (family server o) (Family.idle Unit) component now d {} ()
    let run₂ := run (family server o) (Family.idle Unit) component now d' {} ()
    run₁.records State.log = run₂.records State.log ∧ run₁.outcome = run₂.outcome ∧
      run₁.live.commands.map Command.withoutPassword =
        run₂.live.commands.map Command.withoutPassword := by
  have start : Agree {} {} := ⟨rfl, rfl, rfl, rfl, rfl⟩
  have lives : InStep Agree (pass (family server o) now d) (pass (family server o) now d') :=
    pass_inStep same (inStep_requests ignores) fun _ _ _ _ alike => inStep_connect ignores alike
  have checks := idle_inStep now same
  have sources : d.source = d'.source := (congrArg Document.source same :)
  have counts : d.accounts.length = d'.accounts.length := (accounts_alike same).length_eq
  obtain ⟨before, after, outcome, agree⟩ :=
    run_inStep _ _ component now d {} () sources counts checks lives start
  intro run₁ run₂
  refine ⟨?_, outcome, agree.commands⟩
  calc
    run₁.before ++ run₁.live.log ++ run₁.after = run₂.before ++ run₁.live.log ++ run₂.after := by
      rw [before, after]
    _ = run₂.before ++ run₂.live.log ++ run₂.after := by rw [agree.log]

def locked (password : String) : Document :=
  ⟨"c", [⟨"h", {}, ⟨"u", password, ""⟩, [], ⟨"c", 2, 3⟩⟩]⟩

def lockedRun (password : String) : Run State Unit :=
  run (family refusesExternal plainOptions) (Family.idle Unit) "live" newYear (locked password) {} ()

theorem refusesExternal_ignores : refusesExternal.IgnoresPasswords := by
  have blind : ∀ h c, refusesExternal.refusal h c = refusesExternal.refusal [] c.withoutPassword := by
    intro h c
    cases c <;> rfl
  refine ⟨?_, fun _ _ _ _ => rfl, fun _ _ _ => rfl⟩
  intro h h' c c' _ same
  rw [blind h c, blind h' c', same]

theorem locked_commands (password : String) : (lockedRun password).live.commands =
    [.dial "h" 993 true false, .saslLogin "EXTERNAL" [], .plainLogin "u" password none, .socket,
      .setTimeout (.zero false), .logout] := by
  cbv

theorem locked_passwords_unseen :
    .plainLogin "u" "abc" none ∈ (lockedRun "abc").live.commands ∧
      .plainLogin "u" "xyz" none ∈ (lockedRun "xyz").live.commands ∧
      (lockedRun "abc").records State.log = (lockedRun "xyz").records State.log ∧
      (lockedRun "abc").outcome = (lockedRun "xyz").outcome ∧
      (lockedRun "abc").live.commands.map Command.withoutPassword =
        (lockedRun "xyz").live.commands.map Command.withoutPassword := by
  have same : (locked "abc").withoutPasswords = (locked "xyz").withoutPasswords := rfl
  refine ⟨?_, ?_, passwords_show_only_in_logins refusesExternal_ignores same plainOptions "live" newYear⟩
  · simp [locked_commands]
  · simp [locked_commands]

end MailRules.Live
