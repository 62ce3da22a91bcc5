import MailRules.Proofs.Live.Conduct
import MailRules.Proofs.Live.Connections
/-!
How a session is set up. After the dial come the question whether the connection can be secured, the securing,
and the ways to log in, each only if all before it went well; and a connection without a session is shut down.
What keeps a set-up from ending so is a refusal that its step does not expect.
-/
namespace MailRules

def Error.OfSetUp : Error → Prop
  | .protocol .. | .authentication .. => True
  | _ => False

end MailRules
namespace MailRules.Live
open MailRules.Search MailRules.Sweep MailRules.Sweep.Step MailRules.Log

/-- The schemes are tried in order: those before the last one tried have been refused, and the last one is
accepted, or there is none left. -/
inductive LogsIn (server : Server) (c : Credentials) (history : List Command) (schemes : List Scheme) :
    List Command → Bool → Prop
  | succeeds {tried rest : List Scheme} {scheme : Scheme} (order : schemes = tried ++ scheme :: rest)
      (refused : Refuses server history (tried.map (Scheme.command c)))
      (accepted : server.refusal (history ++ tried.map (Scheme.command c)) (scheme.command c) = none) :
      LogsIn server c history schemes (tried.map (Scheme.command c) ++ [scheme.command c]) true
  | fails (refused : Refuses server history (schemes.map (Scheme.command c))) :
      LogsIn server c history schemes (schemes.map (Scheme.command c)) false

def Server.offersSecurity (server : Server) (dialled : List Command) : Bool :=
  (server.refusal dialled (.hasCapability "STARTTLS")).isNone &&
    server.hasCapability (dialled ++ [.hasCapability "STARTTLS"]) "STARTTLS"

def securing (server : Server) (trusts : Bool) (flags : Flags) (dialled : List Command) : List Command :=
  if flags.noTls then
    .hasCapability "STARTTLS" :: if server.offersSecurity dialled then [.startTls trusts] else []
  else []

inductive Prepared (server : Server) (trusts : Bool) (flags : Flags) (c : Credentials)
    (dialled : List Command) : List Command → Bool → Prop
  | secured {logins : List Command} {opened : Bool}
      (accepted : Accepts server dialled (securing server trusts flags dialled))
      (logsIn : LogsIn server c (dialled ++ securing server trusts flags dialled) (Scheme.enabled flags)
        logins opened) :
      Prepared server trusts flags c dialled (securing server trusts flags dialled ++ logins) opened
  | unsecured (refused : ¬ Accepts server dialled (securing server trusts flags dialled)) :
      Prepared server trusts flags c dialled (securing server trusts flags dialled) false

/-- A connection that no session results from is shut down. -/
inductive SetUp (server : Server) (trusts : Bool) (flags : Flags) (c : Credentials)
    (dialled : List Command) : List Command → Bool → Prop
  | opened {cs : List Command} (prepared : Prepared server trusts flags c dialled cs true) :
      SetUp server trusts flags c dialled cs true
  | dropped {cs : List Command} (prepared : Prepared server trusts flags c dialled cs false) :
      SetUp server trusts flags c dialled (cs ++ [.shutdown]) false

def Refusal.ofDial (r : Refusal) (host : String) : Failure :=
  if r.cls = .server ∨ r.cls = .transport then .error (.protocol "dial" (host ++ ": " ++ r.message))
  else .fault r.fault

section Steps
variable {server : Server} {o : Options} {host : String} {flags : Flags} {credentials : Credentials}
  {h : List Command}

theorem LogsIn.next {scheme : Scheme} {schemes : List Scheme} {cs : List Command} {opened : Bool}
    (refused : server.refusal h (scheme.command credentials) ≠ none)
    (later : LogsIn server credentials (h ++ [scheme.command credentials]) schemes cs opened) :
    LogsIn server credentials h (scheme :: schemes) (scheme.command credentials :: cs) opened := by
  cases later with
  | @succeeds tried rest last order others accepted =>
    have longer : scheme :: schemes = (scheme :: tried) ++ last :: rest := by simp [order]
    have last_accepted : server.refusal (h ++ (scheme :: tried).map (Scheme.command credentials))
        (last.command credentials) = none := by simpa using accepted
    simpa using LogsIn.succeeds longer ⟨refused, others⟩ last_accepted
  | fails others =>
    have whole : LogsIn server credentials h (scheme :: schemes)
        ((scheme :: schemes).map (Scheme.command credentials)) false := .fails ⟨refused, others⟩
    exact whole

theorem scheme_expects (scheme : Scheme) (side : RefusalClass) :
    (scheme.command credentials).expects side = true ↔ side = .server ∨ side = .transport := by
  cases scheme <;> simp [Scheme.command, Command.expects]

def LoginEnds (server : Server) (host : String) (credentials : Credentials) (h : List Command)
    (schemes : List Scheme) (cs : List Command) : Except Failure Unit → Prop
  | .ok () => Foreseen server h cs ∧ LogsIn server credentials h schemes cs true
  | .error (.error e) => Foreseen server h cs ∧ LogsIn server credentials h schemes cs false ∧
      e = .authentication host
  | .error (.fault _) => ¬ Foreseen server h cs ∧ ¬ Mild server h cs

theorem authenticate_issues (schemes : List Scheme) :
    Issues h (authenticate server o host credentials schemes)
      (LoginEnds server host credentials h schemes) := by
  induction schemes generalizing h with
  | nil => exact issues_outcome ⟨trivial, .fails trivial, rfl⟩
  | cons scheme schemes ih =>
    apply issues_issue
    -- A refusal leads to the other schemes, after a longer history.
    cases answer : server.refusal h (scheme.command credentials) with
    | none =>
      have done : LoginEnds server host credentials h (scheme :: schemes) [scheme.command credentials]
          (.ok ()) := by
        have first : scheme :: schemes = [] ++ scheme :: schemes := rfl
        exact ⟨⟨by simp [answer], trivial⟩, .succeeds first trivial (by simpa using answer)⟩
      exact issues_note (issues_outcome (r := .ok ()) done)
    | some r =>
      dsimp only
      by_cases leadsOn : r.cls = .server ∨ r.cls = .transport
      · rw [if_pos leadsOn]
        apply issues_note
        apply issues_weaken ih
        have refused : server.refusal h (scheme.command credentials) ≠ none := by simp [answer]
        have expected : ∀ r, server.refusal h (scheme.command credentials) = some r →
            (scheme.command credentials).expects r.cls = true := by
          simpa [answer, scheme_expects] using leadsOn
        intro cs result ended
        match result with
        | .ok () => exact ⟨⟨expected, ended.1⟩, ended.2.next refused⟩
        | .error (.error e) => exact ⟨⟨expected, ended.1⟩, ended.2.1.next refused, ended.2.2⟩
        | .error (.fault x) => exact ⟨fun all => ended.1 all.2, fun all => ended.2 all.2⟩
      · rw [if_neg leadsOn]
        apply issues_outcome
        constructor
        · exact fun all => leadsOn ((scheme_expects scheme r.cls).mp (all.1 r answer))
        · exact fun all => leadsOn (all.1 r answer)

def prepare (server : Server) (o : Options) (host : String) (flags : Flags) (c : Credentials) :
    LiveStep Unit := do
  if !!flags.noTls then secure server o ⟨host⟩
  authenticate server o host c (Scheme.enabled flags)

def SecuringEnds (server : Server) (h cs : List Command) : Except Failure Unit → Prop
  | .ok () => Foreseen server h cs ∧ Accepts server h cs
  | .error (.error e) => Foreseen server h cs ∧ ¬ Accepts server h cs ∧ e.OfSetUp
  | .error (.fault _) => ¬ Foreseen server h cs ∧ ¬ Mild server h cs

theorem performed_ends (front : List Command) {c : Command} {r : Refusal} {session : Session}
    {operation : String} (usual : ∀ side, c.expects side = true ↔ side ≠ .unexpected)
    (foreseen : Foreseen server h front) (answer : server.refusal (h ++ front) c = some r) :
    SecuringEnds server h (front ++ [c]) (.error (r.reported session operation)) := by
  unfold Refusal.reported
  by_cases unexpected : r.cls = .unexpected
  · simp [SecuringEnds, unexpected, Foreseen, Mild, throughout_snoc, answer, usual]
  · simp only [unexpected, if_false, SecuringEnds]
    refine ⟨?_, ?_, trivial⟩
    · simpa [Foreseen, throughout_snoc, answer, usual, unexpected] using foreseen
    · simp [accepts_append, Accepts, answer]

theorem secure_issues (plain : flags.noTls = true) (session : Session) :
    Issues h (secure server o session) fun cs r =>
      cs = securing server o.trusts flags h ∧ SecuringEnds server h cs r := by
  have usual : ∀ side, (Command.hasCapability "STARTTLS").expects side = true ↔ side ≠ .unexpected := by
    simp [Command.expects]
  have usual' : ∀ side, (Command.startTls o.trusts).expects side = true ↔ side ≠ .unexpected := by
    simp [Command.expects]
  -- Whether the server was asked decides what securing is, so the end of the question has to say it too.
  apply issues_bind (M := fun cs r => cs = [.hasCapability "STARTTLS"] ∧ SecuringEnds server h cs r ∧
    (r = .ok () ↔ server.refusal h (.hasCapability "STARTTLS") = none))
  · apply issues_perform
    · intro accepted
      refine ⟨rfl, ⟨⟨?_, trivial⟩, accepted, trivial⟩, by simp [accepted]⟩
      simp [accepted]
    · intro r answer
      refine ⟨rfl, performed_ends [] usual trivial (by simpa using answer), ?_⟩
      simp [answer]
  · rintro cs failure ⟨rfl, ended, same⟩
    refine ⟨?_, ended⟩
    have refused : server.refusal h (.hasCapability "STARTTLS") ≠ none := fun none => by
      simpa using same.mpr none
    simp [securing, plain, Server.offersSecurity, refused]
  · rintro front _ ⟨rfl, ⟨foreseen, asked⟩, same⟩
    have accepted := same.mp rfl
    apply issues_get
    intro st commands
    rw [commands]
    by_cases offered : server.hasCapability (h ++ [.hasCapability "STARTTLS"]) "STARTTLS" = true
    · have starts : securing server o.trusts flags h =
          [.hasCapability "STARTTLS", .startTls o.trusts] := by
        simp [securing, plain, Server.offersSecurity, accepted, offered]
      rw [if_pos offered, starts]
      apply issues_perform
      · intro started
        refine ⟨rfl, ?_, ?_⟩
        · exact (throughout_snoc [_]).mpr ⟨foreseen, by simp [started]⟩
        · exact ⟨accepted, started, trivial⟩
      · intro r answer
        exact ⟨rfl, performed_ends _ usual' foreseen answer⟩
    · have stays : securing server o.trusts flags h = [.hasCapability "STARTTLS"] := by
        simp [securing, plain, Server.offersSecurity, offered]
      rw [if_neg offered, stays]
      exact issues_outcome (r := .ok ()) ⟨rfl, foreseen, asked⟩

def PreparationEnds (server : Server) (trusts : Bool) (flags : Flags) (c : Credentials)
    (h cs : List Command) : Except Failure Unit → Prop
  | .ok () => Foreseen server h cs ∧ Prepared server trusts flags c h cs true
  | .error (.error e) => Foreseen server h cs ∧ Prepared server trusts flags c h cs false ∧ e.OfSetUp
  | .error (.fault _) => ¬ Foreseen server h cs ∧ ¬ Mild server h cs

theorem issues_prepare {T : List Command → Except Failure Unit → Prop}
    (unsecured : ∀ failure, SecuringEnds server h (securing server o.trusts flags h) (.error failure) →
      T (securing server o.trusts flags h) (.error failure))
    (secured : SecuringEnds server h (securing server o.trusts flags h) (.ok ()) →
      Issues (h ++ securing server o.trusts flags h)
        (authenticate server o host credentials (Scheme.enabled flags)) fun cs =>
          T (securing server o.trusts flags h ++ cs)) :
    Issues h (prepare server o host flags credentials) T := by
  unfold prepare
  cases plain : flags.noTls with
  | false =>
    have none : securing server o.trusts flags h = [] := by simp [securing, plain]
    rw [none] at secured
    simpa using secured ⟨trivial, trivial⟩
  | true =>
    apply issues_bind (secure_issues plain ⟨host⟩)
    · rintro cs failure ⟨rfl, ended⟩
      exact unsecured failure ended
    · rintro front _ ⟨rfl, ended⟩
      exact secured ended

theorem prepare_issues : Issues h (prepare server o host flags credentials)
    (PreparationEnds server o.trusts flags credentials h) := by
  apply issues_prepare
  · intro failure ended
    match failure with
    | .error e => exact ⟨ended.1, .unsecured ended.2.1, ended.2.2⟩
    | .fault x => exact ended
  · rintro ⟨foreseen, accepted⟩
    apply issues_weaken (authenticate_issues _)
    intro cs result ended
    match result with
    | .ok () => exact ⟨(throughout_append _ _).mpr ⟨foreseen, ended.1⟩, .secured accepted ended.2⟩
    | .error (.error e) =>
      obtain ⟨logins, logsIn, rfl⟩ := ended
      exact ⟨(throughout_append _ _).mpr ⟨foreseen, logins⟩, .secured accepted logsIn, trivial⟩
    | .error (.fault x) =>
      exact ⟨fun all => ended.1 ((throughout_append _ _).mp all).2,
        fun all => ended.2 ((throughout_append _ _).mp all).2⟩

theorem dropping_issues : Issues h (shutdown server o host) fun cs r => cs = [.shutdown] ∧
    match r with
    | .ok () => Foreseen server h cs
    | .error (.error _) => False
    | .error (.fault _) => ¬ Foreseen server h cs := by
  apply issues_issue
  cases answer : server.refusal h .shutdown with
  | none => exact issues_outcome (r := .ok ()) ⟨rfl, by simp [Foreseen, Throughout, answer]⟩
  | some r =>
    dsimp only
    by_cases lost : r.cls = .transport
    · rw [if_pos lost]
      exact issues_note (issues_outcome (r := .ok ())
        ⟨rfl, by simp [Foreseen, Throughout, answer, Command.expects, lost]⟩)
    · rw [if_neg lost]
      exact issues_outcome ⟨rfl, by simp [Foreseen, Throughout, answer, Command.expects, lost]⟩

/-- A fault comes from the preparation, without a release of the connection, or from the release itself. -/
def SetUpEnds (server : Server) (trusts : Bool) (flags : Flags) (c : Credentials)
    (h cs : List Command) : Except Failure Unit → Prop
  | .ok () => Foreseen server h cs ∧ SetUp server trusts flags c h cs true
  | .error (.error e) => Foreseen server h cs ∧ SetUp server trusts flags c h cs false ∧ e.OfSetUp
  | .error (.fault _) => ¬ Foreseen server h cs ∧
      (SetUp server trusts flags c h cs false ∨ ¬ Mild server h cs)

theorem prepareOrDrop_issues :
    Issues h (onError (prepare server o host flags credentials) (shutdown server o host))
      (SetUpEnds server o.trusts flags credentials h) := by
  apply issues_onError prepare_issues
  · exact fun cs ended => ⟨ended.1, .opened ended.2⟩
  · exact fun cs x ended => ⟨ended.1, Or.inr ended.2⟩
  · rintro front e ⟨foreseen, prepared, ofSetUp⟩
    apply issues_weaken dropping_issues
    rintro _ result ⟨rfl, ended⟩
    match result with
    | .ok () => exact ⟨(throughout_append _ _).mpr ⟨foreseen, ended⟩, .dropped prepared, ofSetUp⟩
    | .error (.error _) => exact ended.elim
    | .error (.fault x) =>
      exact ⟨fun all => ended ((throughout_append _ _).mp all).2, Or.inl (.dropped prepared)⟩

/-! No dial after the first -/

theorem filter_no_dial {cs : List Command} (noDial : ∀ c ∈ cs, c.isDial = false) :
    cs.filter Command.isDial = [] :=
  List.filter_eq_nil_iff.mpr fun c member => by simp [noDial c member]

theorem scheme_no_dial (scheme : Scheme) : (scheme.command credentials).isDial = false := by
  cases scheme <;> rfl

theorem securing_no_dial {trusts : Bool} : ∀ c ∈ securing server trusts flags h, c.isDial = false := by
  unfold securing
  split
  · split <;> simp [Command.isDial]
  · simp

theorem authenticate_no_dial (schemes : List Scheme) :
    Issues h (authenticate server o host credentials schemes) fun cs _ => ∀ c ∈ cs, c.isDial = false := by
  induction schemes generalizing h with
  | nil => exact issues_outcome (by simp)
  | cons scheme schemes ih =>
    apply issues_issue
    cases server.refusal h (scheme.command credentials) with
    | none => exact issues_note (issues_outcome (by simp [scheme_no_dial]))
    | some r =>
      dsimp only
      split
      · apply issues_note
        apply issues_weaken ih
        intro cs _ noDial
        simpa [scheme_no_dial] using noDial
      · exact issues_outcome (by simp [scheme_no_dial])

theorem prepareOrDrop_no_dial :
    Issues h (onError (prepare server o host flags credentials) (shutdown server o host))
      fun cs _ => ∀ c ∈ cs, c.isDial = false := by
  have prepares : Issues h (prepare server o host flags credentials) fun cs _ =>
      ∀ c ∈ cs, c.isDial = false := by
    apply issues_prepare
    · exact fun _ _ => securing_no_dial
    · intro _
      apply issues_weaken (authenticate_no_dial _)
      exact fun cs _ noDial => List.forall_mem_append.mpr ⟨securing_no_dial, noDial⟩
  apply issues_onError prepares
  · exact fun _ => id
  · exact fun _ _ => id
  · intro front e noDial
    apply issues_weaken dropping_issues
    rintro _ _ ⟨rfl, _⟩
    exact List.forall_mem_append.mpr ⟨noDial, by simp [Command.isDial]⟩

theorem issues_openSession {T : List Command → Except Failure Session → Prop}
    (unsplit : ∀ failure, splitHost host (!flags.noTls) = .error failure → T [] (.error failure))
    (refused : ∀ name port r, splitHost host (!flags.noTls) = .ok (name, port) →
      server.refusal h (.dial name port (!flags.noTls) o.trusts) = some r →
      T [.dial name port (!flags.noTls) o.trusts] (.error (r.ofDial host)))
    (dialled : ∀ name port, splitHost host (!flags.noTls) = .ok (name, port) →
      server.refusal h (.dial name port (!flags.noTls) o.trusts) = none →
      Issues (h ++ [.dial name port (!flags.noTls) o.trusts])
        (onError (prepare server o host flags credentials) (shutdown server o host))
        fun cs r => T (.dial name port (!flags.noTls) o.trusts :: cs) (r.map fun _ => ⟨host⟩)) :
    Issues h (openSession server o host flags credentials) T := by
  unfold openSession
  extract_lets tls session logIn
  apply issues_bind (M := fun cs r => cs = [] ∧ r = splitHost host (!flags.noTls))
    (issues_outcome ⟨rfl, rfl⟩)
  · rintro cs failure ⟨rfl, split⟩
    exact unsplit failure split.symm
  · rintro front ⟨name, port⟩ ⟨rfl, split⟩
    rw [List.append_nil]
    apply issues_issue
    cases answer : server.refusal h (.dial name port tls o.trusts) with
    | none =>
      apply issues_bind (dialled name port split.symm answer)
      · exact fun _ _ => id
      · intro cs _ ended
        have opened : T (.dial name port tls o.trusts :: (cs ++ [])) (.ok session) := by
          rw [List.append_nil]
          exact ended
        exact issues_note (issues_outcome opened)
    | some r =>
      have ended := refused name port r split.symm answer
      unfold Refusal.ofDial at ended
      dsimp only
      by_cases reported : r.cls = .server ∨ r.cls = .transport
      · simp only [reported, if_true] at ended ⊢
        exact issues_outcome ended
      · simp only [reported, if_false] at ended ⊢
        exact issues_outcome ended

end Steps

end MailRules.Live
