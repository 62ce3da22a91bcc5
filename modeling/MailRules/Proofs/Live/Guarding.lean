import MailRules.Proofs.Live.SetUp
/-!
Set-ups take their steps in order, and so no password is sent on a connection that could have been secured
and is not.
-/
namespace MailRules.Live
open MailRules.Search MailRules.Sweep MailRules.Sweep.Step MailRules.Calendar MailRules.Log

def Command.sendsPassword : Command → Bool
  | .plainLogin .. | .login .. => true
  | _ => false

/-- The server was asked whether the connection can be secured, and if it says so, that was done next. -/
def AskedFirst (server : Server) (trusts : Bool) (dialled share : List Command) : Prop :=
  ∃ more, share = .hasCapability "STARTTLS" :: more ∧
    server.refusal dialled (.hasCapability "STARTTLS") = none ∧
    (server.hasCapability (dialled ++ [.hasCapability "STARTTLS"]) "STARTTLS" = true →
      ∃ rest, more = .startTls trusts :: rest ∧
        server.refusal (dialled ++ [.hasCapability "STARTTLS"]) (.startTls trusts) = none)

/-- The last connection was dialled with transport security, or the server was asked about it first. -/
def Guarded (server : Server) (history : List Command) : Prop :=
  ∃ before name port tls trusts share,
    history = before ++ .dial name port tls trusts :: share ∧
    server.refusal before (.dial name port tls trusts) = none ∧ (∀ c ∈ share, c.isDial = false) ∧
    (tls = false → AskedFirst server trusts (before ++ [.dial name port tls trusts]) share)

def PasswordsGuarded (server : Server) : List Command → List Command → Prop :=
  Throughout fun h c => c.sendsPassword = true → Guarded server h

section Steps
variable {server : Server} {o : Options} {host : String} {flags : Flags} {credentials : Credentials}
  {h logins : List Command}

theorem securing_sends_none {trusts : Bool} :
    ∀ c ∈ securing server trusts flags h, c.sendsPassword = false := by
  unfold securing
  split
  · split <;> simp [Command.sendsPassword]
  · simp

theorem askedFirst_of_securing {trusts : Bool} (plain : flags.noTls = true)
    (accepted : Accepts server h (securing server trusts flags h)) :
    AskedFirst server trusts h (securing server trusts flags h ++ logins) := by
  simp only [securing, plain, if_true] at accepted ⊢
  refine ⟨_, rfl, accepted.1, ?_⟩
  intro offered
  have offers : server.offersSecurity h = true := by simp [Server.offersSecurity, accepted.1, offered]
  simp only [offers, if_true] at accepted ⊢
  exact ⟨logins, rfl, accepted.2.1⟩

theorem guarded_of_securing {name : String} {port : Nat} {dialled : List Command}
    (same : dialled = h ++ [.dial name port (!flags.noTls) o.trusts])
    (connected : server.refusal h (.dial name port (!flags.noTls) o.trusts) = none)
    (accepted : Accepts server dialled (securing server o.trusts flags dialled))
    (noDial : ∀ c ∈ logins, c.isDial = false) :
    Guarded server (dialled ++ securing server o.trusts flags dialled ++ logins) := by
  refine ⟨h, name, port, !flags.noTls, o.trusts, securing server o.trusts flags dialled ++ logins,
    ?_, connected, ?_, ?_⟩
  · simp [same]
  · exact List.forall_mem_append.mpr ⟨securing_no_dial, noDial⟩
  · intro plain
    rw [← same]
    exact askedFirst_of_securing (by simpa using plain) accepted

theorem guarded_quietly {cs : List Command} (quiet : ∀ c ∈ cs, c.sendsPassword = false) :
    PasswordsGuarded server h cs := by
  apply (throughout_iff cs).mpr
  rintro before c after rfl sends
  simp [quiet c (by simp)] at sends

section Dialled
variable {name : String} {port : Nat} {dialled : List Command}
  (same : dialled = h ++ [.dial name port (!flags.noTls) o.trusts])
  (connected : server.refusal h (.dial name port (!flags.noTls) o.trusts) = none)
include same connected

theorem prepare_guarded : Issues dialled (prepare server o host flags credentials)
    fun cs _ => PasswordsGuarded server dialled cs := by
  have asked : PasswordsGuarded server dialled (securing server o.trusts flags dialled) :=
    guarded_quietly securing_sends_none
  apply issues_prepare
  · exact fun _ _ => asked
  · rintro ⟨_, accepted⟩
    apply issues_weaken (authenticate_no_dial _)
    intro cs _ noDial
    refine (throughout_append _ _).mpr ⟨asked, (throughout_iff cs).mpr ?_⟩
    rintro before c after rfl _
    exact guarded_of_securing same connected accepted fun x member => noDial x (by simp [member])

theorem prepareOrDrop_guarded :
    Issues dialled (onError (prepare server o host flags credentials) (shutdown server o host))
      fun cs _ => PasswordsGuarded server dialled cs := by
  apply issues_onError (prepare_guarded same connected)
  · exact fun _ => id
  · exact fun _ _ => id
  · intro front e guarded
    apply issues_weaken dropping_issues
    rintro _ _ ⟨rfl, _⟩
    exact (throughout_snoc front).mpr ⟨guarded, by simp [Command.sendsPassword]⟩

end Dialled

theorem openSession_guarded : Issues h (openSession server o host flags credentials) fun cs _ =>
    PasswordsGuarded server h cs := by
  apply issues_openSession
  · exact fun _ _ => trivial
  · exact fun _ _ _ _ _ => guarded_quietly (by simp [Command.sendsPassword])
  · intro name port _ connected
    apply issues_weaken (prepareOrDrop_guarded rfl connected)
    intro cs _ guarded
    exact ⟨by simp [Command.sendsPassword], guarded⟩

theorem pass_guarded (now : Moment) (d : Document) :
    Keeps (OnCommands (PasswordsGuarded server [])) (pass (family server o) now d) := by
  have quiet (c : Command) (sendsNone : c.sendsPassword = false) (h : List Command)
      (guarded : PasswordsGuarded server [] h) : PasswordsGuarded server [] (h ++ [c]) :=
    (throughout_snoc h).mpr ⟨guarded, by simp [sendsNone]⟩
  apply pass_keeps
  · exact modify_keeps fun _ => rfl
  · intro a _
    apply keeps_bind
    · apply keeps_of_issues
      intro h guarded
      apply issues_weaken openSession_guarded
      exact fun cs _ more => (throughout_append h cs).mpr ⟨guarded, more⟩
    · exact fun _ => modify_keeps fun _ => rfl
  · exact keeps_bind currentSession_keeps fun _ => modify_keeps fun _ => rfl
  · intro a _ m _
    apply mailbox_keeps_commands
    · intro h c touches
      exact quiet c (by cases c <;> first | rfl | cases touches) h
    · exact fun h name => quiet _ rfl h
    · exact quiet _ rfl
  · exact logout_keeps (quiet _ rfl) (quiet _ rfl) (quiet _ rfl)

end Steps

/-- Where only the server and the transport refuse, a set-up issues its commands in order after its dial, and
drops the connection at last if no session results. In any run, no password is sent before its connection is
guarded. -/
theorem set_up_in_order (server : Server) (o : Options) :
    (∀ host flags credentials st name port, splitHost host (!flags.noTls) = .ok (name, port) →
      server.refusal st.commands (.dial name port (!flags.noTls) o.trusts) = none → ∃ issued,
        (openSession server o host flags credentials st).2.commands =
          st.commands ++ .dial name port (!flags.noTls) o.trusts :: issued ∧
        (Mild server (st.commands ++ [.dial name port (!flags.noTls) o.trusts]) issued →
          SetUp server o.trusts flags credentials (st.commands ++ [.dial name port (!flags.noTls) o.trusts])
            issued (openSession server o host flags credentials st).1.isOk)) ∧
    ∀ component now d before c after, runCommands server o component now d = before ++ c :: after →
      c.sendsPassword = true → Guarded server before := by
  constructor
  · intro host flags credentials st name port split connected
    have dialled : Issues st.commands (openSession server o host flags credentials) fun cs r =>
        ∃ issued, cs = .dial name port (!flags.noTls) o.trusts :: issued ∧
          (Mild server (st.commands ++ [.dial name port (!flags.noTls) o.trusts]) issued →
            SetUp server o.trusts flags credentials
              (st.commands ++ [.dial name port (!flags.noTls) o.trusts]) issued r.isOk) := by
      apply issues_openSession
      · intro failure unsplit
        cases split.symm.trans unsplit
      · intro name' port' r split' refused
        cases split.symm.trans split'
        cases connected.symm.trans refused
      · intro name' port' split' _
        cases split.symm.trans split'
        apply issues_weaken prepareOrDrop_issues
        intro cs result ended
        refine ⟨cs, rfl, fun mild => ?_⟩
        match result with
        | .ok () => exact ended.2
        | .error (.error e) => exact ended.2.1
        | .error (.fault x) => exact ended.2.resolve_right (not_not_intro mild)
    obtain ⟨_, log, same, issued, rfl, setUp⟩ := dialled st rfl
    exact ⟨issued, by rw [same], setUp⟩
  · intro component now d before c after split sends
    have guarded : PasswordsGuarded server [] (runCommands server o component now d) :=
      runCommands_of_keeps trivial fun _ _ => pass_guarded now d
    simpa using (throughout_iff _).mp guarded before c after split sends

def offersStartTls : Server := { refusesExternal with hasCapability := fun _ _ => true }

def withoutTls : Flags := { noTls := true }

def plainDial : Command := .dial "h" 143 false false

def securedLogin : List Command :=
  [.hasCapability "STARTTLS", .startTls false, .saslLogin "EXTERNAL" [], .plainLogin "" "" none]

theorem offersStartTls_commands : runCommands offersStartTls plainOptions "live" noon
    ⟨"c", [⟨"h", withoutTls, {}, [], ⟨"c", 2, 3⟩⟩]⟩ =
      plainDial :: securedLogin ++ [.socket, .setTimeout (.zero false), .logout] := by
  cbv

theorem offersStartTls_opened : openSession offersStartTls plainOptions "h" withoutTls {} {} =
    (.ok ⟨"h"⟩, { commands := plainDial :: securedLogin, log :=
      (openSession offersStartTls plainOptions "h" withoutTls {} {}).2.log }) := by
  cbv

theorem offersStartTls_in_order :
    SetUp offersStartTls false withoutTls {} [plainDial] securedLogin true ∧
      Guarded offersStartTls (plainDial :: securedLogin.take 3) := by
  constructor
  · have mild : Mild offersStartTls [plainDial] securedLogin := by
      simp [Mild, Throughout, securedLogin, offersStartTls, refusesExternal]
    obtain ⟨issued, same, setUp⟩ :=
      (set_up_in_order offersStartTls plainOptions).1 "h" withoutTls {} {} "h" 143 (by cbv) rfl
    rw [offersStartTls_opened] at same setUp
    cases same
    exact setUp mild
  · exact (set_up_in_order offersStartTls plainOptions).2 "live" noon _ _ (.plainLogin "" "" none) _
      offersStartTls_commands rfl

end MailRules.Live
