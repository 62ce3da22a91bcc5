import MailRules.Proofs.Live.SetUp
/-!
What is reported of a set-up. An error of it is the end of its account only; a refusal that no step of it
expects, and a port that cannot be read, are the end of the pass.
-/
namespace MailRules.Live
open MailRules.Sweep MailRules.Sweep.Step MailRules.Number MailRules.Text MailRules.Log

/-- The text of the port is made of digits and yet no numeral: not all are decimal, or they are too many. -/
def PortUnreadable (host : String) : Prop :=
  (hostPieces host.toList).2 ≠ [] ∧ (hostPieces host.toList).2.all isDigitLike = true ∧
    ∃ e, readInteger 10 (hostPieces host.toList).2 = .error e

theorem splitHost_reads (host : String) (tls : Bool) : match splitHost host tls with
    | .ok _ => ¬ PortUnreadable host
    | .error (.error e) => ¬ PortUnreadable host ∧ e.OfSetUp
    | .error (.fault _) => PortUnreadable host := by
  unfold splitHost PortUnreadable
  generalize hostPieces host.toList = pieces
  obtain ⟨name, port⟩ := pieces
  by_cases empty : port = []
  · simp [empty]
  · by_cases digits : port.all isDigitLike = true
    · cases read : readInteger 10 port with
      | ok i => simp [empty, digits, read]
      | error e => simp [empty, digits, read]
    · simp [empty, digits, Error.OfSetUp]

/-- The ends of an opening that leave the pass going, by what is issued for it. -/
inductive Reports (server : Server) (host : String) (flags : Flags) (c : Credentials) (h : List Command) :
    List Command → Except Failure Session → Prop
  | session {dial : Command} {between : List Command} {scheme : Scheme} (dials : dial.isDial = true)
      (connected : server.refusal h dial = none) (enabled : scheme ∈ Scheme.enabled flags)
      (authenticated : server.refusal (h ++ dial :: between) (scheme.command c) = none) :
      Reports server host flags c h (dial :: (between ++ [scheme.command c])) (.ok ⟨host⟩)
  | undialled {e : Error} (ofSetUp : e.OfSetUp) : Reports server host flags c h [] (.error (.error e))
  | unconnected {dial : Command} {e : Error} (dials : dial.isDial = true)
      (refused : server.refusal h dial ≠ none) (ofSetUp : e.OfSetUp) :
      Reports server host flags c h [dial] (.error (.error e))
  | dropped {dial : Command} {between : List Command} {e : Error} (dials : dial.isDial = true)
      (connected : server.refusal h dial = none) (ofSetUp : e.OfSetUp) :
      Reports server host flags c h (dial :: (between ++ [.shutdown])) (.error (.error e))

inductive OpeningEnds (server : Server) (host : String) (flags : Flags) (c : Credentials)
    (h cs : List Command) : Except Failure Session → Prop
  | reported {r : Except Failure Session} (reports : Reports server host flags c h cs r)
      (readable : ¬ PortUnreadable host) (foreseen : Foreseen server h cs) :
      OpeningEnds server host flags c h cs r
  | fault {x : Fault} (unforeseen : ¬ PortUnreadable host → ¬ Foreseen server h cs) :
      OpeningEnds server host flags c h cs (.error (.fault x))

def dialOf (o : Options) (host : String) (flags : Flags) : Option Command :=
  (splitHost host (!flags.noTls)).toOption.map fun place => .dial place.1 place.2 (!flags.noTls) o.trusts

section Openings
variable {server : Server} {o : Options} {host : String} {flags : Flags} {c : Credentials}
  {h cs : List Command}

theorem OpeningEnds.reports_iff {r : Except Failure Session}
    (ended : OpeningEnds server host flags c h cs r) :
    Reports server host flags c h cs r ↔ ¬ PortUnreadable host ∧ Foreseen server h cs := by
  cases ended with
  | reported reports readable foreseen => exact iff_of_true reports ⟨readable, foreseen⟩
  | fault unforeseen =>
    refine iff_of_false ?_ fun ⟨readable, foreseen⟩ => unforeseen readable foreseen
    intro reports
    cases reports

theorem reports_session {dial : Command} (dials : dial.isDial = true)
    (connected : server.refusal h dial = none)
    (setUp : SetUp server o.trusts flags c (h ++ [dial]) cs true) :
    Reports server host flags c h (dial :: cs) (.ok ⟨host⟩) := by
  cases setUp with
  | opened prepared =>
    cases prepared with
    | secured accepted logsIn =>
      cases logsIn with
      | @succeeds tried rest scheme order refused authenticated =>
        rw [← List.append_assoc]
        apply Reports.session dials connected
        · simp [order]
        · simpa using authenticated

theorem reports_dropped {dial : Command} {e : Error} (dials : dial.isDial = true)
    (connected : server.refusal h dial = none) (ofSetUp : e.OfSetUp)
    (setUp : SetUp server o.trusts flags c (h ++ [dial]) cs false) :
    Reports server host flags c h (dial :: cs) (.error (.error e)) := by
  cases setUp with
  | dropped prepared => exact .dropped dials connected ofSetUp

theorem openSession_issues : Issues h (openSession server o host flags c) fun cs r =>
    cs.filter Command.isDial = (dialOf o host flags).toList ∧ OpeningEnds server host flags c h cs r := by
  have reads := splitHost_reads host (!flags.noTls)
  apply issues_openSession
  · intro failure unsplit
    rw [unsplit] at reads
    refine ⟨by simp [dialOf, unsplit, Except.toOption], ?_⟩
    cases failure with
    | error e => exact .reported (.undialled reads.2) reads.1 trivial
    | fault x => exact .fault fun readable => (readable reads).elim
  · intro name port r split answer
    rw [split] at reads
    refine ⟨by simp [dialOf, split, Except.toOption, Command.isDial], ?_⟩
    have foreseen : Foreseen server h [.dial name port (!flags.noTls) o.trusts] ↔
        r.cls = .server ∨ r.cls = .transport := by
      simp [Foreseen, Throughout, answer, Command.expects]
    unfold Refusal.ofDial
    by_cases leads : r.cls = .server ∨ r.cls = .transport
    · rw [if_pos leads]
      exact .reported (.unconnected rfl (by simp [answer]) trivial) reads (foreseen.mpr leads)
    · rw [if_neg leads]
      exact .fault fun _ all => leads (foreseen.mp all)
  · intro name port split connected
    rw [split] at reads
    apply issues_weaken (issues_and prepareOrDrop_issues prepareOrDrop_no_dial)
    rintro cs result ⟨ended, noDial⟩
    have dials : (Command.dial name port (!flags.noTls) o.trusts).isDial = true := rfl
    refine ⟨by simp [dialOf, split, Except.toOption, List.filter_cons_of_pos dials,
      filter_no_dial noDial], ?_⟩
    have foreseen : Foreseen server h (.dial name port (!flags.noTls) o.trusts :: cs) ↔
        Foreseen server (h ++ [.dial name port (!flags.noTls) o.trusts]) cs := by
      simp [Foreseen, Throughout, connected]
    cases result with
    | ok => exact .reported (reports_session dials connected ended.2) reads (foreseen.mpr ended.1)
    | error failure =>
      cases failure with
      | error e =>
        exact .reported (reports_dropped dials connected ended.2.2 ended.2.1) reads (foreseen.mpr ended.1)
      | fault x => exact .fault fun _ all => ended.1 (foreseen.mp all)

end Openings

/-- A set-up ends in a session or in one of its errors, with the connection shut down, if and only if the port
can be read and each refusal met is one that its step expects. Such an error is contained: the pass goes on
with the next account. Anything else ends the pass. -/
theorem set_up_reports_iff_foreseen (server : Server) (o : Options) :
    (∀ host flags credentials st, ∃ issued,
      (openSession server o host flags credentials st).2.commands = st.commands ++ issued ∧
      (Reports server host flags credentials st.commands issued
          (openSession server o host flags credentials st).1 ↔
        ¬ PortUnreadable host ∧ Foreseen server st.commands issued)) ∧
    ∀ now source front a back errors st st₁ failure st₂,
      pass (family server o) now ⟨source, front⟩ st = (.ok errors, st₁) →
      openSession server o a.host a.flags a.credentials { st₁ with session := none } =
        (.error failure, st₂) →
      pass (family server o) now ⟨source, front ++ a :: back⟩ st = match failure with
        | .error e => (do return errors ++ (e.flat ++ (← pass (family server o) now ⟨source, back⟩))) st₂
        | .fault x => (.error (.fault x), st₂) := by
  constructor
  · intro host flags credentials st
    obtain ⟨issued, log, same, _, ended⟩ := openSession_issues st rfl
    exact ⟨issued, by rw [same], ended.reports_iff⟩
  · intro now source front a back errors st st₁ failure st₂ passed failed
    have connects : (do
        (family server o).newAccount
        account (family server o) now a) st₁ = (.error failure, st₂) := by
      rw [bind_apply]
      change (account (family server o) now a) { st₁ with session := none } = _
      unfold account
      rw [bind_apply]
      have connected : (family server o).connect a.host a.flags a.credentials { st₁ with session := none } =
          (.error failure, st₂) := by
        change (connect server o a.host a.flags a.credentials) _ = _
        unfold connect
        rw [bind_apply, failed]
      rw [connected]
    rw [pass_past (family server o) passed, bind_apply, collected_apply, connects]
    cases failure <;> rfl

def externalOnly : Flags := { noSaslPlain := true, noSimpleLogin := true }

theorem refusesExternal_drops : openSession refusesExternal plainOptions "h" externalOnly {} {} =
    (.error (.error (.authentication "h")),
      { commands := [.dial "h" 993 true false, .saslLogin "EXTERNAL" [], .shutdown]
        log := [warning "live" "authentication attempt failed"
          [("host", .text "h"), ("scheme", .text "sasl external"), ("error", .text "no")]] }) := by
  cbv

theorem refusesExternal_contained :
    pass (family refusesExternal plainOptions) noon ⟨"c", []⟩ {} = (.ok [], {}) ∧
      ∃ st, openSession refusesExternal plainOptions "h" externalOnly {} {} =
          (.error (.error (.authentication "h")), st) ∧
        pass (family refusesExternal plainOptions) noon
          ⟨"c", [⟨"h", externalOnly, {}, [], ⟨"c", 2, 3⟩⟩]⟩ {} = (.ok [.authentication "h"], st) := by
  have passed : pass (family refusesExternal plainOptions) noon ⟨"c", []⟩ {} = (.ok [], {}) := rfl
  refine ⟨passed, _, refusesExternal_drops, ?_⟩
  exact (set_up_reports_iff_foreseen refusesExternal plainOptions).2 noon "c" []
    ⟨"h", externalOnly, {}, [], ⟨"c", 2, 3⟩⟩ [] [] {} {} _ _ passed refusesExternal_drops

def unencodable : Server where
  refusal := fun _ c => if c.isDial then some ⟨.encoding, "UnicodeError", "label too long"⟩ else none
  hasCapability := fun _ _ => false
  found := fun _ => []

theorem unencodable_unreported : ¬ ∀ (server : Server) o host flags credentials st,
    (∀ h c r, server.refusal h c = some r → r.cls ≠ .unexpected) →
    (∃ s, (openSession server o host flags credentials st).1 = .ok s) ∨
      ∃ e : Error, e.OfSetUp ∧ (openSession server o host flags credentials st).1 = .error (.error e) := by
  intro always
  have failed : (openSession unencodable plainOptions "h" {} {} {}).1 =
      .error (.fault (.foreign "UnicodeError" "label too long")) := by cbv
  have expected : ∀ h c r, unencodable.refusal h c = some r → r.cls ≠ .unexpected := by
    intro h c r answer
    simp only [unencodable] at answer
    split at answer
    · cases answer
      decide
    · cases answer
  rcases always unencodable plainOptions "h" {} {} {} expected with ⟨s, opened⟩ | ⟨e, _, reported⟩
  · cases failed.symm.trans opened
  · cases failed.symm.trans reported

end MailRules.Live
