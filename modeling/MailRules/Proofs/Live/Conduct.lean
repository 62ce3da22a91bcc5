import MailRules.Proofs.Live.History
/-!
What a step issues and how it ends, after a given history. The commands of a step that is put together are
those of its parts, one after another, and each of them is answered from the commands before it. Nothing
else changes but the log.
-/
namespace MailRules.Live
open MailRules.Sweep MailRules.Sweep.Step MailRules.Log

/-- Each of the commands is as `p` says when it follows those before it. -/
def Throughout (p : List Command → Command → Prop) (history : List Command) : List Command → Prop
  | [] => True
  | c :: rest => p history c ∧ Throughout p (history ++ [c]) rest

def Refuses (server : Server) : List Command → List Command → Prop :=
  Throughout fun h c => server.refusal h c ≠ none

/-- Is a refusal of the command expected from this side? Connections and ways to log in may be refused by the
server and on the transport. A connection that is dropped may be lost already, and a socket is there. -/
def Command.expects : Command → RefusalClass → Bool
  | .dial .., side | .saslLogin .., side | .plainLogin .., side | .login .., side =>
    side = .server || side = .transport
  | .shutdown, side => side = .transport
  | .socket, _ => false
  | _, side => side ≠ .unexpected

def Foreseen (server : Server) : List Command → List Command → Prop :=
  Throughout fun h c => ∀ r, server.refusal h c = some r → c.expects r.cls = true

def Mild (server : Server) : List Command → List Command → Prop :=
  Throughout fun h c => ∀ r, server.refusal h c = some r → r.cls = .server ∨ r.cls = .transport

variable {server : Server} {α β : Type} {h : List Command} {c : Command}

section Throughout
variable {p : List Command → Command → Prop}

theorem throughout_append (first second : List Command) :
    Throughout p h (first ++ second) ↔ Throughout p h first ∧ Throughout p (h ++ first) second := by
  induction first generalizing h with
  | nil => simp [Throughout]
  | cons c first ih => simp [Throughout, ih, and_assoc]

theorem throughout_snoc (cs : List Command) :
    Throughout p h (cs ++ [c]) ↔ Throughout p h cs ∧ p (h ++ cs) c := by
  simp [throughout_append, Throughout]

theorem throughout_iff (cs : List Command) :
    Throughout p h cs ↔ ∀ before c after, cs = before ++ c :: after → p (h ++ before) c := by
  constructor
  · rintro all before c after rfl
    exact ((throughout_append _ _).mp all).2.1
  · intro each
    induction cs generalizing h with
    | nil => trivial
    | cons c cs ih =>
      refine ⟨by simpa using each [] c cs rfl, ih ?_⟩
      rintro before x after rfl
      simpa using each (c :: before) x after rfl

end Throughout

def Refusal.reported (r : Refusal) (session : Session) (operation : String) : Failure :=
  if r.cls = .unexpected then .fault r.fault
  else .error (.protocol operation (session.host ++ ": " ++ r.message))

/-- After the history, the step issues commands and ends as `T` says. -/
def Issues (h : List Command) (s : LiveStep α) (T : List Command → Except Failure α → Prop) : Prop :=
  ∀ st, st.commands = h →
    ∃ cs log, (s st).2 = { st with commands := h ++ cs, log := log } ∧ T cs (s st).1

section Rules
variable {T : List Command → Except Failure α → Prop}

theorem issues_weaken {s : LiveStep α} {M : List Command → Except Failure α → Prop}
    (inner : Issues h s M) (imp : ∀ cs r, M cs r → T cs r) : Issues h s T := by
  intro st same
  obtain ⟨cs, log, issued, ended⟩ := inner st same
  exact ⟨cs, log, issued, imp cs _ ended⟩

theorem issues_and {s : LiveStep α} {T' : List Command → Except Failure α → Prop} (one : Issues h s T)
    (other : Issues h s T') : Issues h s fun cs r => T cs r ∧ T' cs r := by
  intro st same
  obtain ⟨cs, log, issued, ended⟩ := one st same
  obtain ⟨cs', log', issued', ended'⟩ := other st same
  -- It is one run, so what it issues is the same for both.
  have alike : h ++ cs = h ++ cs' := congrArg State.commands (issued.symm.trans issued')
  cases List.append_cancel_left alike
  exact ⟨cs, log, issued, ended, ended'⟩

theorem triple_of_issues {G : State → Prop} {s : LiveStep α} {Q : α → State → Prop}
    {E : Failure → State → Prop} {T : State → List Command → Except Failure α → Prop}
    (issues : ∀ st, G st → Issues st.commands s (T st))
    (success : ∀ st cs log a, G st → T st cs (.ok a) →
      Q a { st with commands := st.commands ++ cs, log := log })
    (failed : ∀ st cs log failure, G st → T st cs (.error failure) →
      E failure { st with commands := st.commands ++ cs, log := log }) : Triple G s Q E := by
  intro st holds
  obtain ⟨cs, log, issued, ended⟩ := issues st holds st rfl
  match same : s st with
  | (.ok a, st') =>
    rw [same] at issued ended
    have after : st' = { st with commands := st.commands ++ cs, log := log } := issued
    subst after
    exact success st cs log a holds ended
  | (.error failure, st') =>
    rw [same] at issued ended
    have after : st' = { st with commands := st.commands ++ cs, log := log } := issued
    subst after
    exact failed st cs log failure holds ended

theorem keeps_of_issues {P : List Command → Prop} {s : LiveStep α}
    (issues : ∀ h, P h → Issues h s fun cs _ => P (h ++ cs)) : Keeps (OnCommands P) s :=
  triple_of_issues (fun st holds => issues st.commands holds) (fun _ _ _ _ _ => id) fun _ _ _ _ _ => id

theorem issues_outcome {r : Except Failure α} (ended : T [] r) :
    Issues h (fun st => (r, st) : LiveStep α) T := by
  rintro st rfl
  exact ⟨[], st.log, by simp, ended⟩

theorem issues_bind {s : LiveStep β} {next : β → LiveStep α} {M : List Command → Except Failure β → Prop}
    (first : Issues h s M) (failed : ∀ cs failure, M cs (.error failure) → T cs (.error failure))
    (later : ∀ front b, M front (.ok b) → Issues (h ++ front) (next b) fun back => T (front ++ back)) :
    Issues h (s >>= next) T := by
  rintro st rfl
  obtain ⟨front, log, issued, ended⟩ := first st rfl
  rw [bind_apply]
  match same : s st with
  | (.ok b, st') =>
    rw [same] at issued ended
    change st' = _ at issued
    obtain ⟨back, log', more, ended'⟩ := later front b ended st' (by rw [issued])
    exact ⟨front ++ back, log', by rw [more, issued, List.append_assoc], ended'⟩
  | (.error failure, st') =>
    rw [same] at issued ended
    exact ⟨front, log, issued, failed front failure ended⟩

theorem issues_issue {next : Option Refusal → LiveStep α}
    (later : Issues (h ++ [c]) (next (server.refusal h c)) fun cs => T (c :: cs)) :
    Issues h (issue server c >>= next) T := by
  rintro st rfl
  have step : (issue server c >>= next) st = next (server.refusal st.commands c) (st.issued c) := rfl
  obtain ⟨cs, log, issued, ended⟩ := later (st.issued c) rfl
  rw [step]
  exact ⟨c :: cs, log, by rw [issued, List.append_assoc]; rfl, ended⟩

theorem issues_note {next : LiveStep α} {r : Record} (later : Issues h next T) :
    Issues h (do note r; next) T := by
  intro st same
  obtain ⟨cs, log, issued, ended⟩ := later { st with log := st.log ++ [r] } same
  exact ⟨cs, log, issued, ended⟩

theorem issues_get {next : State → LiveStep α} (later : ∀ st, st.commands = h → Issues h (next st) T) :
    Issues h (get >>= next) T :=
  fun st same => later st same st same

theorem issues_perform {T : List Command → Except Failure Unit → Prop} {session : Session}
    {operation : String} (accepted : server.refusal h c = none → T [c] (.ok ()))
    (refused : ∀ r, server.refusal h c = some r → T [c] (.error (r.reported session operation))) :
    Issues h (perform server session operation c) T := by
  apply issues_issue
  cases answer : server.refusal h c with
  | none => exact issues_outcome (accepted answer)
  | some r =>
    have ended := refused r answer
    unfold Refusal.reported at ended
    by_cases unexpected : r.cls = .unexpected
    · simp only [unexpected, if_true] at ended ⊢
      exact issues_outcome ended
    · simp only [unexpected, if_false] at ended ⊢
      exact issues_outcome ended

theorem issues_attempt {body : LiveStep Unit} {M : List Command → Except Failure Unit → Prop}
    (inner : Issues h body M) :
    Issues h body.attempt fun cs r => match r with
      | .ok none => M cs (.ok ())
      | .ok (some e) => M cs (.error (.error e))
      | .error (.fault x) => M cs (.error (.fault x))
      | .error (.error _) => False := by
  intro st same
  obtain ⟨cs, log, issued, ended⟩ := inner st same
  refine ⟨cs, log, ?_⟩
  unfold attempt
  match result : body st with
  | (.ok (), st') => exact ⟨by simpa [result] using issued, by simpa [result] using ended⟩
  | (.error (.error e), st') => exact ⟨by simpa [result] using issued, by simpa [result] using ended⟩
  | (.error (.fault x), st') => exact ⟨by simpa [result] using issued, by simpa [result] using ended⟩

/-- What the cleanup fails with takes the place of the error of the body. -/
theorem issues_onError {body cleanup : LiveStep Unit} {M T : List Command → Except Failure Unit → Prop}
    (inner : Issues h body M) (done : ∀ cs, M cs (.ok ()) → T cs (.ok ()))
    (fault : ∀ cs x, M cs (.error (.fault x)) → T cs (.error (.fault x)))
    (last : ∀ front e, M front (.error (.error e)) →
      Issues (h ++ front) cleanup fun back r => T (front ++ back) (r.bind fun _ => .error (.error e))) :
    Issues h (onError body cleanup) T := by
  apply issues_bind (issues_attempt inner)
  · intro cs failure ended
    cases failure with
    | error e => exact ended.elim
    | fault x => exact fault cs x ended
  · intro front raised ended
    cases raised with
    | none => exact issues_outcome (by simpa using done front ended)
    | some e =>
      apply issues_bind (last front e ended)
      · exact fun _ _ => id
      · intro back _ ended'
        exact issues_outcome (by simpa [Except.bind] using ended')

end Rules
end MailRules.Live
