import MailRules.Sweep.Run
import MailRules.Proofs.Sweep.Watch
/-!
How a run ends. Each of its passes ends with the errors of all its parts or with a fault; the first pass
that does not end well decides.
-/
namespace MailRules.Sweep
open MailRules.Search MailRules.Calendar MailRules.Sweep.Step

variable {σ τ : Type}

theorem pass_fails_by_fault (f : Family σ) (now : Moment) (d : Document) (st : σ) {failure : Failure}
    (failed : (pass f now d st).1 = .error failure) : ∃ x, failure = .fault x := by
  have ended : Triple (fun _ => True) (pass f now d) (fun _ _ => True)
      fun failure _ => ∃ x, failure = .fault x := by
    apply triple_collectEach fun _ _ _ => True
    intro done a rest errors _ st _
    split
    · trivial
    · rename_i failure _ _
      cases failure with
      | error e => trivial
      | fault x => exact ⟨x, rfl⟩
  have holds := ended st trivial
  match same : pass f now d st with
  | (.ok errors, st') => simp [same] at failed
  | (.error other, st') =>
    rw [same] at holds failed
    cases failed
    exact holds

theorem pass_past (f : Family σ) {now : Moment} {source : String} {front back : List Account} {a : Account}
    {errors : List Error} {st st' : σ} (passed : pass f now ⟨source, front⟩ st = (.ok errors, st')) :
    pass f now ⟨source, front ++ a :: back⟩ st = (do
      let own ← Step.collected do
        f.newAccount
        account f now a
      return errors ++ (own ++ (← pass f now ⟨source, back⟩))) st' := by
  unfold pass at passed ⊢
  rw [collectEach_append, bind_apply, passed]
  simp [collectEach]

def ending (told : List Error → Error) : Except Failure (List Error) → Except Failure Unit
  | .error failure => .error failure
  | .ok [] => .ok ()
  | .ok (e :: es) => .error (.error (told (e :: es)))

section Passes
variable (live : Family σ) (validator : Family τ) (component : String) (now : Moment) (d : Document)
  (start : σ) (validatorStart : τ)

theorem run_validator : (run live validator component now d start validatorStart).validator =
    (pass validator now d validatorStart).2 := by
  unfold run
  match pass validator now d validatorStart with
  | (.error failure, v) => rfl
  | (.ok (e :: es), v) => rfl
  | (.ok [], v) =>
    match pass live now d start with
    | (.error failure, s) => rfl
    | (.ok (e :: es), s) => rfl
    | (.ok [], s) => rfl

theorem run_refused (refused : (pass validator now d validatorStart).1 ≠ .ok []) :
    (run live validator component now d start validatorStart).live = start ∧
      (run live validator component now d start validatorStart).outcome =
        ending .validationFailed (pass validator now d validatorStart).1 := by
  unfold run
  match same : pass validator now d validatorStart with
  | (.error failure, v) => exact ⟨rfl, rfl⟩
  | (.ok (e :: es), v) => exact ⟨rfl, rfl⟩
  | (.ok [], v) => simp [same] at refused

theorem run_passed (passed : (pass validator now d validatorStart).1 = .ok []) :
    (run live validator component now d start validatorStart).live = (pass live now d start).2 ∧
      (run live validator component now d start validatorStart).outcome =
        ending .runFailed (pass live now d start).1 := by
  unfold run
  match same : pass validator now d validatorStart with
  | (.error failure, v) => simp [same] at passed
  | (.ok (e :: es), v) => simp [same] at passed
  | (.ok [], v) =>
    match pass live now d start with
    | (.error failure, s) => exact ⟨rfl, rfl⟩
    | (.ok (e :: es), s) => exact ⟨rfl, rfl⟩
    | (.ok [], s) => exact ⟨rfl, rfl⟩

theorem run_inStep {σ' τ' : Type} {live' : Family σ'} {validator' : Family τ'} {d' : Document}
    {start' : σ'} {validatorStart' : τ'} {R : σ → σ' → Prop} (sources : d.source = d'.source)
    (counts : d.accounts.length = d'.accounts.length)
    (checks : (pass validator now d validatorStart).1 = (pass validator' now d' validatorStart').1)
    (lives : InStep R (pass live now d) (pass live' now d')) (starts : R start start') :
    let run₁ := run live validator component now d start validatorStart
    let run₂ := run live' validator' component now d' start' validatorStart'
    run₁.before = run₂.before ∧ run₁.after = run₂.after ∧ run₁.outcome = run₂.outcome ∧
      R run₁.live run₂.live := by
  obtain ⟨swept, st, st', left, right, after⟩ := lives start start' starts
  unfold run
  rw [← sources, ← counts]
  match leftCheck : pass validator now d validatorStart,
      rightCheck : pass validator' now d' validatorStart' with
  | (checked, v), (checked', v') =>
    rw [leftCheck, rightCheck] at checks
    cases checks
    match checked with
    | .error failure => exact ⟨rfl, rfl, rfl, starts⟩
    | .ok (e :: es) => exact ⟨rfl, rfl, rfl, starts⟩
    | .ok [] =>
      rw [left, right]
      match swept with
      | .error failure => exact ⟨rfl, rfl, rfl, after⟩
      | .ok (e :: es) => exact ⟨rfl, rfl, rfl, after⟩
      | .ok [] => exact ⟨rfl, rfl, rfl, after⟩

def watchedRun : Run (Watched σ) (Watched τ) :=
  run live.watched validator.watched component now d ⟨start, []⟩ ⟨validatorStart, []⟩

theorem pass_watched_outcome (f : Family σ) (st : σ) :
    (pass f.watched now d ⟨st, []⟩).1 = (pass f now d st).1 :=
  (congrArg Prod.fst (pass_watched f now d ⟨st, []⟩)).symm

theorem watchedRun_validator :
    (watchedRun live validator component now d start validatorStart).validator.events =
      trace validator now d validatorStart := by
  rw [watchedRun, run_validator, trace]

theorem watchedRun_refused (refused : (pass validator now d validatorStart).1 ≠ .ok []) :
    (watchedRun live validator component now d start validatorStart).live.events = [] := by
  have same := pass_watched_outcome now d validator validatorStart
  rw [watchedRun, (run_refused _ _ _ _ _ _ _ (same ▸ refused)).1]

theorem watchedRun_passed (passed : (pass validator now d validatorStart).1 = .ok []) :
    (watchedRun live validator component now d start validatorStart).live.events =
      trace live now d start := by
  have same := pass_watched_outcome now d validator validatorStart
  rw [watchedRun, (run_passed _ _ _ _ _ _ _ (same.trans passed)).1, trace]

end Passes
end MailRules.Sweep
