import MailRules.Sweep.Pass
import MailRules.Log.Record
/-!
A run: a validation pass that reaches no server, and, only if it found nothing, the live pass.
-/
namespace MailRules.Sweep
open MailRules.Calendar MailRules.Log

/-- What became of a run. The records of the live family itself come between those before the live
pass and those after it. -/
structure Run (σ τ : Type) where
  before : List Record
  after : List Record
  outcome : Except Failure Unit
  live : σ
  validator : τ

def Run.records {σ τ : Type} (r : Run σ τ) (liveLog : σ → List Record) : List Record :=
  r.before ++ liveLog r.live ++ r.after

def run {σ τ : Type} (live : Family σ) (validator : Family τ) (component : String) (now : Moment)
    (d : Document) (start : σ) (validatorStart : τ) : Run σ τ :=
  let source := ("source", Value.text d.source)
  let started := info component "validation pass started" [source, ("accounts", .int d.accounts.length)]
  let failed (message : String) (errors : List Error) :=
    Log.error component message [("errors", .int errors.length)]
  match pass validator now d validatorStart with
  | (.error failure, v) => ⟨[started], [], .error failure, start, v⟩
  | (.ok (e :: es), v) =>
    ⟨[started, failed "validation pass failed" (e :: es)], [],
      .error (.error (.validationFailed (e :: es))), start, v⟩
  | (.ok [], v) =>
    let before := [started, info component "live pass started" [source]]
    match pass live now d start with
    | (.error failure, s) => ⟨before, [], .error failure, s, v⟩
    | (.ok (e :: es), s) =>
      ⟨before, [failed "live pass failed" (e :: es)], .error (.error (.runFailed (e :: es))), s, v⟩
    | (.ok [], s) => ⟨before, [info component "live pass finished" [source]], .ok (), s, v⟩

end MailRules.Sweep
