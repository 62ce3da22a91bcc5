import MailRules.Settings
import MailRules.TrustStore
import MailRules.Document.Load
import MailRules.Sweep.Run
/-!
The program: one sweep over all accounts of the document. Whatever is wrong with the certificates or
the document is found before anything else is done, and every error is reported on lines of its own.
-/
namespace MailRules.Program
open MailRules.Sweep MailRules.Log MailRules.Calendar

structure Surroundings (σ : Type) where
  environment : String → Option String
  /-- The home directories of users; that of the user of the program has the empty name. -/
  homes : String → Option String
  content : Path → Content
  /-- What the transport says to a certificate. -/
  judge : String → TrustStore.Verdict
  live : Settings → Family σ
  /-- The records of the live family. -/
  liveLog : σ → List Record
  now : Moment

inductive Ending
  | done
  | failed
  | fault (f : Fault)

structure Report (σ : Type) where
  /-- Announces that no sweep was begun. -/
  announcement : Option String := none
  records : List Record := []
  lines : List String := []
  ending : Ending
  live : σ

def component : String := "imapsweep.orchestrator"

def sessionComponent : String := "imapsweep.imap"

def dryRunMark : String := "[dry run] "

def reportLines (mark : String) (errors : List Error) : List String :=
  errors.flatMap fun e => (Text.lines e.message).map (mark ++ ·)

def notStarted {σ : Type} (start : σ) : Failure → Report σ
  | .fault f => { ending := .fault f, live := start }
  | .error e =>
    { announcement := some ("startup_failed: " ++ e.message)
      lines := reportLines "" [e]
      ending := .failed
      live := start }

def finished {σ : Type} (liveLog : σ → List Record) (r : Run σ Unit) : Report σ :=
  let records := r.records liveLog
  match r.outcome with
  | .ok () => { records := records, ending := .done, live := r.live }
  | .error (.fault f) => { records := records, ending := .fault f, live := r.live }
  | .error (.error e) =>
    let lines := match e with
      | .validationFailed errors => reportLines dryRunMark errors
      | .runFailed errors => reportLines "" errors
      | e => reportLines "" [e]
    { records := records, lines := lines, ending := .failed, live := r.live }

/-- Reads the certificates and the document, and runs both passes. -/
def sweep {σ : Type} (s : Surroundings σ) (start : σ) : Report σ :=
  match Settings.resolve s.environment s.homes with
  | .error f => notStarted start (.fault f)
  | .ok settings =>
    match (TrustStore.load s.judge settings.trustFile (s.content settings.trustFile)).outcome with
    | .error failure => notStarted start failure
    | .ok () =>
      match Document.load settings.documentFile (s.content settings.documentFile) with
      | .error failure => notStarted start failure
      | .ok d =>
        finished s.liveLog
          (run (s.live settings) (Family.idle Unit) component s.now d start ())

def Report.written {σ : Type} (r : Report σ) (stamp : Record → String) : List String :=
  r.announcement.toList ++ r.records.map (fun x => x.line (stamp x)) ++ r.lines

def Ending.exitCode : Ending → UInt32
  | .done => 0
  | _ => 1

end MailRules.Program
