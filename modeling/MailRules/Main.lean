import MailRules.Program
import MailRules.Live.Family
import Std.Time.DateTime.Timestamp
/-!
The command line. It takes no arguments, reads the environment and the two files, sweeps, writes what
there is to say to standard error, and ends with the exit code. No transport is built in, so every
account is reported as unreachable.
-/
open MailRules MailRules.Calendar

def readContent (p : Path) : IO Content := do
  try
    let octets ← IO.FS.readBinFile p.text
    return .octets (octets.toList.map UInt8.toNat)
  catch
    | .noFileOrDirectory .. => return .missing
    | .permissionDenied .. => return .unreadable 13 "Permission denied"
    | .inappropriateType .. => return .unreadable 21 "Is a directory"
    | e => return .unreadable 5 (toString e)

def readNow : IO Moment := do
  let t ← Std.Time.Timestamp.now
  return .ofEpoch (t.toNanosecondsSinceUnixEpoch.val / 1000).toNat

def main : IO UInt32 := do
  let configuration ← Settings.homeVariables.mapM fun name => return (name, ← IO.getEnv name)
  let environment (name : String) : Option String := (configuration.lookup name).join
  let home ← IO.getEnv "HOME"
  let accounts ← try pure (← IO.FS.readFile "/etc/passwd").toList catch _ => pure []
  let homes (user : String) : Option String :=
    if user.isEmpty then home else Path.homeIn? accounts user
  let files ← match Settings.resolve environment homes with
    | .ok settings =>
      [settings.trustFile, settings.documentFile].mapM fun p => return (p, ← readContent p)
    | .error _ => pure []
  let now ← readNow
  let server := Live.Server.unreachable "no transport is built in"
  let options (s : Settings) : Live.Options := ⟨true, s.logoutTimeout, Program.sessionComponent⟩
  let report := Program.sweep
    { environment := environment
      homes := homes
      content := fun p => (files.lookup p).getD .missing
      judge := fun _ => .accepted
      live := fun s => Live.family server (options s)
      liveLog := fun (s : Live.State) => s.log
      now := now } {}
  let stamp := (← readNow).isoText 'T'
  for line in report.written fun _ => stamp do
    IO.eprintln line
  match report.ending with
  | .fault f => IO.eprintln ("fault: " ++ f.message)
  | _ => pure ()
  return report.ending.exitCode
