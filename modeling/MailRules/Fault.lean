/-!
Faults: failures that no report of a run expects. A fault is not collected with the errors of a run;
it ends the run, after what was opened has been released.
-/
namespace MailRules

inductive Fault
  /-- An escape names a code point beyond the last plane. -/
  | codePointTooLarge
  /-- An escape names a code point that needs more than 31 bits. -/
  | codePointBeyondWord
  /-- A version directive has more digits than a numeral may have. -/
  | versionTooLong
  /-- A scalar tagged as a boolean spells none. -/
  | unknownBoolean
  /-- A scalar tagged as a number has nothing after its sign. -/
  | emptyNumber
  /-- A scalar tagged as a timestamp is none. -/
  | noTimestamp
  /-- A mapping with a default value is tagged as a timestamp. -/
  | timestampOfMapping
  /-- A place value of a sexagesimal number with a fraction is beyond binary64. -/
  | placeBeyondDouble
  /-- A node holds itself where only finite nesting can be read. -/
  | endlessNesting
  /-- An integer has more decimal digits than can be written. -/
  | integerTooLong
  /-- A port of digits is no decimal number, or one too long to read. -/
  | portUnreadable
  /-- A file is not UTF-8. -/
  | notUtf8
  /-- A text is used as the name of a file that no file can have. -/
  | unnameable
  /-- No home directory is known for a path that starts at one. -/
  | homeUnknown
  /-- A session is asked for before it was opened or after it ended. -/
  | notConnected
  /-- A mailbox or a rule is asked for that was never begun. -/
  | notBegun
  /-- A failure that a caller's own part reports, by its name and text. -/
  | foreign (name message : String)
  deriving DecidableEq, Repr

/-- A fault as it leaves a release. One that ends an iteration would pass for the end of the release
and is told as a failure of it. -/
def Fault.leaving : Fault → Fault
  | .foreign "StopIteration" _ => .foreign "RuntimeError" "generator raised StopIteration"
  | f => f

end MailRules
