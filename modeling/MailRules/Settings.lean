import MailRules.Path
import MailRules.Document.Entries
import MailRules.Number.Numeral
/-!
The settings of the program: where the document and the trusted certificates are, and how long a
logout may take. They follow from the environment, or are given one by one.
-/
namespace MailRules
open MailRules.Number MailRules.Text MailRules.Yaml

structure Settings where
  documentFile : Path
  trustFile : Path
  logoutTimeout : Double
  deriving DecidableEq, Repr

namespace Settings

def defaultLogoutTimeout : Double := .ofNat 1000

def homeVariables : List String := ["IMAPSWEEP_CONFIG_HOME", "XDG_CONFIG_HOME"]

def directoryName : String := "imapsweep"

/-- The first of the variables that is set and not empty. -/
def firstSet? (environment : String → Option String) : List String → Option String
  | [] => none
  | name :: rest =>
    match environment name with
    | some value => if value.isEmpty then firstSet? environment rest else some value
    | none => firstSet? environment rest

def resolve (environment homes : String → Option String) : Except Fault Settings := do
  let home := Path.ofText ((firstSet? environment homeVariables).getD "~/.config")
  let directory ← home.expandHome homes
  return ⟨(directory.entry directoryName).entry "config.yaml", directory.entry "ca.pem",
    defaultLogoutTimeout⟩

/-! Settings given one by one -/

def pathOf : Datum → Except Misfit Path
  | .text s => .ok (Path.ofText s)
  | _ => .error .notPath

/-- One underscore between two characters stands for nothing; none where underscores stand elsewhere
or where there are none. -/
def withoutUnderscores? (cs : List Char) : Option (List Char) :=
  let doubled := (cs.zip cs.tail).any fun p => p.1 = '_' && p.2 = '_'
  if cs.head? = some '_' ∨ cs.getLast? = some '_' ∨ !cs.contains '_' ∨ doubled then none
  else some (cs.filter (· ≠ '_'))

def plainDouble? (cs : List Char) : Option Double :=
  if cs.contains '_' ∨ cs.any (fun c => 0x80 ≤ c.toNat ∨ isBlank c) then none else readDouble? cs

def doubleOf : Datum → Except Misfit Double
  | .float x => .ok x
  | .int i =>
    match Double.ofQuotient (i < 0) i.natAbs 1 with
    | .infinite _ => .error .notNumber
    | x => .ok x
  | .bool b => .ok (.ofNat (if b then 1 else 0))
  | .text s =>
    match plainDouble? (trimNumeral s.toList) with
    | some x => .ok x
    | none =>
      match (withoutUnderscores? s.toList).bind plainDouble? with
      | some x => .ok x
      | none => .error .noNumeral
  | _ => .error .notNumber

/-- A number of seconds is above zero; what is no number is not below it. -/
def timeoutOf (d : Datum) : Except Misfit Double := do
  let x ← doubleOf d
  if x.isPositive ∨ x = .nan then return x else .error .notPositive

def names : List String := ["config_file", "ca_file", "logout_timeout"]

def ofEntries (given : Entries) : Except Misfits Settings :=
  let document := given.read "config_file" (.error .missing) pathOf
  let trust := given.read "ca_file" (.error .missing) pathOf
  let timeout := given.read "logout_timeout" (.ok defaultLogoutTimeout) timeoutOf
  match document, trust, timeout, given.unknown names with
  | .ok d, .ok t, .ok x, [] => .ok ⟨d, t, x⟩
  | _, _, _, unknown =>
    .error (Entries.misfit "config_file" document ++ Entries.misfit "ca_file" trust ++
      Entries.misfit "logout_timeout" timeout ++ unknown)

end Settings
end MailRules
