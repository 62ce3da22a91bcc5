import MailRules.Document.Flags
/-!
Values given by name for a group that has fixed names: the switches of an account and what it logs in
with. All that is wrong with them is found, first by the order of the names, and then whatever has
another name.
-/
namespace MailRules
open MailRules.Yaml

inductive Misfit
  | missing
  /-- The group has no such name. -/
  | unknown
  | notText
  | notPath
  | notNumber
  /-- A text that writes no number. -/
  | noNumeral
  | notPositive
  | flag (p : Flag.Problem)
  deriving DecidableEq, Repr

def Misfit.message : Misfit → String
  | missing => "Field required"
  | unknown => "Extra inputs are not permitted"
  | notText => "Input should be a valid string"
  | notPath => "Input is not a valid path for <class 'pathlib.Path'>"
  | notNumber => "Input should be a valid number"
  | noNumeral => "Input should be a valid number, unable to parse string as a number"
  | notPositive => "Input should be greater than 0"
  | flag p => p.message

abbrev Entries := List (String × Datum)

abbrev Misfits := List (String × Misfit)

namespace Entries

def unknown (names : List String) (given : Entries) : Misfits :=
  (given.filter fun e => !names.contains e.1).map fun e => (e.1, .unknown)

def read {α : Type} (given : Entries) (name : String) (default : Except Misfit α)
    (ofDatum : Datum → Except Misfit α) : Except Misfit α :=
  match given.lookup name with
  | some d => ofDatum d
  | none => default

def misfit {α : Type} (name : String) (r : Except Misfit α) : Misfits :=
  match r with
  | .ok _ => []
  | .error m => [(name, m)]

end Entries

def Flags.ofEntries (given : Entries) : Except Misfits Flags :=
  let flags := Flag.all.filterMap fun flag => (given.lookup flag.name).map fun d => (flag, d)
  let misfits := (Flags.problems flags).map fun p => (p.1.name, Misfit.flag p.2)
  match Flags.read flags, misfits ++ Entries.unknown (Flag.all.map Flag.name) given with
  | .ok flags, [] => .ok flags
  | _, ms => .error ms

def textOf : Datum → Except Misfit String
  | .text s => .ok s
  | _ => .error .notText

def Credentials.ofEntries (given : Entries) : Except Misfits Credentials :=
  let username := Entries.read given "username" (.ok "") textOf
  let password := Entries.read given "password" (.ok "") textOf
  let identity := Entries.read given "identity" (.ok "") textOf
  let unknown := Entries.unknown ["username", "password", "identity"] given
  match username, password, identity, unknown with
  | .ok u, .ok p, .ok i, [] => .ok ⟨u, p, i⟩
  | _, _, _, _ =>
    .error (Entries.misfit "username" username ++ Entries.misfit "password" password ++
      Entries.misfit "identity" identity ++ unknown)

end MailRules
