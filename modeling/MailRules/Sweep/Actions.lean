import MailRules.Sweep.Family
import MailRules.Search.Argument
/-!
The actions of a rule. The one kind of action copies the messages to its destinations; when all
actions are done, the messages are flagged for deletion, once. A failed copy ends the rule, so that
nothing is flagged that may not have been copied.
-/
namespace MailRules.Sweep
open MailRules.Search

def moveKind : String := "move"

structure Progress where
  /-- The errors met so far. -/
  errors : List Error := []
  /-- Has an action copied to all its destinations? -/
  moved : Bool := false
  /-- Has a copy failed? A failure of no errors is none. -/
  stopped : Bool := false

/-- Copies to each destination in turn. A destination that is no text is reported and skipped. -/
def copyEach {σ : Type} (f : Family σ) (errors : List Error) : List Leaf → Step σ Progress
  | [] => return { errors := errors, moved := true }
  | l :: rest =>
    match stringText moveKind (.leaf l) with
    | .error (.error e) => copyEach f (errors ++ e.flat) rest
    | .error (.fault fault) => throw (.fault fault)
    | .ok destination => do
      match ← (f.move destination).attempt with
      | none => copyEach f errors rest
      | some e =>
        let all := errors ++ e.flat
        return { errors := all, moved := all.isEmpty, stopped := !all.isEmpty }

def perform {σ : Type} (f : Family σ) (done : Progress) : List Action → Step σ Progress
  | [] => return done
  | a :: rest =>
    if a.kind = moveKind then do
      let now ← copyEach f done.errors a.arguments
      if now.stopped then return now else perform f now rest
    else
      let error := Error.unknownAction a.kind a.location
      perform f { done with errors := done.errors ++ [error] } rest

def execute {σ : Type} (f : Family σ) (actions : List Action) : Step σ Unit := do
  let done ← perform f {} actions
  let marking ← if done.moved && !done.stopped then f.mark.collected else pure []
  Step.raise (done.errors ++ marking)

end MailRules.Sweep
