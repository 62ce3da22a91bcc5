import MailRules.Sweep.Family
/-!
A family that answers by a script: each request other than a token is noted, and the script says
whether it fails, from the requests before.
-/
namespace MailRules.Sweep
open MailRules.Search

inductive Call
  | connect (host : String)
  | select (name : String)
  | search (tokens : List Token)
  | move (destination : String)
  | mark
  | close
  | logout
  deriving DecidableEq, Repr

structure Trace where
  calls : List Call := []
  /-- The tokens of the current rule. -/
  tokens : List Token := []

/-- From the requests before and a request, how it fails, if it does. -/
abbrev Script := List Call → Call → Option Failure

def Script.answer (s : Script) (c : Call) : Step Trace Unit := fun t =>
  let result : Except Failure Unit := match s t.calls c with
    | none => .ok ()
    | some failure => .error failure
  (result, { t with calls := t.calls ++ [c] })

def Script.family (s : Script) : Family Trace where
  newAccount := pure ()
  connect := fun host _ _ => s.answer (.connect host)
  newMailbox := pure ()
  select := fun name => s.answer (.select name)
  newRule := fun t => (.ok (), { t with tokens := [] })
  append := fun token t => (.ok (), { t with tokens := t.tokens ++ [token] })
  search := fun t => s.answer (.search t.tokens) t
  move := fun destination => s.answer (.move destination)
  mark := s.answer .mark
  close := s.answer .close
  logout := s.answer .logout

end MailRules.Sweep
