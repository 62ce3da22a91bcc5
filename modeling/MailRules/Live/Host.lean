import MailRules.Error
import MailRules.Number.Numeral
/-!
Hosts as they are written: a name, optionally with a port after a colon. A name with colons of its
own stands in brackets when a port follows.
-/
namespace MailRules.Live
open MailRules.Text MailRules.Number

def defaultPort (tls : Bool) : Nat := if tls then 993 else 143

/-- The name and the text of the port. What follows a bracket and does not start with a colon is
passed over. -/
def hostPieces (cs : List Char) : List Char × List Char :=
  match cs with
  | '[' :: rest =>
    let name := rest.takeWhile (· ≠ ']')
    match (rest.drop name.length).drop 1 with
    | ':' :: port => (name, port)
    | _ => (name, [])
  | _ =>
    if cs.count ':' = 1 then
      let name := cs.takeWhile (· ≠ ':')
      (name, cs.drop (name.length + 1))
    else (cs, [])

def splitHost (host : String) (tls : Bool) : Except Failure (String × Nat) :=
  let (name, port) := hostPieces host.toList
  if port.isEmpty then .ok (String.ofList name, defaultPort tls)
  else if !port.all isDigitLike then
    .error (.error (.protocol "dial" ("invalid port in " ++ quoted host)))
  else
    match readInteger 10 port with
    | .ok i => .ok (String.ofList name, i.toNat)
    | .error _ => .error (.fault .portUnreadable)

end MailRules.Live
