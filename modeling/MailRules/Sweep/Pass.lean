import MailRules.Sweep.Actions
import MailRules.Search.Compile
/-!
A pass over a document: account by account, mailbox by mailbox, rule by rule, in the order in which
they are written. What was opened is released in any case, and an error in one part does not keep the
others from being processed.
-/
namespace MailRules.Sweep
open MailRules.Search MailRules.Calendar

variable {σ : Type}

def emit (f : Family σ) (c : Compilation) : Step σ Unit := do
  c.tokens.forM f.append
  fun st => (c.outcome, st)

mutual

/-- Compiles a precondition into the search of the rule. Tokens emitted before a failure stay. -/
def compileInto (f : Family σ) (now : Moment) : Precondition → Step σ Unit
  | .mk field operands location =>
    match Field.named? field with
    | none => throw (.error (.unknownField field location))
    | some g =>
      if g.arity.any (· ≠ operands.length) then
        throw (.error (.arityMismatch field (g.arity.getD 0) operands.length location))
      else
        let tag := (g.tag.map Token.text).toList
        match g.kind with
        | .nested => negatedInto f now g tag operands
        | .nestedList => do Step.raise (← alternativesInto f now g tag operands)
        | _ => emit f (compileField now g operands)

def negatedInto (f : Family σ) (now : Moment) (g : Field) (tag : List Token) :
    List Operand → Step σ Unit
  | [.leaf l] => throw (.error (notNested g l))
  | [.nested p] => do
    tag.forM f.append
    compileInto f now p
  | _ => tag.forM f.append

/-- The operands, the tag before each but the last, and the errors of all. A token that is refused with
an error of a precondition counts among the errors of its operand. -/
def alternativesInto (f : Family σ) (now : Moment) (g : Field) (tag : List Token) :
    List Operand → Step σ (List Error)
  | [] => return []
  | .leaf l :: rest => return notNested g l :: (← alternativesInto f now g tag rest)
  | .nested p :: rest => do
    let errors ← Step.compiled do
      if !rest.isEmpty then tag.forM f.append
      compileInto f now p
    return errors ++ (← alternativesInto f now g tag rest)

end

def rule (f : Family σ) (now : Moment) (r : Rule) : Step σ Unit := do
  Step.raise (← Step.collectEach r.preconditions (compileInto f now))
  f.search
  execute f r.actions

def mailbox (f : Family σ) (now : Moment) (m : Mailbox) : Step σ Unit := do
  f.select m.name
  let rules := Step.collectEach m.rules fun r => do
    f.newRule
    rule f now r
  Step.raise (← rules.released f.close)

def account (f : Family σ) (now : Moment) (a : Account) : Step σ Unit := do
  f.connect a.host a.flags a.credentials
  let mailboxes := Step.collectEach a.mailboxes fun m => do
    f.newMailbox
    mailbox f now m
  Step.raise (← mailboxes.released f.logout)

def pass (f : Family σ) (now : Moment) (d : Document) : Step σ (List Error) :=
  Step.collectEach d.accounts fun a => do
    f.newAccount
    account f now a

end MailRules.Sweep
