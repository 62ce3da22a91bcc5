import MailRules.Search.Token
import MailRules.Search.Field
import MailRules.Search.Argument
/-!
From preconditions to the tokens of a search. A precondition that fails may have emitted tokens
before; the errors of arguments side by side, and of alternatives side by side, are all reported.
-/
namespace MailRules.Search
open MailRules.Calendar MailRules.Text

structure Compilation where
  tokens : List Token
  outcome : Except Failure Unit

namespace Compilation

def failed (f : Failure) : Compilation := ⟨[], .error f⟩

def after (tokens : List Token) (c : Compilation) : Compilation :=
  ⟨tokens ++ c.tokens, c.outcome⟩

end Compilation

def readArguments (read : Operand → Except Failure String) :
    List Operand → Except Fault (List String × List Error)
  | [] => .ok ([], [])
  | o :: rest =>
    match read o with
    | .error (.fault f) => .error f
    | .error (.error e) => (readArguments read rest).map fun r => (r.1, e.flat ++ r.2)
    | .ok s => (readArguments read rest).map fun r => (s :: r.1, r.2)

def reader (now : Moment) (f : Field) : Operand → Except Failure String :=
  match f.kind with
  | .uint32 | .uint32List => uint32Text f.name
  | .date => dateText f.name
  | .duration => durationText now f.name
  | _ => stringText f.name

/-- The tokens of a field with the given arguments. A list of texts is a group of its own. -/
def fieldTokens (f : Field) (arguments : List String) : List Token :=
  let tag := (f.tag.map Token.text).toList
  let texts := arguments.map Token.text
  if f.kind = .stringList then [.opening] ++ tag ++ texts ++ [.closing] else tag ++ texts

def compileField (now : Moment) (f : Field) (operands : List Operand) : Compilation :=
  if f.kind = .none then ⟨fieldTokens f [], .ok ()⟩
  else
    match readArguments (reader now f) operands with
    | .error fault => .failed (.fault fault)
    | .ok (texts, errors) =>
      match raiseErrors errors with
      | .error failure => .failed failure
      | .ok () => ⟨fieldTokens f texts, .ok ()⟩

def notNested (f : Field) (l : Leaf) : Error :=
  .valueDecode f.name ArgumentKind.nested.label ("got " ++ quoted l.text) l.location

mutual

def compile (now : Moment) : Precondition → Compilation
  | .mk field operands location =>
    match Field.named? field with
    | none => .failed (.error (.unknownField field location))
    | some f =>
      if f.arity.any (· ≠ operands.length) then
        .failed (.error (.arityMismatch field (f.arity.getD 0) operands.length location))
      else
        let tag := (f.tag.map Token.text).toList
        match f.kind with
        | .nested => compileNegated now f tag operands
        | .nestedList => compileAlternatives now f tag [] operands
        | _ => compileField now f operands

def compileNegated (now : Moment) (f : Field) (tag : List Token) : List Operand → Compilation
  | [.leaf l] => .failed (.error (notNested f l))
  | [.nested p] => (compile now p).after tag
  | _ => ⟨tag, .ok ()⟩

/-- The operands, the tag before each but the last, so that it takes two of them at a time.
`errors` are those of the operands before. -/
def compileAlternatives (now : Moment) (f : Field) (tag : List Token) (errors : List Error) :
    List Operand → Compilation
  | [] => ⟨[], raiseErrors errors⟩
  | .leaf l :: rest => compileAlternatives now f tag (errors ++ [notNested f l]) rest
  | .nested p :: rest =>
    let joint := if rest.isEmpty then [] else tag
    let c := compile now p
    match c.outcome with
    | .ok () => (compileAlternatives now f tag errors rest).after (joint ++ c.tokens)
    | .error (.error e) =>
      (compileAlternatives now f tag (errors ++ e.flat) rest).after (joint ++ c.tokens)
    | .error (.fault fault) => ⟨joint ++ c.tokens, .error (.fault fault)⟩

end

end MailRules.Search
