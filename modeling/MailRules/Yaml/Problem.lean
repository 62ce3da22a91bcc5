import MailRules.Fault
import MailRules.Yaml.Mark
/-!
What is wrong with a text, and where.
-/
namespace MailRules.Yaml

structure Problem where
  text : String
  mark : Mark
  deriving DecidableEq, Repr

inductive Stop
  | problem (p : Problem)
  | fault (f : Fault)
  deriving DecidableEq, Repr

structure NodeProblem where
  /-- What was being built, and where. -/
  context : Option (String × Mark)
  text : String
  mark : Mark
  deriving DecidableEq, Repr

/-- The full text of a problem. The place of the context is left out where it is the place of the
problem. -/
def NodeProblem.message (source : List Char) (p : NodeProblem) : String :=
  let context := match p.context with
    | none => []
    | some (text, mark) =>
      if mark.line = p.mark.line ∧ mark.column = p.mark.column then [text]
      else [text, mark.message source]
  "\n".intercalate (context ++ [p.text, p.mark.message source])

end MailRules.Yaml
