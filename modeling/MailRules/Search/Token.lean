import MailRules.Error
/-!
The tokens of a search and the nested criteria that a server is sent. Groups are opened and closed by
tokens of their own, so a text that reads like a parenthesis is a text and nothing else.
-/
namespace MailRules.Search

inductive Token
  | text (s : String)
  | opening
  | closing
  deriving DecidableEq, Repr

def Token.shown : Token → String
  | text s => s
  | opening => "("
  | closing => ")"

inductive Criterion
  | text (s : String)
  | group (items : List Criterion)
  deriving Repr

/-- Reads tokens inside groups: `outer` holds what stands before each open group, innermost first,
and `done` what stands so far in the innermost one. -/
def nestFrom (outer : List (List Criterion)) (done : List Criterion) :
    List Token → Except Error (List Criterion)
  | [] =>
    if outer.isEmpty then .ok done
    else .error (.protocol "search" "unbalanced '(' in search criteria")
  | .text s :: rest => nestFrom outer (done ++ [.text s]) rest
  | .opening :: rest => nestFrom (done :: outer) [] rest
  | .closing :: rest =>
    match outer with
    | before :: outer' => nestFrom outer' (before ++ [.group done]) rest
    | [] => .error (.protocol "search" "unbalanced ')' in search criteria")

def nest (tokens : List Token) : Except Error (List Criterion) := nestFrom [] [] tokens

end MailRules.Search
