import MailRules.Yaml.Graph.Reader
/-!
Reading a whole text as YAML.
-/
namespace MailRules.Yaml

def isAllowed (c : Char) : Bool :=
  let n := c.toNat
  n = 0x9 || n = 0xA || n = 0xD || (0x20 ≤ n && n ≤ 0x7E) || n = 0x85 || (0xA0 ≤ n && n ≤ 0xFFFD) ||
    0x10000 ≤ n

/-- Why a text is not read: it holds a character that it may not, after so many others, or it is
read up to a place and not beyond. -/
inductive Refusal
  | badCharacter (c : Char) (position : Nat)
  | stop (s : Stop)

def Tree.ofText (cs : List Char) : Except Refusal Tree :=
  let before := cs.takeWhile isAllowed
  match cs.drop before.length with
  | c :: _ => .error (.badCharacter c before.length)
  | [] => (readTokens (scan cs)).mapError .stop

end MailRules.Yaml
