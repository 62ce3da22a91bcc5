import MailRules.Path
import MailRules.Text.Lines
import MailRules.Text.Encoding
import MailRules.Text.Digit
/-!
What is found under the name of a file.
-/
namespace MailRules
open MailRules.Text

inductive Content
  | missing
  /-- Something is there and cannot be read, for a numbered reason of the system. -/
  | unreadable (code : Nat) (reason : String)
  /-- The name is none that a file can have. -/
  | unnameable
  | octets (bs : List Nat)
  deriving DecidableEq, Repr

def systemReason (code : Nat) (reason : String) (p : Path) : String :=
  "[Errno " ++ decimal code ++ "] " ++ reason ++ ": " ++ quoted p.text

end MailRules
