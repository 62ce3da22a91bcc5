import MailRules.Content
import MailRules.Document.Reader
/-!
Reading the document of a file. The file is UTF-8, and a line may end as on any system.
-/
namespace MailRules
open MailRules.Text

def Document.load (p : Path) (content : Content) : Except Failure Document :=
  match content with
  | .missing => .error (.error (.document (.missingFile p.text) none))
  | .unreadable code reason =>
    .error (.error (.document (.unreadableFile p.text (systemReason code reason p)) none))
  | .unnameable => .error (.fault .unnameable)
  | .octets bs =>
    match utf8Chars bs with
    | .error _ => .error (.fault .notUtf8)
    | .ok cs => parse (String.ofList (unifyLineBreaks cs)) p.text

end MailRules
