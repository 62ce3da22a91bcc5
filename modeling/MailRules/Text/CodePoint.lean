import MailRules.Text.Case
/-!
Texts by their code points. A text of characters holds no surrogates; one that comes from elsewhere may.
-/
namespace MailRules.Text

/-- The code points of Unicode, the surrogates among them. -/
abbrev CodePoint := Fin 0x110000

namespace CodePoint

def ofChar (c : Char) : CodePoint :=
  ⟨c.toNat, c.valid.elim (fun low => Nat.lt_trans low (by decide)) And.right⟩

def char? (p : CodePoint) : Option Char :=
  if valid : p.val.isValidChar then some (Char.ofNatAux p.val valid) else none

end CodePoint

abbrev Points := List CodePoint

namespace Points

def ofString (s : String) : Points := s.toList.map CodePoint.ofChar

def upperCase (ps : Points) : Points :=
  ps.flatMap fun p => (p.char?.map fun c => (upperChar c).map CodePoint.ofChar).getD [p]

end Points
end MailRules.Text
