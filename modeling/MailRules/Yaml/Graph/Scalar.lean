import MailRules.Yaml.Graph
/-!
Which of the five styles can show the text of a scalar.
-/
namespace MailRules.Yaml
open MailRules.Text

structure ScalarShape where
  isEmpty : Bool
  isMultiline : Bool
  flowPlain : Bool
  blockPlain : Bool
  singleQuoted : Bool
  block : Bool

/-- The breaks that count inside the text of a scalar: a carriage return is not one. -/
def isTextBreak (c : Char) : Bool := c ≠ '\r' && isBreak c

def isLeadingIndicator (c : Char) : Bool := "#,[]\x7b\x7d&*!|>'\"%@`".toList.contains c

def isFlowIndicator (c : Char) : Bool := ",?[]\x7b\x7d".toList.contains c

def isOrdinary (c : Char) : Bool := c = '\n' || (' ' ≤ c && c ≤ '~')

def followedByBlank (rest : List Char) : Bool := rest.isEmpty || endsWord (rest.headD ' ')

/-- Whether the first character is misread at the start of a plain scalar: in a flow context, in a
block context. -/
def headIndicators (c : Char) (rest : List Char) : Bool × Bool :=
  let strict := isLeadingIndicator c || (c = '-' && followedByBlank rest)
  let loose := c = '?' || c = ':'
  (strict || loose, strict || (loose && followedByBlank rest))

def innerIndicators (previous : Char) : List Char → Bool × Bool
  | [] => (false, false)
  | c :: rest =>
    let comment := c = '#' && endsWord previous
    let (flow, block) := innerIndicators c rest
    (isFlowIndicator c || c = ':' || comment || flow,
      (c = ':' && followedByBlank rest) || comment || block)

def hasPair (p q : Char → Bool) (cs : List Char) : Bool :=
  (cs.zip cs.tail).any fun x => p x.1 && q x.2

def ScalarShape.ofText : List Char → ScalarShape
  | [] => ⟨true, false, false, true, true, false⟩
  | c :: rest =>
    let cs := c :: rest
    let isSpace (c : Char) : Bool := c = ' '
    let mark := cs.take 3 = ['-', '-', '-'] || cs.take 3 = ['.', '.', '.']
    let (flowHead, blockHead) := headIndicators c rest
    let (flowInner, blockInner) := innerIndicators c rest
    let last := cs.getLastD ' '
    let edges := isSpace c || isTextBreak c || isSpace last || isTextBreak last
    let multiline := cs.any isTextBreak
    let breakSpace := hasPair isTextBreak isSpace cs
    let escaped := hasPair isSpace isTextBreak cs || cs.any (!isOrdinary ·)
    let plain := !(edges || breakSpace || escaped || multiline)
    { isEmpty := false
      isMultiline := multiline
      flowPlain := plain && !(mark || flowHead || flowInner)
      blockPlain := plain && !(mark || blockHead || blockInner)
      singleQuoted := !(breakSpace || escaped)
      block := !(isSpace last || escaped) }

end MailRules.Yaml
