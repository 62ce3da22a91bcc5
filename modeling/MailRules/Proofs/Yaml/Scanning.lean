import Mathlib.Data.List.Infix
import Mathlib.Data.List.TakeWhile
import MailRules.Yaml.Token.Lexer
/-!
What scanning a text is at fault for, and what the tokens of a text are like. Each fault of a scanner
comes from something that the text holds; the scanners are followed one by one, and what they leave
is an end of the text throughout.
-/
namespace MailRules.Yaml
open MailRules.Text

def Provokes (text : List Char) : Fault → Prop
  | .codePointTooLarge | .codePointBeyondWord => '\\' ∈ text
  | .versionTooLong => '%' ∈ text
  | .unknownBoolean | .emptyNumber | .noTimestamp | .timestampOfMapping => '!' ∈ text
  | .placeBeyondDouble => '!' ∈ text ∨ 174 ≤ text.count ':'
  | .endlessNesting => True
  | _ => False

def Stop.Allowed (text : List Char) : Stop → Prop
  | .problem _ => True
  | .fault f => Provokes text f

def Ends {ε α : Type} (E : ε → Prop) (Q : α → Prop) : Except ε α → Prop
  | .ok a => Q a
  | .error e => E e

section Ends
variable {ε α β : Type} {E E' : ε → Prop} {Q Q' : α → Prop} {R : β → Prop}

theorem ends_weaken {r : Except ε α} (ends : Ends E Q r) (failed : ∀ e, E e → E' e)
    (weaker : ∀ a, Q a → Q' a) : Ends E' Q' r := by
  cases r with
  | ok a => exact weaker a ends
  | error e => exact failed e ends

theorem ends_bind {r : Except ε α} {next : α → Except ε β} (first : Ends E Q r)
    (later : ∀ a, Q a → Ends E R (next a)) : Ends E R (r >>= next) := by
  cases r with
  | ok a => exact later a first
  | error e => exact first

theorem ends_ite {condition : Prop} [Decidable condition] {r r' : Except ε α}
    (yes : condition → Ends E Q r) (no : ¬condition → Ends E Q r') :
    Ends E Q (if condition then r else r') := by
  split
  · exact yes ‹_›
  · exact no ‹_›

end Ends

theorem provokes_of_suffix {text part : List Char} {f : Fault} (inside : part <:+ text)
    (provoked : Provokes part f) : Provokes text f := by
  have count : part.count ':' ≤ text.count ':' := inside.sublist.count_le ':'
  have member : ∀ ch, ch ∈ part → ch ∈ text := fun ch here => inside.subset here
  cases f with
  | placeBeyondDouble => exact provoked.imp (member '!') fun many => many.trans count
  | endlessNesting => trivial
  | _ => first | exact member _ provoked | exact provoked

theorem allowed_of_suffix {text part : List Char} {stop : Stop} (inside : part <:+ text)
    (allowed : stop.Allowed part) : stop.Allowed text := by
  cases stop with
  | problem p => trivial
  | fault f => exact provokes_of_suffix inside allowed

/-- What is known of a token: a tag is written with an exclamation mark, and a plain scalar has no
line feed at its end and no more colons than the text. -/
def Token.Sound (text : List Char) (t : Token) : Prop :=
  match t.kind with
  | .tag .. => '!' ∈ text
  | .scalar s .plain => s.toList.getLast? ≠ some '\n' ∧ s.toList.count ':' ≤ text.count ':'
  | _ => True

namespace Scan

/-- From any place of the text the scanner ends at a later one, with a result as `Q` says. -/
def Gives {α : Type} (text : List Char) (s : Scan α) (Q : α → Prop) : Prop :=
  ∀ c, c.rest <:+ text → Ends (Stop.Allowed text) (fun e => e.2.rest <:+ text ∧ Q e.1) (s c)

abbrev Reads {α : Type} (text : List Char) (s : Scan α) : Prop := Gives text s fun _ => True

section Rules
variable {α β : Type} {text : List Char} {Q Q' : α → Prop} {R : β → Prop}

theorem gives_pure {a : α} (holds : Q a) : Gives text (pure a) Q := fun _ inside => ⟨inside, holds⟩

theorem reads_pure (a : α) : Reads text (pure a) := gives_pure trivial

theorem gives_weaken {s : Scan α} (gives : Gives text s Q) (weaker : ∀ a, Q a → Q' a) :
    Gives text s Q' :=
  fun c inside => ends_weaken (gives c inside) (fun _ => id) fun e holds =>
    ⟨holds.1, weaker e.1 holds.2⟩

theorem gives_bind {s : Scan α} {next : α → Scan β} (first : Gives text s Q)
    (later : ∀ a, Q a → Gives text (next a) R) : Gives text (s >>= next) R :=
  fun c inside => ends_bind (first c inside) fun e holds => later e.1 holds.2 e.2 holds.1

theorem gives_after {s : Scan α} {next : α → Scan β} (first : Reads text s)
    (later : ∀ a, Gives text (next a) R) : Gives text (s >>= next) R :=
  gives_bind first fun a _ => later a

theorem reads_discard {s : Scan α} (reads : Reads text s) : Reads text (discard s) :=
  fun c inside => ends_bind (reads c inside) fun _ holds => ⟨holds.1, trivial⟩

theorem gives_when {condition : Prop} [Decidable condition] {s : Scan Unit} {next : Unit → Scan β}
    (first : Reads text s) (later : ∀ u, Gives text (next u) R) :
    Gives text (if condition then s >>= next else next ()) R := by
  split
  · exact gives_after first later
  · exact later ()

theorem gives_ite {condition : Prop} [Decidable condition] {s t : Scan α}
    (yes : condition → Gives text s Q) (no : ¬condition → Gives text t Q) :
    Gives text (if condition then s else t) Q := by
  split
  · exact yes ‹_›
  · exact no ‹_›

end Rules

section Steps
variable {α : Type} {text : List Char} {Q : α → Prop}

theorem step_rest (c : Cursor) : c.step.rest <:+ c.rest := by
  unfold Cursor.step
  split
  · exact List.suffix_refl _
  · rename_i same
    rw [same]
    exact List.suffix_cons _ _

theorem forward_rest (n : Nat) : ∀ c : Cursor, (Cursor.forward n c).rest <:+ c.rest := by
  induction n with
  | zero => exact fun c => List.suffix_refl _
  | succ n ih => exact fun c => (ih c.step).trans (step_rest c)

theorem gives_peek : Gives text peek fun ch => ch = endOfText ∨ ch ∈ text := by
  intro c inside
  refine ⟨inside, ?_⟩
  change c.rest.headD endOfText = endOfText ∨ c.rest.headD endOfText ∈ text
  cases same : c.rest with
  | nil => exact .inl rfl
  | cons ch rest => exact .inr (inside.subset (by simp [same]))

theorem reads_peek : Reads text peek := fun _ inside => ⟨inside, trivial⟩

theorem reads_peekAt (k : Nat) : Reads text (peekAt k) := fun _ inside => ⟨inside, trivial⟩

theorem reads_mark : Reads text mark := fun _ inside => ⟨inside, trivial⟩

theorem reads_column : Reads text column := fun _ inside => ⟨inside, trivial⟩

theorem reads_get : Reads text get := fun _ inside => ⟨inside, trivial⟩

theorem reads_advance (n : Nat) : Reads text (advance n) :=
  fun c inside => ⟨(forward_rest n c).trans inside, trivial⟩

theorem gives_problem (p : Problem) : Gives text (throw (.problem p)) Q := fun _ _ => trivial

theorem gives_fault {f : Fault} (provoked : Provokes text f) : Gives text (throw (.fault f)) Q :=
  fun _ _ => provoked

theorem gives_fail (message : String) : Gives text (fail message) Q :=
  gives_after reads_mark fun _ => gives_problem _

theorem gives_failAtChar (message : String) : Gives text (failAtChar message) Q :=
  gives_after reads_peek fun _ => gives_fail _

theorem reads_takeWhile (p : Char → Bool) : Reads text (takeWhile p) :=
  gives_after reads_get fun _ => gives_after (reads_advance _) fun _ => reads_pure _

theorem reads_skipSpaces : Reads text skipSpaces := reads_discard (reads_takeWhile _)

theorem reads_skipLine : Reads text skipLine := reads_discard (reads_takeWhile _)

theorem reads_lineBreak : Reads text lineBreak := by
  refine gives_after reads_get fun c => ?_
  split
  · exact gives_after (reads_advance 2) fun _ => reads_pure _
  · apply gives_ite
    · exact fun _ => gives_after (reads_advance 1) fun _ => reads_pure _
    · intro _
      exact gives_ite (fun _ => gives_after (reads_advance 1) fun _ => reads_pure _)
        fun _ => reads_pure _
  · exact reads_pure _

end Steps

/-! What stands in front of a document or a node -/

section Properties
variable {text : List Char}

theorem reads_name : Reads text name :=
  gives_after reads_peek fun _ => gives_when (gives_failAtChar _) fun _ => reads_takeWhile _

theorem reads_requireHex (expectation : String) (count : Nat) :
    Reads text (requireHex expectation count) := by
  refine gives_after reads_get fun c => ?_
  dsimp only
  split
  · exact gives_fail _
  · exact reads_pure _

theorem reads_percentOctets (fuel : Nat) : Reads text (percentOctets fuel) := by
  induction fuel with
  | zero => exact reads_pure _
  | succ fuel ih =>
    refine gives_after reads_peek fun ch => ?_
    apply gives_ite
    · intro _
      refine gives_after (reads_advance 1) fun _ => ?_
      refine gives_after (reads_requireHex _ 2) fun _ => ?_
      refine gives_after reads_get fun c => ?_
      refine gives_after (reads_advance 2) fun _ => ?_
      exact gives_after ih fun _ => reads_pure _
    · exact fun _ => reads_pure _

theorem reads_percentChars : Reads text percentChars := by
  refine gives_after reads_mark fun start => ?_
  refine gives_after reads_get fun c => ?_
  refine gives_after (reads_percentOctets _) fun octets => ?_
  split
  · exact reads_pure _
  · exact gives_problem _

theorem reads_uriChunks (fuel : Nat) : Reads text (uriChunks fuel) := by
  induction fuel with
  | zero => exact reads_pure _
  | succ fuel ih =>
    refine gives_after (reads_takeWhile _) fun run => ?_
    refine gives_after reads_peek fun ch => ?_
    apply gives_ite
    · intro _
      refine gives_after reads_percentChars fun escaped => ?_
      exact gives_after ih fun _ => reads_pure _
    · exact fun _ => reads_pure _

theorem reads_uri : Reads text uri := by
  refine gives_after reads_get fun c => ?_
  refine gives_after (reads_uriChunks _) fun cs => ?_
  exact gives_when (gives_failAtChar _) fun _ => reads_pure _

theorem reads_tagHandle : Reads text tagHandle := by
  refine gives_after reads_peek fun first => ?_
  refine gives_when (gives_failAtChar _) fun _ => ?_
  refine gives_after (reads_advance 1) fun _ => ?_
  refine gives_after reads_peek fun second => ?_
  apply gives_ite
  · exact fun _ => reads_pure _
  · intro _
    refine gives_after (reads_takeWhile _) fun run => ?_
    refine gives_after reads_peek fun last => ?_
    refine gives_when (gives_failAtChar _) fun _ => ?_
    exact gives_after (reads_advance 1) fun _ => reads_pure _

theorem reads_restOfLine : Reads text restOfLine := by
  refine gives_after reads_skipSpaces fun _ => ?_
  refine gives_after reads_peek fun first => ?_
  refine gives_when reads_skipLine fun _ => ?_
  refine gives_after reads_peek fun last => ?_
  exact gives_when (gives_failAtChar _) fun _ => reads_discard reads_lineBreak

theorem reads_versionNumber (percent : '%' ∈ text) : Reads text versionNumber := by
  refine gives_after reads_peek fun first => ?_
  refine gives_when (gives_failAtChar _) fun _ => ?_
  refine gives_after (reads_takeWhile _) fun digits => ?_
  exact gives_when (gives_fault percent) fun _ => reads_pure _

theorem reads_versionDirective (percent : '%' ∈ text) : Reads text versionDirective := by
  refine gives_after reads_skipSpaces fun _ => ?_
  refine gives_after (reads_versionNumber percent) fun major => ?_
  refine gives_after reads_peek fun point => ?_
  refine gives_when (gives_failAtChar _) fun _ => ?_
  refine gives_after (reads_advance 1) fun _ => ?_
  refine gives_after (reads_discard (reads_versionNumber percent)) fun _ => ?_
  refine gives_after reads_peek fun last => ?_
  exact gives_when (gives_failAtChar _) fun _ => reads_pure _

theorem reads_tagDirective : Reads text tagDirective := by
  refine gives_after reads_skipSpaces fun _ => ?_
  refine gives_after reads_tagHandle fun handle => ?_
  refine gives_after reads_peek fun blank => ?_
  refine gives_when (gives_failAtChar _) fun _ => ?_
  refine gives_after reads_skipSpaces fun _ => ?_
  refine gives_after reads_uri fun uri => ?_
  refine gives_after reads_peek fun last => ?_
  exact gives_when (gives_failAtChar _) fun _ => reads_pure _

theorem directive_sound (percent : '%' ∈ text) : Gives text directive (Token.Sound text) := by
  refine gives_after reads_mark fun start => ?_
  refine gives_after (reads_advance 1) fun _ => ?_
  refine gives_after reads_name fun word => ?_
  refine gives_after reads_peek fun last => ?_
  refine gives_when (gives_failAtChar _) fun _ => ?_
  apply gives_ite
  · intro _
    refine gives_after (reads_versionDirective percent) fun d => ?_
    refine gives_after reads_mark fun stop => ?_
    exact gives_after reads_restOfLine fun _ => gives_pure trivial
  · intro _
    apply gives_ite
    · intro _
      refine gives_after reads_tagDirective fun d => ?_
      refine gives_after reads_mark fun stop => ?_
      exact gives_after reads_restOfLine fun _ => gives_pure trivial
    · intro _
      refine gives_after reads_mark fun stop => ?_
      refine gives_after reads_skipLine fun _ => ?_
      exact gives_after reads_restOfLine fun _ => gives_pure trivial

theorem anchorWith_sound {kind : String → TokenKind}
    (sound : ∀ name start stop, Token.Sound text ⟨kind name, start, stop⟩) :
    Gives text (anchorWith kind) (Token.Sound text) := by
  refine gives_after reads_mark fun start => ?_
  refine gives_after (reads_advance 1) fun _ => ?_
  refine gives_after reads_name fun word => ?_
  refine gives_after reads_peek fun last => ?_
  refine gives_when (gives_failAtChar _) fun _ => ?_
  exact gives_after reads_mark fun stop => gives_pure (sound _ _ _)

theorem tag_sound (exclamation : '!' ∈ text) : Gives text tag (Token.Sound text) := by
  refine gives_after reads_mark fun start => ?_
  refine gives_after (reads_peekAt 1) fun c => ?_
  extract_lets finish finishWith
  have finish_sound : ∀ p, Gives text (finish p) (Token.Sound text) := by
    intro p
    refine gives_after reads_peek fun last => ?_
    refine gives_when (gives_failAtChar _) fun _ => ?_
    exact gives_after reads_mark fun stop => gives_pure exclamation
  apply gives_ite
  · intro _
    refine gives_after (reads_advance 2) fun _ => ?_
    refine gives_after reads_uri fun suffix => ?_
    refine gives_after reads_peek fun close => ?_
    refine gives_when (gives_failAtChar _) fun _ => ?_
    exact gives_after (reads_advance 1) fun _ => gives_after (reads_pure _) finish_sound
  · intro _
    apply gives_ite
    · exact fun _ => gives_after (reads_advance 1) fun _ => gives_after (reads_pure _) finish_sound
    · intro _
      refine gives_after reads_get fun place => ?_
      have finishWith_sound : ∀ handle, Gives text (finishWith handle) (Token.Sound text) :=
        fun handle => gives_after reads_uri fun suffix => gives_after (reads_pure _) finish_sound
      apply gives_ite
      · exact fun _ => gives_after reads_tagHandle finishWith_sound
      · exact fun _ => gives_after (reads_advance 1) fun _ =>
          gives_after (reads_pure _) finishWith_sound

end Properties

/-! Block scalars and quoted scalars -/

section Scalars
variable {text : List Char}

theorem reads_indentationMark : Reads text indentationMark? := by
  refine gives_after reads_peek fun c => ?_
  apply gives_ite
  · intro _
    refine gives_when (gives_fail _) fun _ => ?_
    exact gives_after (reads_advance 1) fun _ => reads_pure _
  · exact fun _ => reads_pure _

theorem reads_blockHeader : Reads text blockHeader := by
  refine gives_after reads_peek fun c => ?_
  extract_lets finish
  have reads_finish : ∀ header, Reads text (finish header) := by
    intro header
    refine gives_after reads_peek fun last => ?_
    exact gives_when (gives_failAtChar _) fun _ => reads_pure _
  split
  · refine gives_after (reads_advance 1) fun _ => ?_
    exact gives_after reads_indentationMark fun _ => gives_after (reads_pure _) reads_finish
  · refine gives_after reads_indentationMark fun increment => ?_
    split
    · refine gives_after reads_peek fun c => ?_
      split
      · exact gives_after (reads_advance 1) fun _ => gives_after (reads_pure _) reads_finish
      · exact gives_after (reads_pure _) reads_finish
    · exact gives_after (reads_pure _) reads_finish

theorem reads_skipIndentation (indent : Nat) : Reads text (skipIndentation indent) := by
  refine gives_after reads_column fun column => ?_
  exact gives_after reads_get fun c => reads_advance _

theorem reads_leadingBreaks (fuel : Nat) : ∀ deepest, Reads text (leadingBreaks deepest fuel) := by
  induction fuel with
  | zero => exact fun _ => reads_pure _
  | succ fuel ih =>
    intro deepest
    refine gives_after reads_peek fun c => ?_
    apply gives_ite
    · intro _
      refine gives_after (reads_advance 1) fun _ => ?_
      exact gives_after reads_column fun _ => ih _
    · intro _
      apply gives_ite
      · intro _
        refine gives_after reads_lineBreak fun b => ?_
        exact gives_after (ih deepest) fun _ => reads_pure _
      · exact fun _ => reads_pure _

theorem reads_indentedBreaks (indent fuel : Nat) : Reads text (indentedBreaks indent fuel) := by
  induction fuel with
  | zero => exact reads_pure _
  | succ fuel ih =>
    refine gives_after (reads_skipIndentation indent) fun _ => ?_
    refine gives_after reads_peek fun c => ?_
    apply gives_ite
    · intro _
      refine gives_after reads_lineBreak fun b => ?_
      exact gives_after ih fun _ => reads_pure _
    · exact fun _ => reads_pure _

theorem reads_blockLines (isFolded : Bool) (indent fuel : Nat) :
    ∀ before, Reads text (blockLines isFolded indent before fuel) := by
  induction fuel with
  | zero => exact fun _ => reads_pure _
  | succ fuel ih =>
    intro before
    refine gives_after reads_peek fun first => ?_
    refine gives_after (reads_takeWhile _) fun line => ?_
    refine gives_after reads_lineBreak fun b => ?_
    refine gives_after reads_get fun c => ?_
    refine gives_after (reads_indentedBreaks _ _) fun breaks => ?_
    refine gives_after reads_column fun column => ?_
    refine gives_after reads_peek fun next => ?_
    apply gives_ite
    · intro _
      refine gives_after reads_peek fun _ => ?_
      exact gives_after (ih breaks) fun _ => reads_pure _
    · exact fun _ => reads_pure _

theorem blockScalar_sound {style : ScalarStyle} (parentIndent : Int) (notPlain : style ≠ .plain) :
    Gives text (blockScalar parentIndent style) (Token.Sound text) := by
  refine gives_after reads_mark fun start => ?_
  refine gives_after (reads_advance 1) fun _ => ?_
  refine gives_after reads_blockHeader fun header => ?_
  refine gives_after reads_restOfLine fun _ => ?_
  refine gives_after reads_get fun c => ?_
  extract_lets size finish begin
  have finish_sound : ∀ lines, Gives text (finish lines) (Token.Sound text) := by
    intro lines
    refine gives_after reads_mark fun stop => gives_pure ?_
    cases style with
    | plain => exact absurd rfl notPlain
    | _ => trivial
  have begin_sound : ∀ start, Gives text (begin start) (Token.Sound text) := by
    intro start
    refine gives_after reads_column fun column => ?_
    refine gives_after reads_peek fun first => ?_
    apply gives_ite
    · exact fun _ => gives_after (reads_blockLines _ _ _ _) finish_sound
    · exact fun _ => gives_after (reads_pure _) finish_sound
  split
  · refine gives_after (reads_leadingBreaks _ _) fun breaks => ?_
    exact gives_after (reads_pure _) begin_sound
  · refine gives_after (reads_indentedBreaks _ _) fun breaks => ?_
    exact gives_after (reads_pure _) begin_sound

theorem reads_quotedBreaks (fuel : Nat) : Reads text (quotedBreaks fuel) := by
  induction fuel with
  | zero => exact reads_pure _
  | succ fuel ih =>
    refine gives_after reads_get fun c => ?_
    refine gives_when (gives_fail _) fun _ => ?_
    refine gives_after (reads_discard (reads_takeWhile _)) fun _ => ?_
    refine gives_after reads_peek fun first => ?_
    apply gives_ite
    · intro _
      refine gives_after reads_lineBreak fun b => ?_
      exact gives_after ih fun _ => reads_pure _
    · exact fun _ => reads_pure _

theorem reads_quotedBreaksHere : Reads text quotedBreaksHere :=
  gives_after reads_get fun _ => reads_quotedBreaks _

theorem charOfCode_provoked {n : Nat} {f : Fault} (backslash : '\\' ∈ text)
    (failed : charOfCode n = .error f) : Provokes text f := by
  unfold charOfCode at failed
  split at failed
  · split at failed <;> cases failed
  · split at failed <;> cases failed <;> exact backslash

theorem reads_escape (backslash : '\\' ∈ text) : Reads text escape := by
  refine gives_after reads_peek fun c => ?_
  split
  · exact gives_after (reads_advance 1) fun _ => reads_pure _
  · split
    · refine gives_after (reads_advance 1) fun _ => ?_
      refine gives_after (reads_requireHex _ _) fun _ => ?_
      refine gives_after reads_get fun place => ?_
      split
      · exact gives_after (reads_advance _) fun _ => reads_pure _
      · rename_i failed
        exact gives_fault (charOfCode_provoked backslash failed)
    · apply gives_ite
      · exact fun _ => gives_after (reads_discard reads_lineBreak) fun _ => reads_quotedBreaksHere
      · exact fun _ => gives_failAtChar _

theorem reads_quotedDark (isDouble : Bool) (fuel : Nat) : Reads text (quotedDark isDouble fuel) := by
  induction fuel with
  | zero => exact reads_pure _
  | succ fuel ih =>
    refine gives_after (reads_takeWhile _) fun run => ?_
    refine gives_bind gives_peek fun c here => ?_
    refine gives_after (reads_peekAt 1) fun next => ?_
    apply gives_ite
    · intro _
      refine gives_after (reads_advance 2) fun _ => ?_
      exact gives_after ih fun _ => reads_pure _
    · intro _
      apply gives_ite
      · intro _
        refine gives_after (reads_advance 1) fun _ => ?_
        exact gives_after ih fun _ => reads_pure _
      · intro _
        apply gives_ite
        · intro isEscape
          have backslash : '\\' ∈ text := by
            obtain ⟨-, rfl⟩ : isDouble = true ∧ c = '\\' := by simpa using isEscape
            exact here.resolve_left (by decide)
          refine gives_after (reads_advance 1) fun _ => ?_
          refine gives_after (reads_escape backslash) fun e => ?_
          exact gives_after ih fun _ => reads_pure _
        · exact fun _ => reads_pure _

theorem reads_quotedBlank : Reads text quotedBlank := by
  refine gives_after (reads_takeWhile _) fun blanks => ?_
  refine gives_after reads_peek fun c => ?_
  apply gives_ite
  · exact fun _ => gives_fail _
  · intro _
    apply gives_ite
    · intro _
      refine gives_after reads_lineBreak fun b => ?_
      refine gives_after reads_quotedBreaksHere fun breaks => ?_
      apply gives_ite (fun _ => reads_pure _)
      exact fun _ => gives_ite (fun _ => reads_pure _) fun _ => reads_pure _
    · exact fun _ => reads_pure _

theorem reads_quotedText (isDouble : Bool) (fuel : Nat) : Reads text (quotedText isDouble fuel) := by
  induction fuel with
  | zero => exact reads_pure _
  | succ fuel ih =>
    refine gives_after reads_get fun place => ?_
    refine gives_after (reads_quotedDark _ _) fun dark => ?_
    refine gives_after reads_peek fun c => ?_
    apply gives_ite
    · exact fun _ => gives_after (reads_advance 1) fun _ => reads_pure _
    · intro _
      refine gives_after reads_quotedBlank fun blank => ?_
      exact gives_after ih fun _ => reads_pure _

theorem quotedScalar_sound (isDouble : Bool) :
    Gives text (quotedScalar isDouble) (Token.Sound text) := by
  refine gives_after reads_mark fun start => ?_
  refine gives_after (reads_advance 1) fun _ => ?_
  refine gives_after reads_get fun place => ?_
  refine gives_after (reads_quotedText _ _) fun content => ?_
  refine gives_after reads_mark fun stop => gives_pure ?_
  cases isDouble <;> trivial

end Scalars

/-! Plain scalars -/

section Plain
variable {text : List Char}

def Uncoloned (cs : List Char) : Prop := ∀ ch ∈ cs, ch ≠ ':'

theorem uncoloned_append {cs ds : List Char} (first : Uncoloned cs) (second : Uncoloned ds) :
    Uncoloned (cs ++ ds) := by
  intro ch inside
  exact (List.mem_append.mp inside).elim (first ch) (second ch)

theorem count_uncoloned {cs : List Char} (uncoloned : Uncoloned cs) : cs.count ':' = 0 :=
  List.count_eq_zero.mpr fun inside => uncoloned ':' inside rfl

theorem lineBreak_uncoloned : Gives text lineBreak Uncoloned := by
  refine gives_after reads_get fun c => ?_
  have feed : Uncoloned ['\n'] := by simp [Uncoloned]
  split
  · exact gives_after (reads_advance 2) fun _ => gives_pure feed
  · rename_i ch rest
    apply gives_ite
    · intro separator
      refine gives_after (reads_advance 1) fun _ => gives_pure ?_
      rcases separator with rfl | rfl <;> simp [Uncoloned]
    · intro _
      exact gives_ite (fun _ => gives_after (reads_advance 1) fun _ => gives_pure feed)
        fun _ => gives_pure (by simp [Uncoloned])
  · exact gives_pure (by simp [Uncoloned])

theorem takeWhile_gives (p : Char → Bool) : Gives text (takeWhile p) fun run => ∀ ch ∈ run, p ch := by
  refine gives_after reads_get fun c => ?_
  refine gives_after (reads_advance _) fun _ => gives_pure ?_
  exact fun ch inside => List.mem_takeWhile_imp inside

theorem plainBreaks_uncoloned (fuel : Nat) :
    Gives text (plainBreaks fuel) fun b? => ∀ b ∈ b?, Uncoloned b := by
  have empty : Uncoloned [] := by simp [Uncoloned]
  induction fuel with
  | zero => exact gives_pure (by simpa using empty)
  | succ fuel ih =>
    refine gives_after reads_peek fun c => ?_
    apply gives_ite
    · exact fun _ => gives_after (reads_advance 1) fun _ => ih
    · intro _
      apply gives_ite
      · intro _
        refine gives_bind lineBreak_uncoloned fun b first => ?_
        refine gives_after reads_get fun place => ?_
        apply gives_ite
        · exact fun _ => gives_pure (by simp)
        · intro _
          refine gives_bind ih fun more? later => gives_pure ?_
          intro breaks same
          obtain ⟨more, given, rfl⟩ := Option.map_eq_some_iff.mp same
          exact uncoloned_append first (later more given)
      · exact fun _ => gives_pure (by simpa using empty)

theorem plainSpaces_uncoloned : Gives text plainSpaces fun gap => Uncoloned gap.1 := by
  have empty : Uncoloned [] := by simp [Uncoloned]
  refine gives_bind (takeWhile_gives _) fun spaces blank => ?_
  refine gives_after reads_peek fun c => ?_
  apply gives_ite
  · intro _
    refine gives_bind lineBreak_uncoloned fun b first => ?_
    refine gives_after reads_get fun place => ?_
    apply gives_ite
    · exact fun _ => gives_pure empty
    · intro _
      refine gives_after reads_get fun place => ?_
      refine gives_bind (plainBreaks_uncoloned _) fun breaks? later => ?_
      cases breaks? with
      | none => exact gives_pure empty
      | some breaks =>
        have rest : Uncoloned breaks := later breaks rfl
        apply gives_ite
        · exact fun _ => gives_pure (uncoloned_append first rest)
        · intro _
          exact gives_ite (fun _ => gives_pure (by simp [Uncoloned])) fun _ => gives_pure rest
  · intro _
    refine gives_pure ?_
    rintro ch inside rfl
    simpa using blank ':' inside

theorem forward_rest_eq (n : Nat) : ∀ c : Cursor, (Cursor.forward n c).rest = c.rest.drop n := by
  induction n with
  | zero => exact fun c => rfl
  | succ n ih =>
    intro c
    rw [Cursor.forward, ih]
    unfold Cursor.step
    split <;> simp_all

/-- After the next `n` characters a scanner has only the text behind them. -/
theorem ends_advance {α : Type} {Q : α → Prop} {next : Unit → Scan α} {c : Cursor} {n : Nat}
    (inside : c.rest <:+ text) (later : Gives (c.rest.drop n) (next ()) Q) :
    Ends (Stop.Allowed text) (fun e => e.2.rest <:+ text ∧ Q e.1) ((advance n >>= next) c) := by
  have there : (Cursor.forward n c).rest <:+ c.rest.drop n := by rw [forward_rest_eq]
  have behind : c.rest.drop n <:+ text := (List.drop_suffix n c.rest).trans inside
  apply ends_weaken (later _ there) fun _ => allowed_of_suffix behind
  exact fun e holds => ⟨holds.1.trans behind, holds.2⟩

theorem plainLength_le (inFlow : Bool) (cs : List Char) : plainLength inFlow cs ≤ cs.length := by
  induction cs with
  | nil => simp [plainLength]
  | cons c rest ih =>
    unfold plainLength
    dsimp only
    split <;> simp [ih]

theorem plainLength_dark (inFlow : Bool) (cs : List Char) :
    ∀ ch ∈ cs.take (plainLength inFlow cs), ch ≠ '\n' := by
  induction cs with
  | nil => simp
  | cons c rest ih =>
    unfold plainLength
    dsimp only
    split
    · simp
    · rename_i goesOn
      rintro ch inside rfl
      rcases List.mem_cons.mp inside with rfl | later
      · simp [endsWord, endsItem, endsLine, isBreak] at goesOn
      · exact ih _ later rfl

/-- The text of a plain scalar so far: no line feed at its end, and no more colons than `text`. -/
def IsPlain (text cs : List Char) : Prop :=
  cs.getLast? ≠ some '\n' ∧ cs.count ':' ≤ text.count ':'

theorem isPlain_mono {part cs : List Char} (inside : part <:+ text) (plain : IsPlain part cs) :
    IsPlain text cs := ⟨plain.1, plain.2.trans (inside.sublist.count_le ':')⟩

theorem isPlain_nil : IsPlain text [] := ⟨by simp, by simp⟩

theorem isPlain_words {inFlow : Bool} {cs spaces more : List Char} (uncoloned : Uncoloned spaces)
    (some : plainLength inFlow cs ≠ 0) (later : IsPlain (cs.drop (plainLength inFlow cs)) more) :
    IsPlain cs (spaces ++ cs.take (plainLength inFlow cs) ++ more) := by
  have dark := plainLength_dark inFlow cs
  have long := plainLength_le inFlow cs
  have parts := congrArg (List.count ':') (cs.take_append_drop (plainLength inFlow cs))
  generalize plainLength inFlow cs = n at *
  have nonempty : cs.take n ≠ [] := by
    intro empty
    rcases List.take_eq_nil_iff.mp empty with none | rfl
    · exact some none
    · exact some (Nat.le_zero.mp long)
  constructor
  · cases more with
    | nil =>
      intro last
      rw [List.append_nil, List.getLast?_append_of_ne_nil _ nonempty] at last
      exact dark '\n' (List.mem_of_getLast? last) rfl
    | cons ch more =>
      rw [List.getLast?_append_of_ne_nil _ (by simp)]
      exact later.1
  · have rest := later.2
    have none := count_uncoloned uncoloned
    simp only [List.count_append] at *
    omega

theorem plainWords_isPlain (inFlow : Bool) (indent : Int) (fuel : Nat) :
    ∀ (text spaces : List Char) (brokeLine : Bool) (stop : Mark), Uncoloned spaces →
      Gives text (plainWords inFlow indent spaces brokeLine stop fuel) fun r => IsPlain text r.1 := by
  induction fuel with
  | zero => exact fun text spaces brokeLine stop _ => gives_pure isPlain_nil
  | succ fuel ih =>
    intro text spaces brokeLine stop uncoloned c inside
    change Ends (Stop.Allowed text) _ ((if _ then _ else _ : Scan _) c)
    split
    · exact ⟨inside, isPlain_nil⟩
    · rename_i goesOn
      have some : plainLength inFlow c.rest ≠ 0 := by simp_all
      apply ends_advance (Q := fun r : List Char × Mark × Bool => IsPlain text r.1) inside
      apply gives_weaken (Q := fun r : List Char × Mark × Bool => IsPlain c.rest r.1) _
        fun r => isPlain_mono inside
      refine gives_after reads_mark fun stop => ?_
      refine gives_bind plainSpaces_uncoloned fun gap between => ?_
      refine gives_after reads_peek fun ch => ?_
      refine gives_after reads_column fun column => ?_
      apply gives_ite
      · intro _
        exact gives_pure (by simpa using isPlain_words uncoloned some isPlain_nil)
      · intro _
        refine gives_bind (ih _ _ _ _ between) fun more later => ?_
        exact gives_pure (isPlain_words uncoloned some later)

theorem plainScalar_sound (inFlow : Bool) (parentIndent : Int) :
    Gives text (plainScalar inFlow parentIndent) fun r => Token.Sound text r.1 := by
  refine gives_after reads_mark fun start => ?_
  refine gives_after reads_get fun place => ?_
  have words := plainWords_isPlain inFlow (parentIndent + 1) (place.rest.length + 1) text [] false
    start (by simp [Uncoloned])
  refine gives_bind words fun r plain => gives_pure ?_
  simpa [Token.Sound, IsPlain] using plain

end Plain

end Scan
end MailRules.Yaml
