import MailRules.Proofs.Yaml.Locality
/-!
How far each scanner looks.
-/
namespace MailRules.Yaml
open MailRules.Text

namespace Scan
variable {hole : Hole} {β : Type}

theorem local_skipSpaces : Local hole skipSpaces :=
  local_discard (local_takeWhile (uniform_of_not fun a word => by simp [ne_of_word word]))

theorem local_skipLine : Local hole skipLine :=
  local_discard (local_takeWhile (uniform_of_all fun a word => by simp [endsLine_of_word word]))

theorem local_lineBreak : Local hole lineBreak := by
  obtain ⟨c, cs, begins, word⟩ := hole.rest_begins
  obtain ⟨c', cs', begins', word'⟩ := hole.twin_begins
  refine local_get_same (fun c => ?_) fun w m => ?_
  · split
    · exact local_bind (local_advance 2) fun _ => local_pure _
    · apply local_ite (local_bind (local_advance 1) fun _ => local_pure _)
      exact local_ite (local_bind (local_advance 1) fun _ => local_pure _) (local_pure _)
    · exact local_pure _
  · rcases w with _ | ⟨a, _ | ⟨b, w⟩⟩
    · simp [begins, begins', ne_of_word word, ne_of_word word', isBreak_of_word word, isBreak_of_word word']
    · simp [begins, begins', ne_of_word word, ne_of_word word']
    · grind

theorem local_endsItem {message : String} {f : Unit → Scan β} (later : ∀ u, Local hole (f u)) :
    Local hole (peek >>= fun c => if !endsItem c then failAtChar message >>= f else f ()) :=
  local_unless (uniform_of_all fun a word => by simp [endsItem_of_word word]) (local_failAtChar _) later

/-- At the hole the end of an item fails. -/
theorem barred_endsItem {message : String} {f : Unit → Scan β} :
    Barred hole 1 (peek >>= fun c => if !endsItem c then failAtChar message >>= f else f ()) := by
  refine barred_peek fun a word => ?_
  rw [endsItem_of_word word]
  exact fun _ _ _ => trivial

theorem local_name : Local hole name :=
  local_unless (uniform_of_not fun a word => by simp [isNameChar_of_word word]) (local_failAtChar _)
    fun _ => local_takeWhile (uniform_of_all fun _ => isNameChar_of_word)

def hexStop (expectation : String) (k : Nat) (c : Cursor) : Option Stop :=
  (((c.rest ++ [endOfText]).take k).find? (!isHexDigit ·)).map fun d =>
    .problem ⟨expectation ++ ", but found " ++ String.ofList (quotedChars [d]), c.mark⟩

theorem requireHex_apply (expectation : String) (k : Nat) (c : Cursor) : requireHex expectation k c =
    (match ((c.rest ++ [endOfText]).take k).find? (!isHexDigit ·) with
      | some d => fail (expectation ++ ", but found " ++ String.ofList (quotedChars [d]))
      | none => pure () : Scan Unit) c := rfl

theorem requireHex_run (expectation : String) (k : Nat) (c : Cursor) :
    requireHex expectation k c = (hexStop expectation k c).elim (.ok ((), c)) .error := by
  rw [requireHex_apply]
  unfold hexStop
  cases ((c.rest ++ [endOfText]).take k).find? (!isHexDigit ·) <;> rfl

/-- Hexadecimal digits are asked for and then taken. -/
theorem local_hex {expectation : String} {k : Nat} {f : Cursor → Scan β} (each : ∀ c, Local hole (f c))
    (taken : ∀ c c', c.rest.take k = c'.rest.take k → f c = f c') (far : ∀ c, Barred hole k (f c)) :
    Local hole (requireHex expectation k >>= fun _ => get >>= f) := by
  have run (c : Cursor) : (requireHex expectation k >>= fun _ => get >>= f) c =
      (hexStop expectation k c).elim (f c c) .error := by
    change (requireHex expectation k c >>= fun e => f e.2 e.2) = _
    rw [requireHex_run]
    cases hexStop expectation k c <;> rfl
  refine ⟨fun c => ?_, fun w m => ?_⟩
  · rw [run]
    cases hexStop expectation k c with
    | some stop => trivial
    | none => exact (each c).onward c
  · rw [run, run]
    by_cases enough : k ≤ w.length
    · have same : hexStop expectation k ⟨w ++ hole.twin, m⟩ =
          hexStop expectation k ⟨w ++ hole.rest, m⟩ := by
        simp only [hexStop, List.append_assoc, List.take_append_of_le_length enough]
      rw [same, taken ⟨w ++ hole.twin, m⟩ ⟨w ++ hole.rest, m⟩
        (by simp only [List.take_append_of_le_length enough])]
      cases hexStop expectation k ⟨w ++ hole.rest, m⟩ with
      | some stop => exact .lost trivial
      | none => exact (each _).same w m
    · apply Outcome.lost
      cases hexStop expectation k ⟨w ++ hole.rest, m⟩ with
      | some stop => trivial
      | none => exact far _ w m (Nat.lt_of_not_le enough)

theorem local_percentOctets (fuel : Nat) : Local hole (percentOctets fuel) := by
  induction fuel with
  | zero => exact local_pure _
  | succ fuel ih =>
    apply local_test (uniform_eq (by decide)) _ (local_pure _)
    refine local_bind (local_advance 1) fun _ => ?_
    have rest (octet : Nat) : Local hole (do
        advance 2
        return octet :: (← percentOctets fuel)) :=
      local_bind (local_advance 2) fun _ => local_bind ih fun _ => local_pure _
    refine local_hex (fun c => rest _) (fun c c' same => by rw [same]) fun c => ?_
    exact barred_advance le_rfl fun _ => (local_bind ih fun _ => local_pure _).onward

theorem local_percentChars : Local hole percentChars := by
  refine local_bind local_mark fun start => ?_
  refine local_size (fun c => ?_) fun c c' same => by rw [same]
  refine local_bind (local_percentOctets _) fun octets => ?_
  split
  · exact local_pure _
  · exact local_throw _

theorem local_uriChunks (fuel : Nat) : Local hole (uriChunks fuel) := by
  induction fuel with
  | zero => exact local_pure _
  | succ fuel ih =>
    refine local_bind (local_takeWhile (uniform_of_all fun _ => isUriChar_of_word)) fun run => ?_
    apply local_test (uniform_eq (by decide)) _ (local_pure _)
    exact local_bind local_percentChars fun _ => local_bind ih fun _ => local_pure _

theorem local_uri : Local hole uri := by
  refine local_size (fun c => ?_) fun c c' same => by rw [same]
  refine local_bind (local_uriChunks _) fun cs => ?_
  exact local_when (local_failAtChar _) fun _ => local_pure _

theorem local_tagHandle : Local hole tagHandle := by
  apply local_unless (uniform_of_all fun a word => ne_of_word word (by decide)) (local_failAtChar _)
  intro _
  refine local_bind (local_advance 1) fun _ => ?_
  apply local_test (uniform_eq (by decide)) (local_pure _)
  refine local_bind (local_takeWhile (uniform_of_all fun _ => isNameChar_of_word)) fun run => ?_
  apply local_unless (uniform_of_all fun a word => ne_of_word word (by decide)) (local_failAtChar _)
  exact fun _ => local_bind (local_advance 1) fun _ => local_pure _

theorem local_restOfLine : Local hole restOfLine := by
  refine local_bind local_skipSpaces fun _ => ?_
  apply local_unless (uniform_eq (by decide)) local_skipLine
  intro _
  apply local_unless (uniform_of_all fun a word => by simp [endsLine_of_word word]) (local_failAtChar _)
  exact fun _ => local_discard local_lineBreak

theorem edging_versionNumber : Edging hole versionNumber := by
  have digits : Edging hole (do
      let digits ← takeWhile isAsciiDigit
      if Number.digitLimit < digits.length then throw (.fault .versionTooLong)
      return ofDigits (digits.map fun c => c.toNat - 48)) := by
    refine edging_use (edging_takeWhile _) fun digits => ?_
    split
    · exact .inr ⟨_, rfl⟩
    · exact .inl ⟨_, rfl⟩
  refine edging_peek fun c => ?_
  split
  · exact edging_bind (local_failAtChar _) fun _ => digits
  · exact digits

theorem local_versionDirective : Local hole versionDirective := by
  refine local_bind local_skipSpaces fun _ => ?_
  have finish (major : Nat) : Local hole (do
      advance 1
      discard versionNumber
      if !endsItem (← peek) then failAtChar "expected a digit or ' ', but found "
      return Directive.version major) := by
    refine local_bind (local_advance 1) fun _ => ?_
    refine local_edging (edging_use edging_versionNumber fun _ => .inl ⟨(), rfl⟩) (fun _ => ?_) fun _ => ?_
    · exact local_endsItem fun _ => local_pure _
    · exact barred_endsItem
  refine local_edging edging_versionNumber (fun major => ?_) fun major => ?_
  · apply local_unless (uniform_of_all fun a word => ne_of_word word (by decide)) (local_failAtChar _)
    exact fun _ => finish major
  · refine barred_peek fun a word => ?_
    rw [if_pos (ne_of_word word (by decide))]
    exact fun _ _ _ => trivial

theorem local_tagDirective : Local hole tagDirective := by
  refine local_bind local_skipSpaces fun _ => ?_
  refine local_bind local_tagHandle fun handle => ?_
  apply local_unless (uniform_of_all fun a word => ne_of_word word (by decide)) (local_failAtChar _)
  intro _
  refine local_bind local_skipSpaces fun _ => ?_
  exact local_bind local_uri fun text => local_endsItem fun _ => local_pure _

theorem local_directive : Local hole directive := by
  refine local_bind local_mark fun start => ?_
  refine local_bind (local_advance 1) fun _ => ?_
  refine local_bind local_name fun word => ?_
  refine local_endsItem fun _ => ?_
  have finish (d : Directive) : Local hole (do
      let stop ← mark
      restOfLine
      return (⟨.directive d, start, stop⟩ : Token)) :=
    local_bind local_mark fun _ => local_bind local_restOfLine fun _ => local_pure _
  apply local_ite (local_bind local_versionDirective finish)
  apply local_ite (local_bind local_tagDirective finish)
  refine local_bind local_mark fun stop => ?_
  exact local_bind local_skipLine fun _ => local_bind local_restOfLine fun _ => local_pure _

theorem local_anchorWith (kind : String → TokenKind) : Local hole (anchorWith kind) := by
  refine local_bind local_mark fun start => ?_
  refine local_bind (local_advance 1) fun _ => ?_
  refine local_bind local_name fun word => ?_
  apply local_unless (uniform_of_all fun a word => ?_) (local_failAtChar _)
  · exact fun _ => local_bind local_mark fun stop => local_pure _
  · simp [endsAnchor, endsWord_of_word word, ne_of_word word]

/-- Whether an exclamation mark follows before the item ends is the same for both texts. -/
theorem ahead_same (w : List Char) :
    (((w ++ hole.rest).drop 1).takeWhile (!endsItem ·)).contains '!' =
      (((w ++ hole.twin).drop 1).takeWhile (!endsItem ·)).contains '!' := by
  have alike := List.forall₂_drop 1 (hole.alike_before w)
  generalize (w ++ hole.rest).drop 1 = cs, (w ++ hole.twin).drop 1 = cs' at alike
  have item : Uniform (endsItem · = true) := uniform_of_not fun a word => by simp [endsItem_of_word word]
  have mark : Uniform (· = '!') := uniform_eq (by decide)
  induction alike with
  | nil => rfl
  | @cons c c' cs cs' first _ ih =>
    have ends : endsItem c = endsItem c' := Bool.eq_iff_iff.mpr (item.alike first)
    have same : (c == '!') = (c' == '!') := by
      rw [beq_eq_decide, beq_eq_decide]
      exact decide_eq_decide.mpr (mark.alike first)
    simp only [List.takeWhile_cons, ends]
    split
    · simp only [List.contains_cons, ih, BEq.comm, same]
    · rfl

theorem local_tag : Local hole tag := by
  refine local_bind local_mark fun start => ?_
  refine local_peekAt 1 (fun c => ?_) fun a b word word' => ?_
  · extract_lets finish finishWith
    have finish_local : ∀ p, Local hole (finish p) := fun p =>
      local_endsItem fun _ => local_bind local_mark fun stop => local_pure _
    apply local_ite
    · refine local_bind (local_advance 2) fun _ => ?_
      refine local_bind local_uri fun suffix => ?_
      apply local_unless (uniform_of_all fun a word => ne_of_word word (by decide)) (local_failAtChar _)
      exact fun _ => local_bind (local_advance 1) fun _ => local_bind (local_pure _) finish_local
    apply local_ite (local_bind (local_advance 1) fun _ => local_bind (local_pure _) finish_local)
    have finishWith_local : ∀ handle, Local hole (finishWith handle) := fun handle =>
      local_bind local_uri fun suffix => local_bind (local_pure _) finish_local
    refine local_get_same (fun place => ?_) fun w m => ?_
    · apply local_ite (local_bind local_tagHandle finishWith_local)
      exact local_bind (local_advance 1) fun _ => local_bind (local_pure _) finishWith_local
    · simp only [ahead_same]
  · simp only [ne_of_word word (by decide : '<'.isAlphanum = false),
      ne_of_word word' (by decide : '<'.isAlphanum = false), endsWord_of_word word, endsWord_of_word word']

theorem edging_indentationMark : Edging hole indentationMark? := by
  refine edging_peek fun c => ?_
  split
  · refine edging_of_local (local_when (local_fail _) fun _ => ?_)
    exact local_bind (local_advance 1) fun _ => local_pure _
  · exact edging_of_local (local_pure _)

theorem local_blockHeader : Local hole blockHeader := by
  have noChomping {a : Char} (word : a.isAlphanum) : chompingMark? a = none := by
    simp [chompingMark?, ne_of_word word]
  refine local_peek (fun c => ?_) fun a b word word' => .inr ?_
  · extract_lets finish
    have finish_local : ∀ header, Local hole (finish header) := fun header =>
      local_endsItem fun _ => local_pure _
    have barred : ∀ header, Barred hole 1 (finish header) := fun header => barred_endsItem
    cases chompingMark? c with
    | some chomping =>
      refine local_bind (local_advance 1) fun _ => ?_
      refine local_edging edging_indentationMark (fun _ => ?_) fun increment => barred (chomping, increment)
      exact local_bind (local_pure _) finish_local
    | none =>
      refine local_edging edging_indentationMark (fun increment => ?_) fun increment => ?_
      · cases increment with
        | none => exact local_bind (local_pure _) finish_local
        | some n =>
          refine local_peek (fun c => ?_) fun a b word word' => .inr ?_
          · split
            · exact local_bind (local_advance 1) fun _ => local_bind (local_pure _) finish_local
            · exact local_bind (local_pure _) finish_local
          · simp only [noChomping word, noChomping word']
      · cases increment with
        | none => exact barred (.clip, none)
        | some n =>
          refine barred_peek fun a word => ?_
          rw [noChomping word]
          exact barred (.clip, some n)
  · simp only [noChomping word, noChomping word']

theorem local_skipIndentation (indent : Nat) : Local hole (skipIndentation indent) := by
  refine local_bind local_column fun column => ?_
  obtain ⟨c, cs, begins, word⟩ := hole.rest_begins
  obtain ⟨c', cs', begins', word'⟩ := hole.twin_begins
  refine local_get_same (fun c => local_advance _) fun w m => ?_
  simp [List.takeWhile_append, begins, begins', ne_of_word word, ne_of_word word']

theorem local_leadingBreaks (fuel : Nat) : ∀ deepest, Local hole (leadingBreaks deepest fuel) := by
  induction fuel with
  | zero => exact fun _ => local_pure _
  | succ fuel ih =>
    intro deepest
    refine local_peek (fun c => ?_) fun a b word word' => .inr ?_
    · apply local_ite (local_bind (local_advance 1) fun _ => local_bind local_column fun _ => ih _)
      apply local_ite _ (local_pure _)
      exact local_bind local_lineBreak fun b => local_bind (ih deepest) fun _ => local_pure _
    · simp [ne_of_word word, ne_of_word word', isBreak_of_word word, isBreak_of_word word']

theorem local_break {s t : Scan β} (yes : Local hole s) (no : Local hole t) :
    Local hole (peek >>= fun c => if isBreak c then s else t) :=
  local_test (uniform_of_not fun a word => by simp [isBreak_of_word word]) yes no

theorem local_indentedBreaks (indent fuel : Nat) : Local hole (indentedBreaks indent fuel) := by
  induction fuel with
  | zero => exact local_pure _
  | succ fuel ih =>
    refine local_bind (local_skipIndentation indent) fun _ => ?_
    apply local_break _ (local_pure _)
    exact local_bind local_lineBreak fun b => local_bind ih fun _ => local_pure _

theorem isSpaceOrTab_of_word {a : Char} (word : a.isAlphanum) : isSpaceOrTab a = false := by
  simp [isSpaceOrTab, ne_of_word word]

theorem local_goesOn {condition : Prop} [Decidable condition] {s t : Scan β} (yes : Local hole s)
    (no : Local hole t) : Local hole (peek >>= fun c => if condition ∧ c ≠ endOfText then s else t) := by
  have never {a : Char} (word : a.isAlphanum) : a ≠ endOfText := ne_of_word word (by decide)
  exact local_test (fun a b word word' => by simp [never word, never word']) yes no

theorem local_blockLines (isFolded : Bool) (indent fuel : Nat) :
    ∀ before, Local hole (blockLines isFolded indent before fuel) := by
  induction fuel with
  | zero => exact fun _ => local_pure _
  | succ fuel ih =>
    intro before
    refine local_peek (fun first => ?_) fun a b word word' => .inr ?_
    · refine local_bind (local_takeWhile (uniform_of_all fun a word => ?_)) fun line => ?_
      · simp [endsLine_of_word word]
      refine local_bind local_lineBreak fun b => ?_
      refine local_size (fun c => ?_) fun c c' same => by rw [same]
      refine local_bind (local_indentedBreaks _ _) fun breaks => ?_
      refine local_bind local_column fun column => ?_
      refine local_goesOn (local_peek (fun c => ?_) fun a b word word' => .inr ?_) (local_pure _)
      · exact local_bind (ih breaks) fun _ => local_pure _
      · simp only [isSpaceOrTab_of_word word, isSpaceOrTab_of_word word']
    · simp only [isSpaceOrTab_of_word word, isSpaceOrTab_of_word word']

theorem local_blockScalar (parentIndent : Int) (style : ScalarStyle) :
    Local hole (blockScalar parentIndent style) := by
  refine local_bind local_mark fun start => ?_
  refine local_bind (local_advance 1) fun _ => ?_
  refine local_bind local_blockHeader fun header => ?_
  refine local_bind local_restOfLine fun _ => ?_
  refine local_size (fun c => ?_) fun c c' same => by rw [same]
  extract_lets size finish begin
  have finish_local : ∀ lines, Local hole (finish lines) := fun lines =>
    local_bind local_mark fun stop => local_pure _
  have begin_local : ∀ start, Local hole (begin start) := by
    intro start
    refine local_bind local_column fun column => ?_
    apply local_goesOn
    · exact local_bind (local_blockLines _ _ _ _) finish_local
    · exact local_bind (local_pure _) finish_local
  split
  · exact local_bind (local_leadingBreaks _ _) fun breaks => local_bind (local_pure _) begin_local
  · exact local_bind (local_indentedBreaks _ _) fun breaks => local_bind (local_pure _) begin_local

/-! Quoted scalars -/

theorem local_quotedBreaks (fuel : Nat) : Local hole (quotedBreaks fuel) := by
  induction fuel with
  | zero => exact local_pure _
  | succ fuel ih =>
    refine local_get_same (fun c => ?_) fun w m => by simp only [atSeparator_same]
    refine local_when (local_fail _) fun _ => ?_
    refine local_bind (local_discard (local_takeWhile (uniform_of_not fun a word => ?_))) fun _ => ?_
    · simp [isSpaceOrTab_of_word word]
    · apply local_break _ (local_pure _)
      exact local_bind local_lineBreak fun b => local_bind ih fun _ => local_pure _

theorem local_quotedBreaksHere : Local hole quotedBreaksHere :=
  local_size (fun _ => local_quotedBreaks _) fun c c' same => by rw [same]

theorem local_escapeDigits (width : Nat) : Local hole (do
    requireHex ("expected escape sequence of " ++ decimal width ++ " hexadecimal numbers") width
    match charOfCode (ofHexDigits ((← get).rest.take width)) with
    | .ok e => advance width; return [e]
    | .error f => throw (.fault f)) := by
  refine local_hex (fun place => ?_) (fun c c' same => by rw [same]) fun place => ?_
  · split
    · exact local_bind (local_advance _) fun _ => local_pure _
    · exact local_throw _
  · split
    · exact barred_advance le_rfl fun _ => onward_pure _
    · exact fun _ _ _ => trivial

/-- A letter or digit after a backslash is taken, with what it asks for, or the escape fails. -/
theorem local_escape : Local hole escape := by
  refine local_peek (fun c => ?_) fun a b word word' => .inl ?_
  · split
    · exact local_bind (local_advance 1) fun _ => local_pure _
    · split
      · exact local_bind (local_advance 1) fun _ => local_escapeDigits _
      · apply local_ite _ (local_failAtChar _)
        exact local_bind (local_discard local_lineBreak) fun _ => local_quotedBreaksHere
  · split
    · exact barred_advance le_rfl fun _ => onward_pure _
    · split
      · rename_i width _
        have digits : Local hole _ := local_escapeDigits width
        exact barred_advance le_rfl fun _ => digits.onward
      · rw [isBreak_of_word word]
        exact fun _ _ _ => trivial

theorem local_quotedDark (isDouble : Bool) (fuel : Nat) : Local hole (quotedDark isDouble fuel) := by
  induction fuel with
  | zero => exact local_pure _
  | succ fuel ih =>
    refine local_bind (local_takeWhile (uniform_of_all fun a word => ?_)) fun run => ?_
    · simp [ne_of_word word, endsWord_of_word word]
    refine local_peek (fun c => ?_) fun a b word word' => .inr ?_
    · refine local_peekAt 1 (fun d => ?_) fun a b word word' => ?_
      · apply local_ite (local_bind (local_advance 2) fun _ => local_bind ih fun _ => local_pure _)
        apply local_ite (local_bind (local_advance 1) fun _ => local_bind ih fun _ => local_pure _)
        apply local_ite _ (local_pure _)
        refine local_bind (local_advance 1) fun _ => ?_
        exact local_bind local_escape fun e => local_bind ih fun _ => local_pure _
      · simp [ne_of_word word, ne_of_word word']
    · simp [ne_of_word word, ne_of_word word']

theorem local_quotedBlank : Local hole quotedBlank := by
  refine local_bind (local_takeWhile (uniform_of_not fun a word => ?_)) fun blanks => ?_
  · simp [isSpaceOrTab_of_word word]
  refine local_peek (fun c => ?_) fun a b word word' => .inr ?_
  · apply local_ite (local_fail _)
    apply local_ite _ (local_pure _)
    refine local_bind local_lineBreak fun b => ?_
    refine local_bind local_quotedBreaksHere fun breaks => ?_
    exact local_ite (local_pure _) (local_ite (local_pure _) (local_pure _))
  · simp [endOfText, ne_of_word word, ne_of_word word', isBreak_of_word word, isBreak_of_word word']

theorem local_quotedText (isDouble : Bool) (fuel : Nat) : Local hole (quotedText isDouble fuel) := by
  have quote : (if isDouble then '"' else '\'').isAlphanum = false := by cases isDouble <;> decide
  induction fuel with
  | zero => exact local_pure _
  | succ fuel ih =>
    refine local_size (fun c => ?_) fun c c' same => by rw [same]
    refine local_bind (local_quotedDark _ _) fun dark => ?_
    apply local_test (uniform_eq quote) (local_bind (local_advance 1) fun _ => local_pure _)
    exact local_bind local_quotedBlank fun blank => local_bind ih fun _ => local_pure _

theorem local_quotedScalar (isDouble : Bool) : Local hole (quotedScalar isDouble) := by
  refine local_bind local_mark fun start => ?_
  refine local_bind (local_advance 1) fun _ => ?_
  refine local_size (fun c => ?_) fun c c' same => by rw [same]
  refine local_bind (local_quotedText _ _) fun text => ?_
  exact local_bind local_mark fun stop => local_pure _

/-! Plain scalars -/

theorem plainLength_alike (inFlow : Bool) {cs cs' : List Char} (alike : List.Forall₂ Hole.Alike cs cs') :
    plainLength inFlow cs = plainLength inFlow cs' := by
  induction alike with
  | nil => rfl
  | @cons c c' cs cs' first rest ih =>
    have second : Hole.Alike (cs.headD endOfText) (cs'.headD endOfText) := by
      cases rest with
      | nil => exact .inl rfl
      | cons second _ => exact second
    simp only [plainLength, ih]
    generalize cs.headD endOfText = d, cs'.headD endOfText = d' at second
    rcases first with rfl | ⟨word, word'⟩
    · rcases second with rfl | ⟨word, word'⟩
      · rfl
      · simp [endsWord_of_word word, endsWord_of_word word', ne_of_word word, ne_of_word word']
    · simp [endsWord_of_word word, endsWord_of_word word', ne_of_word word, ne_of_word word']

theorem local_plainBreaks (fuel : Nat) : Local hole (plainBreaks fuel) := by
  induction fuel with
  | zero => exact local_pure _
  | succ fuel ih =>
    refine local_peek (fun c => ?_) fun a b word word' => .inr ?_
    · apply local_ite (local_bind (local_advance 1) fun _ => ih)
      apply local_ite _ (local_pure _)
      refine local_bind local_lineBreak fun b => ?_
      refine local_get_same (fun c => ?_) fun w m => by simp only [atSeparator_same]
      exact local_ite (local_pure _) (local_bind ih fun _ => local_pure _)
    · simp [ne_of_word word, ne_of_word word', isBreak_of_word word, isBreak_of_word word']

theorem local_plainSpaces : Local hole plainSpaces := by
  refine local_bind (local_takeWhile (uniform_of_not fun a word => ?_)) fun spaces => ?_
  · simp [ne_of_word word]
  apply local_break _ (local_pure _)
  refine local_bind local_lineBreak fun b => ?_
  refine local_get_same (fun c => ?_) fun w m => by simp only [atSeparator_same]
  apply local_ite (local_pure _)
  refine local_size (fun c => ?_) fun c c' same => by rw [same]
  refine local_bind (local_plainBreaks _) fun breaks? => ?_
  cases breaks? with
  | none => exact local_pure _
  | some breaks => exact local_ite (local_pure _) (local_ite (local_pure _) (local_pure _))

/-- What follows a word of a plain scalar, up to which the text is `text`. -/
def afterWord (inFlow : Bool) (indent : Int) (fuel : Nat) (text : List Char) :
    Scan (List Char × Mark × Bool) := do
  let stop ← mark
  let (gap, brokeLine) ← plainSpaces
  if gap.isEmpty || (← peek) = '#' || (!inFlow && (← column) < indent) then
    return (text, stop, brokeLine)
  else
    let (more, stop, brokeLine) ← plainWords inFlow indent gap brokeLine stop fuel
    return (text ++ more, stop, brokeLine)

theorem plainWords_succ (inFlow : Bool) (indent : Int) (spaces : List Char) (brokeLine : Bool) (stop : Mark)
    (fuel : Nat) : plainWords inFlow indent spaces brokeLine stop (fuel + 1) = (do
      let c ← peek
      let rest := (← get).rest
      let length := plainLength inFlow rest
      if c = '#' || length = 0 then return ([], stop, brokeLine)
      advance length
      afterWord inFlow indent fuel (spaces ++ rest.take length)) := rfl

theorem local_afterWord {inFlow : Bool} {indent : Int} {fuel : Nat} (text : List Char)
    (later : ∀ gap brokeLine stop, Local hole (plainWords inFlow indent gap brokeLine stop fuel)) :
    Local hole (afterWord inFlow indent fuel text) := by
  refine local_bind local_mark fun stop => ?_
  refine local_bind local_plainSpaces fun gap => ?_
  refine local_peek (fun c => ?_) fun a b word word' => .inr ?_
  · refine local_bind local_column fun column => ?_
    exact local_ite (local_pure _) (local_bind (later _ _ _) fun _ => local_pure _)
  · simp only [ne_of_word word (by decide : '#'.isAlphanum = false),
      ne_of_word word' (by decide : '#'.isAlphanum = false)]

theorem local_plainWords (inFlow : Bool) (indent : Int) (fuel : Nat) : ∀ spaces brokeLine stop,
    Local hole (plainWords inFlow indent spaces brokeLine stop fuel) := by
  induction fuel with
  | zero => exact fun _ _ _ => local_pure _
  | succ fuel ih =>
    intro spaces brokeLine stop
    rw [plainWords_succ]
    refine local_peek (fun c => ?_) fun a b word word' => .inr ?_
    · refine local_get (fun place => ?_) fun w m => ?_
      · exact local_ite (local_pure _) (local_bind (local_advance _) fun _ => local_afterWord _ ih)
      · have size := plainLength_alike inFlow (hole.alike_before w)
        dsimp only
        rw [← size]
        by_cases inside : plainLength inFlow (w ++ hole.rest) ≤ w.length
        · right
          simp only [List.take_append_of_le_length inside]
        · by_cases ends : (decide (c = '#') || decide (plainLength inFlow (w ++ hole.rest) = 0)) = true
          · exact .inr (by rw [if_pos ends, if_pos ends])
          · left
            rw [if_neg ends]
            have words (text : List Char) : Local hole _ := local_afterWord text ih
            exact barred_advance le_rfl (fun _ => (words _).onward) w m (Nat.lt_of_not_le inside)
    · simp only [ne_of_word word (by decide : '#'.isAlphanum = false),
        ne_of_word word' (by decide : '#'.isAlphanum = false)]

theorem local_plainScalar (inFlow : Bool) (parentIndent : Int) :
    Local hole (plainScalar inFlow parentIndent) := by
  refine local_bind local_mark fun start => ?_
  refine local_size (fun c => ?_) fun c c' same => by rw [same]
  exact local_bind (local_plainWords _ _ _ _ _ _) fun _ => local_pure _

end Scan
end MailRules.Yaml
