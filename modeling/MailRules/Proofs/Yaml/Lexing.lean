import MailRules.Proofs.Yaml.Scanning
/-!
The tokens of a text: whatever the lexer does, the tokens that it has so far are as the text allows,
and it is at fault only for what the text holds.
-/
namespace MailRules.Yaml
open MailRules.Text

namespace Lexer

/-- What is left is an end of the text, and the tokens so far are as the text allows. -/
structure Sound (text : List Char) (l : Lexer) : Prop where
  within : l.cursor.rest <:+ text
  tokens : ∀ t ∈ l.tokens, t.Sound text

def Bare (kind : TokenKind) : Prop := ∀ text start stop, Token.Sound text ⟨kind, start, stop⟩

section Changes
variable {text : List Char} {l : Lexer}

theorem push_sound {t : Token} (sound : Sound text l) (token : t.Sound text) :
    Sound text (l.push t) := by
  refine ⟨sound.within, fun u inside => ?_⟩
  rcases List.mem_cons.mp inside with rfl | earlier
  · exact token
  · exact sound.tokens u earlier

theorem insertAt_sound (kind : TokenKind) (bare : Bare kind) (number : Nat) (m : Mark)
    (sound : Sound text l) : Sound text (l.insertAt number kind m) := by
  refine ⟨sound.within, fun t inside => ?_⟩
  rcases List.mem_append.mp inside with later | here
  · exact sound.tokens t (List.mem_of_mem_take later)
  · rcases List.mem_cons.mp here with rfl | earlier
    · exact bare text m m
    · exact sound.tokens t (List.mem_of_mem_drop earlier)

theorem pushChar_sound (kind : TokenKind) (bare : Bare kind) (sound : Sound text l) :
    Sound text (l.pushChar kind) := by
  have moved : Sound text { l with cursor := l.cursor.step } :=
    ⟨(Scan.step_rest l.cursor).trans sound.within, sound.tokens⟩
  exact push_sound moved (bare text _ _)

theorem unwindTo_sound {column : Int} {indents : List Int} :
    ∀ {l : Lexer}, Sound text l → Sound text (unwindTo column l indents) := by
  induction indents with
  | nil => exact fun sound => sound
  | cons outer rest ih =>
    intro l sound
    unfold unwindTo
    split
    · have left : Sound text { l with indent := outer, indents := rest } :=
        ⟨sound.within, sound.tokens⟩
      exact ih (push_sound left trivial)
    · exact sound

theorem unwind_sound (column : Int) (sound : Sound text l) : Sound text (l.unwind column) := by
  unfold unwind
  split
  · exact sound
  · exact unwindTo_sound sound

theorem indentTo_sound (column : Nat) (sound : Sound text l) :
    Sound text (l.indentTo column).1 := by
  unfold indentTo
  split
  · exact ⟨sound.within, sound.tokens⟩
  · exact sound

theorem openBlock_sound (kind : TokenKind) (bare : Bare kind) (sound : Sound text l) :
    Sound text (l.openBlock kind) := by
  have deeper := indentTo_sound l.mark.column sound
  unfold openBlock
  dsimp only
  split
  · exact push_sound deeper (bare text _ _)
  · exact deeper

theorem withoutCandidate_sound (sound : Sound text l) : Sound text l.withoutCandidate :=
  ⟨sound.within, sound.tokens⟩

theorem allow_sound (keyAllowed : Bool) (sound : Sound text l) :
    Sound text { l with keyAllowed := keyAllowed } :=
  ⟨sound.within, sound.tokens⟩

end Changes

section Steps
variable {text : List Char} {l : Lexer}

abbrev Goes (text : List Char) (r : Except Stop Lexer) : Prop := Ends (Stop.Allowed text) (Sound text) r

theorem goes_dropStale (sound : Sound text l) : Goes text l.dropStale := by
  unfold dropStale
  split
  · trivial
  · exact ⟨sound.within, sound.tokens⟩

theorem goes_removeCandidate (sound : Sound text l) : Goes text l.removeCandidate := by
  unfold removeCandidate
  split
  · split
    · trivial
    · exact withoutCandidate_sound sound
  · exact sound

theorem goes_saveCandidate (sound : Sound text l) : Goes text l.saveCandidate := by
  unfold saveCandidate
  split
  · refine ends_bind (goes_removeCandidate sound) fun l' removed => ?_
    exact ⟨removed.within, removed.tokens⟩
  · exact sound

theorem ends_scan {α : Type} {s : Scan α} {Q : α → Prop} (gives : Scan.Gives text s Q)
    (sound : Sound text l) : Ends (Stop.Allowed text) (fun e => Sound text e.2 ∧ Q e.1) (l.scan s) := by
  refine ends_bind (gives l.cursor sound.within) fun e ended => ?_
  exact ⟨⟨ended.1, sound.tokens⟩, ended.2⟩

theorem goes_skipToToken (fuel : Nat) :
    ∀ {l : Lexer}, Sound text l → Goes text (l.skipToToken fuel) := by
  induction fuel with
  | zero => exact fun sound => sound
  | succ fuel ih =>
    intro l sound
    have comment : Scan.Reads text (do Scan.skipSpaces; if (← Scan.peek) = '#' then Scan.skipLine) :=
      Scan.gives_after Scan.reads_skipSpaces fun _ => Scan.gives_after Scan.reads_peek fun _ =>
        Scan.gives_ite (fun _ => Scan.reads_skipLine) fun _ => Scan.reads_pure ()
    refine ends_bind (ends_scan comment sound) fun e passed => ?_
    refine ends_bind (ends_scan Scan.reads_lineBreak passed.1) fun b broke => ?_
    dsimp only
    split
    · exact broke.1
    · exact ih ⟨broke.1.within, broke.1.tokens⟩

theorem goes_leaveBlocks (sound : Sound text l) : Goes text l.leaveBlocks := by
  refine ends_bind (goes_removeCandidate (unwind_sound (-1) sound)) fun l' left => ?_
  exact ⟨left.within, left.tokens⟩

theorem goes_documentMark (kind : TokenKind) (bare : Bare kind) (sound : Sound text l) :
    Goes text (l.documentMark kind) := by
  refine ends_bind (goes_leaveBlocks sound) fun l' left => ?_
  have moved : Sound text { l' with cursor := l'.cursor.forward 3 } :=
    ⟨(Scan.forward_rest 3 l'.cursor).trans left.within, left.tokens⟩
  exact push_sound moved (bare text _ _)

theorem goes_openFlow (kind : TokenKind) (bare : Bare kind) (sound : Sound text l) :
    Goes text (l.openFlow kind) := by
  refine ends_bind (goes_saveCandidate sound) fun l' saved => ?_
  exact pushChar_sound kind bare ⟨saved.within, saved.tokens⟩

theorem goes_closeFlow (kind : TokenKind) (bare : Bare kind) (sound : Sound text l) :
    Goes text (l.closeFlow kind) := by
  refine ends_bind (goes_removeCandidate sound) fun l' removed => ?_
  exact pushChar_sound kind bare ⟨removed.within, removed.tokens⟩

theorem goes_indicator (kind : TokenKind) (bare : Bare kind) (keyAllowed : Bool)
    (sound : Sound text l) :
    Goes text (do return (← { l with keyAllowed := keyAllowed }.removeCandidate).pushChar kind) := by
  have same : Sound text { l with keyAllowed := keyAllowed } := ⟨sound.within, sound.tokens⟩
  exact ends_bind (goes_removeCandidate same) fun l' removed => pushChar_sound kind bare removed

theorem goes_unless {condition : Prop} [Decidable condition] {p : Problem}
    {next : PUnit → Except Stop Lexer} (later : Goes text (next ⟨⟩)) :
    Goes text (if condition then throw (.problem p) >>= next else next ⟨⟩) := by
  split
  · trivial
  · exact later

theorem goes_blockEntry (sound : Sound text l) : Goes text l.blockEntry := by
  unfold blockEntry
  apply goes_unless
  refine goes_indicator .blockEntry (fun _ _ _ => trivial) true ?_
  split
  · exact sound
  · exact openBlock_sound .blockSequenceStart (fun _ _ _ => trivial) sound

theorem goes_mappingIndicator (kind : TokenKind) (bare : Bare kind) (keyAllowed : Lexer → Bool)
    (sound : Sound text l) :
    Goes text (do
      let l := if l.inFlow then l else l.openBlock .blockMappingStart
      return (← { l with keyAllowed := keyAllowed l }.removeCandidate).pushChar kind) := by
  refine goes_indicator kind bare _ ?_
  split
  · exact sound
  · exact openBlock_sound .blockMappingStart (fun _ _ _ => trivial) sound

theorem goes_keyIndicator (sound : Sound text l) : Goes text l.keyIndicator := by
  unfold keyIndicator
  apply goes_unless
  exact goes_mappingIndicator .key (fun _ _ _ => trivial) (!·.inFlow) sound

theorem goes_valueIndicator (sound : Sound text l) : Goes text l.valueIndicator := by
  unfold valueIndicator
  split
  · rename_i k _
    have keyed := insertAt_sound .key (fun _ _ _ => trivial) k.number k.mark
      (withoutCandidate_sound sound)
    have deeper := indentTo_sound k.mark.column keyed
    refine pushChar_sound .value (fun _ _ _ => trivial) (allow_sound false ?_)
    split
    · exact keyed
    · dsimp only
      split
      · exact insertAt_sound .blockMappingStart (fun _ _ _ => trivial) k.number k.mark deeper
      · exact deeper
  · apply goes_unless
    exact goes_mappingIndicator .value (fun _ _ _ => trivial) (!·.inFlow) sound

theorem goes_keyLexeme {s : Scan Token} (gives : Scan.Gives text s (Token.Sound text))
    (sound : Sound text l) : Goes text (l.keyLexeme s) := by
  refine ends_bind (goes_saveCandidate sound) fun l' saved => ?_
  have same : Sound text { l' with keyAllowed := false } := ⟨saved.within, saved.tokens⟩
  exact ends_bind (ends_scan gives same) fun e scanned => push_sound scanned.1 scanned.2

theorem goes_plain (sound : Sound text l) : Goes text l.plain := by
  refine ends_bind (goes_saveCandidate sound) fun l' saved => ?_
  refine ends_bind (ends_scan (Scan.plainScalar_sound _ _) saved) fun e scanned => ?_
  have same : Sound text { e.2 with keyAllowed := e.1.2 } := ⟨scanned.1.within, scanned.1.tokens⟩
  exact push_sound same scanned.2

theorem goes_blockScalar {style : ScalarStyle} (notPlain : style ≠ .plain)
    (sound : Sound text l) : Goes text (l.blockScalar style) := by
  have same : Sound text { l with keyAllowed := true } := ⟨sound.within, sound.tokens⟩
  refine ends_bind (goes_removeCandidate same) fun l' removed => ?_
  refine ends_bind (ends_scan (Scan.blockScalar_sound _ notPlain) removed) fun e scanned => ?_
  exact push_sound scanned.1 scanned.2

theorem mem_of_peek {c : Char} (sound : Sound text l) (here : l.cursor.peek = c)
    (inside : c ≠ endOfText) : c ∈ text := by
  rcases (Scan.gives_peek l.cursor sound.within).2 with ended | member
  · exact absurd (here.symm.trans ended) inside
  · exact here ▸ member

theorem goes_lexeme (at_ : Sound text l) : Goes text l.lexeme := by
  unfold lexeme
  extract_lets c beforeBlank atMark
  refine ends_ite (fun _ => ?_) fun _ => ?_
  · refine ends_bind (goes_leaveBlocks at_) fun left after => ?_
    exact push_sound ⟨after.within, after.tokens⟩ trivial
  refine ends_ite (fun isDirective => ?_) fun _ => ?_
  · have percent : '%' ∈ text := by
      simp only [Bool.and_eq_true, decide_eq_true_eq] at isDirective
      exact mem_of_peek at_ isDirective.1 (by decide)
    refine ends_bind (goes_leaveBlocks at_) fun left after => ?_
    exact ends_bind (ends_scan (Scan.directive_sound percent) after) fun e scanned =>
      push_sound scanned.1 scanned.2
  refine ends_ite (fun _ => goes_documentMark .documentStart (fun _ _ _ => trivial) at_) fun _ => ?_
  refine ends_ite (fun _ => goes_documentMark .documentEnd (fun _ _ _ => trivial) at_) fun _ => ?_
  refine ends_ite (fun _ => goes_openFlow .flowSequenceStart (fun _ _ _ => trivial) at_) fun _ => ?_
  refine ends_ite (fun _ => goes_openFlow .flowMappingStart (fun _ _ _ => trivial) at_) fun _ => ?_
  refine ends_ite (fun _ => goes_closeFlow .flowSequenceEnd (fun _ _ _ => trivial) at_) fun _ => ?_
  refine ends_ite (fun _ => goes_closeFlow .flowMappingEnd (fun _ _ _ => trivial) at_) fun _ => ?_
  refine ends_ite (fun _ => goes_indicator .flowEntry (fun _ _ _ => trivial) true at_) fun _ => ?_
  refine ends_ite (fun _ => goes_blockEntry at_) fun _ => ?_
  refine ends_ite (fun _ => goes_keyIndicator at_) fun _ => ?_
  refine ends_ite (fun _ => goes_valueIndicator at_) fun _ => ?_
  refine ends_ite (fun _ => goes_keyLexeme (Scan.anchorWith_sound fun _ _ _ => trivial) at_) fun _ => ?_
  refine ends_ite (fun _ => goes_keyLexeme (Scan.anchorWith_sound fun _ _ _ => trivial) at_) fun _ => ?_
  refine ends_ite (fun isTag => goes_keyLexeme (Scan.tag_sound (mem_of_peek at_ isTag (by decide))) at_)
    fun _ => ?_
  refine ends_ite (fun _ => goes_blockScalar (by decide) at_) fun _ => ?_
  refine ends_ite (fun _ => goes_blockScalar (by decide) at_) fun _ => ?_
  refine ends_ite (fun _ => goes_keyLexeme (Scan.quotedScalar_sound false) at_) fun _ => ?_
  refine ends_ite (fun _ => goes_keyLexeme (Scan.quotedScalar_sound true) at_) fun _ => ?_
  exact ends_ite (fun _ => goes_plain at_) fun _ => trivial

theorem goes_next (sound : Sound text l) : Goes text l.next := by
  refine ends_bind (goes_skipToToken _ sound) fun passed there => ?_
  refine ends_bind (goes_dropStale there) fun settled fresh => ?_
  exact goes_lexeme (unwind_sound settled.mark.column fresh)

theorem due_sound (sound : Sound text l) : ∀ t ∈ l.due, t.Sound text :=
  fun t inside => sound.tokens t (List.mem_reverse.mp (List.mem_of_mem_take inside))

end Steps

end Lexer

structure Scanned.Sound (text : List Char) (s : Scanned) : Prop where
  tokens : ∀ t ∈ s.tokens, t.Sound text
  stop : ∀ stop ∈ s.stop, stop.Allowed text

theorem Lexer.run_sound {text : List Char} (fuel : Nat) :
    ∀ {l : Lexer}, Sound text l → (l.run fuel).Sound text := by
  induction fuel with
  | zero => exact fun sound => ⟨due_sound sound, by simp [Lexer.run]⟩
  | succ fuel ih =>
    intro l sound
    unfold Lexer.run
    split
    · exact ⟨fun t inside => sound.tokens t (List.mem_reverse.mp inside), by simp⟩
    · have next := goes_next sound
      split
      · rename_i stop stopped
        rw [stopped] at next
        exact ⟨due_sound sound, by rintro _ ⟨⟩; exact next⟩
      · rename_i after went
        rw [went] at next
        have settled := goes_dropStale next
        split
        · rename_i stop stopped
          rw [stopped] at settled
          exact ⟨due_sound sound, by rintro _ ⟨⟩; exact settled⟩
        · rename_i fresh went
          rw [went] at settled
          exact ih settled

theorem scan_sound (text : List Char) : (scan text).Sound text := by
  apply Lexer.run_sound
  refine ⟨?_, by simp [Lexer.ofText]⟩
  unfold Lexer.ofText
  dsimp only
  split
  · exact Scan.step_rest (Cursor.ofText text)
  · exact List.suffix_refl text

end MailRules.Yaml
