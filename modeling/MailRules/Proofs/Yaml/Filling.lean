import MailRules.Proofs.Yaml.Steadiness
/-!
The tokens of a text with a hole. Where the lexer comes to the hole it takes it for the begin of a plain
scalar, so the tokens of the two texts are the same but for that scalar.
-/
namespace MailRules.Yaml
open MailRules.Text

namespace Scan

theorem plainLength_words (inFlow : Bool) {ws : List Char} (words : ∀ c ∈ ws, c.isAlphanum)
    (rest : List Char) : plainLength inFlow (ws ++ rest) = ws.length + plainLength inFlow rest := by
  induction ws with
  | nil => simp
  | cons c ws ih =>
    have word : c.isAlphanum := words c List.mem_cons_self
    rw [List.cons_append, plainLength, ih fun d later => words d (List.mem_cons_of_mem c later)]
    simp [endsWord_of_word word, ne_of_word word]
    omega

theorem forward_words {ws : List Char} (words : ∀ c ∈ ws, c.isAlphanum) (k : Nat) (rest : List Char) :
    ∀ m : Mark, Cursor.forward (ws.length + k) ⟨ws ++ rest, m⟩ =
      Cursor.forward k ⟨rest, ⟨m.index + ws.length, m.line, m.column + ws.length⟩⟩ := by
  induction ws with
  | nil => simp
  | cons c ws ih =>
    intro m
    have word : c.isAlphanum := words c List.mem_cons_self
    have passed : Cursor.markAfter m c (ws ++ rest) = ⟨m.index + 1, m.line, m.column + 1⟩ := by
      simp [Cursor.markAfter, isBreak_of_word word, ne_of_word word]
    rw [List.length_cons, Nat.add_right_comm, Cursor.forward, Cursor.step]
    dsimp only [List.cons_append]
    rw [passed, ih fun d later => words d (List.mem_cons_of_mem c later)]
    simp only [Nat.add_assoc, Nat.add_comm 1]

theorem afterWord_text (inFlow : Bool) (indent : Int) (fuel : Nat) (text : List Char) (c : Cursor) :
    afterWord inFlow indent fuel text c =
      (afterWord inFlow indent fuel [] c).map fun e => ((text ++ e.1.1, e.1.2), e.2) := by
  unfold afterWord
  change (plainSpaces c >>= fun e => _) = Except.map _ (plainSpaces c >>= fun e => _)
  cases plainSpaces c with
  | error stop => rfl
  | ok e =>
    obtain ⟨⟨gap, brokeLine⟩, c'⟩ := e
    let later := plainWords inFlow indent gap brokeLine c.mark fuel
    change (if _ then pure (text, _, _) else later >>= _ : Scan _) c' =
      Except.map _ ((if _ then pure ([], _, _) else later >>= _ : Scan _) c')
    split
    · change Except.ok ((text, _, _), c') = .ok ((text ++ [], _, _), c')
      rw [List.append_nil]
    · change (later c' >>= _) = Except.map _ (later c' >>= _)
      cases later c' <;> rfl

theorem plainWords_words (inFlow : Bool) (indent : Int) (fuel : Nat) (m : Mark) {ws : List Char}
    (words : ∀ c ∈ ws, c.isAlphanum) (some : ws ≠ []) (rest : List Char) :
    plainWords inFlow indent [] false m (fuel + 1) ⟨ws ++ rest, m⟩ =
      afterWord inFlow indent fuel (ws ++ rest.take (plainLength inFlow rest))
        (Cursor.forward (plainLength inFlow rest)
          ⟨rest, ⟨m.index + ws.length, m.line, m.column + ws.length⟩⟩) := by
  obtain ⟨c, cs, rfl⟩ := List.exists_cons_of_ne_nil some
  have word : c ≠ '#' := ne_of_word (words c List.mem_cons_self) (by decide)
  have length := plainLength_words inFlow words rest
  have long : plainLength inFlow (c :: cs ++ rest) ≠ 0 := by
    rw [length, List.length_cons]
    omega
  rw [plainWords_succ]
  change (if _ then _ else _ : Scan _) _ = _
  rw [if_neg (by simpa [Cursor.peek, word] using long)]
  change afterWord inFlow indent fuel (_ ++ List.take (plainLength inFlow (c :: cs ++ rest)) _)
    (Cursor.forward (plainLength inFlow (c :: cs ++ rest)) _) = _
  rw [length, forward_words words, List.nil_append, List.take_length_add_append]

/-- At the hole a plain scalar begins, and the scanner ends alike on the two texts. -/
theorem plainScalar_hole (hole : Hole) (inFlow : Bool) (parentIndent : Int) (m : Mark) :
    (∃ stop, plainScalar inFlow parentIndent ⟨hole.rest, m⟩ = .error stop ∧
      plainScalar inFlow parentIndent ⟨hole.twin, m⟩ = .error stop) ∨
    ∃ text start stop brokeLine c,
      plainScalar inFlow parentIndent ⟨hole.rest, m⟩ =
        .ok ((⟨.scalar (String.ofList (hole.one ++ text)) .plain, start, stop⟩, brokeLine), c) ∧
      plainScalar inFlow parentIndent ⟨hole.twin, m⟩ =
        .ok ((⟨.scalar (String.ofList (hole.other ++ text)) .plain, start, stop⟩, brokeLine), c) := by
  have run (c : Cursor) : plainScalar inFlow parentIndent c =
      plainWords inFlow (parentIndent + 1) [] false c.mark (c.rest.length + 1) c >>= fun e =>
        .ok ((⟨.scalar (String.ofList e.1.1) .plain, c.mark, e.1.2.1⟩, e.1.2.2), e.2) := rfl
  have size : hole.twin.length = hole.rest.length := hole.length_twin
  rw [run, run]
  dsimp only
  rw [size, Hole.rest, Hole.twin, plainWords_words inFlow _ _ m hole.ofOne hole.nonempty,
    plainWords_words inFlow _ _ m hole.ofOther hole.other_nonempty, ← hole.length, afterWord_text,
    afterWord_text _ _ _ (hole.other ++ _)]
  generalize afterWord _ _ _ [] _ = r
  cases r with
  | error stop => exact .inl ⟨stop, rfl, rfl⟩
  | ok e => 
    refine .inr ⟨hole.after.take (plainLength inFlow hole.after) ++ e.1.1, m, e.1.2.1, e.1.2.2, e.2, ?_, ?_⟩
    · simp [Except.map, bind, Except.bind]
    · simp [Except.map, bind, Except.bind]

end Scan

namespace Lexer

section Steps
variable {hole : Hole}

/-! The lexers at the hole -/

/-- Both lexers stand at the hole. -/
def AtHole (hole : Hole) (l l' : Lexer) : Prop :=
  l.cursor.rest = hole.rest ∧ l' = l.withText hole.twin l.tokens

theorem AtHole.twin {l l' : Lexer} (atHole : AtHole hole l l') : Twin hole .before l l' := by
  refine ⟨hole.twin, l.tokens, ?_, atHole.2⟩
  rw [atHole.1]
  exact .before [] l.tokens

theorem AtHole.words {l l' : Lexer} (atHole : AtHole hole l l') :
    l.cursor.peek.isAlphanum ∧ l'.cursor.peek.isAlphanum := by
  obtain ⟨stands, rfl⟩ := atHole
  obtain ⟨c, cs, begins, word⟩ := hole.rest_begins
  obtain ⟨c', cs', begins', word'⟩ := hole.twin_begins
  have here : l.cursor.peek = c := by rw [Cursor.peek, stands, begins]; rfl
  have there : (l.withText hole.twin l.tokens).cursor.peek = c' := by
    rw [Cursor.peek, withText, begins']; rfl
  exact ⟨here ▸ word, there ▸ word'⟩

theorem atHole_of_twin {l l' : Lexer} (twin : Twin hole .before l l') (stands : l.cursor.rest = hole.rest) :
    AtHole hole l l' := by
  obtain ⟨rest, ts, aside, rfl⟩ := twin
  generalize same : l.cursor.rest = left, kept : l.tokens = tokens at aside
  cases aside with
  | before w =>
    obtain rfl : w = [] := List.self_eq_append_left.mp (stands.symm.trans same)
    exact ⟨stands, by rw [kept, List.nil_append]⟩

/-- A step that looks neither at the text nor at the tokens fails on both, or both lexers stay at the
hole. -/
theorem atHole_apart {f : Lexer → Except Stop Lexer} {l l' : Lexer}
    (apart : ∀ (l : Lexer) rest ts, f (l.withText rest ts) = (f l).map (·.withText rest ts))
    (atHole : AtHole hole l l') : (∃ stop, f l = .error stop ∧ f l' = .error stop) ∨
      ∃ e e', f l = .ok e ∧ f l' = .ok e' ∧ AtHole hole e e' := by
  obtain ⟨stands, rfl⟩ := atHole
  have stays : f l = (f l).map (·.withText l.cursor.rest l.tokens) := apart l l.cursor.rest l.tokens
  have moves := apart l hole.twin l.tokens
  cases went : f l with
  | error stop =>
    rw [went] at moves
    exact .inl ⟨stop, rfl, moves⟩
  | ok e =>
    rw [went] at stays moves
    have kept : e = e.withText l.cursor.rest l.tokens := Except.ok.inj stays
    refine .inr ⟨e, _, rfl, moves, ?_⟩
    rw [kept]
    exact ⟨stands, rfl⟩

theorem lexeme_word {l : Lexer} (word : l.cursor.peek.isAlphanum) : l.lexeme = l.plain := by
  have starts : l.startsPlain = true := by simp [startsPlain, endsWord_of_word word, ne_of_word word]
  simp [lexeme, endOfText, ne_of_word word, starts]

theorem plain_run (l : Lexer) : l.plain = l.saveCandidate >>= fun l =>
    Scan.plainScalar l.inFlow l.indent l.cursor >>= fun e =>
      .ok ({ l with cursor := e.2, keyAllowed := e.1.2 }.push e.1.1) := by
  unfold plain
  cases l.saveCandidate with
  | error stop => rfl
  | ok l =>
    change (Scan.plainScalar l.inFlow l.indent l.cursor >>= _) >>= _ =
      Scan.plainScalar l.inFlow l.indent l.cursor >>= _
    cases Scan.plainScalar l.inFlow l.indent l.cursor <;> rfl

theorem plain_atHole {l l' : Lexer} (atHole : AtHole hole l l') : Ran hole .beyond l.plain l'.plain := by
  rw [plain_run, plain_run]
  rcases atHole_apart saveCandidate_withText atHole with
    ⟨stop, failed, failed'⟩ | ⟨e, e', saved, saved', atHole⟩
  · rw [failed, failed']
    exact .stopped stop
  · rw [saved, saved']
    obtain ⟨stands, rfl⟩ := atHole
    obtain ⟨⟨left, m⟩, flowLevel, indent, indents, keyAllowed, candidates, tokens, count⟩ := e
    obtain rfl : left = hole.rest := stands
    change Ran hole .beyond (Scan.plainScalar (decide (flowLevel ≠ 0)) indent ⟨hole.rest, m⟩ >>= _)
      (Scan.plainScalar (decide (flowLevel ≠ 0)) indent ⟨hole.twin, m⟩ >>= _)
    rcases Scan.plainScalar_hole hole (decide (flowLevel ≠ 0)) indent m with
      ⟨stop, failed, failed'⟩ | ⟨text, start, stop, brokeLine, c, went, went'⟩
    · rw [failed, failed']
      exact .stopped stop
    · rw [went, went']
      exact .twin ⟨c.rest, _, .beyond c.rest ⟨[], tokens, text, start, stop, rfl, rfl⟩, rfl⟩

theorem next_atHole {l l' passed : Lexer} (twin : Twin hole .before l l')
    (skipped : l.skipToToken (l.cursor.rest.length + 1) = .ok passed)
    (stands : passed.cursor.rest = hole.rest) : Ran hole .beyond l.next l'.next := by
  obtain ⟨passed', skipped', atHole⟩ : ∃ passed', l'.skipToToken (l'.cursor.rest.length + 1) = .ok passed' ∧
      AtHole hole passed passed' := by
    have ran : Ran hole .before (l.skipToToken (l.cursor.rest.length + 1))
      (l'.skipToToken (l'.cursor.rest.length + 1)) := steady_skip.twin twin
    rw [skipped] at ran
    generalize l'.skipToToken (l'.cursor.rest.length + 1) = r at ran
    cases ran with
    | lost lost =>
      have short : passed.cursor.rest.length < hole.rest.length := lost
      rw [stands] at short
      exact absurd short (Nat.lt_irrefl _)
    | twin twin => exact ⟨_, rfl, atHole_of_twin twin stands⟩
  unfold next
  rw [skipped, skipped']
  change Ran hole .beyond (passed.dropStale >>= _) (passed'.dropStale >>= _)
  rcases atHole_apart dropStale_withText atHole with
    ⟨stop, failed, failed'⟩ | ⟨e, e', fresh, fresh', atHole⟩
  · rw [failed, failed']
    exact .stopped stop
  · rw [fresh, fresh']
    have kept : Kept hole fun l => l.unwind l.mark.column := kept_unwindHere
    have unwound := atHole_of_twin (kept.twin atHole.twin) ((kept.rest e).trans atHole.1)
    change Ran hole .beyond (e.unwind e.mark.column).lexeme (e'.unwind e'.mark.column).lexeme
    rw [lexeme_word unwound.words.1, lexeme_word unwound.words.2]
    exact plain_atHole unwound

/-- The lexer comes to the hole: it is the place of the next lexeme, now or after some steps. -/
inductive Comes (hole : Hole) : Lexer → Prop
  | now {l passed : Lexer} (skipped : l.skipToToken (l.cursor.rest.length + 1) = .ok passed)
      (stands : passed.cursor.rest = hole.rest) : Comes hole l
  | later {l after settled : Lexer} (went : l.next = .ok after) (fresh : after.dropStale = .ok settled)
      (comes : Comes hole settled) : Comes hole l

theorem Comes.left {l : Lexer} (comes : Comes hole l) : hole.rest.length ≤ l.cursor.rest.length := by
  induction comes with
  | @now l passed skipped stands =>
    have onward := (steady_skip : Steady hole _).onward l
    rw [skipped, ← stands] at *
    exact onward
  | @later l after settled went fresh _ ih =>
    have onward := (steady_next : Steady hole _).onward l
    have dropped := (steady_dropStale : Steady hole _).onward after
    rw [went] at onward
    rw [fresh] at dropped
    exact ih.trans (dropped.trans onward)

/-- Does the lexer come to the hole within so many steps? -/
def reaches (hole : Hole) : Nat → Lexer → Bool
  | 0, _ => false
  | n + 1, l =>
    match l.skipToToken (l.cursor.rest.length + 1) with
    | .error _ => false
    | .ok passed => passed.cursor.rest = hole.rest ||
      match l.next >>= dropStale with
      | .error _ => false
      | .ok settled => reaches hole n settled

theorem comes_of_reaches (n : Nat) : ∀ {l : Lexer}, l.reaches hole n → Comes hole l := by
  induction n with
  | zero => simp [reaches]
  | succ n ih =>
    intro l reached
    unfold reaches at reached
    cases skipped : l.skipToToken (l.cursor.rest.length + 1) with
    | error stop => simp [skipped] at reached
    | ok passed =>
      by_cases stands : passed.cursor.rest = hole.rest
      · exact .now skipped stands
      · cases went : l.next with
        | error stop => simp [skipped, stands, went, bind, Except.bind] at reached
        | ok after =>
          cases fresh : after.dropStale with
          | error stop => simp [skipped, stands, went, fresh, bind, Except.bind] at reached
          | ok settled =>
            have later : settled.reaches hole n := by
              simpa [skipped, stands, went, fresh, bind, Except.bind] using reached
            exact .later went fresh (ih later)

end Steps

end Lexer

/-- What two texts that differ in the filling of a hole are scanned to. -/
def Hole.Scanned (hole : Hole) (s s' : Scanned) : Prop :=
  s.stop = s'.stop ∧ (s.tokens = s'.tokens ∨ hole.Tokens s.tokens s'.tokens)

namespace Lexer
variable {hole : Hole}

theorem tokens_reverse {ts ts' : List Token} (tokens : hole.Tokens ts ts') :
    hole.Tokens ts.reverse ts'.reverse := by
  obtain ⟨earlier, later, text, start, stop, rfl, rfl⟩ := tokens
  exact ⟨later.reverse, earlier.reverse, text, start, stop, by simp, by simp⟩

theorem tokens_take {ts ts' : List Token} (n : Nat) (tokens : hole.Tokens ts ts') :
    ts.take n = ts'.take n ∨ hole.Tokens (ts.take n) (ts'.take n) := by
  obtain ⟨earlier, later, text, start, stop, rfl, rfl⟩ := tokens
  by_cases within : n ≤ earlier.length
  · simp only [List.take_append_of_le_length within, true_or]
  · right
    obtain ⟨k, rfl⟩ : ∃ k, n = earlier.length + (k + 1) := ⟨n - earlier.length - 1, by omega⟩
    refine ⟨earlier, later.take k, text, start, stop, ?_, ?_⟩ <;>
      simp only [List.take_length_add_append, List.take_succ_cons]

section Runs
variable {phase : Phase} {l l' : Lexer}

theorem Twin.tokens (twin : Twin hole phase l l') :
    l.tokens = l'.tokens ∨ hole.Tokens l.tokens l'.tokens := by
  obtain ⟨rest, ts, aside, rfl⟩ := twin
  generalize l.cursor.rest = left, same : l.tokens = tokens at aside
  cases aside with
  | before w => exact .inl rfl
  | beyond _ both => exact .inr (same ▸ both)

theorem Twin.all (twin : Twin hole phase l l') :
    l.tokens.reverse = l'.tokens.reverse ∨ hole.Tokens l.tokens.reverse l'.tokens.reverse :=
  twin.tokens.imp (congrArg _) tokens_reverse

theorem Twin.due (twin : Twin hole phase l l') : l.due = l'.due ∨ hole.Tokens l.due l'.due := by
  have candidates : l.candidates = l'.candidates := twin.same fun _ _ _ => rfl
  have count : l.count = l'.count := twin.same fun _ _ _ => rfl
  unfold Lexer.due
  rw [← candidates, ← count]
  rcases twin.all with same | differ
  · exact .inl (by rw [same])
  · exact tokens_take _ differ

theorem Twin.finished (twin : Twin hole phase l l') : l.finished = l'.finished := by
  unfold Lexer.finished
  rcases twin.tokens with same | ⟨earlier, later, text, start, stop, same, same'⟩
  · rw [same]
  · rw [same, same']
    rcases earlier with _ | ⟨⟨kind, _, _⟩, earlier⟩
    · rfl
    · cases kind <;> rfl

theorem run_step {fuel : Nat} (twin : Twin hole phase l l') (ran : Ran hole .beyond l.next l'.next)
    (later : ∀ {e e' : Lexer}, Twin hole .beyond e e' → hole.Scanned (e.run fuel) (e'.run fuel)) :
    hole.Scanned (l.run (fuel + 1)) (l'.run (fuel + 1)) := by
  unfold run
  rw [← twin.finished]
  split
  · exact ⟨rfl, twin.all⟩
  · generalize l.next = r, l'.next = r' at ran
    cases ran with
    | stopped stop => exact ⟨rfl, twin.due⟩
    | twin beyond =>
      rename_i after after'
      have dropped := steady_dropStale.twin beyond
      dsimp only
      generalize after.dropStale = r, after'.dropStale = r' at dropped
      cases dropped with
      | stopped stop => exact ⟨rfl, twin.due⟩
      | twin settled => exact later settled

theorem run_beyond (fuel : Nat) : ∀ {l l' : Lexer}, Twin hole .beyond l l' →
    hole.Scanned (l.run fuel) (l'.run fuel) := by
  induction fuel with
  | zero => exact fun twin => ⟨rfl, twin.due⟩
  | succ fuel ih => exact fun twin => run_step twin (steady_next.twin twin) ih

theorem run_before (comes : Comes hole l) : ∀ (fuel : Nat) {l' : Lexer}, Twin hole .before l l' →
    hole.Scanned (l.run fuel) (l'.run fuel) := by
  induction comes with
  | @now l passed skipped stands =>
    intro fuel l' twin
    cases fuel with
    | zero => exact ⟨rfl, twin.due⟩
    | succ fuel => exact run_step twin (next_atHole twin skipped stands) (run_beyond fuel)
  | @later l after settled went fresh comes ih =>
    intro fuel l' twin
    cases fuel with
    | zero => exact ⟨rfl, twin.due⟩
    | succ fuel =>
      have left := comes.left
      have dropped := (steady_dropStale : Steady hole _).onward after
      have ran := steady_next.twin twin
      rw [fresh] at dropped
      rw [went] at ran
      unfold run
      rw [← twin.finished, went]
      split
      · exact ⟨rfl, twin.all⟩
      · generalize l'.next = r' at ran
        cases ran with
        | lost short => exact absurd (left.trans dropped) (Nat.not_le_of_lt short)
        | twin twin =>
          rename_i after'
          have settles := steady_dropStale.twin twin
          dsimp only
          rw [fresh] at settles ⊢
          generalize after'.dropStale = r' at settles
          cases settles with
          | lost short => exact absurd left (Nat.not_le_of_lt short)
          | twin twin => exact ih fuel twin

end Runs

theorem ofText_unmarked {c : Char} (mark : c ≠ '\uFEFF') (cs : List Char) :
    ofText (c :: cs) = { cursor := Cursor.ofText (c :: cs) } := by
  have stays : (if (Cursor.ofText (c :: cs)).peek = '\uFEFF' then (Cursor.ofText (c :: cs)).step
      else Cursor.ofText (c :: cs)) = Cursor.ofText (c :: cs) := if_neg mark
  simp only [ofText, stays]

theorem ofText_twin (before : List Char) :
    Twin hole .before (ofText (before ++ hole.rest)) (ofText (before ++ hole.twin)) := by
  have start (w : List Char) (m : Mark) :
      Twin hole .before { cursor := ⟨w ++ hole.rest, m⟩ } { cursor := ⟨w ++ hole.twin, m⟩ } :=
    ⟨w ++ hole.twin, [], .before w [], rfl⟩
  cases before with
  | nil =>
    obtain ⟨a, as, begins, word⟩ := hole.rest_begins
    obtain ⟨b, bs, begins', word'⟩ := hole.twin_begins
    rw [List.nil_append, List.nil_append, begins, begins', ofText_unmarked (ne_of_word word (by decide)),
      ofText_unmarked (ne_of_word word' (by decide)), ← begins, ← begins']
    exact start [] .start
  | cons c w =>
    by_cases mark : c = '\uFEFF'
    · subst mark
      exact start w _
    · rw [List.cons_append, List.cons_append, ofText_unmarked mark, ofText_unmarked mark]
      exact start (c :: w) .start

end Lexer

theorem scan_filled {hole : Hole} {before : List Char}
    (comes : Lexer.Comes hole (Lexer.ofText (before ++ hole.rest))) :
    hole.Scanned (scan (before ++ hole.rest)) (scan (before ++ hole.twin)) := by
  have scanned := Lexer.run_before comes ((before ++ hole.rest).length + 2) (Lexer.ofText_twin before)
  have size : (before ++ hole.twin).length = (before ++ hole.rest).length := by simp [hole.length_twin]
  rw [← scan, ← size] at scanned
  exact scanned

end MailRules.Yaml
