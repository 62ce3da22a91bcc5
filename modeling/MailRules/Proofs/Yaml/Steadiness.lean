import MailRules.Proofs.Yaml.Lookahead
/-!
The lexer on two texts with one hole. Before the hole it is in the same state but for the text that is left;
beyond it, but for the text of one scalar among the tokens, which it does not look at. Each of its steps
keeps to that, or goes past the hole.
-/
namespace MailRules.Yaml
open MailRules.Text

/-- Tokens that are the same but for one plain scalar, which begins with the one filling or the other. -/
def Hole.Tokens (hole : Hole) (ts ts' : List Token) : Prop :=
  ∃ earlier later text start stop,
    ts = earlier ++ ⟨.scalar (String.ofList (hole.one ++ text)) .plain, start, stop⟩ :: later ∧
    ts' = earlier ++ ⟨.scalar (String.ofList (hole.other ++ text)) .plain, start, stop⟩ :: later

namespace Lexer
open Scan (Local)

/-- Before the hole, or beyond it. -/
inductive Phase
  | before
  | beyond

/-- What the two lexers do not have in common: the text that is left, before the hole, and the tokens so
far, beyond it. -/
inductive Aside (hole : Hole) : Phase → List Char → List Token → List Char → List Token → Prop
  | before (w : List Char) (ts : List Token) : Aside hole .before (w ++ hole.rest) ts (w ++ hole.twin) ts
  | beyond (rest : List Char) {ts ts' : List Token} (tokens : hole.Tokens ts ts') :
      Aside hole .beyond rest ts rest ts'

def withText (l : Lexer) (rest : List Char) (ts : List Token) : Lexer :=
  { l with cursor := ⟨rest, l.cursor.mark⟩, tokens := ts }

def Twin (hole : Hole) (phase : Phase) (l l' : Lexer) : Prop :=
  ∃ rest ts, Aside hole phase l.cursor.rest l.tokens rest ts ∧ l' = l.withText rest ts

def Lost (hole : Hole) (r : Except Stop Lexer) : Prop :=
  Ends (fun _ => True) (fun l => l.cursor.rest.length < hole.rest.length) r

/-- What comes of a step of the two lexers. Before the hole the first may go past it, or fail, and then
nothing is said of the second. -/
inductive Ran (hole : Hole) : Phase → Except Stop Lexer → Except Stop Lexer → Prop
  | lost {r r' : Except Stop Lexer} (lost : Lost hole r) : Ran hole .before r r'
  | stopped (stop : Stop) : Ran hole .beyond (.error stop) (.error stop)
  | twin {phase : Phase} {l l' : Lexer} (twin : Twin hole phase l l') : Ran hole phase (.ok l) (.ok l')

structure Steady (hole : Hole) (f : Lexer → Except Stop Lexer) : Prop where
  onward : ∀ l, Ends (fun _ => True) (fun e => e.cursor.rest.length ≤ l.cursor.rest.length) (f l)
  twin : ∀ {phase l l'}, Twin hole phase l l' → Ran hole phase (f l) (f l')

/-- A change that leaves the place as it is. -/
structure Kept (hole : Hole) (g : Lexer → Lexer) : Prop where
  rest : ∀ l, (g l).cursor.rest = l.cursor.rest
  twin : ∀ {phase l l'}, Twin hole phase l l' → Twin hole phase (g l) (g l')

section Rules
variable {hole : Hole} {phase : Phase} {f g : Lexer → Except Stop Lexer} {k : Lexer → Lexer} {l l' : Lexer}

theorem Twin.same {α : Type} {a : Lexer → α} (twin : Twin hole phase l l')
    (blind : ∀ l rest ts, a (l.withText rest ts) = a l) : a l = a l' := by
  obtain ⟨rest, ts, -, rfl⟩ := twin
  exact (blind l rest ts).symm

theorem ran_stop (stop : Stop) : Ran hole phase (.error stop) (.error stop) := by
  cases phase with
  | before => exact .lost trivial
  | beyond => exact .stopped stop

theorem steady_bind (first : Steady hole f) (later : Steady hole g) : Steady hole fun l => f l >>= g := by
  refine ⟨fun l => ?_, fun {phase l l'} twin => ?_⟩
  · refine ends_bind (first.onward l) fun e shorter => ?_
    exact ends_weaken (later.onward e) (fun _ => id) fun _ further => further.trans shorter
  · have ran := first.twin twin
    generalize f l = r, f l' = r' at ran
    cases ran with
    | lost lost =>
      refine .lost (ends_bind lost fun e short => ?_)
      exact ends_weaken (later.onward e) (fun _ => id) fun _ shorter => shorter.trans_lt short
    | stopped stop => exact .stopped stop
    | twin twin => exact later.twin twin

theorem steady_kept (kept : Kept hole k) : Steady hole fun l => .ok (k l) :=
  ⟨fun l => by simp [Ends, kept.rest l], fun twin => .twin (kept.twin twin)⟩

theorem steady_after (kept : Kept hole k) (later : Steady hole f) : Steady hole fun l => f (k l) :=
  steady_bind (steady_kept kept) later

theorem kept_after {k' : Lexer → Lexer} (first : Kept hole k) (later : Kept hole k') :
    Kept hole fun l => k' (k l) :=
  ⟨fun l => (later.rest _).trans (first.rest l), fun twin => later.twin (first.twin twin)⟩

/-- The step looks neither at the text that is left nor at the tokens. -/
theorem steady_apart
    (apart : ∀ (l : Lexer) rest ts, f (l.withText rest ts) = (f l).map (·.withText rest ts)) :
    Steady hole f := by
  have stays (l : Lexer) : f l = (f l).map (·.withText l.cursor.rest l.tokens) :=
    apart l l.cursor.rest l.tokens
  refine ⟨fun l => ?_, fun {phase l l'} twin => ?_⟩
  · rw [stays l]
    cases f l with
    | error stop => trivial
    | ok e => exact Nat.le_refl _
  · obtain ⟨rest, ts, aside, rfl⟩ := twin
    rw [apart l rest ts, stays l]
    cases f l with
    | error stop => exact ran_stop stop
    | ok e => exact .twin ⟨rest, ts, aside, rfl⟩

theorem kept_apart (apart : ∀ (l : Lexer) rest ts, k (l.withText rest ts) = (k l).withText rest ts) :
    Kept hole k := by
  have stays (l : Lexer) : k l = (k l).withText l.cursor.rest l.tokens := apart l l.cursor.rest l.tokens
  refine ⟨fun l => by rw [stays]; rfl, fun {phase l l'} twin => ?_⟩
  obtain ⟨rest, ts, aside, rfl⟩ := twin
  refine ⟨rest, ts, ?_, apart l rest ts⟩
  rw [stays l]
  exact aside

theorem dropStale_withText (l : Lexer) (rest : List Char) (ts : List Token) :
    (l.withText rest ts).dropStale = l.dropStale.map (·.withText rest ts) := by
  unfold dropStale
  by_cases stale : (l.candidates.any fun k => KeyCandidate.stale k.2 l.mark && k.2.required) = true
  · rw [if_pos stale]
    exact if_pos stale
  · rw [if_neg stale]
    exact if_neg stale

theorem steady_dropStale : Steady hole dropStale := steady_apart dropStale_withText

theorem removeCandidate_withText (l : Lexer) (rest : List Char) (ts : List Token) :
    (l.withText rest ts).removeCandidate = l.removeCandidate.map (·.withText rest ts) := by
  have same : (l.withText rest ts).candidate? = l.candidate? := rfl
  unfold removeCandidate
  rw [same]
  cases l.candidate? with
  | none => rfl
  | some k =>
    dsimp only
    split <;> rfl

theorem steady_removeCandidate : Steady hole removeCandidate := steady_apart removeCandidate_withText

theorem saveCandidate_withText (l : Lexer) (rest : List Char) (ts : List Token) :
    (l.withText rest ts).saveCandidate = l.saveCandidate.map (·.withText rest ts) := by
  unfold saveCandidate
  change (if l.keyAllowed = true then _ else _) = _
  split
  · rw [removeCandidate_withText]
    cases l.removeCandidate <;> rfl
  · rfl

theorem steady_saveCandidate : Steady hole saveCandidate := steady_apart saveCandidate_withText

/-- What a step does may depend on anything but the text that is left and the tokens. -/
theorem steady_by {α : Type} {F : α → Lexer → Except Stop Lexer} {a : Lexer → α}
    (blind : ∀ l rest ts, a (l.withText rest ts) = a l) (each : ∀ x, Steady hole (F x)) :
    Steady hole fun l => F (a l) l := by
  refine ⟨fun l => (each (a l)).onward l, fun {phase l l'} twin => ?_⟩
  obtain ⟨rest, ts, aside, rfl⟩ := id twin
  rw [blind]
  exact (each (a l)).twin twin

/-- The same by cases of what a step depends on. -/
theorem steady_cases {α : Type} {a : Lexer → α} (blind : ∀ l rest ts, a (l.withText rest ts) = a l)
    (each : ∀ x, ∃ g, Steady hole g ∧ ∀ l, a l = x → f l = g l) : Steady hole f := by
  have steady (x : α) := (each x).choose_spec
  have cases_ (l : Lexer) : f l = (each (a l)).choose l := (steady (a l)).2 l rfl
  rw [funext cases_]
  exact steady_by blind fun x => (steady x).1

theorem kept_by {α : Type} {K : α → Lexer → Lexer} {a : Lexer → α}
    (blind : ∀ l rest ts, a (l.withText rest ts) = a l) (each : ∀ x, Kept hole (K x)) :
    Kept hole fun l => K (a l) l := by
  refine ⟨fun l => (each (a l)).rest l, fun {phase l l'} twin => ?_⟩
  obtain ⟨rest, ts, aside, rfl⟩ := id twin
  rw [blind]
  exact (each (a l)).twin twin

theorem kept_ite {p : Lexer → Prop} [DecidablePred p] {k' : Lexer → Lexer}
    (blind : ∀ l rest ts, p (l.withText rest ts) ↔ p l) (yes : Kept hole k) (no : Kept hole k') :
    Kept hole fun l => if p l then k l else k' l := by
  have each (b : Bool) : Kept hole fun l => if b then k l else k' l := by cases b <;> assumption
  have kept := kept_by (a := fun l => decide (p l))
    (fun l rest ts => decide_eq_decide.mpr (blind l rest ts)) each
  simpa only [decide_eq_true_eq] using kept

theorem kept_self : Kept hole fun l => l := ⟨fun _ => rfl, id⟩

theorem tokens_push {ts ts' : List Token} (t : Token) (tokens : hole.Tokens ts ts') :
    hole.Tokens (t :: ts) (t :: ts') := by
  obtain ⟨earlier, later, text, start, stop, rfl, rfl⟩ := tokens
  exact ⟨t :: earlier, later, text, start, stop, rfl, rfl⟩

theorem tokens_insert {ts ts' : List Token} (n : Nat) (t : Token) (tokens : hole.Tokens ts ts') :
    hole.Tokens (ts.take n ++ t :: ts.drop n) (ts'.take n ++ t :: ts'.drop n) := by
  obtain ⟨earlier, later, text, start, stop, rfl, rfl⟩ := tokens
  by_cases within : n ≤ earlier.length
  · refine ⟨earlier.take n ++ t :: earlier.drop n, later, text, start, stop, ?_, ?_⟩ <;>
      simp only [List.take_append_of_le_length within, List.drop_append_of_le_length within,
        List.append_assoc, List.cons_append]
  · obtain ⟨k, rfl⟩ : ∃ k, n = earlier.length + (k + 1) := ⟨n - earlier.length - 1, by omega⟩
    refine ⟨earlier, later.take k ++ t :: later.drop k, text, start, stop, ?_, ?_⟩ <;>
      simp only [List.take_length_add_append, List.drop_length_add_append, List.take_succ_cons,
        List.drop_succ_cons, List.append_assoc, List.cons_append]

theorem Aside.tokens {rest rest' : List Char} {ts ts' : List Token} {F : List Token → List Token}
    (aside : Aside hole phase rest ts rest' ts')
    (grows : ∀ {ts ts'}, hole.Tokens ts ts' → hole.Tokens (F ts) (F ts')) :
    Aside hole phase rest (F ts) rest' (F ts') := by
  cases aside with
  | before w ts => exact .before w (F ts)
  | beyond rest tokens => exact .beyond rest (grows tokens)

theorem kept_push {t : Lexer → Token} (blind : ∀ l rest ts, t (l.withText rest ts) = t l) :
    Kept hole fun l => l.push (t l) := by
  apply kept_by (K := fun t l => l.push t) blind
  intro t
  refine ⟨fun _ => rfl, fun {phase l l'} twin => ?_⟩
  obtain ⟨rest, ts, aside, rfl⟩ := twin
  exact ⟨rest, t :: ts, aside.tokens (tokens_push t), rfl⟩

theorem kept_insertAt (number : Nat) (kind : TokenKind) (m : Mark) :
    Kept hole fun l => l.insertAt number kind m := by
  refine ⟨fun _ => rfl, fun {phase l l'} twin => ?_⟩
  obtain ⟨rest, ts, aside, rfl⟩ := twin
  exact ⟨rest, _, aside.tokens (tokens_insert (l.count - number) ⟨kind, m, m⟩), rfl⟩

theorem kept_unwindTo (column : Int) (indents : List Int) :
    Kept hole fun l => unwindTo column l indents := by
  induction indents with
  | nil => exact kept_self
  | cons outer rest ih =>
    have left : Kept hole fun l =>
        { l with indent := outer, indents := rest }.push ⟨.blockEnd, l.mark, l.mark⟩ :=
      kept_after (kept_apart fun _ _ _ => rfl)
        (kept_push (t := fun l => ⟨.blockEnd, l.mark, l.mark⟩) fun _ _ _ => rfl)
    exact kept_ite (fun _ _ _ => Iff.rfl) (kept_after left ih) kept_self

theorem kept_unwind (column : Int) : Kept hole fun l => l.unwind column :=
  kept_ite (fun _ _ _ => Iff.rfl) kept_self
    (kept_by (K := fun indents l => unwindTo column l indents) (fun _ _ _ => rfl) (kept_unwindTo column))

theorem openBlock_eq (l : Lexer) (kind : TokenKind) : l.openBlock kind =
    if l.indent < l.mark.column then
      { l with indents := l.indent :: l.indents, indent := l.mark.column }.push ⟨kind, l.mark, l.mark⟩
    else l := by
  unfold openBlock indentTo
  by_cases deeper : l.indent < l.mark.column
  · simp only [if_pos deeper]
    rfl
  · simp only [if_neg deeper]
    rfl

theorem kept_openBlock (kind : TokenKind) : Kept hole fun l => l.openBlock kind := by
  simp only [openBlock_eq]
  apply kept_ite (fun _ _ _ => Iff.rfl) _ kept_self
  exact kept_after (kept_apart fun _ _ _ => rfl)
    (kept_push (t := fun l => ⟨kind, l.mark, l.mark⟩) fun _ _ _ => rfl)

theorem steady_scan {α : Type} {s : Scan α} {F : α → Lexer → Except Stop Lexer} (scanner : Local hole s)
    (each : ∀ a, Steady hole (F a)) : Steady hole fun l => l.scan s >>= fun e => F e.1 e.2 := by
  have run (l : Lexer) : (l.scan s >>= fun e => F e.1 e.2) =
      s l.cursor >>= fun e => F e.1 { l with cursor := e.2 } := by
    unfold scan
    change ((s l.cursor >>= fun e => .ok (e.1, { l with cursor := e.2 })) >>= fun e => F e.1 e.2) = _
    cases s l.cursor <;> rfl
  refine ⟨fun l => ?_, fun {phase l l'} twin => ?_⟩
  · rw [run]
    refine ends_bind (scanner.onward l.cursor) fun e shorter => ?_
    exact ends_weaken ((each e.1).onward _) (fun _ => id) fun _ further => further.trans shorter
  · rw [run, run]
    obtain ⟨rest, ts, aside, rfl⟩ := twin
    obtain ⟨⟨left, m⟩, flowLevel, indent, indents, keyAllowed, candidates, tokens, count⟩ := l
    dsimp only at aside ⊢
    cases aside with
    | before w ts =>
      have outcome := scanner.same w m
      change Ran hole .before (s ⟨w ++ hole.rest, m⟩ >>= _) (s ⟨w ++ hole.twin, m⟩ >>= _)
      generalize s ⟨w ++ hole.rest, m⟩ = r, s ⟨w ++ hole.twin, m⟩ = r' at outcome ⊢
      cases outcome with
      | lost lost =>
        refine .lost (ends_bind lost fun e short => ?_)
        exact ends_weaken ((each e.1).onward _) (fun _ => id) fun _ shorter => shorter.trans_lt short
      | here a v m' => exact (each a).twin ⟨_, _, .before v ts, rfl⟩
    | beyond rest both =>
      change Ran hole .beyond (s ⟨rest, m⟩ >>= _) (s ⟨rest, m⟩ >>= _)
      cases s ⟨rest, m⟩ with
      | error stop => exact .stopped stop
      | ok e => exact (each e.1).twin ⟨_, _, .beyond e.2.rest both, rfl⟩

end Rules

section Steps
variable {hole : Hole}

theorem steady_ok : Steady hole fun l => .ok l := steady_kept kept_self

theorem kept_keyAllowed {b : Lexer → Bool} (blind : ∀ l rest ts, b (l.withText rest ts) = b l) :
    Kept hole fun l => { l with keyAllowed := b l } :=
  kept_by (K := fun b l => { l with keyAllowed := b }) blind fun _ => kept_apart fun _ _ _ => rfl

theorem steady_skipToToken (fuel : Nat) : Steady hole fun l => l.skipToToken fuel := by
  induction fuel with
  | zero => exact steady_ok
  | succ fuel ih =>
    have comment : Local hole (do Scan.skipSpaces; if (← Scan.peek) = '#' then Scan.skipLine) :=
      Scan.local_bind Scan.local_skipSpaces fun _ =>
        Scan.local_test (uniform_eq (by decide)) Scan.local_skipLine (Scan.local_pure _)
    change Steady hole fun l => l.scan _ >>= fun e => e.2.scan Scan.lineBreak >>= fun e =>
      if e.1.isEmpty then .ok e.2
      else { e.2 with keyAllowed := e.2.keyAllowed || !e.2.inFlow }.skipToToken fuel
    have goesOn : Kept hole fun l => { l with keyAllowed := l.keyAllowed || !l.inFlow } :=
      kept_keyAllowed fun _ _ _ => rfl
    refine steady_scan (F := fun _ l => l.scan Scan.lineBreak >>= fun e => if e.1.isEmpty then .ok e.2
      else { e.2 with keyAllowed := e.2.keyAllowed || !e.2.inFlow }.skipToToken fuel) comment fun _ => ?_
    refine steady_scan (F := fun b l => if b.isEmpty then .ok l
      else { l with keyAllowed := l.keyAllowed || !l.inFlow }.skipToToken fuel)
      Scan.local_lineBreak fun b => ?_
    cases b.isEmpty with
    | true => exact steady_ok
    | false => exact steady_after goesOn ih

theorem steady_leaveBlocks : Steady hole leaveBlocks :=
  steady_bind (steady_after (kept_unwind (-1)) steady_removeCandidate)
    (steady_kept (kept_keyAllowed (b := fun _ => false) fun _ _ _ => rfl))

theorem steady_take (kind : TokenKind) (n : Nat) : Steady hole fun l =>
    let next := l.cursor.forward n
    .ok ({ l with cursor := next }.push ⟨kind, l.mark, next.mark⟩) := by
  have indicator : Local hole (do
      let start ← Scan.mark
      Scan.advance n
      return (⟨kind, start, ← Scan.mark⟩ : Token)) :=
    Scan.local_bind Scan.local_mark fun start => Scan.local_bind (Scan.local_advance n) fun _ =>
      Scan.local_bind Scan.local_mark fun stop => Scan.local_pure _
  exact steady_scan (F := fun t l => .ok (l.push t)) indicator fun t =>
    steady_kept (kept_push fun _ _ _ => rfl)

theorem steady_pushChar (kind : TokenKind) : Steady hole fun l => .ok (l.pushChar kind) :=
  steady_take kind 1

theorem steady_documentMark (kind : TokenKind) : Steady hole fun l => l.documentMark kind :=
  steady_bind steady_leaveBlocks (steady_take kind 3)

theorem steady_openFlow (kind : TokenKind) : Steady hole fun l => l.openFlow kind :=
  steady_bind steady_saveCandidate
    (steady_after (k := fun l => { l with flowLevel := l.flowLevel + 1, keyAllowed := true })
      (kept_apart fun _ _ _ => rfl) (steady_pushChar kind))

theorem steady_closeFlow (kind : TokenKind) : Steady hole fun l => l.closeFlow kind :=
  steady_bind steady_removeCandidate
    (steady_after (k := fun l => { l with flowLevel := l.flowLevel - 1, keyAllowed := false })
      (kept_apart fun _ _ _ => rfl) (steady_pushChar kind))

theorem steady_indicator (kind : TokenKind) {b : Lexer → Bool}
    (blind : ∀ l rest ts, b (l.withText rest ts) = b l) : Steady hole fun l => do
      let l ← { l with keyAllowed := b l }.removeCandidate
      return l.pushChar kind :=
  steady_bind (steady_after (kept_keyAllowed blind) steady_removeCandidate) (steady_pushChar kind)

theorem steady_flowEntry : Steady hole flowEntry := steady_indicator .flowEntry fun _ _ _ => rfl

theorem steady_throw {stop : Lexer → Stop} (same : ∀ {l l'}, Twin hole .beyond l l' → stop l = stop l') :
    Steady hole fun l => .error (stop l) := by
  refine ⟨fun _ => trivial, fun {phase l l'} twin => ?_⟩
  cases phase with
  | before => exact .lost trivial
  | beyond =>
    rw [same twin]
    exact .stopped _

theorem steady_ite {f g : Lexer → Except Stop Lexer} {p : Lexer → Prop} [DecidablePred p]
    (same : ∀ {phase l l'}, Twin hole phase l l' → (p l ↔ p l')) (yes : Steady hole f)
    (no : Steady hole g) : Steady hole fun l => if p l then f l else g l := by
  refine ⟨fun l => ?_, fun {phase l l'} twin => ?_⟩
  · exact ends_ite (fun _ => yes.onward l) fun _ => no.onward l
  · by_cases holds : p l
    · rw [if_pos holds, if_pos ((same twin).mp holds)]
      exact yes.twin twin
    · rw [if_neg holds, if_neg fun holds' => holds ((same twin).mpr holds')]
      exact no.twin twin

theorem steady_block (kind entry : TokenKind) (message : String) {b : Lexer → Bool}
    (blind : ∀ l rest ts, b (l.withText rest ts) = b l) : Steady hole fun l => do
      if !l.inFlow && !l.keyAllowed then throw (problem message l.mark)
      let l := if l.inFlow then l else l.openBlock kind
      let l ← { l with keyAllowed := b l }.removeCandidate
      return l.pushChar entry := by
  have refusal : Steady hole fun l => .error (problem message l.mark) := steady_throw fun twin =>
    twin.same (a := fun l => problem message l.mark) fun _ _ _ => rfl
  refine steady_ite (fun twin => by obtain ⟨_, _, _, rfl⟩ := twin; rfl) refusal ?_
  exact steady_after (kept_ite (fun _ _ _ => Iff.rfl) kept_self (kept_openBlock kind))
    (steady_indicator entry blind)

theorem steady_blockEntry : Steady hole blockEntry :=
  steady_block .blockSequenceStart .blockEntry _ (b := fun _ => true) fun _ _ _ => rfl

theorem steady_keyIndicator : Steady hole keyIndicator :=
  steady_block .blockMappingStart .key _ (b := fun l => !l.inFlow) fun _ _ _ => rfl

theorem indentTo_eq (l : Lexer) (column : Nat) (k : Lexer → Lexer) :
    (let (l, opened) := l.indentTo column; if opened then k l else l) =
      if l.indent < column then k { l with indents := l.indent :: l.indents, indent := column } else l := by
  unfold indentTo
  by_cases deeper : l.indent < column
  · simp only [if_pos deeper, if_true]
  · simp only [if_neg deeper, Bool.false_eq_true, if_false]

/-- The candidate becomes a key, and the first key of a mapping opens it. -/
theorem kept_openKey (k : KeyCandidate) : Kept hole fun l =>
    let l := l.withoutCandidate.insertAt k.number .key k.mark
    if l.inFlow then l
    else
      let (l, opened) := l.indentTo k.mark.column
      if opened then l.insertAt k.number .blockMappingStart k.mark else l := by
  have keyed : Kept hole fun l => l.withoutCandidate.insertAt k.number .key k.mark :=
    kept_after (kept_apart fun _ _ _ => rfl) (kept_insertAt k.number .key k.mark)
  have opened : Kept hole fun l =>
      let (l, opened) := l.indentTo k.mark.column
      if opened then l.insertAt k.number .blockMappingStart k.mark else l := by
    simp only [indentTo_eq _ _ fun l => l.insertAt k.number .blockMappingStart k.mark]
    apply kept_ite (fun _ _ _ => Iff.rfl) _ kept_self
    exact kept_after (kept_apart fun _ _ _ => rfl) (kept_insertAt _ _ _)
  have inner := kept_ite (p := fun l => l.inFlow = true) (fun _ _ _ => Iff.rfl) kept_self opened
  exact kept_after keyed inner

theorem steady_valueIndicator : Steady hole valueIndicator := by
  refine steady_cases (a := candidate?) (fun _ _ _ => rfl) fun k? => ?_
  cases k? with
  | some k =>
    have closed : Kept hole fun l => { l with keyAllowed := false } := kept_keyAllowed fun _ _ _ => rfl
    have opened := steady_after (kept_openKey k) (steady_after closed (steady_pushChar .value))
    refine ⟨_, opened, fun l found => ?_⟩
    unfold valueIndicator
    rw [found]
    rfl
  | none =>
    refine ⟨_, steady_block .blockMappingStart .value "mapping values are not allowed here"
      (b := fun l => !l.inFlow) fun _ _ _ => rfl, fun l found => ?_⟩
    unfold valueIndicator
    rw [found]

theorem steady_pushed {s : Scan Token} (scanner : Local hole s) : Steady hole fun l => do
    let (t, l) ← l.scan s
    return l.push t :=
  steady_scan (F := fun t l => .ok (l.push t)) scanner fun _ => steady_kept (kept_push fun _ _ _ => rfl)

theorem steady_keyLexeme {s : Scan Token} (scanner : Local hole s) : Steady hole fun l => l.keyLexeme s :=
  steady_bind steady_saveCandidate
    (steady_after (kept_keyAllowed (b := fun _ => false) fun _ _ _ => rfl) (steady_pushed scanner))

theorem steady_plain : Steady hole plain := by
  have words (inFlow : Bool) (indent : Int) : Steady hole fun l =>
      l.scan (Scan.plainScalar inFlow indent) >>= fun e =>
        .ok ({ e.2 with keyAllowed := e.1.2 }.push e.1.1) := by
    refine steady_scan (F := fun t l => .ok ({ l with keyAllowed := t.2 }.push t.1))
      (Scan.local_plainScalar _ _) fun t => ?_
    exact steady_kept (kept_after (k := fun l => { l with keyAllowed := t.2 }) (kept_apart fun _ _ _ => rfl)
      (kept_push (t := fun _ => t.1) fun _ _ _ => rfl))
  refine steady_bind (g := fun l => l.scan (Scan.plainScalar l.inFlow l.indent) >>= fun e =>
    .ok ({ e.2 with keyAllowed := e.1.2 }.push e.1.1)) steady_saveCandidate ?_
  refine steady_cases (a := fun l => (l.inFlow, l.indent)) (fun _ _ _ => rfl) fun p => ?_
  refine ⟨_, words p.1 p.2, fun l same => ?_⟩
  rw [← same]

theorem steady_blockScalar (style : ScalarStyle) : Steady hole fun l => l.blockScalar style := by
  refine steady_bind (steady_after (kept_keyAllowed (b := fun _ => true) fun _ _ _ => rfl)
    steady_removeCandidate) ?_
  exact steady_by (a := fun l => l.indent) (F := fun indent l => l.scan (Scan.blockScalar indent style) >>=
    fun e => .ok (e.2.push e.1)) (fun _ _ _ => rfl) fun indent => steady_pushed (Scan.local_blockScalar _ _)

/-- What the lexers see of the text. -/
structure Looks (l l' : Lexer) : Prop where
  here : Hole.Alike l.cursor.peek l'.cursor.peek
  next : Hole.Alike (l.cursor.peekAt 1) (l'.cursor.peekAt 1)
  atSeparator : l.cursor.atSeparator = l'.cursor.atSeparator
  mark : l.mark = l'.mark
  inFlow : l.inFlow = l'.inFlow

theorem peek_eq_peekAt (c : Cursor) : c.peek = c.peekAt 0 := by
  rw [Cursor.peek, Cursor.peekAt]
  cases c.rest <;> rfl

theorem Twin.looks {phase : Phase} {l l' : Lexer} (twin : Twin hole phase l l') : Looks l l' := by
  obtain ⟨rest, ts, aside, rfl⟩ := twin
  obtain ⟨⟨left, m⟩, flowLevel, indent, indents, keyAllowed, candidates, tokens, count⟩ := l
  dsimp only at aside
  cases aside with
  | before w ts =>
    refine ⟨?_, Scan.peekAt_alike hole 1 w m, Scan.atSeparator_same w m, rfl, rfl⟩
    rw [peek_eq_peekAt, peek_eq_peekAt]
    exact Scan.peekAt_alike hole 0 w m
  | beyond rest both => exact ⟨.inl rfl, .inl rfl, rfl, rfl, rfl⟩

namespace Looks
variable {l l' : Lexer}

theorem stands (looks : Looks l l') {c : Char} (mark : c.isAlphanum = false) :
    l.cursor.peek = c ↔ l'.cursor.peek = c := (uniform_eq mark).alike looks.here

theorem blank (looks : Looks l l') : endsWord (l.cursor.peekAt 1) = endsWord (l'.cursor.peekAt 1) := by
  have uniform : Uniform (endsWord · = true) := uniform_of_not fun a word => by simp [endsWord_of_word word]
  exact Bool.eq_iff_iff.mpr (uniform.alike looks.next)

theorem startsPlain (looks : Looks l l') : l.startsPlain = l'.startsPlain := by
  unfold Lexer.startsPlain
  dsimp only
  rw [← looks.blank, ← looks.inFlow]
  rcases looks.here with same | ⟨word, word'⟩
  · rw [same]
  · simp [endsWord_of_word word, endsWord_of_word word', ne_of_word word, ne_of_word word']

end Looks

theorem steady_at (c : Char) {f g : Lexer → Except Stop Lexer} (mark : c.isAlphanum = false)
    (yes : Steady hole f) (no : Steady hole g) :
    Steady hole fun l => if l.cursor.peek = c then f l else g l :=
  steady_ite (fun twin => twin.looks.stands mark) yes no

theorem steady_at_and (c : Char) {f g : Lexer → Except Stop Lexer} {b : Lexer → Bool}
    (mark : c.isAlphanum = false) (same : ∀ {l l'}, Looks l l' → b l = b l') (yes : Steady hole f)
    (no : Steady hole g) : Steady hole fun l => if l.cursor.peek = c && b l then f l else g l := by
  refine steady_ite (fun twin => ?_) yes no
  simp only [Bool.and_eq_true, decide_eq_true_eq, twin.looks.stands mark, same twin.looks]

theorem steady_lexeme : Steady hole lexeme := by
  unfold lexeme
  have ended : Steady hole fun l => .ok ({ l with candidates := [] }.push ⟨.streamEnd, l.mark, l.mark⟩) :=
    steady_kept (kept_after (k := fun l => { l with candidates := [] }) (kept_apart fun _ _ _ => rfl)
      (kept_push (t := fun l => ⟨.streamEnd, l.mark, l.mark⟩) fun _ _ _ => rfl))
  have place {l l' : Lexer} (looks : Looks l l') :
      decide (l.mark.column = 0) = decide (l'.mark.column = 0) := by rw [looks.mark]
  have separator {l l' : Lexer} (looks : Looks l l') :
      (decide (l.mark.column = 0) && l.cursor.atSeparator) =
        (decide (l'.mark.column = 0) && l'.cursor.atSeparator) := by
    rw [looks.mark, looks.atSeparator]
  have indicator {l l' : Lexer} (looks : Looks l l') : (l.inFlow || endsWord (l.cursor.peekAt 1)) =
      (l'.inFlow || endsWord (l'.cursor.peekAt 1)) := by
    rw [looks.inFlow, looks.blank]
  have inBlock {l l' : Lexer} (looks : Looks l l') : (!l.inFlow) = !l'.inFlow := by rw [looks.inFlow]
  refine steady_at endOfText (by decide) (steady_bind steady_leaveBlocks ended) ?_
  refine steady_at_and '%' (by decide) place
    (steady_bind steady_leaveBlocks (steady_pushed Scan.local_directive)) ?_
  refine steady_at_and '-' (by decide) separator (steady_documentMark _) ?_
  refine steady_at_and '.' (by decide) separator (steady_documentMark _) ?_
  refine steady_at '[' (by decide) (steady_openFlow _) ?_
  refine steady_at '\x7b' (by decide) (steady_openFlow _) ?_
  refine steady_at ']' (by decide) (steady_closeFlow _) ?_
  refine steady_at '\x7d' (by decide) (steady_closeFlow _) ?_
  refine steady_at ',' (by decide) steady_flowEntry ?_
  refine steady_at_and '-' (by decide) Looks.blank steady_blockEntry ?_
  refine steady_at_and '?' (by decide) indicator steady_keyIndicator ?_
  refine steady_at_and ':' (by decide) indicator steady_valueIndicator ?_
  refine steady_at '*' (by decide) (steady_keyLexeme (Scan.local_anchorWith _)) ?_
  refine steady_at '&' (by decide) (steady_keyLexeme (Scan.local_anchorWith _)) ?_
  refine steady_at '!' (by decide) (steady_keyLexeme Scan.local_tag) ?_
  refine steady_at_and '|' (by decide) inBlock (steady_blockScalar _) ?_
  refine steady_at_and '>' (by decide) inBlock (steady_blockScalar _) ?_
  refine steady_at '\'' (by decide) (steady_keyLexeme (Scan.local_quotedScalar false)) ?_
  refine steady_at '"' (by decide) (steady_keyLexeme (Scan.local_quotedScalar true)) ?_
  refine steady_ite (fun twin => Bool.eq_iff_iff.mp twin.looks.startsPlain) steady_plain ?_
  refine steady_throw fun {l l'} twin => ?_
  obtain ⟨rest, ts, aside, rfl⟩ := twin
  obtain ⟨⟨left, m⟩, flowLevel, indent, indents, keyAllowed, candidates, tokens, count⟩ := l
  cases aside
  rfl

theorem steady_skip : Steady hole fun l => l.skipToToken (l.cursor.rest.length + 1) := by
  have each (n : Nat) : Steady hole fun l => l.skipToToken n := steady_skipToToken n
  refine ⟨fun l => (each _).onward l, fun {phase l l'} twin => ?_⟩
  have size : l'.cursor.rest.length = l.cursor.rest.length := by
    obtain ⟨rest, ts, aside, rfl⟩ := twin
    generalize l.cursor.rest = left, l.tokens = tokens at aside
    cases aside with
    | before w ts => simp [withText, hole.length_twin]
    | beyond rest both => rfl
  rw [size]
  exact (each _).twin twin

theorem kept_unwindHere : Kept hole fun l => l.unwind l.mark.column :=
  kept_by (K := fun (column : Nat) l => l.unwind column) (fun _ _ _ => rfl) fun column => kept_unwind column

theorem steady_next : Steady hole next :=
  steady_bind steady_skip (steady_bind steady_dropStale (steady_after kept_unwindHere steady_lexeme))

end Steps

end Lexer
end MailRules.Yaml
