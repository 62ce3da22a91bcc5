import Mathlib.Data.List.Forall2
import MailRules.Proofs.Yaml.Scanning
/-!
How far the scanners look. A hole of a text is filled with letters and digits. A scanner that ends before
the hole, or right at it, does the same with every filling: of what begins there it sees at most that it is
no blank, no break and no indicator. Where a scanner asks for more, as for digits, it takes what it asks
for, and so goes past the hole, or it fails.
-/
namespace MailRules.Yaml
open MailRules.Text

/-- A hole with two fillings, and the text after it. -/
structure Hole where
  one : List Char
  other : List Char
  after : List Char
  nonempty : one ≠ []
  length : one.length = other.length
  ofOne : ∀ c ∈ one, c.isAlphanum
  ofOther : ∀ c ∈ other, c.isAlphanum

namespace Hole
variable (hole : Hole)

def rest : List Char := hole.one ++ hole.after

def twin : List Char := hole.other ++ hole.after

/-- Equal, or both of them letters or digits. -/
def Alike (c c' : Char) : Prop := c = c' ∨ c.isAlphanum ∧ c'.isAlphanum

theorem alike_words {cs cs' : List Char} (length : cs.length = cs'.length) (words : ∀ c ∈ cs, c.isAlphanum)
    (words' : ∀ c ∈ cs', c.isAlphanum) : List.Forall₂ Alike cs cs' := by
  rw [List.forall₂_iff_zip]
  refine ⟨length, fun {c c'} member => .inr ⟨?_, ?_⟩⟩
  · exact words c (List.of_mem_zip member).1
  · exact words' c' (List.of_mem_zip member).2

theorem alike_self (cs : List Char) : List.Forall₂ Alike cs cs :=
  List.forall₂_same.mpr fun _ _ => .inl rfl

theorem alike_before (w : List Char) : List.Forall₂ Alike (w ++ hole.rest) (w ++ hole.twin) :=
  List.rel_append (alike_self w) (List.rel_append (alike_words hole.length hole.ofOne hole.ofOther)
    (alike_self hole.after))

theorem rest_begins : ∃ c cs, hole.rest = c :: cs ∧ c.isAlphanum := by
  obtain ⟨c, cs, same⟩ := List.exists_cons_of_ne_nil hole.nonempty
  exact ⟨c, cs ++ hole.after, by simp [rest, same], hole.ofOne c (by simp [same])⟩

theorem other_nonempty : hole.other ≠ [] := by
  rw [← List.length_pos_iff, ← hole.length]
  exact List.length_pos_iff.mpr hole.nonempty

theorem twin_begins : ∃ c cs, hole.twin = c :: cs ∧ c.isAlphanum := by
  obtain ⟨c, cs, same⟩ := List.exists_cons_of_ne_nil hole.other_nonempty
  exact ⟨c, cs ++ hole.after, by simp [twin, same], hole.ofOther c (by simp [same])⟩

theorem length_twin : hole.twin.length = hole.rest.length := by
  simp [rest, twin, hole.length]

end Hole

/-! What letters and digits are not -/

section Words
variable {a : Char}

theorem ne_of_word (word : a.isAlphanum) {c : Char} (mark : c.isAlphanum = false) : a ≠ c := by
  rintro rfl
  rw [word] at mark
  cases mark

theorem isBreak_of_word (word : a.isAlphanum) : isBreak a = false := by
  simp [isBreak, ne_of_word word]

theorem endsLine_of_word (word : a.isAlphanum) : endsLine a = false := by
  simp [endsLine, endOfText, ne_of_word word, isBreak_of_word word]

theorem endsItem_of_word (word : a.isAlphanum) : endsItem a = false := by
  simp [endsItem, ne_of_word word, endsLine_of_word word]

theorem endsWord_of_word (word : a.isAlphanum) : endsWord a = false := by
  simp [endsWord, ne_of_word word, endsItem_of_word word]

theorem isNameChar_of_word (word : a.isAlphanum) : Scan.isNameChar a := by
  simp [Scan.isNameChar, word]

theorem isUriChar_of_word (word : a.isAlphanum) : Scan.isUriChar a := by
  simp [Scan.isUriChar, word]

end Words

/-- A question that has one answer for all letters and digits. -/
def Uniform (p : Char → Prop) : Prop := ∀ a b, a.isAlphanum → b.isAlphanum → (p a ↔ p b)

theorem uniform_of_not {p : Char → Prop} (never : ∀ a, a.isAlphanum → ¬p a) : Uniform p :=
  fun a b word word' => iff_of_false (never a word) (never b word')

theorem uniform_of_all {p : Char → Prop} (always : ∀ a, a.isAlphanum → p a) : Uniform p :=
  fun a b word word' => iff_of_true (always a word) (always b word')

theorem uniform_eq {c : Char} (mark : c.isAlphanum = false) : Uniform (· = c) :=
  uniform_of_not fun _ word => ne_of_word word mark

theorem Uniform.alike {p : Char → Prop} (uniform : Uniform p) {c c' : Char} (alike : Hole.Alike c c') :
    p c ↔ p c' := by
  rcases alike with rfl | ⟨word, word'⟩
  · rfl
  · exact uniform c c' word word'

namespace Scan

/-- The scanner fails or goes past the place where the hole begins. -/
def Lost {α : Type} (hole : Hole) (r : Except Stop (α × Cursor)) : Prop :=
  Ends (fun _ => True) (fun e => e.2.rest.length < hole.rest.length) r

/-- What comes of a scanner on the two texts: if the first gets no further than the hole, so does the
second, with the same result. -/
inductive Outcome (hole : Hole) {α : Type} :
    Except Stop (α × Cursor) → Except Stop (α × Cursor) → Prop
  | lost {r r' : Except Stop (α × Cursor)} (lost : Lost hole r) : Outcome hole r r'
  | here (a : α) (w : List Char) (m : Mark) :
      Outcome hole (.ok (a, ⟨w ++ hole.rest, m⟩)) (.ok (a, ⟨w ++ hole.twin, m⟩))

/-- The scanner goes on in the text. -/
def Onward {α : Type} (s : Scan α) : Prop :=
  ∀ c, Ends (fun _ => True) (fun e => e.2.rest.length ≤ c.rest.length) (s c)

structure Local {α : Type} (hole : Hole) (s : Scan α) : Prop where
  onward : Onward s
  same : ∀ w m, Outcome hole (s ⟨w ++ hole.rest, m⟩) (s ⟨w ++ hole.twin, m⟩)

/-- With fewer than `k` characters before the hole the scanner does not end before it. -/
def Barred {α : Type} (hole : Hole) (k : Nat) (s : Scan α) : Prop :=
  ∀ w m, w.length < k → Lost hole (s ⟨w ++ hole.rest, m⟩)

/-- Like `Local`, but the scanner may end right at the hole on the first text and go on into it on the
second. -/
structure Edging {α : Type} (hole : Hole) (s : Scan α) : Prop where
  onward : Onward s
  ends : ∀ w m, Outcome hole (s ⟨w ++ hole.rest, m⟩) (s ⟨w ++ hole.twin, m⟩) ∨
    ∃ a m', s ⟨w ++ hole.rest, m⟩ = .ok (a, ⟨hole.rest, m'⟩)

section Rules
variable {hole : Hole} {α β : Type}

theorem onward_pure (a : α) : Onward (pure a : Scan α) := fun _ => Nat.le_refl _

theorem onward_bind {s : Scan α} {f : α → Scan β} (first : Onward s) (later : ∀ a, Onward (f a)) :
    Onward (s >>= f) := by
  intro c
  refine ends_bind (first c) fun e shorter => ?_
  exact ends_weaken (later e.1 e.2) (fun _ => id) fun e' further => further.trans shorter

theorem lost_bind {r : Except Stop (α × Cursor)} {f : α → Scan β} (lost : Lost hole r)
    (later : ∀ a, Onward (f a)) : Lost hole (r >>= fun e => f e.1 e.2) :=
  ends_bind lost fun e short =>
    ends_weaken (later e.1 e.2) (fun _ => id) fun _ shorter => shorter.trans_lt short

theorem local_pure (a : α) : Local hole (pure a) := ⟨onward_pure a, fun w m => .here a w m⟩

theorem outcome_bind {r r' : Except Stop (α × Cursor)} {f : α → Scan β} (outcome : Outcome hole r r')
    (later : ∀ a, Local hole (f a)) :
    Outcome hole (r >>= fun e => f e.1 e.2) (r' >>= fun e => f e.1 e.2) := by
  cases outcome with
  | lost lost => exact .lost (lost_bind lost fun a => (later a).onward)
  | here a w m => exact (later a).same w m

theorem local_bind {s : Scan α} {f : α → Scan β} (first : Local hole s)
    (later : ∀ a, Local hole (f a)) : Local hole (s >>= f) :=
  ⟨onward_bind first.onward fun a => (later a).onward, fun w m => outcome_bind (first.same w m) later⟩

theorem local_throw (stop : Stop) : Local hole (throw stop : Scan α) :=
  ⟨fun _ => trivial, fun _ _ => .lost trivial⟩

theorem local_ite {condition : Prop} [Decidable condition] {s t : Scan α} (yes : Local hole s)
    (no : Local hole t) : Local hole (if condition then s else t) := by
  split
  · exact yes
  · exact no

theorem local_when {condition : Prop} [Decidable condition] {s : Scan Unit} {f : Unit → Scan β}
    (first : Local hole s) (later : ∀ u, Local hole (f u)) :
    Local hole (if condition then s >>= f else f ()) :=
  local_ite (local_bind first later) (later ())

theorem local_discard {s : Scan α} (scanner : Local hole s) : Local hole (discard s) :=
  local_bind scanner fun _ => local_pure ()

/-- What is asked of the text ahead has the same answer for both, or the scanner does not end before the
hole. -/
theorem local_get {f : Cursor → Scan β} (each : ∀ c, Local hole (f c))
    (asked : ∀ w m, Lost hole (f ⟨w ++ hole.rest, m⟩ ⟨w ++ hole.rest, m⟩) ∨
      f ⟨w ++ hole.rest, m⟩ = f ⟨w ++ hole.twin, m⟩) : Local hole (get >>= f) := by
  refine ⟨fun c => (each c).onward c, fun w m => ?_⟩
  change Outcome hole (f ⟨w ++ hole.rest, m⟩ _) (f ⟨w ++ hole.twin, m⟩ _)
  rcases asked w m with lost | same
  · exact .lost lost
  · rw [← same]
    exact (each _).same w m

theorem local_get_same {f : Cursor → Scan β} (each : ∀ c, Local hole (f c))
    (same : ∀ w m, f ⟨w ++ hole.rest, m⟩ = f ⟨w ++ hole.twin, m⟩) : Local hole (get >>= f) :=
  local_get each fun w m => .inr (same w m)

theorem local_mark : Local hole mark := local_get_same (fun c => local_pure c.mark) fun _ _ => rfl

theorem local_column : Local hole column :=
  local_get_same (fun c => local_pure c.mark.column) fun _ _ => rfl

/-- Of a letter or digit at the hole the scanner sees only that it is one, or it goes past it. -/
theorem local_peek {f : Char → Scan β} (each : ∀ c, Local hole (f c))
    (word : ∀ a b, a.isAlphanum → b.isAlphanum → Barred hole 1 (f a) ∨ f a = f b) :
    Local hole (peek >>= f) := by
  obtain ⟨a, as, begins, letter⟩ := hole.rest_begins
  obtain ⟨b, bs, begins', letter'⟩ := hole.twin_begins
  apply local_get (f := fun c => f c.peek) fun c => each c.peek
  intro w m
  cases w with
  | nil =>
    have first : Cursor.peek ⟨[] ++ hole.rest, m⟩ = a := by simp [Cursor.peek, begins]
    have second : Cursor.peek ⟨[] ++ hole.twin, m⟩ = b := by simp [Cursor.peek, begins']
    rw [first, second]
    exact (word a b letter letter').imp (fun barred => barred [] m Nat.one_pos) id
  | cons c w => exact .inr rfl

theorem local_test {p : Char → Prop} [DecidablePred p] {s t : Scan β} (uniform : Uniform p)
    (yes : Local hole s) (no : Local hole t) : Local hole (peek >>= fun c => if p c then s else t) :=
  local_peek (fun _ => local_ite yes no) fun a b word word' => by
    simp only [uniform a b word word', or_true]

theorem local_unless {p : Char → Prop} [DecidablePred p] {s : Scan Unit} {f : Unit → Scan β}
    (uniform : Uniform p) (first : Local hole s) (later : ∀ u, Local hole (f u)) :
    Local hole (peek >>= fun c => if p c then s >>= f else f ()) :=
  local_test uniform (local_bind first later) (later ())

theorem forward_within (hole : Hole) {w : List Char} (n : Nat) (inside : n ≤ w.length) : ∀ m, ∃ m',
    Cursor.forward n ⟨w ++ hole.rest, m⟩ = ⟨w.drop n ++ hole.rest, m'⟩ ∧
    Cursor.forward n ⟨w ++ hole.twin, m⟩ = ⟨w.drop n ++ hole.twin, m'⟩ := by
  obtain ⟨a, as, begins, word⟩ := hole.rest_begins
  obtain ⟨b, bs, begins', word'⟩ := hole.twin_begins
  induction n generalizing w with
  | zero => exact fun m => ⟨m, rfl, rfl⟩
  | succ n ih =>
    intro m
    cases w with
    | nil => cases inside
    | cons c w =>
      have feed : ((w ++ hole.rest).head? = some '\n') = ((w ++ hole.twin).head? = some '\n') := by
        cases w with
        | nil => simp [begins, begins', ne_of_word word, ne_of_word word']
        | cons d w => rfl
      have step : Cursor.markAfter m c (w ++ hole.twin) = Cursor.markAfter m c (w ++ hole.rest) := by
        simp only [Cursor.markAfter, feed]
      simp only [List.cons_append, Cursor.forward, Cursor.step, step, List.drop_succ_cons]
      exact ih (Nat.le_of_succ_le_succ inside) _

theorem onward_advance (n : Nat) : Onward (advance n) := fun c => (forward_rest n c).length_le

theorem barred_advance {f : Unit → Scan β} {k n : Nat} (far : k ≤ n) (later : ∀ u, Onward (f u)) :
    Barred hole k (advance n >>= f) := by
  intro w m near
  obtain ⟨c, cs, begins, -⟩ := hole.rest_begins
  refine lost_bind (r := advance n _) ?_ later
  change (Cursor.forward n _).rest.length < _
  rw [forward_rest_eq, begins]
  simp only [List.length_drop, List.length_append, List.length_cons]
  omega

theorem local_advance (n : Nat) : Local hole (advance n) := by
  refine ⟨onward_advance n, fun w m => ?_⟩
  by_cases inside : n ≤ w.length
  · obtain ⟨m', first, second⟩ := forward_within hole n inside m
    change Outcome hole (.ok ((), Cursor.forward n _)) (.ok ((), Cursor.forward n _))
    rw [first, second]
    exact .here () _ m'
  · exact .lost (barred_advance (f := pure) le_rfl onward_pure w m (Nat.lt_of_not_le inside))

theorem local_fail (message : String) : Local hole (fail message : Scan α) :=
  local_bind local_mark fun _ => local_throw _

theorem local_failAtChar (message : String) : Local hole (failAtChar message : Scan α) :=
  local_peek (fun _ => local_fail _) fun _ _ _ _ => .inl fun _ _ _ => trivial

theorem onward_takeWhile (p : Char → Bool) : Onward (takeWhile p) :=
  fun c => (forward_rest (c.rest.takeWhile p).length c).length_le

/-- What is taken ends before the hole, or at it, or beyond. -/
theorem takeWhile_ends (hole : Hole) (p : Char → Bool) (w : List Char) (m : Mark) :
    (∃ run v m', takeWhile p ⟨w ++ hole.rest, m⟩ = .ok (run, ⟨v ++ hole.rest, m'⟩) ∧
      takeWhile p ⟨w ++ hole.twin, m⟩ = .ok (run, ⟨v ++ hole.twin, m'⟩)) ∨
    (∃ m', takeWhile p ⟨w ++ hole.rest, m⟩ = .ok (w, ⟨hole.rest, m'⟩) ∧
      (Uniform (p · = true) → takeWhile p ⟨w ++ hole.twin, m⟩ = .ok (w, ⟨hole.twin, m'⟩))) ∨
    Lost hole (takeWhile p ⟨w ++ hole.rest, m⟩) := by
  obtain ⟨c, cs, begins, word⟩ := hole.rest_begins
  obtain ⟨c', cs', begins', word'⟩ := hole.twin_begins
  have run (rest : List Char) : takeWhile p ⟨w ++ rest, m⟩ =
      .ok ((w ++ rest).takeWhile p, Cursor.forward ((w ++ rest).takeWhile p).length ⟨w ++ rest, m⟩) := rfl
  simp only [run, List.takeWhile_append]
  split
  · right
    by_cases further : p c
    · right
      change (Cursor.forward _ _).rest.length < _
      rw [forward_rest_eq]
      simp only [begins, further, List.takeWhile_cons, if_true, List.length_drop, List.length_append,
        List.length_cons]
      omega
    · left
      obtain ⟨m', first, second⟩ := forward_within hole w.length le_rfl m
      rw [List.drop_length] at first second
      refine ⟨m', by simpa [begins, further] using first, fun uniform => ?_⟩
      have further' : ¬p c' := fun goesOn => further ((uniform c c' word word').mpr goesOn)
      simpa [begins', further'] using second
  · left
    have inside : (w.takeWhile p).length ≤ w.length := (List.takeWhile_prefix p).length_le
    obtain ⟨m', first, second⟩ := forward_within hole _ inside m
    exact ⟨_, _, m', by rw [first], by rw [second]⟩

theorem local_takeWhile {p : Char → Bool} (uniform : Uniform (p · = true)) : Local hole (takeWhile p) := by
  refine ⟨onward_takeWhile p, fun w m => ?_⟩
  rcases takeWhile_ends hole p w m with ⟨run, v, m', first, second⟩ | ⟨m', first, second⟩ | lost
  · rw [first, second]
    exact .here run v m'
  · rw [first, second uniform]
    exact .here w [] m'
  · exact .lost lost

/-- The scanner may stop right at the hole for what it sees there, and then what comes next fails or goes
past the hole. -/
theorem local_edging {s : Scan α} {f : α → Scan β} (first : Edging hole s) (later : ∀ a, Local hole (f a))
    (barred : ∀ a, Barred hole 1 (f a)) : Local hole (s >>= f) := by
  refine ⟨onward_bind first.onward fun a => (later a).onward, fun w m => ?_⟩
  rcases first.ends w m with outcome | ⟨a, m', ended⟩
  · exact outcome_bind outcome later
  · change Outcome hole (s _ >>= fun e => f e.1 e.2) (s _ >>= fun e => f e.1 e.2)
    rw [ended]
    exact .lost (barred a [] m' Nat.one_pos)

theorem edging_of_local {s : Scan α} (scanner : Local hole s) : Edging hole s :=
  ⟨scanner.onward, fun w m => .inl (scanner.same w m)⟩

theorem edging_takeWhile (p : Char → Bool) : Edging hole (takeWhile p) := by
  refine ⟨onward_takeWhile p, fun w m => ?_⟩
  rcases takeWhile_ends hole p w m with ⟨run, v, m', first, second⟩ | ⟨m', first, -⟩ | lost
  · rw [first, second]
    exact .inl (.here run v m')
  · exact .inr ⟨w, m', first⟩
  · exact .inl (.lost lost)

theorem edging_bind {s : Scan α} {f : α → Scan β} (first : Local hole s) (later : ∀ a, Edging hole (f a)) :
    Edging hole (s >>= f) := by
  refine ⟨onward_bind first.onward fun a => (later a).onward, fun w m => ?_⟩
  have outcome := first.same w m
  change Outcome hole (s _ >>= fun e => f e.1 e.2) (s _ >>= fun e => f e.1 e.2) ∨
    ∃ a m', (s _ >>= fun e => f e.1 e.2) = _
  generalize s ⟨w ++ hole.rest, m⟩ = r, s ⟨w ++ hole.twin, m⟩ = r' at outcome ⊢
  cases outcome with
  | lost lost => exact .inl (.lost (lost_bind lost fun a => (later a).onward))
  | here a w m => exact (later a).ends w m

/-- Whatever stands at the hole, a scanner that ends there has not gone past it. -/
theorem edging_peek {f : Char → Scan β} (each : ∀ c, Edging hole (f c)) : Edging hole (peek >>= f) := by
  refine ⟨fun c => (each c.peek).onward c, fun w m => ?_⟩
  change Outcome hole (f (Cursor.peek _) _) (f (Cursor.peek _) _) ∨ ∃ a m', f (Cursor.peek _) _ = _
  cases w with
  | cons c w => exact (each c).ends (c :: w) m
  | nil =>
    generalize Cursor.peek ⟨[] ++ hole.rest, m⟩ = a, Cursor.peek ⟨[] ++ hole.twin, m⟩ = b
    have shorter := (each a).onward ⟨[] ++ hole.rest, m⟩
    rcases (each a).ends [] m with outcome | ended
    · generalize f a ⟨[] ++ hole.rest, m⟩ = r, f a ⟨[] ++ hole.twin, m⟩ = r' at outcome shorter ⊢
      cases outcome with
      | lost lost => exact .inl (.lost lost)
      | here a w m =>
        have none : w.length + hole.rest.length ≤ hole.rest.length := by simpa [Ends] using shorter
        obtain rfl : w = [] := List.length_eq_zero_iff.mp (by omega)
        exact .inr ⟨a, m, rfl⟩
    · exact .inr ended

/-- What has been read is used, or refused, without a look at the text. -/
theorem edging_use {s : Scan α} {f : α → Scan β} (first : Edging hole s)
    (used : ∀ a, (∃ b, f a = pure b) ∨ ∃ stop, f a = throw stop) : Edging hole (s >>= f) := by
  have each (a : α) : Local hole (f a) := by
    rcases used a with ⟨b, same⟩ | ⟨stop, same⟩
    · rw [same]
      exact local_pure b
    · rw [same]
      exact local_throw stop
  refine ⟨onward_bind first.onward fun a => (each a).onward, fun w m => ?_⟩
  change Outcome hole (s _ >>= fun e => f e.1 e.2) (s _ >>= fun e => f e.1 e.2) ∨
    ∃ a m', (s _ >>= fun e => f e.1 e.2) = _
  rcases first.ends w m with outcome | ⟨a, m', ended⟩
  · exact .inl (outcome_bind outcome each)
  · rw [ended]
    rcases used a with ⟨b, same⟩ | ⟨stop, same⟩
    · exact .inr ⟨b, m', congrFun same _⟩
    · refine .inl (.lost ?_)
      change Lost hole (f a _)
      rw [same]
      trivial

theorem local_size {f : Cursor → Scan β} (each : ∀ c, Local hole (f c))
    (sized : ∀ c c', c.rest.length = c'.rest.length → f c = f c') : Local hole (get >>= f) :=
  local_get_same each fun w m => sized _ _ (by simp [hole.length_twin])

theorem peekAt_alike (hole : Hole) (k : Nat) (w : List Char) (m : Mark) :
    Hole.Alike (Cursor.peekAt ⟨w ++ hole.rest, m⟩ k) (Cursor.peekAt ⟨w ++ hole.twin, m⟩ k) := by
  have alike := hole.alike_before w
  simp only [Cursor.peekAt]
  generalize w ++ hole.rest = cs, w ++ hole.twin = cs' at alike
  induction alike generalizing k with
  | nil => exact .inl rfl
  | cons first _ ih =>
    cases k with
    | zero => exact first
    | succ k => exact ih k

theorem local_peekAt {f : Char → Scan β} (k : Nat) (each : ∀ c, Local hole (f c))
    (word : ∀ a b, a.isAlphanum → b.isAlphanum → f a = f b) : Local hole (peekAt k >>= f) := by
  apply local_get_same (f := fun c => f (c.peekAt k)) fun c => each _
  intro w m
  rcases peekAt_alike hole k w m with same | ⟨letter, letter'⟩
  · rw [same]
  · exact word _ _ letter letter'

theorem atSeparator_same (w : List Char) (m : Mark) :
    Cursor.atSeparator ⟨w ++ hole.rest, m⟩ = Cursor.atSeparator ⟨w ++ hole.twin, m⟩ := by
  obtain ⟨c, cs, begins, word⟩ := hole.rest_begins
  obtain ⟨c', cs', begins', word'⟩ := hole.twin_begins
  rcases w with _ | ⟨a, _ | ⟨b, _ | ⟨d, _ | ⟨e, w⟩⟩⟩⟩ <;>
    simp [Cursor.atSeparator, Cursor.peekAt, begins, begins', ne_of_word word, ne_of_word word',
      endsWord_of_word word, endsWord_of_word word']

theorem barred_peek {f : Char → Scan β} (each : ∀ a, a.isAlphanum → Barred hole 1 (f a)) :
    Barred hole 1 (peek >>= f) := by
  intro w m near
  obtain ⟨c, cs, begins, word⟩ := hole.rest_begins
  obtain rfl : w = [] := List.length_eq_zero_iff.mp (Nat.lt_one_iff.mp near)
  have first : Cursor.peek ⟨[] ++ hole.rest, m⟩ = c := by simp [Cursor.peek, begins]
  have barred := each c word [] m near
  rw [← first] at barred
  exact barred

end Rules

end Scan

end MailRules.Yaml
