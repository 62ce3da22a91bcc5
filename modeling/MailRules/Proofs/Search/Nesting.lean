import MailRules.Search.Token
/-!
Criteria and their written form, with an opening and a closing token around each group. Reading tokens and
writing criteria undo each other; and how the reading of tokens ends follows from counting them.
-/
namespace MailRules.Search

mutual

def Criterion.written : Criterion → List Token
  | .text s => [.text s]
  | .group items => .opening :: (Criterion.allWritten items ++ [.closing])

def Criterion.allWritten : List Criterion → List Token
  | [] => []
  | c :: cs => c.written ++ Criterion.allWritten cs

end

theorem allWritten_append (front back : List Criterion) :
    Criterion.allWritten (front ++ back) = Criterion.allWritten front ++ Criterion.allWritten back := by
  induction front with
  | nil => rfl
  | cons c front ih => simp [Criterion.allWritten, ih]

theorem allWritten_texts (texts : List String) :
    Criterion.allWritten (texts.map .text) = texts.map .text := by
  induction texts with
  | nil => rfl
  | cons s texts ih => simp [Criterion.allWritten, Criterion.written, ih]

/-! Reading what is written -/

mutual

theorem nestFrom_written (c : Criterion) (outer : List (List Criterion)) (done : List Criterion)
    (rest : List Token) : nestFrom outer done (c.written ++ rest) = nestFrom outer (done ++ [c]) rest := by
  cases c with
  | text s => rfl
  | group items =>
    have inside := nestFrom_allWritten items (done :: outer) [] (.closing :: rest)
    simpa [Criterion.written, nestFrom] using inside

theorem nestFrom_allWritten (items : List Criterion) (outer : List (List Criterion)) (done : List Criterion)
    (rest : List Token) :
    nestFrom outer done (Criterion.allWritten items ++ rest) = nestFrom outer (done ++ items) rest := by
  cases items with
  | nil => simp [Criterion.allWritten]
  | cons c items =>
    have later := nestFrom_allWritten items outer (done ++ [c]) rest
    rw [Criterion.allWritten, List.append_assoc, nestFrom_written c outer done, later]
    simp

end

def readSoFar : List (List Criterion) → List Criterion → List Token
  | [], done => Criterion.allWritten done
  | before :: outer, done => readSoFar outer before ++ .opening :: Criterion.allWritten done

theorem readSoFar_append (outer : List (List Criterion)) (done items : List Criterion) :
    readSoFar outer (done ++ items) = readSoFar outer done ++ Criterion.allWritten items := by
  cases outer <;> simp [readSoFar, allWritten_append]

/-- No token is lost: what is nested in the end is what was read and what was still to come. -/
theorem written_of_nestFrom {outer : List (List Criterion)} {done criteria : List Criterion}
    {tokens : List Token} (nested : nestFrom outer done tokens = .ok criteria) :
    readSoFar outer done ++ tokens = Criterion.allWritten criteria := by
  induction tokens generalizing outer done with
  | nil =>
    cases outer with
    | nil =>
      cases nested
      simp [readSoFar]
    | cons before outer => cases nested
  | cons t tokens ih =>
    cases t with
    | text s =>
      have added : nestFrom outer (done ++ [.text s]) tokens = .ok criteria := nested
      have later := ih added
      rw [readSoFar_append] at later
      simpa [Criterion.allWritten, Criterion.written] using later
    | opening =>
      have opened : nestFrom (done :: outer) [] tokens = .ok criteria := nested
      have later := ih opened
      simpa [readSoFar, Criterion.allWritten] using later
    | closing =>
      cases outer with
      | nil => cases nested
      | cons before outer =>
        have closed : nestFrom outer (before ++ [.group done]) tokens = .ok criteria := nested
        have later := ih closed
        rw [readSoFar_append] at later
        simpa [readSoFar, Criterion.allWritten, Criterion.written] using later

theorem nest_ok_iff (tokens : List Token) (criteria : List Criterion) :
    nest tokens = .ok criteria ↔ tokens = Criterion.allWritten criteria := by
  constructor
  · intro nested
    simpa [readSoFar, Criterion.allWritten] using written_of_nestFrom nested
  · rintro rfl
    simpa [nest, nestFrom] using nestFrom_allWritten criteria [] [] []

/-! How reading ends -/

/-- Some of the first tokens close more groups than are open: `depth` groups are open before them. -/
def Overclosed (depth : Nat) (tokens : List Token) : Prop :=
  ∃ front, front <+: tokens ∧ depth + front.count .opening < front.count .closing

theorem overclosed_nil (depth : Nat) : ¬ Overclosed depth [] := by
  rintro ⟨front, first, more⟩
  rw [List.prefix_nil.mp first] at more
  simp at more

theorem overclosed_cons (depth : Nat) (t : Token) (tokens : List Token) :
    Overclosed depth (t :: tokens) ↔ ∃ front, front <+: tokens ∧
      depth + (t :: front).count .opening < (t :: front).count .closing := by
  constructor
  · rintro ⟨front, first, more⟩
    rcases List.prefix_cons_iff.mp first with rfl | ⟨later, rfl, inner⟩
    · simp at more
    · exact ⟨later, inner, more⟩
  · rintro ⟨front, first, more⟩
    exact ⟨t :: front, List.prefix_cons_iff.mpr (.inr ⟨front, rfl, first⟩), more⟩

theorem overclosed_text (depth : Nat) (s : String) (tokens : List Token) :
    Overclosed depth (.text s :: tokens) ↔ Overclosed depth tokens := by
  rw [overclosed_cons]
  simp [Overclosed]

theorem overclosed_opening (depth : Nat) (tokens : List Token) :
    Overclosed depth (.opening :: tokens) ↔ Overclosed (depth + 1) tokens := by
  rw [overclosed_cons]
  refine exists_congr fun front => and_congr_right fun _ => ?_
  simp only [List.count_cons_self, List.count_cons_of_ne (show Token.opening ≠ .closing by decide)]
  omega

theorem overclosed_closing (depth : Nat) (tokens : List Token) :
    Overclosed depth (.closing :: tokens) ↔ depth = 0 ∨ Overclosed (depth - 1) tokens := by
  rw [overclosed_cons]
  simp only [List.count_cons_self, List.count_cons_of_ne (show Token.closing ≠ .opening by decide)]
  constructor
  · rintro ⟨front, first, more⟩
    by_cases none : depth = 0
    · exact .inl none
    · exact .inr ⟨front, first, by omega⟩
  · rintro (rfl | ⟨front, first, more⟩)
    · exact ⟨[], List.nil_prefix, by simp⟩
    · exact ⟨front, first, by omega⟩

def unopened : Error := .protocol "search" "unbalanced ')' in search criteria"

def unclosed : Error := .protocol "search" "unbalanced '(' in search criteria"

/-- By induction on the tokens; the number of open groups is the depth. -/
theorem nestFrom_ends (outer : List (List Criterion)) (done : List Criterion) (tokens : List Token) :
    (Overclosed outer.length tokens ∧ nestFrom outer done tokens = .error unopened) ∨
      (¬ Overclosed outer.length tokens ∧ outer.length + tokens.count .opening ≠ tokens.count .closing ∧
        nestFrom outer done tokens = .error unclosed) ∨
      (¬ Overclosed outer.length tokens ∧ outer.length + tokens.count .opening = tokens.count .closing ∧
        ∃ criteria, nestFrom outer done tokens = .ok criteria) := by
  induction tokens generalizing outer done with
  | nil =>
    cases outer with
    | nil => exact .inr (.inr ⟨overclosed_nil 0, by simp, done, rfl⟩)
    | cons before outer => exact .inr (.inl ⟨overclosed_nil _, by simp, rfl⟩)
  | cons t tokens ih =>
    cases t with
    | text s =>
      rw [overclosed_text]
      simpa [nestFrom] using ih outer (done ++ [.text s])
    | opening =>
      have later := ih (done :: outer) []
      rw [overclosed_opening]
      simpa [nestFrom, Nat.add_right_comm, Nat.add_assoc] using later
    | closing =>
      rw [overclosed_closing]
      cases outer with
      | nil => exact .inl ⟨.inl rfl, rfl⟩
      | cons before outer =>
        have later := ih outer (before ++ [.group done])
        simpa [nestFrom, Nat.add_right_comm] using later

/-- Tokens are nested just if they are the written form of criteria, and into these. This is so just if every
closing token has its opening one before it and there are as many of both; else the error names the side that
lacks its other. -/
theorem nesting_undoes_writing (tokens : List Token) :
    (∀ criteria, nest tokens = .ok criteria ↔ tokens = Criterion.allWritten criteria) ∧
      ((∃ criteria, nest tokens = .ok criteria) ↔
        ¬ Overclosed 0 tokens ∧ tokens.count .opening = tokens.count .closing) ∧
      (nest tokens = .error (.protocol "search" "unbalanced ')' in search criteria") ↔ Overclosed 0 tokens) ∧
      (nest tokens = .error (.protocol "search" "unbalanced '(' in search criteria") ↔
        ¬ Overclosed 0 tokens ∧ tokens.count .opening ≠ tokens.count .closing) := by
  refine ⟨nest_ok_iff tokens, ?_⟩
  rcases nestFrom_ends [] [] tokens with ⟨beyond, ended⟩ | ⟨within, off, ended⟩ | ⟨within, even, criteria, ended⟩
  · have beyond : Overclosed 0 tokens := beyond
    have failed : nest tokens = .error unopened := ended
    simp [failed, unopened, beyond]
  · have within : ¬ Overclosed 0 tokens := within
    have off : tokens.count .opening ≠ tokens.count .closing := by simpa using off
    have failed : nest tokens = .error unclosed := ended
    simp [failed, unclosed, within, off]
  · have within : ¬ Overclosed 0 tokens := within
    have even : tokens.count .opening = tokens.count .closing := by simpa using even
    have nested : nest tokens = .ok criteria := ended
    simp [nested, within, even]

end MailRules.Search
