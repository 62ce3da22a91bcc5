import Mathlib
import MailRules.TrustStore
/-!
Where blocks start and how far they reach. A block starts at a BEGIN marker that the END marker of the same
label follows, and the first such END marker ends it; the search for blocks goes on after it.
-/
namespace MailRules.TrustStore
open MailRules.Text

def IsLabel (label : List Char) : Prop := label ≠ [] ∧ ∀ c ∈ label, isLabelChar c = true

instance (label : List Char) : Decidable (IsLabel label) :=
  decidable_of_iff (label ≠ [] ∧ label.all isLabelChar = true) (by rw [IsLabel, List.all_eq_true])

def Stands (marker cs : List Char) (i : Nat) : Prop := marker <+: cs.drop i

instance (marker cs : List Char) (i : Nat) : Decidable (Stands marker cs i) :=
  inferInstanceAs (Decidable (marker <+: cs.drop i))

theorem stands_drop {marker cs : List Char} {n i : Nat} :
    Stands marker (cs.drop n) i ↔ Stands marker cs (n + i) := by
  rw [Stands, Stands, List.drop_drop]

section Markers
variable {label marker cs rest : List Char}

theorem dashes_chars : dashes = ['-', '-', '-', '-', '-'] := by decide +kernel

theorem beginWord_chars : beginWord = ['-', '-', '-', '-', '-', 'B', 'E', 'G', 'I', 'N', ' '] := by
  decide +kernel

theorem endWord_chars : "-----END ".toList = ['-', '-', '-', '-', '-', 'E', 'N', 'D', ' '] := by
  decide +kernel

theorem beginMarker_chars (label : List Char) : beginMarker label =
    ['-', '-', '-', '-', '-', 'B', 'E', 'G', 'I', 'N', ' '] ++ label ++ ['-', '-', '-', '-', '-'] := by
  rw [beginMarker, beginWord_chars, dashes_chars]

theorem endMarker_chars (label : List Char) : endMarker label =
    ['-', '-', '-', '-', '-', 'E', 'N', 'D', ' '] ++ label ++ ['-', '-', '-', '-', '-'] := by
  unfold endMarker
  rw [endWord_chars, dashes_chars]

theorem labelAt?_marker (proper : IsLabel label) (rest : List Char) :
    labelAt? (beginMarker label ++ rest) = some label := by
  have after : (beginMarker label ++ rest).drop beginWord.length = label ++ (dashes ++ rest) := by
    rw [beginMarker, List.append_assoc, List.append_assoc, List.drop_left]
  have taken : (label ++ (dashes ++ rest)).takeWhile isLabelChar = label := by
    have ends : isLabelChar '-' = false := by decide
    simp [List.takeWhile_append_of_pos proper.2, dashes_chars, ends]
  simp [labelAt?, after, taken, proper.1]

theorem labelAt?_eq_some_iff : labelAt? cs = some label ↔ IsLabel label ∧ beginMarker label <+: cs := by
  constructor
  · intro found
    simp only [labelAt?, Option.ite_none_right_eq_some, List.isPrefixOf_iff_prefix] at found
    obtain ⟨⟨named, starts⟩, taken⟩ := found
    obtain rfl := Option.some.inj taken
    exact ⟨⟨named, fun c member => List.mem_takeWhile_imp member⟩, starts⟩
  · rintro ⟨proper, rest, rfl⟩
    exact labelAt?_marker proper rest

theorem labelAt?_other {c : Char} (other : c ≠ '-') : labelAt? (c :: rest) = none := by
  refine Option.eq_none_iff_forall_ne_some.mpr fun label found => ?_
  obtain ⟨-, after, whole⟩ := labelAt?_eq_some_iff.mp found
  rw [beginMarker_chars] at whole
  exact other (List.cons.inj whole).1.symm

end Markers

section First
variable {marker cs front : List Char}

/-- What stands in front of a marker reaches up to the first place where the marker stands. -/
theorem before?_eq_some_iff : before? marker cs = some front ↔
    front ++ marker <+: cs ∧ ∀ i < front.length, ¬Stands marker cs i := by
  induction cs generalizing front with
  | nil =>
    cases marker <;> simp [before?, Stands, eq_comm]
    rintro rfl
    simp
  | cons c cs ih =>
    by_cases here : marker <+: c :: cs
    · have found : before? marker (c :: cs) = some [] := by simp [before?, here]
      rw [found]
      constructor
      · rintro ⟨⟩
        exact ⟨here, by simp⟩
      · rintro ⟨-, first⟩
        cases front with
        | nil => rfl
        | cons d front => exact absurd here (first 0 (by simp))
    · have later : before? marker (c :: cs) = (before? marker cs).map (c :: ·) := by simp [before?, here]
      rw [later, Option.map_eq_some_iff]
      constructor
      · rintro ⟨front, found, rfl⟩
        obtain ⟨starts, first⟩ := ih.mp found
        refine ⟨by simpa [List.cons_prefix_cons] using starts, fun i bound => ?_⟩
        cases i with
        | zero => exact here
        | succ i => exact first i (by simpa using bound)
      · rintro ⟨starts, first⟩
        cases front with
        | nil => exact absurd starts here
        | cons d front =>
          rw [List.cons_append, List.cons_prefix_cons] at starts
          obtain ⟨rfl, starts⟩ := starts
          refine ⟨front, ih.mpr ⟨starts, fun i bound => ?_⟩, rfl⟩
          exact first (i + 1) (by simpa using bound)

theorem before?_isSome_iff (written : marker ≠ []) :
    (before? marker cs).isSome ↔ ∃ i, Stands marker cs i := by
  induction cs with
  | nil => simp [before?, Stands, written]
  | cons c cs ih =>
    by_cases here : marker <+: c :: cs
    · simpa [before?, here] using ⟨0, here⟩
    · have later : (before? marker (c :: cs)).isSome = (before? marker cs).isSome := by simp [before?, here]
      rw [later, ih]
      constructor
      · rintro ⟨i, stands⟩
        exact ⟨i + 1, stands⟩
      · rintro ⟨i, stands⟩
        cases i with
        | zero => exact absurd stands here
        | succ i => exact ⟨i, stands⟩

end First

section Blocks
variable {cs : List Char} {b : Block}

/-- A block reaches from the BEGIN marker of its label to the end of the first END marker of it. -/
theorem blockAt?_eq_some_iff : blockAt? cs = some b ↔ IsLabel b.label ∧ ∃ body rest,
    b.text = beginMarker b.label ++ body ++ endMarker b.label ∧ cs = b.text ++ rest ∧
    ∀ i < body.length, ¬Stands (endMarker b.label) (body ++ endMarker b.label ++ rest) i := by
  simp only [blockAt?, Option.bind_eq_bind, Option.bind_eq_some_iff, labelAt?_eq_some_iff,
    before?_eq_some_iff, Option.pure_def, Option.some.injEq]
  constructor
  · rintro ⟨label, ⟨proper, after, rfl⟩, body, ⟨⟨rest, whole⟩, first⟩, rfl⟩
    rw [List.drop_left] at whole first
    subst whole
    exact ⟨proper, body, rest, rfl, by simp, first⟩
  · rintro ⟨proper, body, rest, text, rfl, first⟩
    have after : (b.text ++ rest).drop (beginMarker b.label).length =
        body ++ endMarker b.label ++ rest := by
      rw [text, List.append_assoc, List.append_assoc, List.drop_left, List.append_assoc]
    refine ⟨b.label, ⟨proper, body ++ endMarker b.label ++ rest, by rw [text]; simp⟩, body, ?_, ?_⟩
    · rw [after]
      exact ⟨List.prefix_append _ _, first⟩
    · rw [← text]

theorem blocksFrom_drop (skip : Nat) (cs : List Char) : blocksFrom skip cs = blocks (cs.drop skip) := by
  induction cs generalizing skip with
  | nil => simp [blocks, blocksFrom]
  | cons c cs ih =>
    cases skip with
    | zero => rfl
    | succ skip => simpa [blocksFrom] using ih skip

end Blocks
end MailRules.TrustStore
