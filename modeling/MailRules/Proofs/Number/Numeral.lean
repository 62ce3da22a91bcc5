import Mathlib
import MailRules.Number.Numeral
/-!
Numerals without signs and blanks. A text of characters that are digits in name is read exactly if all of
them are decimal, of whatever scripts, and not too many; it is read as the number that they write.
-/
namespace MailRules.Number
open MailRules.Text

/-- Decimal digits, not too many of them, that write the number. -/
def IsNumeral (cs : List Char) (n : Nat) : Prop :=
  ∃ ds : List Nat, cs.map digitValue? = ds.map some ∧ ds ≠ [] ∧ ds.length ≤ digitLimit ∧ ofDigits ds = n

section Numerals
variable {cs : List Char} {n : Nat}

theorem IsNumeral.ne_nil (numeral : IsNumeral cs n) : cs ≠ [] := by
  obtain ⟨ds, values, some, -⟩ := numeral
  rintro rfl
  exact some (List.map_eq_nil_iff.mp values.symm)

theorem IsNumeral.digitLike (numeral : IsNumeral cs n) : ∀ c ∈ cs, isDigitLike c = true := by
  obtain ⟨ds, values, -⟩ := numeral
  intro c member
  have listed : digitValue? c ∈ ds.map some := values ▸ List.mem_map_of_mem member
  obtain ⟨d, -, digit⟩ := List.mem_map.mp listed
  simp [isDigitLike, isDecimalDigit, ← digit]

theorem not_isNumeral_iff : (∀ n, ¬IsNumeral cs n) ↔
    cs = [] ∨ (∃ c ∈ cs, digitValue? c = none) ∨ digitLimit < cs.length := by
  constructor
  · intro no_number
    by_contra short
    simp only [not_or, not_exists, not_and, not_lt] at short
    obtain ⟨some, decimal, few⟩ := short
    let value (c : Char) : Nat := (digitValue? c).getD 0
    have values : cs.map digitValue? = (cs.map value).map Option.some := by
      rw [List.map_map]
      exact List.map_congr_left fun c member => (Option.getD_of_ne_none (decimal c member) 0).symm
    exact no_number _ ⟨cs.map value, values, by simpa using some, by simpa using few, rfl⟩
  · rintro no_number n ⟨ds, values, some, few, -⟩
    have same : cs.length = ds.length := by simpa using congrArg List.length values
    rcases no_number with rfl | ⟨c, member, none⟩ | long
    · exact some (List.map_eq_nil_iff.mp values.symm)
    · have listed : digitValue? c ∈ ds.map Option.some := values ▸ List.mem_map_of_mem member
      simp [none] at listed
    · omega

end Numerals

section Digits
variable {c : Char} {d : Nat}

theorem digitValue_lt (digit : digitValue? c = some d) : d < 10 := by
  unfold digitValue? at digit
  split at digit
  · split at digit
    · rename_i range
      have nine : c.toNat ≤ 57 := range.2
      cases digit
      omega
    · cases digit
  · obtain ⟨z, found, rfl⟩ := Option.map_eq_some_iff.mp digit
    have near := List.find?_some found
    simp only [Bool.and_eq_true, decide_eq_true_eq] at near
    omega

theorem digitValue_letter {low high : Char} (above : '9' < low) (ascii : high.toNat < 0x80)
    (letter : low ≤ c ∧ c ≤ high) : digitValue? c = none := by
  have below : c.toNat < 0x80 := lt_of_le_of_lt letter.2 ascii
  have noDigit : ¬('0' ≤ c ∧ c ≤ '9') := fun digit => absurd (above.trans_le letter.1) (not_lt.mpr digit.2)
  rw [digitValue?, if_pos below, if_neg noDigit]

theorem placeValueIn_ten (c : Char) : placeValueIn? 10 c = digitValue? c := by
  unfold placeValueIn? placeValue?
  split
  · rename_i small
    have above : 97 ≤ c.toNat := small.1
    rw [digitValue_letter (by decide) (by decide) small]
    exact Option.filter_some_neg (by simp; omega)
  · split
    · rename_i capital
      have above : 65 ≤ c.toNat := capital.1
      rw [digitValue_letter (by decide) (by decide) capital]
      exact Option.filter_some_neg (by simp; omega)
    · cases value : digitValue? c with
      | none => rfl
      | some d => exact Option.filter_some_pos (by simpa using digitValue_lt value)

theorem blank_no_digit : ∀ r ∈ blankRanges, ∀ n ∈ List.range' r.1 (r.2 + 1 - r.1),
    isDigitLike (Char.ofNat n) = false := by
  decide +kernel

theorem isNumeralBlank_digit (digit : isDigitLike c = true) : isNumeralBlank c = false := by
  unfold isNumeralBlank
  cases blank : isBlank c with
  | false => rfl
  | true =>
    obtain ⟨r, member, range⟩ := List.any_eq_true.mp blank
    simp only [Bool.and_eq_true, decide_eq_true_eq] at range
    have inside : c.toNat ∈ List.range' r.1 (r.2 + 1 - r.1) := List.mem_range'_1.mpr (by omega)
    have none := blank_no_digit r member _ inside
    rw [Char.ofNat_toNat, digit] at none
    cases none

theorem ne_of_digitLike {x : Char} (digit : isDigitLike c = true) (other : isDigitLike x = false) : c ≠ x := by
  rintro rfl
  rw [digit] at other
  cases other

end Digits

section Runs
variable {cs : List Char} {i : Int}

theorem trimNumeral_clean (clean : ∀ c ∈ cs, isNumeralBlank c = false) : trimNumeral cs = cs := by
  have same {l : List Char} (clean : ∀ c ∈ l, isNumeralBlank c = false) : l.dropWhile isNumeralBlank = l := by
    cases l with
    | nil => rfl
    | cons c l => exact List.dropWhile_cons_of_neg (by simp [clean c List.mem_cons_self])
  unfold trimNumeral
  rw [same clean, same fun c member => clean c (List.mem_reverse.mp member), List.reverse_reverse]

theorem splitSign_unsigned (unsigned : ∀ c ∈ cs, c ≠ '-' ∧ c ≠ '+') : splitSign cs = (false, cs) := by
  unfold splitSign
  split
  · exact absurd rfl (unsigned _ List.mem_cons_self).1
  · exact absurd rfl (unsigned _ List.mem_cons_self).2
  · rfl

theorem dropBaseMarker_ten (cs : List Char) : dropBaseMarker 10 cs = cs := by
  unfold dropBaseMarker
  split
  · simp
  · rfl

/-- A run of digits ends where no digit and no underscore follows. -/
theorem digitRun_ten {run rest : List Char} {ds : List Nat} (digits : run.map digitValue? = ds.map some)
    (ends : ∀ c, rest.head? = some c → c ≠ '_' ∧ digitValue? c = none) :
    digitRun? 10 (run ++ rest) = some (ds, rest) := by
  have value : ∀ c ∈ run, ∃ d, digitValue? c = some d := by
    intro c member
    have listed : digitValue? c ∈ ds.map some := digits ▸ List.mem_map_of_mem member
    obtain ⟨d, -, same⟩ := List.mem_map.mp listed
    exact ⟨d, same.symm⟩
  have clean : '_' ∉ run := fun member => by
    obtain ⟨d, digit⟩ := value _ member
    have none : digitValue? '_' = none := by decide
    cases none.symm.trans digit
  have taken : (run ++ rest).takeWhile (fun c => c = '_' || (placeValueIn? 10 c).isSome) = run := by
    rw [List.takeWhile_append_of_pos]
    · cases rest with
      | nil => simp
      | cons c rest =>
        obtain ⟨other, noDigit⟩ := ends c rfl
        rw [List.takeWhile_cons_of_neg (by simp [other, placeValueIn_ten, noDigit]), List.append_nil]
    · intro c member
      obtain ⟨d, digit⟩ := value c member
      simp [placeValueIn_ten, digit]
  have values : run.filterMap (placeValueIn? 10) = ds := calc
    run.filterMap (placeValueIn? 10) = (run.map digitValue?).filterMap id := by
      rw [List.filterMap_map]
      exact congrArg (List.filterMap · run) (funext placeValueIn_ten)
    _ = ds := by rw [digits, List.filterMap_map]; exact List.filterMap_some
  have first : run.head? ≠ some '_' := fun head => clean (List.mem_of_mem_head? head)
  have last : run.getLast? ≠ some '_' := fun last => clean (List.mem_of_mem_getLast? last)
  have pairs : (run.zip run.tail).any (fun p => p.1 = '_' && p.2 = '_') = false := by
    refine List.any_eq_false.mpr fun p member => ?_
    have other : p.1 ≠ '_' := fun same => clean (same ▸ (List.of_mem_zip member).1)
    simp [other]
  unfold digitRun?
  simp only [taken, values, List.drop_left]
  simp [first, last, pairs]

theorem digits_split (cs : List Char) : ∃ (run rest : List Char) (ds : List Nat), cs = run ++ rest ∧
    run.map digitValue? = ds.map some ∧ ∀ c, rest.head? = some c → digitValue? c = none := by
  induction cs with
  | nil => exact ⟨[], [], [], rfl, rfl, nofun⟩
  | cons c cs ih =>
    cases digit : digitValue? c with
    | none =>
      refine ⟨[], c :: cs, [], rfl, rfl, ?_⟩
      rintro x ⟨⟩
      exact digit
    | some d =>
      obtain ⟨run, rest, ds, rfl, digits, ends⟩ := ih
      exact ⟨c :: run, rest, d :: ds, rfl, by simp [digit, digits], ends⟩

/-- Among texts of digits in name, the numerals are what is read. -/
theorem readInteger_digitLike (digits : ∀ c ∈ cs, isDigitLike c = true) :
    readInteger 10 cs = .ok i ↔ ∃ n : Nat, i = n ∧ IsNumeral cs n := by
  have trimmed : trimNumeral cs = cs := trimNumeral_clean fun c member => isNumeralBlank_digit (digits c member)
  have unsigned : splitSign cs = (false, cs) := splitSign_unsigned fun c member =>
    ⟨ne_of_digitLike (digits c member) (by decide), ne_of_digitLike (digits c member) (by decide)⟩
  obtain ⟨run, rest, ds, whole, values, ends⟩ := digits_split cs
  have read : digitRun? 10 cs = some (ds, rest) := by
    rw [whole]
    refine digitRun_ten values fun c head => ⟨?_, ends c head⟩
    exact ne_of_digitLike (digits c (whole ▸ List.mem_append_right run (List.mem_of_mem_head? head))) (by decide)
  have numeral (n : Nat) : IsNumeral cs n ↔ rest = [] ∧ ds ≠ [] ∧ ds.length ≤ digitLimit ∧ ofDigits ds = n := by
    constructor
    · rintro ⟨es, all, some, few, value⟩
      have none : rest = [] := by
        cases rest with
        | nil => rfl
        | cons c rest =>
          have listed : digitValue? c ∈ cs.map digitValue? := List.mem_map_of_mem (by simp [whole])
          rw [all, ends c rfl] at listed
          simp at listed
      subst none
      rw [whole, List.append_nil, values] at all
      obtain rfl := List.map_injective_iff.mpr (Option.some_injective _) all
      exact ⟨rfl, some, few, value⟩
    · rintro ⟨rfl, some, few, value⟩
      exact ⟨ds, by rw [whole, List.append_nil, values], some, few, value⟩
  simp only [readInteger, trimmed, unsigned, dropBaseMarker_ten, read, numeral]
  by_cases long : digitLimit < ds.length
  · simp [long, not_le.mpr long]
  · by_cases empty : ds = []
    · simp [empty, digitLimit]
    · cases rest with
      | nil =>
        have some : ds.isEmpty = false := List.isEmpty_eq_false_iff.mpr empty
        have value : Double.signed false (ds.foldl (fun n d => 10 * n + d) 0) = ofDigits ds := rfl
        simp [long, some, empty, value, not_lt.mp long, eq_comm]
      | cons c rest => simp [long]

end Runs
end MailRules.Number
