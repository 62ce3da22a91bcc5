import Mathlib
import MailRules.Text.Digit
/-!
Numbers in decimal: what is written of a number are digits, and they read back to it.
-/
namespace MailRules.Text

theorem isAsciiDigit_of_isDigit {c : Char} (digit : c.isDigit = true) : isAsciiDigit c = true := by
  simpa [isAsciiDigit, Char.isDigit, Char.le_def] using digit

theorem toDigits_digits (n : Nat) : ∀ c ∈ Nat.toDigits 10 n, isAsciiDigit c = true :=
  fun _ member => isAsciiDigit_of_isDigit (Nat.isDigit_of_mem_toDigits (by decide) (by decide) member)

theorem ofDigits_chars (cs : List Char) :
    ofDigits (cs.map fun c => c.toNat - 48) = Nat.ofDigitChars 10 cs 0 := by
  rw [ofDigits, List.foldl_map]
  rfl

theorem ofDigits_decimal (n : Nat) : ofDigits ((decimal n).toList.map fun c => c.toNat - 48) = n := by
  rw [decimal, String.toList_ofList, ofDigits_chars]
  exact Nat.ofDigitChars_toDigits (by decide) (by decide)

/-- The canonical writing of a number: its digits, with no zero before others. -/
structure Canonical (n : Nat) (s : String) : Prop where
  digits : ∀ c ∈ s.toList, isAsciiDigit c = true
  nonempty : s.toList ≠ []
  value : ofDigits (s.toList.map fun c => c.toNat - 48) = n
  noLead : s.toList.head? = some '0' → s = "0"

theorem ofDigitChars_lt {ds : List Char} (digits : ∀ c ∈ ds, isAsciiDigit c = true) (init : Nat) :
    Nat.ofDigitChars 10 ds init < (init + 1) * 10 ^ ds.length := by
  induction ds generalizing init with
  | nil => simp [Nat.ofDigitChars]
  | cons c ds ih =>
    have digit : c.toNat - 48 ≤ 9 := by
      have one := digits c List.mem_cons_self
      simp only [isAsciiDigit, Bool.and_eq_true, decide_eq_true_eq, Char.le_def] at one
      have nine : c.toNat ≤ 57 := one.2
      omega
    have rest := ih (fun d member => digits d (List.mem_cons_of_mem c member)) (10 * init + (c.toNat - 48))
    rw [Nat.ofDigitChars_cons]
    refine Nat.lt_of_lt_of_le rest ?_
    rw [List.length_cons, pow_succ', ← Nat.mul_assoc]
    exact Nat.mul_le_mul_right _ (by omega)

theorem decimal_canonical (n : Nat) : Canonical n (decimal n) := by
  have digits := toDigits_digits n
  refine ⟨?_, ?_, ofDigits_decimal n, ?_⟩
  · rwa [decimal, String.toList_ofList]
  · rw [decimal, String.toList_ofList]
    exact Nat.toDigits_ne_nil
  · rw [decimal, String.toList_ofList]
    intro lead
    obtain ⟨ds, same⟩ := List.head?_eq_some_iff.mp lead
    rw [same] at digits
    have value : n = Nat.ofDigitChars 10 ds 0 := by
      rw [← Nat.ofDigitChars_toDigits (b := 10) (n := n) (by decide) (by decide), same,
        Nat.ofDigitChars_cons]
      rfl
    cases ds with
    | nil => rw [same]
    | cons d ds =>
      -- The number would have fewer digits without the zero.
      have few := ofDigitChars_lt (fun c member => digits c (List.mem_cons_of_mem _ member)) 0
      rw [← value, Nat.zero_add, Nat.one_mul] at few
      have short := (Nat.length_toDigits_le_iff (b := 10) (by decide) (by simp)).mpr few
      rw [same] at short
      simp at short

variable {width n : Nat}

theorem zeroPadded_toList : (zeroPadded width n).toList =
    List.replicate (width - (Nat.toDigits 10 n).length) '0' ++ Nat.toDigits 10 n := by
  rw [zeroPadded, String.toList_ofList]

theorem zeroPadded_digits : ∀ c ∈ (zeroPadded width n).toList, isAsciiDigit c = true := by
  intro c member
  rw [zeroPadded_toList, List.mem_append] at member
  rcases member with zero | digit
  · rw [List.eq_of_mem_replicate zero]
    decide
  · exact toDigits_digits n c digit

theorem zeroPadded_length (positive : 0 < width) (fits : n < 10 ^ width) :
    (zeroPadded width n).toList.length = width := by
  have short := (Nat.length_toDigits_le_iff (by decide) positive).mpr fits
  rw [zeroPadded_toList, List.length_append, List.length_replicate]
  omega

theorem ofDigits_zeroPadded : ofDigits ((zeroPadded width n).toList.map fun c => c.toNat - 48) = n := by
  have zeros (k : Nat) : Nat.ofDigitChars 10 (List.replicate k '0') 0 = 0 := by
    induction k with
    | zero => rfl
    | succ k ih => rwa [List.replicate_succ, Nat.ofDigitChars_cons]
  rw [zeroPadded_toList, ofDigits_chars, Nat.ofDigitChars_append, zeros]
  exact Nat.ofDigitChars_toDigits (by decide) (by decide)

end MailRules.Text
