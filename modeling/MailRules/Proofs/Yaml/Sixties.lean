import MailRules.Proofs.Number.Numeral
import MailRules.Proofs.Yaml.Valuing
/-!
Numbers in base sixty with a fraction. A text of their form is always read as one, but for the place values,
which are doubles: the hundred and seventy-fifth is beyond them, and no value is then given.
-/
namespace MailRules.Yaml
open MailRules.Text MailRules.Number

namespace ScalarValue

section Digits
variable {c : Char} {ds more : List Char}

theorem isAsciiDigit_below (digit : isAsciiDigit c = true) : c.toNat < 0x80 :=
  have range : '0' ≤ c ∧ c ≤ '9' := by simpa [isAsciiDigit] using digit
  lt_of_le_of_lt (show c.toNat ≤ 57 from range.2) (by decide)

theorem isAsciiDigit_lower (digit : isAsciiDigit c = true) : c.toLower = c := by
  have all : ∀ n < 0x80, isAsciiDigit (Char.ofNat n) → (Char.ofNat n).toLower = Char.ofNat n := by decide
  simpa using all c.toNat (isAsciiDigit_below digit) (by simpa using digit)

theorem isAsciiDigit_value (digit : isAsciiDigit c = true) : digitValue? c = some (c.toNat - 48) := by
  rw [digitValue?, if_pos (isAsciiDigit_below digit), if_pos (by simpa [isAsciiDigit] using digit)]

theorem digitRun_digits (digits : ∀ c ∈ ds, isAsciiDigit c = true)
    (ends : ∀ c, more.head? = some c → c ≠ '_' ∧ digitValue? c = none) :
    digitRun? 10 (ds ++ more) = some (ds.map fun c => c.toNat - 48, more) := by
  refine digitRun_ten ?_ ends
  rw [List.map_map]
  exact List.map_congr_left fun c member => isAsciiDigit_value (digits c member)

theorem fraction_read (nonempty : ds ≠ [])
    (fraction : more = [] ∨ ∃ fs, more = '.' :: fs ∧ ∀ c ∈ fs, isAsciiDigit c = true) :
    (∀ c, more.head? = some c → c ≠ '_' ∧ digitValue? c = none) ∧
      ∃ x, readFraction false (ds.map fun c => c.toNat - 48) more = some x := by
  have whole : (ds.map fun c => c.toNat - 48).isEmpty = false := by simpa using nonempty
  rcases fraction with rfl | ⟨fs, rfl, fractional⟩
  · exact ⟨nofun, by simp [readFraction, whole]⟩
  · have run : digitRun? 10 (fs ++ []) = some (fs.map fun c => c.toNat - 48, []) :=
      digitRun_digits fractional nofun
    rw [List.append_nil] at run
    refine ⟨?_, by simp [readFraction, run, whole]⟩
    rintro c ⟨⟩
    decide

theorem double_digits (nonempty : ds ≠ []) (digits : ∀ c ∈ ds, isAsciiDigit c = true)
    (fraction : more = [] ∨ ∃ fs, more = '.' :: fs ∧ ∀ c ∈ fs, isAsciiDigit c = true) :
    ∃ x, double (ds ++ more) = .ok x := by
  have shown : ∀ c ∈ ds ++ more, isAsciiDigit c = true ∨ c = '.' := by
    intro c member
    rcases List.mem_append.mp member with whole | after
    · exact .inl (digits c whole)
    · rcases fraction with rfl | ⟨fs, rfl, more⟩
      · cases after
      · exact (List.mem_cons.mp after).elim .inr fun later => .inl (more c later)
  have clean : ∀ c ∈ ds ++ more, isNumeralBlank c = false := by
    intro c member
    rcases shown c member with digit | rfl
    · exact isNumeralBlank_digit (by simp [isDigitLike, isDecimalDigit, isAsciiDigit_value digit])
    · decide
  have unsigned : ∀ c ∈ ds ++ more, c ≠ '-' ∧ c ≠ '+' := by
    intro c member
    constructor <;> rintro rfl <;> exact absurd (shown _ member) (by decide)
  have word : ∀ w : List Char, isAsciiDigit (w.headD ' ') = false → (ds ++ more).map Char.toLower ≠ w := by
    rintro w other rfl
    cases ds with
    | nil => exact nonempty rfl
    | cons d ds =>
      have digit := digits d List.mem_cons_self
      simp [isAsciiDigit_lower digit, digit] at other
  obtain ⟨ends, x, read⟩ := fraction_read nonempty fraction
  refine ⟨x, ?_⟩
  have found : readDouble? (ds ++ more) = some x := by
    simp only [readDouble?, trimNumeral_clean clean, splitSign_unsigned unsigned,
      word _ (show isAsciiDigit ("inf".toList.headD ' ') = false by decide),
      word _ (show isAsciiDigit ("infinity".toList.headD ' ') = false by decide),
      word _ (show isAsciiDigit ("nan".toList.headD ' ') = false by decide), digitRun_digits digits ends]
    simpa using read
  simp only [double, found]

end Digits

/-! Pieces between colons -/

section Pieces
variable {cs piece rest whole fraction : List Char}

theorem pieces_induction {P : List Char → Prop} (last : ∀ p, ':' ∉ p → P p)
    (more : ∀ p rest, ':' ∉ p → P rest → P (p ++ ':' :: rest)) (cs : List Char) : P cs := by
  by_cases colon : ':' ∈ cs
  · obtain ⟨p, rest, parts, first⟩ := List.eq_append_cons_of_mem colon
    have shorter : rest.length < cs.length := by simp [parts]; omega
    exact parts ▸ more p rest first (pieces_induction last more rest)
  · exact last cs colon
termination_by cs.length

theorem colonPieces_last (last : ':' ∉ piece) : colonPieces piece = [piece] := List.splitOn_eq_singleton last

theorem colonPieces_more (first : ':' ∉ piece) :
    colonPieces (piece ++ ':' :: rest) = piece :: colonPieces rest := by
  have single := colonPieces_last first
  simp only [colonPieces, List.splitOn_eq_splitOnP] at single ⊢
  rw [List.splitOnP_append_cons _ _ (by simp), single, List.singleton_append]

theorem withoutUnderscores_append (cs ds : List Char) :
    withoutUnderscores (cs ++ ds) = withoutUnderscores cs ++ withoutUnderscores ds := List.filter_append ..

theorem withoutUnderscores_digits (digits : ∀ c ∈ cs, isDigitOrUnderscore c = true) :
    ∀ c ∈ withoutUnderscores cs, isAsciiDigit c = true := by
  intro c member
  obtain ⟨inside, other⟩ := List.mem_filter.mp member
  have shown := digits c inside
  simp_all [isDigitOrUnderscore]

theorem isNumberRun_digits (run : isNumberRun cs = true) : ∀ c ∈ cs, isDigitOrUnderscore c = true := by
  cases cs with
  | nil => cases run
  | cons d cs =>
    simp only [isNumberRun, Bool.and_eq_true, List.all_eq_true] at run
    exact List.forall_mem_cons.mpr ⟨by simp [isDigitOrUnderscore, run.1], run.2⟩

theorem isNumberRun_nonempty (run : isNumberRun cs = true) : withoutUnderscores cs ≠ [] := by
  cases cs with
  | nil => cases run
  | cons d cs =>
    have digit : isAsciiDigit d = true := (Bool.and_eq_true_iff.mp run).1
    have other : d ≠ '_' := by
      rintro rfl
      cases digit
    simp [withoutUnderscores, other]

theorem isSexagesimalPlace_run (place : isSexagesimalPlace cs = true) : isNumberRun cs = true := by
  unfold isSexagesimalPlace at place
  split at place
  · simp [isNumberRun, place]
  · rename_i t d
    simp only [Bool.and_eq_true, decide_eq_true_eq] at place
    have tens : isAsciiDigit t = true := by
      simp [isAsciiDigit, place.1.1, place.1.2.trans (show '5' ≤ '9' by decide)]
    simp [isNumberRun, isDigitOrUnderscore, tens, place.2]
  · cases place

theorem isSexagesimal_runs (form : isSexagesimal isNumberRun whole = true) :
    ∀ p ∈ colonPieces whole, isNumberRun p = true := by
  unfold isSexagesimal at form
  split at form
  · rename_i first place places pieces
    simp only [Bool.and_eq_true, List.all_eq_true] at form
    rw [pieces]
    exact List.forall_mem_cons.mpr ⟨form.1, fun p member => isSexagesimalPlace_run (form.2 p member)⟩
  · cases form

theorem runs_shown (runs : ∀ p ∈ colonPieces whole, isNumberRun p = true) :
    ∀ c ∈ whole, c = ':' ∨ isDigitOrUnderscore c = true := by
  induction whole using pieces_induction with
  | last p last =>
    rw [colonPieces_last last] at runs
    exact fun c member => .inr (isNumberRun_digits (runs p (List.mem_singleton_self p)) c member)
  | more p rest first ih =>
    rw [colonPieces_more first, List.forall_mem_cons] at runs
    intro c member
    rcases List.mem_append.mp member with before | after
    · exact .inr (isNumberRun_digits runs.1 c before)
    · exact (List.mem_cons.mp after).elim .inl (ih runs.2 c)

theorem places_read (runs : ∀ p ∈ colonPieces whole, isNumberRun p = true)
    (digits : ∀ c ∈ fraction, isDigitOrUnderscore c = true) :
    ∃ xs, (colonPieces (withoutUnderscores (whole ++ '.' :: fraction))).mapM double = .ok xs := by
  have fractional : withoutUnderscores ('.' :: fraction) = '.' :: withoutUnderscores fraction := rfl
  induction whole using pieces_induction with
  | last p last =>
    rw [colonPieces_last last] at runs
    have run := runs p (List.mem_singleton_self p)
    obtain ⟨x, read⟩ := double_digits (isNumberRun_nonempty run)
      (withoutUnderscores_digits (isNumberRun_digits run))
      (.inr ⟨_, fractional, withoutUnderscores_digits digits⟩)
    have single : ':' ∉ withoutUnderscores (p ++ '.' :: fraction) := by
      intro member
      rcases List.mem_append.mp (List.mem_filter.mp member).1 with before | after
      · exact last before
      · rcases List.mem_cons.mp after with point | inside
        · cases point
        · cases digits _ inside
    rw [colonPieces_last single, withoutUnderscores_append, List.mapM_cons, read]
    exact ⟨[x], rfl⟩
  | more p rest first ih =>
    rw [colonPieces_more first, List.forall_mem_cons] at runs
    obtain ⟨xs, later⟩ := ih runs.2
    have run := runs.1
    obtain ⟨x, read⟩ := double_digits (isNumberRun_nonempty run)
      (withoutUnderscores_digits (isNumberRun_digits run)) (.inl rfl)
    rw [List.append_nil] at read
    have parts : withoutUnderscores (p ++ ':' :: rest ++ '.' :: fraction) =
        withoutUnderscores p ++ ':' :: withoutUnderscores (rest ++ '.' :: fraction) := by
      simp [withoutUnderscores]
    have alone : ':' ∉ withoutUnderscores p := fun member => first (List.mem_filter.mp member).1
    rw [parts, colonPieces_more alone, List.mapM_cons, read, later]
    exact ⟨x :: xs, rfl⟩

end Pieces

theorem sexagesimalDouble_beyond (xs : List Double) : ∀ sum k, k ≤ 174 → 174 < k + xs.length →
    sexagesimalDouble sum (60 ^ k) xs = .error (.fault .placeBeyondDouble) := by
  have beyond : Double.ofNat (60 ^ 174) = .infinite false := by decide +kernel
  induction xs with
  | nil =>
    intro sum k _ long
    simp at long
    omega
  | cons x rest ih =>
    intro sum k few long
    by_cases last : k = 174
    · subst last
      rw [sexagesimalDouble, beyond]
    · unfold sexagesimalDouble
      split
      · rfl
      · rw [← pow_succ]
        exact ih _ (k + 1) (by omega) (by simp at long; omega)

section Floats
variable {cs : List Char}

theorem dropSign_colons (cs : List Char) : (dropSign cs).count ':' = cs.count ':' := by
  unfold dropSign
  split <;> simp

theorem isExponent_uncoloned (exponent : isExponent cs = true) : ':' ∉ cs := by
  unfold isExponent at exponent
  split at exponent
  · simp
  · rename_i e s d rest
    simp only [Bool.and_eq_true, Bool.or_eq_true, decide_eq_true_eq, List.all_eq_true] at exponent
    obtain ⟨⟨⟨letter, sign⟩, digit⟩, digits⟩ := exponent
    intro colon
    rcases List.mem_cons.mp colon with rfl | colon
    · simp at letter
    rcases List.mem_cons.mp colon with rfl | colon
    · simp at sign
    rcases List.mem_cons.mp colon with rfl | colon
    · cases digit
    · cases digits _ colon
  · cases exponent

theorem words_uncoloned (word : isInfinityWord cs = true ∨ isNanWord cs = true) : ':' ∉ cs := by
  have infinities : ∀ w ∈ [".inf", ".Inf", ".INF"], ':' ∉ w.toList := by decide
  have nans : ∀ w ∈ [".nan", ".NaN", ".NAN"], ':' ∉ w.toList := by decide
  rcases word with word | word
  · obtain ⟨w, member, same⟩ := List.any_eq_true.mp word
    exact of_decide_eq_true same ▸ infinities w member
  · obtain ⟨w, member, same⟩ := List.any_eq_true.mp word
    exact of_decide_eq_true same ▸ nans w member

theorem isFloatText_sexagesimal (form : isFloatText cs = true) (colon : ':' ∈ cs) :
    ∃ whole fraction, dropSign cs = whole ++ '.' :: fraction ∧ isSexagesimal isNumberRun whole = true ∧
      ∀ c ∈ fraction, isDigitOrUnderscore c = true := by
  have inside : ':' ∈ dropSign cs := by
    rw [← List.count_pos_iff, dropSign_colons, List.count_pos_iff]
    exact colon
  have uncoloned {ds : List Char} (digits : ∀ c ∈ ds, isDigitOrUnderscore c = true) : ':' ∉ ds :=
    fun member => absurd (digits _ member) (by decide)
  unfold isFloatText at form
  extract_lets body whole at form
  split at form
  · rename_i after pointed
    extract_lets fraction tail at form
    have parts : body = whole ++ '.' :: (fraction ++ tail) := by
      have ended : after = fraction ++ tail := List.prefix_append_drop (List.takeWhile_prefix _)
      rw [← ended, ← pointed]
      exact List.prefix_append_drop (List.takeWhile_prefix _)
    have digits : ∀ c ∈ fraction, isDigitOrUnderscore c = true := fun c => List.mem_takeWhile_imp
    -- without an exponent the colon is in the whole part
    have before (exponent : isExponent tail = true) : ':' ∈ whole := by
      have after : ':' ∉ fraction ++ tail := by
        simp [uncoloned digits, isExponent_uncoloned exponent]
      have member : ':' ∈ whole ++ '.' :: (fraction ++ tail) := parts ▸ inside
      simpa [after] using member
    simp only [Bool.or_eq_true, Bool.and_eq_true] at form
    rcases form with (((plain | leading) | sexagesimal) | infinity) | nan
    · exact absurd (before plain.2) (uncoloned (isNumberRun_digits plain.1))
    · obtain ⟨rest, pointed⟩ := List.head?_eq_some_iff.mp (of_decide_eq_true leading.1.1)
      have empty : whole = [] := by simp [whole, body, pointed, dropSign]
      rw [empty] at before
      cases before leading.2
    · refine ⟨whole, fraction, ?_, sexagesimal.2, digits⟩
      simpa [List.isEmpty_iff.mp sexagesimal.1] using parts
    · exact absurd inside (words_uncoloned (.inl infinity))
    · exact absurd colon (words_uncoloned (.inr nan))
  · cases form

theorem lowerCase_same (same : ∀ c ∈ cs, lowerChar c = [c]) : lowerCase cs = cs := by
  induction cs with
  | nil => rfl
  | cons c cs ih =>
    have parts : lowerCase (c :: cs) = lowerChar c ++ lowerCase cs := by simp [lowerCase]
    rw [List.forall_mem_cons] at same
    rw [parts, same.1, ih same.2, List.singleton_append]

theorem mem_dropSign {c : Char} (member : c ∈ cs) : c ∈ dropSign cs ∨ c = '+' ∨ c = '-' := by
  unfold dropSign
  split
  · exact (List.mem_cons.mp member).elim (fun sign => .inr (.inl sign)) .inl
  · exact (List.mem_cons.mp member).elim (fun sign => .inr (.inr sign)) .inl
  · exact .inl member

theorem splitSign_dropSign {d : Char} {rest : List Char} (digit : isAsciiDigit d = true)
    (body : dropSign cs = d :: rest) :
    (splitSign (withoutUnderscores cs)).2 = withoutUnderscores (d :: rest) := by
  unfold dropSign at body
  split at body
  · subst body
    rfl
  · subst body
    rfl
  · subst body
    have kept : withoutUnderscores (d :: rest) = d :: withoutUnderscores rest := by
      have other : d ≠ '_' := by
        rintro rfl
        cases digit
      simp [withoutUnderscores, other]
    rw [kept]
    unfold splitSign
    split
    · rename_i minus
      cases List.head_eq_of_cons_eq minus
      cases digit
    · rename_i plus
      cases List.head_eq_of_cons_eq plus
      cases digit
    · rfl

theorem sexagesimal_lower {whole fraction : List Char} (body : dropSign cs = whole ++ '.' :: fraction)
    (runs : ∀ p ∈ colonPieces whole, isNumberRun p = true)
    (digits : ∀ c ∈ fraction, isDigitOrUnderscore c = true) : floatWord cs = withoutUnderscores cs := by
  have shown {c : Char} (member : c ∈ dropSign cs) : c = '.' ∨ c = ':' ∨ isDigitOrUnderscore c = true := by
    rw [body] at member
    rcases List.mem_append.mp member with before | after
    · exact .inr (runs_shown runs c before)
    · exact (List.mem_cons.mp after).imp id fun inside => .inr (digits c inside)
  refine lowerCase_same fun c member => ?_
  obtain ⟨inside, other⟩ := List.mem_filter.mp member
  rcases mem_dropSign inside with inside | rfl | rfl
  · rcases shown inside with rfl | rfl | digit
    · decide
    · decide
    · have digit : isAsciiDigit c = true := by simp_all [isDigitOrUnderscore]
      rw [lowerChar, if_pos (isAsciiDigit_below digit), isAsciiDigit_lower digit]
  · decide
  · decide

theorem sexagesimal_split {whole fraction : List Char} (body : dropSign cs = whole ++ '.' :: fraction)
    (sexagesimal : isSexagesimal isNumberRun whole = true) :
    (splitSign (withoutUnderscores cs)).2 = withoutUnderscores (dropSign cs) := by
  have first : ∀ ds, isNumberRun ds = true → LeadsDigit ds := by
    intro ds run
    cases ds with
    | nil => cases run
    | cons d ds => exact ⟨d, ds, rfl, (Bool.and_eq_true_iff.mp run).1⟩
  obtain ⟨d, rest, rfl, digit⟩ := isSexagesimal_leads first sexagesimal
  rw [splitSign_dropSign digit body, body]
  rfl

theorem mapM_length {as : List (List Char)} {xs : List Double} (read : as.mapM double = .ok xs) :
    xs.length = as.length := by
  have same : Ends _ (fun xs => xs.length = as.length) (as.mapM double) :=
    ends_mapM fun p => double_ends (P := fun _ => True) p
  rwa [read] at same

/-- Of so many places the last one is beyond the doubles. -/
theorem float_beyond (form : isFloatText cs = true) (many : 174 ≤ cs.count ':') :
    float cs = .error (.fault .placeBeyondDouble) := by
  have colon : ':' ∈ cs := List.count_pos_iff.mp (by omega)
  obtain ⟨whole, fraction, body, sexagesimal, digits⟩ := isFloatText_sexagesimal form colon
  have runs := isSexagesimal_runs sexagesimal
  obtain ⟨xs, read⟩ := places_read runs digits
  rw [← body] at read
  have counted : (withoutUnderscores (dropSign cs)).count ':' = cs.count ':' := by
    rw [withoutUnderscores, List.count_filter (by decide), dropSign_colons]
  have length : xs.length = cs.count ':' + 1 := by
    rw [mapM_length read, colonPieces, splitOn_length, counted]
  have inside : ':' ∈ withoutUnderscores (dropSign cs) := List.count_pos_iff.mp (by omega)
  have other : ∀ w ∈ [".inf".toList, nanWord], withoutUnderscores (dropSign cs) ≠ w := by
    intro w member same
    have none : ∀ w ∈ [".inf".toList, nanWord], ':' ∉ w := by decide
    exact none w member (same ▸ inside)
  have nonempty : withoutUnderscores cs ≠ [] := List.ne_nil_of_mem (List.mem_filter.mpr ⟨colon, by decide⟩)
  have overflow := sexagesimalDouble_beyond xs.reverse (.zero false) 0 (by omega) (by simp; omega)
  have split := sexagesimal_split body sexagesimal
  unfold float
  dsimp only
  rw [sexagesimal_lower body runs digits]
  cases pair : splitSign (withoutUnderscores cs) with
  | mk negative rest =>
    rw [pair] at split
    obtain rfl : rest = _ := split
    rw [if_neg (by simpa using nonempty), if_neg (other _ (by simp)), if_neg (other _ (by simp)),
      if_pos (List.contains_iff_mem.mpr inside), read]
    rw [pow_zero] at overflow
    simp only [bind, Except.bind, overflow]

end Floats

end ScalarValue
end MailRules.Yaml
