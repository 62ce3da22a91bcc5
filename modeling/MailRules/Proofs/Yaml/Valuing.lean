import Mathlib
import MailRules.Proofs.Yaml.Scanning
import MailRules.Yaml.Datum.Scalar
/-!
The values of scalars. Each reader of a kind of value is at fault in one way; where the tag of a
scalar follows from its spelling it is not, but for numbers in base sixty of very many places.
-/
namespace MailRules.Yaml
open MailRules.Text MailRules.Number

def ScalarFailure.FaultAs (P : Fault → Prop) : ScalarFailure → Prop
  | .fault f => P f
  | _ => True

abbrev ScalarFailure.Allowed (text : List Char) : ScalarFailure → Prop :=
  ScalarFailure.FaultAs (Provokes text)

theorem ScalarFailure.faultAs_weaken {P P' : Fault → Prop} (weaker : ∀ f, P f → P' f)
    (e : ScalarFailure) (faultAs : e.FaultAs P) : e.FaultAs P' := by
  cases e with
  | fault f => exact weaker f faultAs
  | _ => trivial

namespace ScalarValue

section Readers
variable {text : List Char} {P : Fault → Prop}

theorem ends_mapM {α β ε : Type} {E : ε → Prop} {read : α → Except ε β} {as : List α}
    (each : ∀ a, Ends E (fun _ => True) (read a)) : Ends E (fun bs => bs.length = as.length) (as.mapM read) := by
  induction as with
  | nil => rfl
  | cons a as ih =>
    rw [List.mapM_cons]
    refine ends_bind (each a) fun b _ => ?_
    refine ends_bind ih fun bs same => ?_
    exact congrArg Nat.succ same

theorem bool_ends (cs : List Char) :
    Ends (ScalarFailure.FaultAs fun f => f = .unknownBoolean ∧
      ¬isOneOf ["yes", "true", "on", "no", "false", "off"] (lowerCase cs)) (fun _ => True) (bool cs) := by
  unfold bool
  dsimp only
  split
  · trivial
  · split
    · trivial
    · exact ⟨rfl, by simp_all [isOneOf]⟩

theorem integer_ends (base : Nat) (cs : List Char) :
    Ends (ScalarFailure.FaultAs P) (fun _ => True) (integer base cs) := by
  unfold integer
  cases readInteger base cs <;> trivial

theorem int_ends (cs : List Char) :
    Ends (ScalarFailure.FaultAs fun f => f = .emptyNumber ∧
      (splitSign (withoutUnderscores cs)).2 = []) (fun _ => True) (int cs) := by
  unfold int
  dsimp only
  split
  · rename_i empty
    exact ⟨rfl, by rw [List.isEmpty_iff.mp empty]; rfl⟩
  · split
    · exact ⟨rfl, ‹_›⟩
    · trivial
    · exact ends_bind (integer_ends 2 _) fun _ _ => trivial
    · exact ends_bind (integer_ends 16 _) fun _ _ => trivial
    · exact ends_bind (integer_ends 8 _) fun _ _ => trivial
    · split
      · exact ends_bind (ends_mapM (integer_ends 10)) fun _ _ => trivial
      · exact ends_bind (integer_ends 10 _) fun _ _ => trivial

theorem double_ends (cs : List Char) :
    Ends (ScalarFailure.FaultAs P) (fun _ => True) (double cs) := by
  unfold double
  split <;> trivial

theorem binary_ends (cs : List Char) :
    Ends (ScalarFailure.FaultAs P) (fun _ => True) (binary cs) := by
  unfold binary
  split
  · trivial
  · split <;> trivial

theorem outOfRange_ends {α : Type} (r : Except Calendar.OutOfRange α) :
    Ends (ScalarFailure.FaultAs P) (fun _ => True) (r.mapError outOfRange) := by
  cases r <;> trivial

theorem timestamp_ends (cs : List Char) :
    Ends (ScalarFailure.FaultAs fun f => f = .noTimestamp ∧
      timestampText? (if cs.getLast? = some '\n' then cs.dropLast else cs) = none) (fun _ => True)
      (timestamp cs) := by
  unfold timestamp
  generalize (if cs.getLast? = some '\n' then cs.dropLast else cs) = ds
  cases read : timestampText? ds with
  | none => exact ⟨rfl, rfl⟩
  | some t =>
    dsimp only
    split
    · exact ends_bind (outOfRange_ends _) fun _ _ => trivial
    · split
      · split
        · trivial
        · exact ends_bind (outOfRange_ends _) fun _ _ => trivial
      · exact ends_bind (outOfRange_ends _) fun _ _ => trivial

theorem place_finite (k : Nat) (few : k < 174) : ∀ s, Double.ofNat (60 ^ k) ≠ .infinite s := by
  have all : ∀ k < 174, Double.ofNat (60 ^ k) ≠ .infinite false ∧
      Double.ofNat (60 ^ k) ≠ .infinite true := by decide +kernel
  intro s
  cases s
  · exact (all k few).1
  · exact (all k few).2

theorem sexagesimalDouble_ends (xs : List Double) :
    ∀ sum k, Ends (ScalarFailure.FaultAs fun f => f = .placeBeyondDouble ∧ 174 < k + xs.length)
      (fun _ => True) (sexagesimalDouble sum (60 ^ k) xs) := by
  induction xs with
  | nil => exact fun _ _ => trivial
  | cons x rest ih =>
    intro sum k
    unfold sexagesimalDouble
    split
    · rename_i s infinite
      refine ⟨rfl, ?_⟩
      by_contra few
      simp only [List.length_cons] at few
      exact place_finite k (by omega) s infinite
    · have later := ih (sum + x * Double.ofNat (60 ^ k)) (k + 1)
      rw [pow_succ] at later
      refine ends_weaken later (ScalarFailure.faultAs_weaken fun f holds => ?_) fun _ => id
      exact ⟨holds.1, by simpa [Nat.add_right_comm, Nat.add_assoc] using holds.2⟩

theorem splitOn_length (c : Char) (cs : List Char) : (cs.splitOn c).length = cs.count c + 1 := by
  induction cs with
  | nil => simp
  | cons d cs ih =>
    rw [List.splitOn_eq_splitOnP] at ih ⊢
    rw [List.splitOnP_cons_eq_if_modifyHead, List.count_cons]
    split <;> simp_all

theorem splitSign_suffix (cs : List Char) : (splitSign cs).2 <:+ cs := by
  unfold splitSign
  split
  · exact List.suffix_cons _ _
  · exact List.suffix_cons _ _
  · exact List.suffix_refl _

theorem toLower_colon {c : Char} (ascii : c.toNat < 0x80) (colon : c.toLower = ':') : c = ':' := by
  have all : ∀ n < 0x80, (Char.ofNat n).toLower = ':' → Char.ofNat n = ':' := by decide
  simpa using all c.toNat ascii (by simpa using colon)

theorem lowerRuns_above :
    ∀ r ∈ lowerRuns, 0x80 ≤ r.last → 0x3A < (r.first : Int) + r.offset := by
  decide +kernel

theorem ofNat_colon {n : Nat} (colon : Char.ofNat n = ':') : n = 0x3A := by
  have value := congrArg Char.toNat colon
  rw [Char.toNat_ofNat] at value
  split at value <;> simp_all

theorem mapCase_colon {c : Char} (beyond : 0x80 ≤ c.toNat) :
    ':' ∉ mapCase lowerRuns lowerExpansions c := by
  intro colon
  unfold mapCase at colon
  split at colon
  · rename_i ns found
    have pair : ns = [0x69, 0x307] := by
      simp only [lowerExpansions, List.lookup_cons, List.lookup_nil] at found
      split at found <;> simp_all
    subst pair
    exact absurd colon (by decide)
  · split at colon
    · rename_i r found
      have covers := List.find?_some found
      have above := lowerRuns_above r (List.mem_of_find?_eq_some found)
      simp only [CaseRun.covers, Bool.and_eq_true, decide_eq_true_eq] at covers
      have value := ofNat_colon (List.mem_singleton.mp colon).symm
      omega
    · have same := List.mem_singleton.mp colon
      subst same
      exact absurd beyond (by decide)

theorem lowerChar_colons (c : Char) : (lowerChar c).count ':' ≤ [c].count ':' := by
  unfold lowerChar
  split
  · rename_i ascii
    simp only [List.count_singleton, beq_iff_eq]
    split
    · rename_i colon
      simp [toLower_colon ascii colon]
    · exact Nat.zero_le _
  · rename_i beyond
    rw [List.count_eq_zero.mpr (mapCase_colon (not_lt.mp beyond))]
    exact Nat.zero_le _

theorem lowerCase_colons (cs : List Char) : (lowerCase cs).count ':' ≤ cs.count ':' := by
  induction cs with
  | nil => simp [lowerCase]
  | cons c cs ih =>
    have first := lowerChar_colons c
    have parts : lowerCase (c :: cs) = lowerChar c ++ lowerCase cs := by simp [lowerCase]
    rw [parts, List.count_append, ← List.singleton_append, List.count_append]
    omega

theorem floatWord_colons (cs : List Char) : (floatWord cs).count ':' ≤ cs.count ':' :=
  (lowerCase_colons _).trans (List.filter_sublist.count_le ':')

theorem float_ends (cs : List Char) :
    Ends (ScalarFailure.FaultAs fun f => f = .emptyNumber ∧ floatWord cs = [] ∨
      f = .placeBeyondDouble ∧ 174 ≤ cs.count ':') (fun _ => True) (float cs) := by
  unfold float
  dsimp only
  split
  · rename_i empty
    exact .inl ⟨rfl, List.isEmpty_iff.mp empty⟩
  · split
    · trivial
    · split
      · trivial
      · split
        · refine ends_bind (ends_mapM double_ends) fun places same => ?_
          have many : places.length ≤ cs.count ':' + 1 := by
            have body := (splitSign_suffix (floatWord cs)).sublist.count_le ':'
            have word := floatWord_colons cs
            rw [same, colonPieces, splitOn_length]
            omega
          have places_ends := sexagesimalDouble_ends places.reverse (.zero false) 0
          rw [pow_zero] at places_ends
          refine ends_bind (ends_weaken places_ends (ScalarFailure.faultAs_weaken fun f holds => ?_)
            fun _ => id) fun _ _ => trivial
          have beyond := holds.2
          rw [List.length_reverse] at beyond
          exact .inr ⟨holds.1, by omega⟩
        · exact ends_bind (double_ends _) fun _ _ => trivial

end Readers

/-! Tags that follow from a spelling -/

section Spellings
variable {text cs : List Char}

/-- A tag is written somewhere, or this one follows from the spelling of a plain scalar. -/
def Spelled (text : List Char) (tag : String) (cs : List Char) : Prop :=
  '!' ∈ text ∨ tag = Tag.ofText cs ∧ Scan.IsPlain text cs

theorem forms_unique {tag : String} {p q : List Char → Bool} (one : (tag, p) ∈ forms)
    (other : (tag, q) ∈ forms) : p = q := by
  have distinct : (forms.map Prod.fst).Nodup := by decide
  exact congrArg Prod.snd (List.inj_on_of_nodup_map distinct one other rfl)

/-- Where no tag is written, a scalar under the tag of a form has that form. -/
theorem form_of_spelled {tag : String} {p : List Char → Bool} (here : (tag, p) ∈ forms)
    (spelled : Spelled text tag cs) : '!' ∈ text ∨ p cs = true := by
  refine spelled.imp id fun plain => ?_
  obtain ⟨same, noFeed, -⟩ := plain
  have whole : withoutFinalBreak cs = cs := by simp [withoutFinalBreak, noFeed]
  unfold Tag.ofText at same
  cases found : forms.find? fun f => f.2 (withoutFinalBreak cs) with
  | none =>
    have noText : ∀ f ∈ forms, f.1 ≠ Tag.str := by decide
    exact absurd (by simpa [found] using same) (noText _ here)
  | some f =>
    have spells := List.find?_some found
    have tag_eq : tag = f.1 := by simpa [found] using same
    have there : (tag, f.2) ∈ forms := tag_eq ▸ List.mem_of_find?_eq_some found
    rwa [whole, forms_unique there here] at spells

theorem boolWords_lower :
    ∀ w ∈ boolWords, isOneOf ["yes", "true", "on", "no", "false", "off"] (lowerCase w.toList) := by
  decide +kernel

theorem bool_allowed (spelled : Spelled text Tag.bool cs) :
    Ends (ScalarFailure.Allowed text) (fun _ => True) (bool cs) := by
  have form := form_of_spelled (p := isOneOf boolWords) (by simp [forms]) spelled
  refine ends_weaken (bool_ends cs) (ScalarFailure.faultAs_weaken ?_) fun _ => id
  rintro f ⟨rfl, unknown⟩
  refine form.resolve_right fun spells => unknown ?_
  obtain ⟨w, word, same⟩ := List.any_eq_true.mp spells
  have written : w.toList = cs := by simpa using same
  exact written ▸ boolWords_lower w word

def LeadsDigit (cs : List Char) : Prop := ∃ d rest, cs = d :: rest ∧ isAsciiDigit d = true

theorem leadsDigit_of_piece {p : List Char} {ps : List (List Char)} (pieces : colonPieces cs = p :: ps)
    (leads : LeadsDigit p) : LeadsDigit cs := by
  obtain ⟨d, rest, rfl, digit⟩ := leads
  cases cs with
  | nil => simp [colonPieces] at pieces
  | cons c cs =>
    rw [colonPieces, List.splitOn_eq_splitOnP, List.splitOnP_cons_eq_if_modifyHead] at pieces
    split at pieces
    · simp at pieces
    · cases after : List.splitOnP (fun x => x == ':') cs with
      | nil => simp [after] at pieces
      | cons q qs =>
        rw [after, List.modifyHead_cons] at pieces
        injection pieces with first _
        injection first with head _
        exact ⟨c, cs, rfl, head ▸ digit⟩

theorem isSexagesimal_leads {isFirst : List Char → Bool}
    (first : ∀ ds, isFirst ds = true → LeadsDigit ds) (sexagesimal : isSexagesimal isFirst cs = true) :
    LeadsDigit cs := by
  unfold isSexagesimal at sexagesimal
  split at sexagesimal
  · rename_i p q qs pieces
    exact leadsDigit_of_piece pieces (first p (Bool.and_eq_true_iff.mp sexagesimal).1)
  · cases sexagesimal

theorem isIntText_leads (form : isIntText cs = true) : LeadsDigit (dropSign cs) := by
  unfold isIntText at form
  extract_lets startsAtOne isOctal isBinary isHex at form
  have first : ∀ ds, startsAtOne ds = true → LeadsDigit ds := by
    intro ds starts
    cases ds with
    | nil => cases starts
    | cons d rest =>
      simp only [startsAtOne, Bool.and_eq_true, decide_eq_true_eq] at starts
      have above : '0' ≤ d := le_trans (by decide) starts.1.1
      exact ⟨d, rest, rfl, by simp [isAsciiDigit, above, starts.1.2]⟩
  split at form
  · exact ⟨_, _, ‹_›, by decide⟩
  · exact ⟨_, _, ‹_›, by decide⟩
  · exact ⟨_, _, ‹_›, by decide⟩
  · rcases Bool.or_eq_true_iff.mp form with starts | sexagesimal
    · exact first _ starts
    · exact isSexagesimal_leads first sexagesimal

theorem splitSign_leads (leads : LeadsDigit (dropSign cs)) :
    (splitSign (withoutUnderscores cs)).2 ≠ [] := by
  obtain ⟨d, rest, same, digit⟩ := leads
  have digits : withoutUnderscores (d :: rest) = d :: withoutUnderscores rest := by
    have noUnderscore : d ≠ '_' := by rintro rfl; cases digit
    simp [withoutUnderscores, noUnderscore]
  unfold dropSign at same
  split at same
  · subst same
    have plus : (splitSign (withoutUnderscores ('+' :: d :: rest))).2 = d :: withoutUnderscores rest :=
      congrArg (fun ds => (splitSign ('+' :: ds)).2) digits
    exact plus ▸ List.cons_ne_nil _ _
  · subst same
    have minus : (splitSign (withoutUnderscores ('-' :: d :: rest))).2 = d :: withoutUnderscores rest :=
      congrArg (fun ds => (splitSign ('-' :: ds)).2) digits
    exact minus ▸ List.cons_ne_nil _ _
  · rw [same, digits]
    unfold splitSign
    split
    · rename_i minus
      cases List.head_eq_of_cons_eq minus
      cases digit
    · rename_i plus
      cases List.head_eq_of_cons_eq plus
      cases digit
    · simp

theorem int_allowed (spelled : Spelled text Tag.int cs) :
    Ends (ScalarFailure.Allowed text) (fun _ => True) (int cs) := by
  have form := form_of_spelled (p := isIntText) (by simp [forms]) spelled
  refine ends_weaken (int_ends cs) (ScalarFailure.faultAs_weaken ?_) fun _ => id
  rintro f ⟨rfl, empty⟩
  exact form.resolve_right fun spells => splitSign_leads (isIntText_leads spells) empty

theorem floatWord_ne_nil (form : isFloatText cs = true) : floatWord cs ≠ [] := by
  have point : '.' ∈ cs := by
    unfold isFloatText at form
    dsimp only at form
    split at form
    · rename_i after same
      have inside : '.' ∈ dropSign cs := List.mem_of_mem_drop (same ▸ List.mem_cons_self)
      unfold dropSign at inside
      split at inside
      · exact List.mem_cons_of_mem _ inside
      · exact List.mem_cons_of_mem _ inside
      · exact inside
    · cases form
  have kept : '.' ∈ withoutUnderscores cs := by simp [withoutUnderscores, point]
  have lower : '.' ∈ floatWord cs := List.mem_flatMap.mpr ⟨'.', kept, by decide⟩
  exact List.ne_nil_of_mem lower

theorem float_allowed (spelled : Spelled text Tag.float cs) :
    Ends (ScalarFailure.Allowed text) (fun _ => True) (float cs) := by
  have form := form_of_spelled (p := isFloatText) (by simp [forms]) spelled
  refine ends_weaken (float_ends cs) (ScalarFailure.faultAs_weaken ?_) fun _ => id
  rintro f (⟨rfl, empty⟩ | ⟨rfl, many⟩)
  · exact form.resolve_right fun spells => floatWord_ne_nil spells empty
  · exact spelled.imp id fun plain => many.trans plain.2.2

theorem timestamp_allowed (spelled : Spelled text Tag.timestamp cs) :
    Ends (ScalarFailure.Allowed text) (fun _ => True) (timestamp cs) := by
  have form := form_of_spelled (p := isTimestampText) (by simp [forms]) spelled
  refine ends_weaken (timestamp_ends cs) (ScalarFailure.faultAs_weaken ?_) fun _ => id
  rintro f ⟨rfl, noTimestamp⟩
  rcases spelled with exclamation | ⟨-, noFeed, -⟩
  · exact exclamation
  · refine form.resolve_right fun spells => ?_
    rw [if_neg noFeed] at noTimestamp
    rw [isTimestampText, noTimestamp] at spells
    cases spells

end Spellings
end ScalarValue
end MailRules.Yaml
