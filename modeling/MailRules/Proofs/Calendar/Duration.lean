import Mathlib
import MailRules.Calendar.Duration
/-!
Which texts are durations, and what is read from them. Parts are looked for wherever they may stand;
they are read only where they follow on one another from the first character to the last, and then
they are the one way to divide the text into parts.
-/
namespace MailRules.Calendar.Duration
open MailRules.Text MailRules.Number

/-! Parts and their texts -/

/-- The number has nothing but digits on either side of its point, and at least one of them. -/
structure Part.WellFormed (p : Part) : Prop where
  whole : ∀ c ∈ p.whole, isDecimalDigit c = true
  fraction : ∀ c ∈ p.fractionDigits, isDecimalDigit c = true
  digits : p.whole ≠ [] ∨ p.fractionDigits ≠ []

def written (ps : List Part) : List Char := ps.flatMap Part.text

def Composes (ps : List Part) (cs : List Char) : Prop :=
  (∀ p ∈ ps, p.WellFormed) ∧ cs = written ps

def Breaks (rest : List Char) : Prop := ∀ c, rest.head? = some c → isDecimalDigit c = false

/-- Minutes are milliseconds where an `s` follows. -/
def Apart (u : TimeUnit) (rest : List Char) : Prop := u = .m → rest.head? ≠ some 's'

variable {p : Part} {ps : List Part} {cs rest : List Char}

theorem takeWhile_digits {ds : List Char} (digits : ∀ c ∈ ds, isDecimalDigit c = true)
    (breaks : Breaks rest) : (ds ++ rest).takeWhile isDecimalDigit = ds := by
  rw [List.takeWhile_append_of_pos digits]
  cases rest with
  | nil => simp
  | cons c rest => simp [breaks c rfl]

theorem unit_head (u : TimeUnit) (rest : List Char) :
    ∃ c more, u.spelling ++ rest = c :: more ∧ isDecimalDigit c = false ∧ c ≠ '.' := by
  cases u <;> exact ⟨_, _, rfl, by decide, by decide⟩

theorem unit_breaks (u : TimeUnit) (rest : List Char) : Breaks (u.spelling ++ rest) := by
  obtain ⟨c, more, same, noDigit, _⟩ := unit_head u rest
  intro d head
  rw [same] at head
  cases head
  exact noDigit

theorem unitAt_spelling {u : TimeUnit} (apart : Apart u rest) :
    unitAt? (u.spelling ++ rest) = some u := by
  cases u with
  | m =>
    have next := apart rfl
    cases rest with
    | nil => rfl
    | cons c rest =>
      have noS : c ≠ 's' := by simpa using next
      simp [unitAt?, TimeUnit.all, TimeUnit.spelling, Ne.symm noS]
  | _ => simp [unitAt?, TimeUnit.all, TimeUnit.spelling]

theorem spelling_of_unitAt {u : TimeUnit} (found : unitAt? cs = some u) :
    cs = u.spelling ++ cs.drop u.spelling.length := by
  have starts : u.spelling <+: cs := by simpa using List.find?_some found
  exact (List.prefix_iff_eq_append.mp starts).symm

theorem part_text (whole fraction : List Char) (u : TimeUnit) :
    Part.text ⟨whole, none, u⟩ = whole ++ u.spelling ∧
      Part.text ⟨whole, some fraction, u⟩ = whole ++ '.' :: fraction ++ u.spelling := by
  simp [Part.text]

theorem text_ne_nil (p : Part) : p.text ≠ [] := by
  obtain ⟨c, more, same, _⟩ := unit_head p.unit []
  rw [List.append_nil] at same
  simp [Part.text, same]

theorem partAt_text (formed : p.WellFormed) (apart : Apart p.unit rest) :
    partAt? (p.text ++ rest) = some (p, rest) := by
  obtain ⟨whole, fraction, u⟩ := p
  have unit := unitAt_spelling apart
  cases fraction with
  | none =>
    have some : whole ≠ [] := by simpa [Part.fractionDigits] using formed.digits
    have run := takeWhile_digits formed.whole (unit_breaks u rest)
    obtain ⟨c, more, spelled, _, noPoint⟩ := unit_head u rest
    simp only [partAt?, (part_text whole [] u).1, List.append_assoc, run, List.drop_left]
    split
    · rename_i _ same
      rw [spelled] at same
      cases same
      exact (noPoint rfl).elim
    · simp [some, unit]
  | some ds =>
    have digits : whole = [] → ds ≠ [] := by
      intro none
      simpa [none, Part.fractionDigits] using formed.digits
    have point : Breaks ('.' :: (ds ++ (u.spelling ++ rest))) := by
      intro d head
      cases head
      decide
    have run := takeWhile_digits formed.whole point
    have fraction : ∀ c ∈ ds, isDecimalDigit c = true := formed.fraction
    have after := takeWhile_digits fraction (unit_breaks u rest)
    simp only [partAt?, (part_text whole ds u).2, List.append_assoc, List.cons_append, run,
      List.drop_left, after]
    simpa [unit] using digits

theorem run_append (cs : List Char) :
    cs = cs.takeWhile isDecimalDigit ++ cs.drop (cs.takeWhile isDecimalDigit).length :=
  (List.prefix_iff_eq_append.mp (List.takeWhile_prefix _)).symm

theorem run_digits (cs : List Char) : ∀ c ∈ cs.takeWhile isDecimalDigit, isDecimalDigit c = true :=
  fun _ member => List.mem_takeWhile_imp member

theorem part_of_unit {whole following : List Char} {fraction : Option (List Char)}
    (found : (if whole.isEmpty && (fraction.getD []).isEmpty then none
      else match unitAt? following with
        | some unit => some (Part.mk whole fraction unit, following.drop unit.spelling.length)
        | none => none) = some (p, rest)) :
    p.whole = whole ∧ p.fraction = fraction ∧ (p.whole ≠ [] ∨ p.fractionDigits ≠ []) ∧
      following = p.unit.spelling ++ rest := by
  split at found
  · cases found
  · rename_i digits
    split at found
    · rename_i u unit
      cases found
      refine ⟨rfl, rfl, ?_, spelling_of_unitAt unit⟩
      simpa [Part.fractionDigits, imp_iff_not_or] using digits
    · cases found

theorem part_of_partAt (found : partAt? cs = some (p, rest)) :
    p.WellFormed ∧ cs = p.text ++ rest := by
  have number := run_append cs
  generalize after : cs.drop (cs.takeWhile isDecimalDigit).length = tail at number
  simp only [partAt?, after] at found
  obtain ⟨w, f, u⟩ := p
  split at found
  · rename_i more
    obtain ⟨rfl, rfl, digits, spelled⟩ := part_of_unit found
    refine ⟨⟨run_digits cs, run_digits more, digits⟩, ?_⟩
    rw [(part_text _ _ _).2, List.append_assoc, ← spelled, List.append_assoc, List.cons_append,
      ← run_append more]
    exact number
  · obtain ⟨rfl, rfl, digits, spelled⟩ := part_of_unit found
    refine ⟨⟨run_digits cs, by simp [Part.fractionDigits], digits⟩, ?_⟩
    rw [(part_text _ [] _).1, List.append_assoc, ← spelled]
    exact number

/-! The scan -/

def placed (place : Nat) : List Part → List Found
  | [] => []
  | p :: ps => ⟨p, place, place + p.text.length⟩ :: placed (place + p.text.length) ps

variable {place : Nat}

theorem partsFrom_skipped (place : Nat) (skipped rest : List Char) :
    partsFrom place skipped.length (skipped ++ rest) = partsFrom (place + skipped.length) 0 rest := by
  induction skipped generalizing place with
  | nil => rfl
  | cons c skipped ih =>
    have later := ih (place + 1)
    rw [Nat.add_assoc, Nat.add_comm 1] at later
    exact later

theorem partsFrom_part (found : partAt? (p.text ++ rest) = some (p, rest)) :
    partsFrom place 0 (p.text ++ rest) =
      ⟨p, place, place + p.text.length⟩ :: partsFrom (place + p.text.length) 0 rest := by
  cases text : p.text with
  | nil => exact (text_ne_nil p text).elim
  | cons c more =>
    rw [text, List.cons_append] at found
    have after := partsFrom_skipped (place + 1) more rest
    have own : (c :: (more ++ rest)).length - rest.length = more.length + 1 := by
      simp only [List.length_cons, List.length_append]
      omega
    have left : (more ++ rest).length - rest.length = more.length := by simp
    have stop : place + (more.length + 1) = place + 1 + more.length := by omega
    rw [List.cons_append, partsFrom]
    simp only [found, own, left, after]
    rw [List.length_cons, stop]

theorem partsFrom_start (cs : List Char) (skip : Nat) :
    ∀ f ∈ partsFrom place skip cs, place ≤ f.start := by
  induction cs generalizing place skip with
  | nil => simp [partsFrom]
  | cons c cs ih =>
    have later (skip : Nat) : ∀ f ∈ partsFrom (place + 1) skip cs, place ≤ f.start := by
      intro f member
      have := ih skip f member
      omega
    intro f member
    unfold partsFrom at member
    split at member
    · exact later _ f member
    · split at member
      · rcases List.mem_cons.mp member with rfl | member
        · exact Nat.le_refl _
        · exact later _ f member
      · exact later _ f member

theorem visit_gap {found : List Found} (gap : ∀ f ∈ found, place < f.start) :
    visit place found = ([], place) := by
  cases found with
  | nil => rfl
  | cons f found =>
    have := gap f List.mem_cons_self
    simp [visit, Nat.ne_of_gt this]

def StandAtStart (cs : List Char) (place : Nat) (visited : List Part × Nat) : Prop :=
  ∃ rest, (∀ p ∈ visited.1, p.WellFormed) ∧ cs = written visited.1 ++ rest ∧
    visited.2 + rest.length = place + cs.length

/-- By induction on the length of the text: a visit takes the first part, or it stops. -/
theorem visit_partsFrom (n place : Nat) (length : cs.length = n) :
    StandAtStart cs place (visit place (partsFrom place 0 cs)) := by
  induction n using Nat.strongRecOn generalizing cs place with
  | ind n ih =>
    cases found : partAt? cs with
    | none =>
      have gap : visit place (partsFrom place 0 cs) = ([], place) := by
        cases cs with
        | nil => rfl
        | cons c cs =>
          have later : partsFrom place 0 (c :: cs) = partsFrom (place + 1) 0 cs := by
            simp [partsFrom, found]
          rw [later]
          exact visit_gap fun f member => partsFrom_start cs 0 f member
      rw [gap]
      exact ⟨cs, by simp, rfl, rfl⟩
    | some pair =>
      obtain ⟨p, rest⟩ := pair
      obtain ⟨formed, rfl⟩ := part_of_partAt found
      have shorter : rest.length < n := by
        have := List.length_pos_iff.mpr (text_ne_nil p)
        rw [List.length_append] at length
        omega
      obtain ⟨after, formedLater, same, stop⟩ := ih rest.length shorter (place + p.text.length) rfl
      rw [partsFrom_part found]
      simp only [visit, ↓reduceIte]
      refine ⟨after, ?_, ?_, ?_⟩
      · intro q member
        rcases List.mem_cons.mp member with rfl | member
        · exact formed
        · exact formedLater q member
      · rw [written, List.flatMap_cons, List.append_assoc]
        exact congrArg (p.text ++ ·) same
      · rw [stop, List.length_append]
        omega

theorem written_apart (formed : ∀ p ∈ ps, p.WellFormed) (u : TimeUnit) : Apart u (written ps) := by
  intro _
  cases ps with
  | nil => simp [written]
  | cons p ps =>
    obtain ⟨whole, fraction, digits⟩ := formed p List.mem_cons_self
    have noDigit : isDecimalDigit 's' = false := by decide
    cases start : p.whole with
    | cons c more =>
      have digit := whole c (by simp [start])
      have head : (written (p :: ps)).head? = some c := by simp [written, Part.text, start]
      rw [head]
      rintro ⟨⟩
      simp [digit] at noDigit
    | nil =>
      have some : p.fractionDigits ≠ [] := digits.resolve_left (by simp [start])
      cases point : p.fraction with
      | none => simp [Part.fractionDigits, point] at some
      | some ds => simp [written, Part.text, start, point]

/-- Parts that follow one another are all that the scan finds. -/
theorem partsFrom_written (formed : ∀ p ∈ ps, p.WellFormed) (place : Nat) :
    partsFrom place 0 (written ps) = placed place ps := by
  induction ps generalizing place with
  | nil => rfl
  | cons p ps ih =>
    have later : ∀ q ∈ ps, q.WellFormed := fun q member => formed q (List.mem_cons_of_mem p member)
    have found := partAt_text (formed p List.mem_cons_self) (written_apart later p.unit)
    rw [written, List.flatMap_cons]
    change partsFrom place 0 (p.text ++ written ps) = _
    rw [partsFrom_part found, ih later]
    rfl

theorem visit_placed (ps : List Part) (place : Nat) :
    visit place (placed place ps) = (ps, place + (written ps).length) := by
  induction ps generalizing place with
  | nil => rfl
  | cons p ps ih => simp [placed, visit, ih, written, Nat.add_assoc]

/-- A text is read as the parts that it is the concatenation of. -/
theorem parts_iff : parts? cs = some ps ↔ Composes ps cs := by
  constructor
  · intro read
    obtain ⟨rest, formed, same, stop⟩ := visit_partsFrom cs.length 0 rfl
    unfold parts? at read
    split at read
    rename_i parts last visited
    rw [visited] at formed same stop
    split at read
    · cases read
      have none : rest = [] := by
        apply List.length_eq_zero_iff.mp
        omega
      rw [none, List.append_nil] at same
      exact ⟨formed, same⟩
    · cases read
  · rintro ⟨formed, rfl⟩
    simp [parts?, partsFrom_written formed, visit_placed]

theorem composes_unique {qs : List Part} (one : Composes ps cs) (other : Composes qs cs) : ps = qs := by
  have same := parts_iff.mpr one
  rw [parts_iff.mpr other] at same
  exact (Option.some.inj same).symm

/-! The sum -/

def IsAmount : Double → Prop
  | .finite negative _ _ => negative = false
  | .infinite negative => negative = false
  | .nan => False

theorem ofQuotient_amount (n d : Nat) : IsAmount (Double.ofQuotient false n d) := by
  unfold Double.ofQuotient
  split
  · rfl
  · dsimp only
    split <;> split <;> rfl

theorem ofScaled_amount (n : Nat) (e : Int) : IsAmount (Double.ofScaled false n e) :=
  ofQuotient_amount _ _

theorem ofDecimal_amount (n : Nat) (e : Int) : IsAmount (Double.ofDecimal false n e) := by
  unfold Double.ofDecimal
  dsimp only
  split
  · rfl
  · split
    · rfl
    · split <;> exact ofQuotient_amount _ _

theorem unit_seconds (u : TimeUnit) : ∃ n e, u.seconds = .finite false n e ∧ n ≠ 0 := by
  cases u <;> exact ⟨_, _, rfl, by decide⟩

/-- No unit is zero, so that a product is a number even where the number of units is infinite. -/
theorem part_amount (p : Part) : IsAmount p.seconds := by
  obtain ⟨n, e, unit, positive⟩ := unit_seconds p.unit
  have number := ofDecimal_amount
    (ofDigits ((p.whole ++ p.fractionDigits).filterMap digitValue?)) (-p.fractionDigits.length)
  unfold Part.seconds
  rw [unit]
  generalize Double.ofDecimal false _ _ = x at number ⊢
  change IsAmount (Double.mul x (.finite false n e))
  cases x with
  | finite s m f =>
    cases number
    exact ofScaled_amount _ _
  | infinite s =>
    cases number
    simp [Double.mul, positive, IsAmount]
  | nan => exact number

theorem add_amount {x y : Double} (left : IsAmount x) (right : IsAmount y) : IsAmount (x + y) := by
  change IsAmount (Double.add x y)
  cases x with
  | finite s m e =>
    cases left
    cases y with
    | finite t n f =>
      cases right
      simp only [Double.add, Double.signed, Bool.false_eq_true, ↓reduceIte]
      split
      · rfl
      · have positive : ¬ ((m * twoTo (e - min e f).toNat : Nat) : Int) +
            ((n * twoTo (f - min e f).toNat : Nat) : Int) < 0 := by omega
        rw [decide_eq_false positive]
        exact ofScaled_amount _ _
    | infinite t => exact right
    | nan => exact right
  | infinite s =>
    cases left
    cases y with
    | finite t n f => rfl
    | infinite t =>
      cases right
      rfl
    | nan => exact right
  | nan => exact left.elim

theorem totalSeconds_amount (ps : List Part) : IsAmount (totalSeconds ps) := by
  have from_amount (sum : Double) (amount : IsAmount sum) :
      IsAmount (ps.foldl (fun sum p => sum + p.seconds) sum) := by
    induction ps generalizing sum with
    | nil => exact amount
    | cons p ps ih => exact ih _ (add_amount amount (part_amount p))
  exact from_amount _ rfl

/-! Reading -/

def body (text : String) : List Char := (splitSign (trim text.toList)).2

def isNegative (text : String) : Bool := (splitSign (trim text.toList)).1

/-- The digit zero, or some parts and nothing else. -/
def IsWritten (cs : List Char) : Prop := cs = ['0'] ∨ ∃ ps, ps ≠ [] ∧ Composes ps cs

/-- The failure is that the text writes no number of seconds, not that there are too many of them. -/
def Failure.OfForm : Failure → Prop
  | .invalid _ | .beyondSpans .notANumber => True
  | .beyondSpans _ => False

def spanOf (negative : Bool) (ps : List Part) : Except Failure Span :=
  (Span.ofSeconds (if negative then -totalSeconds ps else totalSeconds ps)).mapError .beyondSpans

theorem spanOf_ofForm {negative : Bool} {failure : Failure}
    (failed : spanOf negative ps = .error failure) : ¬ failure.OfForm := by
  have amount := totalSeconds_amount ps
  have number : (if negative then -totalSeconds ps else totalSeconds ps) ≠ .nan := by
    generalize totalSeconds ps = x at amount
    change (if negative then Double.neg x else x) ≠ .nan
    cases x <;> cases negative <;> simp_all [Double.neg, IsAmount]
  unfold spanOf at failed
  generalize (if negative then -totalSeconds ps else totalSeconds ps) = x at failed number
  cases x with
  | nan => exact (number rfl).elim
  | infinite s =>
    cases failed
    exact id
  | finite s m e =>
    simp only [Span.ofSeconds, Span.ofMicroseconds] at failed
    split at failed
    · cases failed
      exact id
    · split at failed
      · cases failed
        exact id
      · cases failed

theorem read_eq (text : String) : read text =
    if body text = ['0'] then .ok ⟨0⟩
    else match parts? (body text) with
      | some (p :: ps) => spanOf (isNegative text) (p :: ps)
      | _ => .error (.invalid text) := rfl

theorem read_composed {text : String} (some : ps ≠ []) (composes : Composes ps (body text))
    (notZero : body text ≠ ['0']) : read text = spanOf (isNegative text) ps := by
  rw [read_eq, if_neg notZero, parts_iff.mpr composes]
  cases ps with
  | nil => exact (some rfl).elim
  | cons p ps => rfl

theorem read_unwritten {text : String} (unwritten : ¬ IsWritten (body text)) :
    read text = .error (.invalid text) := by
  have notZero : body text ≠ ['0'] := fun zero => unwritten (.inl zero)
  rw [read_eq, if_neg notZero]
  cases parted : parts? (body text) with
  | none => rfl
  | some ps =>
    cases ps with
    | nil => rfl
    | cons p ps => exact (unwritten (.inr ⟨p :: ps, by simp, parts_iff.mp parted⟩)).elim

end MailRules.Calendar.Duration
