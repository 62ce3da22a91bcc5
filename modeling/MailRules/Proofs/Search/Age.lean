import MailRules.Proofs.Calendar.Moment
import MailRules.Search.Compile
/-!
Ages. A precondition on age asks for the messages before the date that lies the age back from now, by
now's own calendar and clock, just as one on that date would; it fails only where no year from 1 to 9999
has the date.
-/
namespace MailRules.Search
open MailRules.Calendar MailRules.Text

section Compiling
variable {now : Moment} {l : Leaf} {span : Span} {name : String} {f : Field}

structure Field.TakesOne (name : String) (f : Field) (tag : String) : Prop where
  named : Field.named? name = some f
  arity : f.arity = some 1
  tagged : f.tag = some tag
  kind : f.kind = .date ∨ f.kind = .duration

theorem compile_argument {tag text : String} (one : Field.TakesOne name f tag) {o : Operand}
    (location : Location) (given : reader now f o = .ok text) :
    compile now (.mk name [o] location) = ⟨[.text tag, .text text], .ok ()⟩ := by
  rcases one.kind with kind | kind <;>
    simp [compile, one.named, one.arity, kind, compileField, readArguments, given, Except.map, raiseErrors,
      Error.ofList?, fieldTokens, one.tagged]

theorem compile_refused {tag kind detail : String} (one : Field.TakesOne name f tag) {o : Operand}
    (location place : Location)
    (refused : reader now f o = .error (.error (.valueDecode name kind detail place))) :
    compile now (.mk name [o] location) =
      .failed (.error (.valueDecode name kind detail place)) := by
  rcases one.kind with sort | sort <;>
    simp [compile, one.named, one.arity, sort, compileField, readArguments, refused, Except.map,
      raiseErrors, Error.ofList?, Error.flat]

def before : Field := ⟨"BEFORE", .date, some 1, some "BEFORE"⟩

def olderThan : Field := ⟨"OLDERTHAN", .duration, some 1, some "BEFORE"⟩

theorem before_takesOne : Field.TakesOne "BEFORE" before "BEFORE" :=
  ⟨by decide, rfl, rfl, .inl rfl⟩

theorem olderThan_takesOne : Field.TakesOne "OLDERTHAN" olderThan "BEFORE" :=
  ⟨by decide, rfl, rfl, .inr rfl⟩

theorem scalarOf_leaf (field kind : String) (scalar : l.isScalar = true) :
    scalarOf field kind (.leaf l) = .ok l := by
  simp [scalarOf, scalar]

theorem read_before {d : Date} (scalar : l.isScalar = true) (dated : l.datum = .date d) :
    reader now before (.leaf l) = .ok d.searchText := by
  change dateText "BEFORE" (.leaf l) = _
  rw [dateText, scalarOf_leaf _ _ scalar]
  simp only [bind, Except.bind, dated, dateOf?]
  rfl

def tooFar (l : Leaf) : Error :=
  .valueDecode "OLDERTHAN" "duration" (quoted l.text ++ " is out of range") l.location

theorem read_olderThan (now : Moment) (scalar : l.isScalar = true) (read : Duration.read l.text = .ok span) :
    reader now olderThan (.leaf l) = match now.dateBefore? span with
      | some d => .ok d.searchText
      | none => .error (.error (tooFar l)) := by
  change durationText now "OLDERTHAN" (.leaf l) = _
  rw [durationText, scalarOf_leaf _ _ scalar]
  simp only [bind, Except.bind, read]
  cases now.dateBefore? span <;> rfl

end Compiling

/-- An age is compiled as the date is that lies so many microseconds before now, or after now where the
span is negative, by the clock that now is written in. Either there is that date, or the way back leads
out of the years 1 to 9999, and then the argument is refused. -/
theorem older_than_as_before {now : Moment} (valid : now.Valid) {l : Leaf} (scalar : l.isScalar = true)
    {span : Span} (read : Duration.read l.text = .ok span) (location : Location) :
    ((∃ d time, d.Valid ∧ time < microsecondsPerDay ∧
        Reading.Before span.microseconds ⟨d, time⟩ now.reading) ∨
      now.reading.LeavesCalendar span.microseconds) ∧
    (∀ d time, d.Valid → time < microsecondsPerDay →
      Reading.Before span.microseconds ⟨d, time⟩ now.reading →
      compile now (.mk "OLDERTHAN" [.leaf l] location) = ⟨[.text "BEFORE", .text d.searchText], .ok ()⟩ ∧
      ∀ dated : Leaf, dated.isScalar = true → dated.datum = .date d → ∀ place,
        compile now (.mk "BEFORE" [.leaf dated] place) =
          compile now (.mk "OLDERTHAN" [.leaf l] location)) ∧
    (now.reading.LeavesCalendar span.microseconds ↔
      compile now (.mk "OLDERTHAN" [.leaf l] location) = .failed (.error (tooFar l))) := by
  have given := read_olderThan now scalar read
  have there (d : Date) (found : now.dateBefore? span = some d) :
      compile now (.mk "OLDERTHAN" [.leaf l] location) =
        ⟨[.text "BEFORE", .text d.searchText], .ok ()⟩ := by
    rw [found] at given
    exact compile_argument olderThan_takesOne location given
  have nowhere (none : now.dateBefore? span = none) :
      compile now (.mk "OLDERTHAN" [.leaf l] location) = .failed (.error (tooFar l)) := by
    rw [none] at given
    exact compile_refused olderThan_takesOne location _ given
  rw [← Moment.dateBefore?_none_iff valid]
  refine ⟨?_, ?_, nowhere, ?_⟩
  · cases found : now.dateBefore? span with
    | none => exact .inr rfl
    | some d =>
      obtain ⟨validDate, time, within, reached⟩ := (Moment.dateBefore?_iff valid).mp found
      exact .inl ⟨d, time, validDate, within, reached⟩
  · intro d time validDate within reached
    have aged := there d ((Moment.dateBefore?_iff valid).mpr ⟨validDate, time, within, reached⟩)
    refine ⟨aged, ?_⟩
    intro dated scalarToo same place
    rw [aged]
    exact compile_argument before_takesOne place (read_before scalarToo same)
  · intro failed
    cases found : now.dateBefore? span with
    | none => rfl
    | some d =>
      rw [there d found] at failed
      cases failed

def leapSpring : Moment := ⟨⟨2024, 3, 1⟩, 0, 30, 0, 0, some 7200000000⟩

def hourAndHalf : Leaf := ⟨"1h30m", .text "1h30m", true, ⟨"config.yaml", 7, 33⟩⟩

theorem hourAndHalf_as_before : leapSpring.Valid ∧ hourAndHalf.isScalar = true ∧
    Duration.read hourAndHalf.text = .ok ⟨5400000000⟩ ∧
    Reading.Before 5400000000 ⟨⟨2024, 2, 29⟩, 82800000000⟩ leapSpring.reading ∧
    compile leapSpring (.mk "OLDERTHAN" [.leaf hourAndHalf] ⟨"config.yaml", 7, 9⟩) =
      ⟨[.text "BEFORE", .text "29-Feb-2024"], .ok ()⟩ := by
  have valid : leapSpring.Valid := by decide
  have some : (Duration.read hourAndHalf.text).toOption = some ⟨5400000000⟩ := by decide +kernel
  have read : Duration.read hourAndHalf.text = .ok ⟨5400000000⟩ := by
    cases result : Duration.read hourAndHalf.text with
    | ok span =>
      rw [result] at some
      exact congrArg Except.ok (Option.some.inj some)
    | error failure =>
      rw [result] at some
      cases some
  have reached : Reading.Before 5400000000 ⟨⟨2024, 2, 29⟩, 82800000000⟩ leapSpring.reading := by
    rw [Reading.before_iff (by decide) (Moment.reading_proper valid)]
    decide
  have compiled := (older_than_as_before valid rfl read ⟨"config.yaml", 7, 9⟩).2.1 _ _ (by decide)
    (by decide) reached
  exact ⟨valid, rfl, read, reached, compiled.1⟩

end MailRules.Search
