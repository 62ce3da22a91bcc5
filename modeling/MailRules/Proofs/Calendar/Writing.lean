import MailRules.Proofs.Text.Digits
import MailRules.Calendar.Iso
import MailRules.Yaml.Datum.Scalar
/-!
Dates as they are written. A text writes a date by beginning with it: the year in four digits, the month
and the day in one or two, hyphens between them, and whatever follows. The readers of dates have forms of
their own, but each that takes such a text gives the date that is written; and the form of dates in a
search reads back.
-/
namespace MailRules.Calendar
open MailRules.Text MailRules.Yaml MailRules.Yaml.ScalarValue

/-! Digits -/

structure Run (most : Nat) (ds rest : List Char) : Prop where
  digits : ∀ c ∈ ds, isAsciiDigit c = true
  few : ds.length ≤ most
  full : ds.length = most ∨ ∀ c, rest.head? = some c → isAsciiDigit c = false

variable {most : Nat} {c : Char} {cs ds ds' rest rest' : List Char}

theorem run_nil : Run most [] rest ↔ most = 0 ∨ ∀ c, rest.head? = some c → isAsciiDigit c = false := by
  constructor
  · intro run
    exact run.full.imp Eq.symm id
  · intro full
    exact ⟨by simp, Nat.zero_le most, full.imp Eq.symm id⟩

theorem run_cons : Run (most + 1) (c :: ds) rest ↔ isAsciiDigit c = true ∧ Run most ds rest := by
  constructor
  · rintro ⟨digits, few, full⟩
    refine ⟨digits c List.mem_cons_self, fun d member => digits d (List.mem_cons_of_mem c member),
      Nat.le_of_succ_le_succ few, full.imp Nat.succ.inj id⟩
  · rintro ⟨digit, digits, few, full⟩
    refine ⟨?_, Nat.succ_le_succ few, full.imp (congrArg Nat.succ) id⟩
    simpa [digit] using digits

theorem run_take (most : Nat) (cs : List Char) :
    Run most ((cs.take most).takeWhile isAsciiDigit)
      (cs.drop ((cs.take most).takeWhile isAsciiDigit).length) := by
  induction cs generalizing most with
  | nil => simp [run_nil]
  | cons c cs ih =>
    cases most with
    | zero => simp [run_nil]
    | succ most =>
      rw [List.take_succ_cons]
      cases digit : isAsciiDigit c with
      | true => simpa [List.takeWhile_cons, digit, run_cons] using ih most
      | false => simp [digit, run_nil]

theorem run_split (most : Nat) (cs : List Char) : ∃ ds rest, cs = ds ++ rest ∧ Run most ds rest := by
  refine ⟨_, _, ?_, run_take most cs⟩
  have start := (List.takeWhile_prefix isAsciiDigit (l := cs.take most)).trans (List.take_prefix most cs)
  exact (List.prefix_iff_eq_append.mp start).symm

theorem run_unique (run : Run most ds rest) (run' : Run most ds' rest')
    (same : ds ++ rest = ds' ++ rest') : ds = ds' ∧ rest = rest' := by
  induction ds generalizing most ds' with
  | nil =>
    cases ds' with
    | nil => exact ⟨rfl, same⟩
    | cons c ds' =>
      have digit := run'.digits c List.mem_cons_self
      have few := run'.few
      rcases run_nil.mp run with none | ended
      · simp [none] at few
      · have none := ended c (by simp [show rest = _ from same])
        rw [digit] at none
        cases none
  | cons c ds ih =>
    obtain ⟨most, rfl⟩ : ∃ m, most = m + 1 := ⟨most - 1, by have := run.few; simp at this; omega⟩
    obtain ⟨digit, tail⟩ := run_cons.mp run
    cases ds' with
    | nil =>
      rcases run_nil.mp run' with none | ended
      · omega
      · have none := ended c (by simp [← show _ = rest' from same])
        rw [digit] at none
        cases none
    | cons c' ds' =>
      simp only [List.cons_append, List.cons.injEq] at same
      obtain ⟨rfl, same⟩ := same
      obtain ⟨rfl, rest_eq⟩ := ih tail (run_cons.mp run').2 same
      exact ⟨rfl, rest_eq⟩

theorem digitsBetween_eq (run : Run most ds rest) (low : Nat) :
    digitsBetween? low most (ds ++ rest) = if low ≤ ds.length then some (ds, rest) else none := by
  have start := (List.takeWhile_prefix isAsciiDigit (l := (ds ++ rest).take most)).trans
    (List.take_prefix most (ds ++ rest))
  obtain ⟨same, same'⟩ := run_unique (run_take most (ds ++ rest)) run (List.prefix_iff_eq_append.mp start)
  rw [digitsBetween?, same', same]

theorem run_of_digitsBetween {low : Nat} (found : digitsBetween? low most cs = some (ds, rest)) :
    cs = ds ++ rest ∧ Run most ds rest ∧ low ≤ ds.length := by
  obtain ⟨ds', rest', rfl, run⟩ := run_split most cs
  rw [digitsBetween_eq run] at found
  split at found
  · rename_i enough
    cases found
    exact ⟨rfl, run, enough⟩
  · cases found

theorem takeDigits_eq (run : Run most ds rest) :
    Iso.takeDigits? most (ds ++ rest) = if ds.length = most then some (number ds, rest) else none := by
  unfold Iso.takeDigits?
  by_cases whole : ds.length = most
  · have digits : ds.all isAsciiDigit = true := List.all_eq_true.mpr run.digits
    simp [← whole, digits, number]
  · have ended := run.full.resolve_left whole
    have few := run.few
    rw [if_neg whole, if_neg]
    rintro ⟨long, digits⟩
    cases rest with
    | nil =>
      simp at long
      omega
    | cons c rest =>
      have member : c ∈ (ds ++ c :: rest).take most := by
        obtain ⟨k, more⟩ : ∃ k, most - ds.length = k + 1 := ⟨most - ds.length - 1, by omega⟩
        simp [List.take_append, more]
      have digit := List.all_eq_true.mp digits c member
      rw [ended c rfl] at digit
      cases digit

theorem not_mem_of_digits (digits : ∀ c ∈ ds, isAsciiDigit c = true) (other : isAsciiDigit c = false) :
    c ∉ ds := by
  intro member
  rw [digits c member] at other
  cases other

/-! What a text writes -/

structure Spelled (cs year month day rest : List Char) : Prop where
  text : cs = year ++ '-' :: (month ++ '-' :: (day ++ rest))
  yearRun : Run 4 year ('-' :: (month ++ '-' :: (day ++ rest)))
  monthRun : Run 2 month ('-' :: (day ++ rest))
  dayRun : Run 2 day rest
  four : year.length = 4
  someMonth : 1 ≤ month.length
  someDay : 1 ≤ day.length

def Writes (cs : List Char) (d : Date) : Prop :=
  ∃ year month day rest, Spelled cs year month day rest ∧ d = ⟨number year, number month, number day⟩

variable {d e : Date} {year month day : List Char}

theorem writes_unique (one : Writes cs d) (other : Writes cs e) : d = e := by
  obtain ⟨year, month, day, rest, spelled, rfl⟩ := one
  obtain ⟨year', month', day', rest', spelled', rfl⟩ := other
  obtain ⟨rfl, afterYear⟩ :=
    run_unique spelled.yearRun spelled'.yearRun (spelled.text.symm.trans spelled'.text)
  obtain ⟨rfl, afterMonth⟩ := run_unique spelled.monthRun spelled'.monthRun (List.cons.inj afterYear).2
  obtain ⟨rfl, -⟩ := run_unique spelled.dayRun spelled'.dayRun (List.cons.inj afterMonth).2
  rfl

theorem checkedDate_ok {year month day : Nat} :
    checkedDate year month day = .ok d ↔ d = ⟨year, month, day⟩ ∧ d.Valid := by
  have valid : (⟨year, month, day⟩ : Date).Valid ↔ 1 ≤ year ∧ year ≤ maxYear ∧ 1 ≤ month ∧ month ≤ 12 ∧
      1 ≤ day ∧ day ≤ daysInMonth year month := Iff.rfl
  unfold checkedDate
  constructor
  · intro checked
    split_ifs at checked
    cases checked
    exact ⟨rfl, valid.mpr (by omega)⟩
  · rintro ⟨rfl, holds⟩
    rw [valid] at holds
    rw [if_neg (by omega), if_neg (by omega), if_neg (by omega)]

/-! The readers -/

theorem not_week {m : Char} {ms : List Char} (spelled : Spelled cs year (m :: ms) day rest) :
    m ≠ 'W' := by
  rintro rfl
  exact absurd (spelled.monthRun.digits 'W' List.mem_cons_self) (by decide)

theorem dateLength_spelled (spelled : Spelled cs year month day rest) : Iso.dateLength? cs = some 10 := by
  obtain ⟨m, ms, rfl⟩ := List.exists_cons_of_length_pos spelled.someMonth
  obtain ⟨a, b, c, d, rfl⟩ := List.length_eq_four.mp spelled.four
  have long : 8 ≤ cs.length := by
    have someDay := spelled.someDay
    rw [spelled.text]
    simp only [List.length_append, List.length_cons, List.length_nil]
    omega
  have hyphen : Iso.charAt cs 4 = '-' := by rw [spelled.text]; rfl
  have digit : Iso.charAt cs 5 = m := by rw [spelled.text]; rfl
  rw [Iso.dateLength?, if_neg (by omega), if_pos hyphen, digit, if_neg (not_week spelled)]

theorem readDate_spelled (spelled : Spelled cs year month day rest) : Iso.readDate? 10 cs =
    if month.length = 2 ∧ day.length = 2 then
      (checkedDate (number year) (number month) (number day)).toOption
    else none := by
  obtain ⟨m, ms, rfl⟩ := List.exists_cons_of_length_pos spelled.someMonth
  rw [spelled.text, Iso.readDate?, takeDigits_eq spelled.yearRun, if_pos spelled.four]
  simp only [Option.bind_eq_bind, Option.bind_some, List.head?_cons, List.drop_one, List.tail_cons,
    if_true, List.cons_append, Option.some.injEq, not_week spelled, if_false]
  rw [← List.cons_append, takeDigits_eq spelled.monthRun]
  by_cases twoMonth : (m :: ms).length = 2
  · rw [if_pos twoMonth]
    simp only [Option.bind_some, List.head?_cons, List.tail_cons, if_true]
    rw [takeDigits_eq spelled.dayRun]
    by_cases twoDay : day.length = 2
    · rw [if_pos twoDay, if_pos ⟨twoMonth, twoDay⟩]
      rfl
    · rw [if_neg twoDay, if_neg fun both => twoDay both.2]
      rfl
  · rw [if_neg twoMonth, if_neg fun both => twoMonth both.1]
    rfl

/-- What follows the date is checked, but does not change it. -/
theorem readDate_of_date {length : Nat} (here : Iso.dateLength? cs = some length)
    (read : Iso.date? cs = some d) : Iso.readDate? length cs = some d := by
  simp only [Iso.date?, here, Option.bind_eq_bind, Option.bind_some, Option.bind_eq_some_iff] at read
  obtain ⟨found, given, ended⟩ := read
  split at ended
  · rw [given, Option.some.inj ended]
  · rw [Option.bind_eq_some_iff] at ended
    obtain ⟨clock, -, within⟩ := ended
    split at within
    · rw [given, Option.some.inj within]
    · cases within

theorem iso_writes (writes : Writes cs e) (read : Iso.date? cs = some d) : d = e ∧ d.Valid := by
  obtain ⟨year, month, day, rest, spelled, rfl⟩ := writes
  have given := readDate_of_date (dateLength_spelled spelled) read
  rw [readDate_spelled spelled] at given
  split at given
  · cases checked : checkedDate (number year) (number month) (number day) with
    | ok date =>
      rw [checked] at given
      cases given
      exact checkedDate_ok.mp checked
    | error out =>
      rw [checked] at given
      cases given
  · cases given

def IsOn (date : Date) (value : Datum) : Prop :=
  value = .date date ∨ ∃ m : Moment, value = .moment m ∧ m.date = date

theorem literal_eq {c : Char} (found : literal? c cs = some ds) : cs = c :: ds := by
  cases cs with
  | nil => cases found
  | cons d rest =>
    rw [literal?] at found
    split at found
    · rename_i same
      cases found
      rw [same]
    · cases found

theorem spelled_of_timestamp {t : TimestampText} (found : timestampText? cs = some t) :
    ∃ rest, Spelled cs t.year t.month t.day rest := by
  unfold timestampText? at found
  obtain ⟨⟨year, r₁⟩, yearFound, found⟩ := Option.bind_eq_some_iff.mp found
  obtain ⟨r₂, first, found⟩ := Option.bind_eq_some_iff.mp found
  obtain ⟨⟨month, r₃⟩, monthFound, found⟩ := Option.bind_eq_some_iff.mp found
  obtain ⟨r₄, second, found⟩ := Option.bind_eq_some_iff.mp found
  obtain ⟨⟨day, rest⟩, dayFound, found⟩ := Option.bind_eq_some_iff.mp found
  -- Whatever time follows the day, the three pieces stay as they are.
  have pieces : t.year = year ∧ t.month = month ∧ t.day = day := by
    dsimp -zeta only at found
    split at found
    · cases found
      exact ⟨rfl, rfl, rfl⟩
    · extract_lets finish at found
      have finished : ∀ more, finish more = some t → t.year = year ∧ t.month = month ∧ t.day = day := by
        intro more found
        obtain ⟨hour, -, found⟩ := Option.bind_eq_some_iff.mp found
        obtain ⟨r, -, found⟩ := Option.bind_eq_some_iff.mp found
        obtain ⟨minute, -, found⟩ := Option.bind_eq_some_iff.mp found
        obtain ⟨r, -, found⟩ := Option.bind_eq_some_iff.mp found
        obtain ⟨second, -, found⟩ := Option.bind_eq_some_iff.mp found
        obtain ⟨offset, -, found⟩ := Option.bind_eq_some_iff.mp found
        cases found
        exact ⟨rfl, rfl, rfl⟩
      split at found
      · exact finished _ found
      · split at found
        · exact finished _ found
        · cases found
  obtain ⟨rfl, rfl, rfl⟩ := pieces
  obtain ⟨rfl, yearRun, four⟩ := run_of_digitsBetween yearFound
  obtain rfl := literal_eq first
  obtain ⟨rfl, monthRun, someMonth⟩ := run_of_digitsBetween monthFound
  obtain rfl := literal_eq second
  obtain ⟨rfl, dayRun, someDay⟩ := run_of_digitsBetween dayFound
  exact ⟨rest, rfl, yearRun, monthRun, dayRun, Nat.le_antisymm yearRun.few four, someMonth, someDay⟩

theorem writes_of_dropLast (feed : cs.getLast? = some '\n') (writes : Writes cs.dropLast d) :
    Writes cs d := by
  obtain ⟨year, month, day, rest, spelled, rfl⟩ := writes
  have whole : cs = cs.dropLast ++ ['\n'] := by
    obtain ⟨front, rfl⟩ := List.getLast?_eq_some_iff.mp feed
    rw [List.dropLast_concat]
  have dayRun : Run 2 day (rest ++ ['\n']) := by
    refine ⟨spelled.dayRun.digits, spelled.dayRun.few, spelled.dayRun.full.imp id fun ended => ?_⟩
    cases rest with
    | nil => simp [isAsciiDigit]
    | cons c rest => simpa using ended
  refine ⟨year, month, day, rest ++ ['\n'], ⟨?_, ?_, ?_, dayRun, spelled.four, spelled.someMonth,
    spelled.someDay⟩, rfl⟩
  · rw [whole, spelled.text]
    simp
  · exact ⟨spelled.yearRun.digits, spelled.yearRun.few, .inl spelled.four⟩
  · exact ⟨spelled.monthRun.digits, spelled.monthRun.few, .inr (by simp [isAsciiDigit])⟩

theorem checkedMoment_date {year month day hour minute second microsecond : Nat} {offset : Option Int}
    {m : Moment} (checked : checkedMoment year month day hour minute second microsecond offset = .ok m) :
    checkedDate year month day = .ok m.date := by
  unfold checkedMoment at checked
  cases date : checkedDate year month day with
  | error out =>
    rw [date] at checked
    cases checked
  | ok d =>
    rw [date] at checked
    simp only [bind, Except.bind] at checked
    split_ifs at checked
    cases checked
    rfl

theorem ok_of_mapError {ε ε' α β : Type} {x : Except ε α} {wrap : ε → ε'} {make : α → β} {given : β}
    (read : (do return make (← x.mapError wrap)) = Except.ok given) : ∃ a, x = .ok a ∧ given = make a := by
  cases x with
  | ok a =>
    cases read
    exact ⟨a, rfl, rfl⟩
  | error e => cases read

/-- The value of a timestamp is on the date that its text writes. -/
theorem timestamp_writes {value : Datum} (read : ScalarValue.timestamp cs = .ok value) :
    ∃ date, IsOn date value ∧ date.Valid ∧ Writes cs date := by
  have whole {date : Date} (writes : Writes (if cs.getLast? = some '\n' then cs.dropLast else cs) date) :
      Writes cs date := by
    split at writes
    · rename_i feed
      exact writes_of_dropLast feed writes
    · exact writes
  unfold ScalarValue.timestamp at read
  generalize (if cs.getLast? = some '\n' then cs.dropLast else cs) = ds at read whole
  cases found : timestampText? ds with
  | none =>
    rw [found] at read
    cases read
  | some t =>
    obtain ⟨rest, spelled⟩ := spelled_of_timestamp found
    rw [found] at read
    dsimp only at read
    have dated {date : Date}
        (checked : checkedDate (number t.year) (number t.month) (number t.day) = .ok date) :
        date.Valid ∧ Writes cs date := by
      obtain ⟨rfl, valid⟩ := checkedDate_ok.mp checked
      exact ⟨valid, whole ⟨_, _, _, rest, spelled, rfl⟩⟩
    split at read
    · obtain ⟨date, checked, rfl⟩ := ok_of_mapError read
      exact ⟨date, .inl rfl, dated checked⟩
    · have timed (m : Moment) {hour minute second microsecond : Nat} {offset : Option Int}
          (checked : checkedMoment (number t.year) (number t.month) (number t.day) hour minute second
            microsecond offset = .ok m) :
          ∃ date, IsOn date (.moment m) ∧ date.Valid ∧ Writes cs date :=
        ⟨m.date, .inr ⟨m, rfl, rfl⟩, dated (checkedMoment_date checked)⟩
      split at read
      · split at read
        · cases read
        · obtain ⟨m, checked, rfl⟩ := ok_of_mapError read
          exact timed m checked
      · obtain ⟨m, checked, rfl⟩ := ok_of_mapError read
        exact timed m checked

/-! ISO texts -/

theorem month_short (year month : Nat) : daysInMonth year month ≤ 31 := by
  have each : ∀ n ∈ monthLengths year, n ≤ 31 := by
    unfold monthLengths
    cases isLeap year <;> decide
  rw [daysInMonth, List.getD_eq_getElem?_getD]
  cases found : (monthLengths year)[month - 1]? with
  | none => exact Nat.zero_le 31
  | some n => exact each n (List.mem_of_getElem? found)

theorem isoText_lengths (valid : d.Valid) : (zeroPadded 4 d.year).toList.length = 4 ∧
    (zeroPadded 2 d.month).toList.length = 2 ∧ (zeroPadded 2 d.day).toList.length = 2 := by
  obtain ⟨-, year, -, month, -, day⟩ := valid
  have short := month_short d.year d.month
  unfold maxYear at year
  exact ⟨zeroPadded_length (by decide) (by omega), zeroPadded_length (by decide) (by omega),
    zeroPadded_length (by decide) (by omega)⟩

theorem isoText_spelled (valid : d.Valid) : Spelled d.isoText.toList (zeroPadded 4 d.year).toList
    (zeroPadded 2 d.month).toList (zeroPadded 2 d.day).toList [] := by
  obtain ⟨year, month, day⟩ := isoText_lengths valid
  have run {width n : Nat} (length : (zeroPadded width n).toList.length = width) (rest : List Char) :
      Run width (zeroPadded width n).toList rest := ⟨zeroPadded_digits, Nat.le_of_eq length, .inl length⟩
  refine ⟨?_, run year _, run month _, run day _, year, ?_, ?_⟩
  · simp [Date.isoText]
  · omega
  · omega

theorem checkedDate_spelled (valid : d.Valid) :
    checkedDate (number (zeroPadded 4 d.year).toList) (number (zeroPadded 2 d.month).toList)
      (number (zeroPadded 2 d.day).toList) = .ok d := by
  simp only [number, ofDigits_zeroPadded]
  exact checkedDate_ok.mpr ⟨rfl, valid⟩

theorem date_isoText (valid : d.Valid) : Iso.date? d.isoText.toList = some d := by
  have spelled := isoText_spelled valid
  obtain ⟨year, month, day⟩ := isoText_lengths valid
  have read := readDate_spelled spelled
  rw [if_pos ⟨month, day⟩, checkedDate_spelled valid] at read
  have ended : d.isoText.toList.drop 10 = [] := by
    apply List.drop_eq_nil_of_le
    rw [spelled.text]
    simp only [List.length_append, List.length_cons, List.length_nil]
    omega
  simp only [Iso.date?, dateLength_spelled spelled, read, ended, Except.toOption, Option.bind_eq_bind,
    Option.bind_some]

theorem timestampText_spelled (spelled : Spelled cs year month day []) :
    timestampText? cs = some ⟨year, month, day, none, [], none⟩ := by
  have four := spelled.four
  have first : digitsBetween? 4 4 cs = some (year, '-' :: (month ++ '-' :: (day ++ []))) := by
    rw [spelled.text, digitsBetween_eq spelled.yearRun, if_pos (by omega)]
  have second : digitsBetween? 1 2 (month ++ '-' :: (day ++ [])) = some (month, '-' :: (day ++ [])) := by
    rw [digitsBetween_eq spelled.monthRun, if_pos spelled.someMonth]
  have third : digitsBetween? 1 2 (day ++ []) = some (day, []) := by
    rw [digitsBetween_eq spelled.dayRun, if_pos spelled.someDay]
  refine Option.bind_eq_some_iff.mpr ⟨_, first, ?_⟩
  refine Option.bind_eq_some_iff.mpr ⟨_, rfl, ?_⟩
  refine Option.bind_eq_some_iff.mpr ⟨_, second, ?_⟩
  refine Option.bind_eq_some_iff.mpr ⟨_, rfl, ?_⟩
  exact Option.bind_eq_some_iff.mpr ⟨_, third, rfl⟩

theorem timestamp_isoText (valid : d.Valid) : ScalarValue.timestamp d.isoText.toList = .ok (.date d) := by
  have spelled := isoText_spelled valid
  have noFeed : '\n' ∉ d.isoText.toList := by
    rw [spelled.text]
    simp [not_mem_of_digits spelled.yearRun.digits, not_mem_of_digits spelled.monthRun.digits,
      not_mem_of_digits spelled.dayRun.digits, isAsciiDigit]
  simp only [ScalarValue.timestamp, if_neg fun last => noFeed (List.mem_of_getLast? last),
    timestampText_spelled spelled, checkedDate_spelled valid]
  rfl

/-! The form of dates in a search -/

def Date.ofSearchText? (s : String) : Option Date :=
  match s.toList.splitOn '-' with
  | [day, month, year] =>
    if day.length = 2 ∧ year ≠ [] ∧ (day ++ year).all isAsciiDigit then
      (monthNames.findIdx? fun name => name.toList = month).map fun i =>
        ⟨number year, i + 1, number day⟩
    else none
  | _ => none

theorem month_named (low : 1 ≤ d.month) (high : d.month ≤ 12) :
    '-' ∉ (monthNames.getD (d.month - 1) "").toList ∧
      (monthNames.findIdx? fun name => name.toList = (monthNames.getD (d.month - 1) "").toList) =
        some (d.month - 1) := by
  have each : ∀ m : Fin 12, '-' ∉ (monthNames.getD m "").toList ∧
      (monthNames.findIdx? fun name => name.toList = (monthNames.getD m "").toList) = some m.val := by
    decide
  exact each ⟨d.month - 1, by omega⟩

theorem Date.searchText_pieces (low : 1 ≤ d.month) (high : d.month ≤ 12) :
    d.searchText.toList.splitOn '-' =
      [(zeroPadded 2 d.day).toList, (monthNames.getD (d.month - 1) "").toList, (decimal d.year).toList] := by
  have joined : d.searchText.toList = ['-'].intercalate
      [(zeroPadded 2 d.day).toList, (monthNames.getD (d.month - 1) "").toList, (decimal d.year).toList] := by
    simp [Date.searchText, List.intercalate]
  rw [joined, List.splitOn_intercalate]
  · simp only [List.mem_cons, List.not_mem_nil, or_false]
    rintro piece (rfl | rfl | rfl)
    · exact not_mem_of_digits zeroPadded_digits (by decide)
    · exact (month_named low high).1
    · exact not_mem_of_digits (decimal_canonical d.year).digits (by decide)
  · simp

theorem Date.searchText_read (valid : d.Valid) : Date.ofSearchText? d.searchText = some d := by
  obtain ⟨-, two⟩ := (isoText_lengths valid).2
  obtain ⟨-, -, low, high, -, -⟩ := valid
  have year := decimal_canonical d.year
  have digits : ((zeroPadded 2 d.day).toList ++ (decimal d.year).toList).all isAsciiDigit = true := by
    rw [List.all_eq_true]
    intro c member
    exact (List.mem_append.mp member).elim (zeroPadded_digits c) (year.digits c)
  have month : d.month - 1 + 1 = d.month := by omega
  rw [Date.ofSearchText?, Date.searchText_pieces low high]
  dsimp only
  rw [if_pos ⟨two, year.nonempty, digits⟩, (month_named low high).2]
  simp only [Option.map_some, number, ofDigits_zeroPadded, ofDigits_decimal, month]

end MailRules.Calendar
