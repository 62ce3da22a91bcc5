import MailRules.Proofs.Calendar.Writing
import MailRules.Proofs.Yaml.Remembering
import MailRules.Proofs.Yaml.Valuing
import MailRules.Search.Argument
/-!
Dates as arguments. A date is written into a document as a timestamp of YAML or as a text in quotes, and a
time of day and an offset may follow it; what is sent is the date as it is written.
-/
namespace MailRules
open MailRules.Yaml MailRules.Calendar MailRules.Search

namespace DocumentReader

/-- The leaf is what a scalar of the tag and the text is read as, in some document, at some point of its
reading. -/
def ReadFrom (tag text : String) (l : Leaf) : Prop :=
  ∃ (g : Graph) (b b' : Builder) (i : NodeId) (style : ScalarStyle) (source : Source),
    Reached g b ∧ (g.node i).tag = tag ∧ (g.node i).body = .scalar text style ∧
      leaf i source b = (.ok l, b')

variable {tag text : String} {l : Leaf}

/-- A scalar whose value cannot be built stands for its text, but for a fault of its reader. -/
theorem leaf_scalar {b : Builder} {i : NodeId} {style : ScalarStyle}
    (body : (b.graph.node i).body = .scalar text style) (source : Source) :
    (∃ f b', Build.value i b = (.error (.fault f), b') ∧ leaf i source b = (.error (.fault f), b')) ∨
      ∃ d place b', leaf i source b = (.ok ⟨text, d, true, place⟩, b') ∧
        (d = .text text ∨ Build.value i b = (.ok d, b')) := by
  simp only [leaf, bind_apply, nodeAt_apply, locationOf, read_apply, pure_apply, body, build_apply]
  cases Build.value i b with
  | mk r b' =>
    cases r with
    | ok d => exact .inr ⟨d, _, b', rfl, .inr rfl⟩
    | error failure =>
      cases failure with
      | fault f => exact .inl ⟨f, b', rfl, rfl⟩
      | problem p => exact .inr ⟨_, _, b', rfl, .inl rfl⟩
      | refused reason => exact .inr ⟨_, _, b', rfl, .inl rfl⟩

theorem leaf_stands (read : ReadFrom tag text l) :
    l.text = text ∧ l.isScalar = true ∧ Stands tag text l.datum := by
  obtain ⟨g, b, b', i, style, source, reached, rfl, body, given⟩ := read
  have remembers := Build.remembers_of_reached reached
  rcases leaf_scalar ((remembers.fits i).scalar body) source with
    ⟨f, b₁, -, failed⟩ | ⟨d, place, b₁, found, made⟩
  · rw [failed] at given
    cases given
  · rw [found] at given
    cases given
    refine ⟨rfl, rfl, ?_⟩
    rcases made with rfl | value
    · exact .inl rfl
    · have built := Build.value_scalar remembers body
      unfold Build.Leads at built
      rw [value] at built
      exact built

theorem leaf_given {g : Graph} {b : Builder} {i : NodeId} {style : ScalarStyle} (reached : Reached g b)
    (body : (g.node i).body = .scalar text style)
    (sound : ∀ read f, ((g.node i).tag, read) ∈ ScalarValue.readers → read text.toList ≠ .error (.fault f))
    (source : Source) : ∃ l b', leaf i source b = (.ok l, b') := by
  have remembers := Build.remembers_of_reached reached
  rcases leaf_scalar ((remembers.fits i).scalar body) source with
    ⟨f, b₁, failed, -⟩ | ⟨d, place, b₁, found, -⟩
  · have built := Build.value_scalar remembers body
    unfold Build.Leads at built
    rw [failed] at built
    obtain ⟨read, member, fault⟩ := built f rfl
    exact absurd fault (sound read f member)
  · exact ⟨_, _, found⟩

end DocumentReader

/-! Values that are no dates -/

namespace Yaml.ScalarValue

def Undated (value : Datum) : Prop := dateOf? value = none

theorem ends_any {ε α : Type} (r : Except ε α) : Ends (fun _ => True) (fun _ => True) r := by
  cases r <;> trivial

variable (cs : List Char)

theorem bool_undated : Ends (fun _ => True) Undated (bool cs) := by
  unfold bool
  dsimp only
  split
  · rfl
  · split
    · rfl
    · trivial

theorem int_undated : Ends (fun _ => True) Undated (int cs) := by
  unfold int
  dsimp only
  split
  · trivial
  · split
    · trivial
    · rfl
    · exact ends_bind (ends_any _) fun _ _ => rfl
    · exact ends_bind (ends_any _) fun _ _ => rfl
    · exact ends_bind (ends_any _) fun _ _ => rfl
    · split
      · exact ends_bind (ends_any _) fun _ _ => rfl
      · exact ends_bind (ends_any _) fun _ _ => rfl

theorem float_undated : Ends (fun _ => True) Undated (float cs) := by
  unfold float
  dsimp only
  split
  · trivial
  · split
    · rfl
    · split
      · rfl
      · split
        · exact ends_bind (ends_any _) fun _ _ => ends_bind (ends_any _) fun _ _ => rfl
        · exact ends_bind (ends_any _) fun _ _ => rfl

theorem binary_undated : Ends (fun _ => True) Undated (binary cs) := by
  unfold binary
  split
  · trivial
  · split
    · trivial
    · rfl

/-- Of the readers of scalars, that of timestamps alone gives dates. -/
theorem reader_undated {tag : String} {read : List Char → Except ScalarFailure Datum}
    (member : (tag, read) ∈ readers) (other : tag ≠ Tag.timestamp) :
    Ends (fun _ => True) Undated (read cs) := by
  simp only [readers, List.mem_cons, Prod.mk.injEq, List.not_mem_nil, or_false] at member
  rcases member with ⟨-, rfl⟩ | ⟨-, rfl⟩ | ⟨-, rfl⟩ | ⟨-, rfl⟩ | ⟨rfl, -⟩ | ⟨-, rfl⟩
  · exact int_undated cs
  · exact rfl
  · exact bool_undated cs
  · exact float_undated cs
  · exact absurd rfl other
  · exact binary_undated cs

theorem reader_timestamp {read : List Char → Except ScalarFailure Datum}
    (member : (Tag.timestamp, read) ∈ readers) : read = timestamp := by
  have once : (readers.map Prod.fst).Nodup := by decide
  have here : (Tag.timestamp, timestamp) ∈ readers := by simp [readers]
  exact congrArg Prod.snd (List.inj_on_of_nodup_map once member here rfl)

end Yaml.ScalarValue

theorem Yaml.writes_of_ofText {cs : List Char} (timed : Tag.ofText cs = Tag.timestamp) :
    ∃ d, Writes cs d := by
  unfold Tag.ofText at timed
  cases found : forms.find? fun f => f.2 (withoutFinalBreak cs) with
  | none =>
    rw [found] at timed
    exact absurd timed (by decide)
  | some f =>
    have same : f.1 = Tag.timestamp := by simpa [found] using timed
    have member : (Tag.timestamp, f.2) ∈ forms := same ▸ List.mem_of_find?_eq_some found
    have form := List.find?_some found
    rw [ScalarValue.forms_unique member (by simp [forms] : (Tag.timestamp, isTimestampText) ∈ forms),
      isTimestampText] at form
    cases pieces : timestampText? (withoutFinalBreak cs) with
    | none =>
      rw [pieces] at form
      cases form
    | some t =>
      obtain ⟨rest, spelled⟩ := spelled_of_timestamp pieces
      have writes : Writes (withoutFinalBreak cs) ⟨_, _, _⟩ := ⟨_, _, _, rest, spelled, rfl⟩
      unfold withoutFinalBreak at writes
      split at writes
      · rename_i feed
        exact ⟨_, writes_of_dropLast feed.1 writes⟩
      · exact ⟨_, writes⟩

/-! What is sent -/

namespace Search
open DocumentReader

section Sent
variable {tag text field s : String} {l : Leaf} {d : Date}

theorem dateText_leaf (scalar : l.isScalar = true) (dated : dateOf? l.datum = some d) :
    dateText field (.leaf l) = .ok d.searchText := by
  simp only [dateText, scalarOf, scalar, if_true, bind, Except.bind, dated]
  rfl

theorem date_of_dateText (sent : dateText field (.leaf l) = .ok s) :
    ∃ d, dateOf? l.datum = some d ∧ s = d.searchText := by
  cases scalar : l.isScalar with
  | false =>
    simp only [dateText, scalarOf, scalar, Bool.false_eq_true, if_false] at sent
    cases sent
  | true =>
    cases dated : dateOf? l.datum with
    | some d =>
      rw [dateText_leaf scalar dated] at sent
      cases sent
      exact ⟨d, rfl, rfl⟩
    | none =>
      simp only [dateText, scalarOf, scalar, if_true, bind, Except.bind, dated] at sent
      cases sent

theorem dateOf_isOn {value : Datum} (on : IsOn d value) : dateOf? value = some d := by
  rcases on with rfl | ⟨m, rfl, rfl⟩ <;> rfl

/-- What is sent of a scalar is a date that the ISO 8601 reader finds in its text, or, under the tag of
timestamps, the one that the text writes. -/
theorem sent_date (read : ReadFrom tag text l) (sent : dateText field (.leaf l) = .ok s) :
    ∃ d, s = d.searchText ∧
      (Iso.date? text.toList = some d ∨ tag = Tag.timestamp ∧ d.Valid ∧ Writes text.toList d) := by
  obtain ⟨d, dated, rfl⟩ := date_of_dateText sent
  refine ⟨d, rfl, ?_⟩
  rcases (leaf_stands read).2.2 with plain | ⟨reader, member, value⟩
  · rw [plain] at dated
    exact .inl dated
  · by_cases timed : tag = Tag.timestamp
    · subst timed
      rw [ScalarValue.reader_timestamp member] at value
      obtain ⟨date, on, valid, writes⟩ := timestamp_writes value
      rw [dateOf_isOn on] at dated
      cases dated
      exact .inr ⟨rfl, valid, writes⟩
    · have undated := ScalarValue.reader_undated text.toList member timed
      rw [value] at undated
      rw [show dateOf? l.datum = none from undated] at dated
      cases dated

/-- Where both readers find the same date in a text, it is sent, at whatever point of reading. -/
theorem text_sent (field : String) {g : Graph} {b : Builder} {i : NodeId} {style : ScalarStyle}
    {value : Datum} (iso : Iso.date? text.toList = some d)
    (timed : ScalarValue.timestamp text.toList = .ok value)
    (on : dateOf? value = some d) (reached : Reached g b)
    (tagged : (g.node i).tag = Tag.timestamp ∨ (g.node i).tag = Tag.str)
    (body : (g.node i).body = .scalar text style) (source : Source) :
    ∃ l b', leaf i source b = (.ok l, b') ∧ dateText field (.leaf l) = .ok d.searchText := by
  have reads : ∀ read, ((g.node i).tag, read) ∈ ScalarValue.readers → read text.toList = .ok value := by
    intro read member
    rcases tagged with stamp | quoted
    · rw [stamp] at member
      rw [ScalarValue.reader_timestamp member, timed]
    · rw [quoted] at member
      exact absurd member not_reader
  obtain ⟨l, b', given⟩ := leaf_given reached body
    (fun read f member fault => by rw [reads read member] at fault; cases fault) source
  obtain ⟨-, scalar, stands⟩ := leaf_stands ⟨g, b, b', i, style, source, reached, rfl, body, given⟩
  refine ⟨l, b', given, dateText_leaf scalar ?_⟩
  rcases stands with plain | ⟨read, member, found⟩
  · rw [plain]
    exact iso
  · rw [reads read member] at found
    rw [← Except.ok.inj found]
    exact on

end Sent

/-- What is sent of a scalar whose text begins with a date is that date as it is written, whatever time and
offset follow it, and it reads back to the date; so it is with every plain scalar that is taken for a
timestamp. A text is sent alike under whatever tags, plain or quoted; different dates are never sent
alike; and every date is accepted, as a timestamp and as a quoted text, wherever the reading of a document
has come to. -/
theorem dates_sent_as_written :
    (∀ tag text l field s d, ReadFrom tag text l → dateText field (.leaf l) = .ok s →
      Writes text.toList d → d.Valid ∧ s = d.searchText ∧ Date.ofSearchText? s = some d) ∧
    (∀ text, Read.scalarTag none text .plain = Tag.timestamp → ∃ d, Writes text.toList d) ∧
    (∀ text tag tag' l l' field field' s s', ReadFrom tag text l → ReadFrom tag' text l' →
      dateText field (.leaf l) = .ok s → dateText field' (.leaf l') = .ok s' → s = s') ∧
    (∀ d e : Date, d.Valid → e.Valid → d.searchText = e.searchText → d = e) ∧
    (∀ (d : Date) (g : Graph) (b : Builder) (i : NodeId) style source field, d.Valid → Reached g b →
      (g.node i).tag = Tag.timestamp ∨ (g.node i).tag = Tag.str →
      (g.node i).body = .scalar d.isoText style →
      ∃ l b', leaf i source b = (.ok l, b') ∧ dateText field (.leaf l) = .ok d.searchText) := by
  refine ⟨?_, ?_, ?_, ?_, ?_⟩
  · intro tag text l field s d read sent writes
    obtain ⟨e, rfl, iso | ⟨-, valid, writes'⟩⟩ := sent_date read sent
    · obtain ⟨rfl, valid⟩ := iso_writes writes iso
      exact ⟨valid, rfl, Date.searchText_read valid⟩
    · obtain rfl := writes_unique writes writes'
      exact ⟨valid, rfl, Date.searchText_read valid⟩
  · intro text timed
    exact writes_of_ofText timed
  · intro text tag tag' l l' field field' s s' read read' sent sent'
    obtain ⟨d, rfl, given⟩ := sent_date read sent
    obtain ⟨e, rfl, given'⟩ := sent_date read' sent'
    rcases given with iso | ⟨-, -, writes⟩ <;> rcases given' with iso' | ⟨-, -, writes'⟩
    · rw [iso] at iso'
      rw [Option.some.inj iso']
    · rw [(iso_writes writes' iso).1]
    · rw [(iso_writes writes iso').1]
    · rw [writes_unique writes writes']
  · intro d e valid valid' same
    have read := Date.searchText_read valid
    rw [same, Date.searchText_read valid'] at read
    exact (Option.some.inj read).symm
  · intro d g b i style source field valid reached tagged body
    exact text_sent field (date_isoText valid) (timestamp_isoText valid) rfl reached tagged body source

def leapDayText : String := "2024-02-29T23:59:59.5-11:30"

def lone (tag : String) : Graph := ⟨#[⟨tag, .scalar leapDayText .plain, .start⟩]⟩

theorem leapDay_sent : ∀ tag ∈ [Read.scalarTag none leapDayText .plain,
      Read.scalarTag none leapDayText .singleQuoted],
    ∃ l, ReadFrom tag leapDayText l ∧ dateText "BEFORE" (.leaf l) = .ok "29-Feb-2024" ∧
      Date.ofSearchText? "29-Feb-2024" = some ⟨2024, 2, 29⟩ := by
  intro tag member
  have plain : Read.scalarTag none leapDayText .plain = Tag.timestamp := by decide +kernel
  have quoted : Read.scalarTag none leapDayText .singleQuoted = Tag.str := by decide
  have tagged : tag = Tag.timestamp ∨ tag = Tag.str := by
    rw [plain, quoted] at member
    simpa using member
  have iso : Iso.date? leapDayText.toList = some ⟨2024, 2, 29⟩ := by decide +kernel
  have dated : (ScalarValue.timestamp leapDayText.toList).toOption.bind dateOf? = some ⟨2024, 2, 29⟩ := by
    decide +kernel
  cases timed : ScalarValue.timestamp leapDayText.toList with
  | error failure =>
    rw [timed] at dated
    cases dated
  | ok value =>
    rw [timed] at dated
    obtain ⟨l, b', given, sent⟩ := text_sent "BEFORE" (i := 0) iso timed dated
      (Reached.start : Reached (lone tag) _) tagged rfl ⟨"c", []⟩
    have read : ReadFrom tag leapDayText l := ⟨lone tag, _, b', 0, .plain, _, .start, rfl, rfl, given⟩
    obtain ⟨date, on, -, writes⟩ := timestamp_writes timed
    have same : date = ⟨2024, 2, 29⟩ := Option.some.inj ((dateOf_isOn on).symm.trans dated)
    rw [same] at writes
    obtain ⟨-, -, back⟩ := dates_sent_as_written.1 tag leapDayText l "BEFORE" _ _ read sent writes
    exact ⟨l, read, sent, back⟩

end Search
end MailRules
