import MailRules.Proofs.Sweep.Mistakes
import MailRules.Proofs.Sweep.Collector
import MailRules.Proofs.Text.Digits
/-!
Values of arguments. Each reader of arguments reads its operand or refuses it at its place, whatever the
operand is; only an integer that is too long to be written stops the reader of numbers, and with it the
validation pass, which otherwise tells every value that is refused.
-/
namespace MailRules.Search
open MailRules.Text MailRules.Calendar

/-- The operand is read, or refused under the field, at its own place. -/
def Settled (field kind : String) (o : Operand) (r : Except Failure String) : Prop :=
  (∃ text, r = .ok text) ∨
    ∃ detail, r = .error (.error (.valueDecode field kind detail (some o.location)))

/-- The operand is a scalar that stands for the integer; a truth value stands for none. -/
def IsInteger (o : Operand) (i : Int) : Prop :=
  ∃ l, o = .leaf l ∧ l.isScalar = true ∧ l.datum = .int i

def TooLong (o : Operand) : Prop := ∃ i, IsInteger o i ∧ ¬ Number.writable i = true

section Readers
variable {field kind : String} {o : Operand}

theorem settled_scalar {next : Leaf → Except Failure String}
    (scalar : ∀ l, o = .leaf l → l.isScalar = true → Settled field kind o (next l)) :
    Settled field kind o (scalarOf field kind o >>= next) := by
  cases o with
  | nested p => exact .inr ⟨_, rfl⟩
  | leaf l =>
    unfold scalarOf
    dsimp only
    split
    · exact scalar l rfl ‹_›
    · exact .inr ⟨_, rfl⟩

theorem stringText_settled (field : String) (o : Operand) :
    Settled field "string" o (stringText field o) :=
  settled_scalar fun l _ _ => .inl ⟨l.text, rfl⟩

theorem dateText_settled (field : String) (o : Operand) : Settled field "date" o (dateText field o) := by
  apply settled_scalar
  rintro l rfl -
  split
  · exact .inl ⟨_, rfl⟩
  · exact .inr ⟨_, rfl⟩

theorem durationText_settled (now : Moment) (field : String) (o : Operand) :
    Settled field "duration" o (durationText now field o) := by
  apply settled_scalar
  rintro l rfl -
  split
  · exact .inr ⟨_, rfl⟩
  · split
    · exact .inl ⟨_, rfl⟩
    · exact .inr ⟨_, rfl⟩

theorem uint32Text_integer {i : Int} (integer : IsInteger o i) : uint32Text field o =
    if 0 ≤ i ∧ i ≤ maxUint32 then .ok (signedDecimal i)
    else if Number.writable i then
      .error (.error (.valueDecode field "uint32" (signedDecimal i ++ " is out of range") (some o.location)))
    else .error (.fault .integerTooLong) := by
  obtain ⟨l, rfl, scalar, same⟩ := integer
  simp only [uint32Text, scalarOf, scalar, if_true, bind, Except.bind, same]
  rfl

theorem uint32Text_other (field : String) (other : ∀ i, ¬ IsInteger o i) : ∃ detail, uint32Text field o =
    .error (.error (.valueDecode field "uint32" detail (some o.location))) := by
  cases o with
  | nested p => exact ⟨_, rfl⟩
  | leaf l =>
    cases scalar : l.isScalar with
    | false => exact ⟨_, by simp only [uint32Text, scalarOf, scalar]; rfl⟩
    | true =>
      have integer : ∀ i, l.datum ≠ .int i := fun i same => other i ⟨l, rfl, scalar, same⟩
      refine ⟨quoted l.text ++ " is not an integer", ?_⟩
      simp only [uint32Text, scalarOf, scalar, if_true, bind, Except.bind]
      rfl

theorem uint32Text_settled (field : String) (short : ¬ TooLong o) :
    Settled field "uint32" o (uint32Text field o) := by
  by_cases integer : ∃ i, IsInteger o i
  · obtain ⟨i, integer⟩ := integer
    have writable : Number.writable i = true := by
      by_contra long
      exact short ⟨i, integer, long⟩
    rw [uint32Text_integer integer, if_pos writable]
    split
    · exact .inl ⟨_, rfl⟩
    · exact .inr ⟨_, rfl⟩
  · exact .inr (uint32Text_other field fun i is => integer ⟨i, is⟩)

theorem writable_of_uint32 {i : Int} (within : 0 ≤ i ∧ i ≤ maxUint32) : Number.writable i = true := by
  have ten : i.natAbs < 10 ^ 10 := by
    unfold maxUint32 at within
    omega
  have enough : 10 ≤ Number.digitLimit := by decide
  unfold Number.writable
  generalize Number.digitLimit = limit at enough
  exact decide_eq_true (Nat.lt_of_lt_of_le ten (Nat.pow_le_pow_right (by decide) enough))

theorem uint32Text_tooLong (field : String) (long : TooLong o) :
    uint32Text field o = .error (.fault .integerTooLong) := by
  obtain ⟨i, integer, long⟩ := long
  rw [uint32Text_integer integer, if_neg fun within => long (writable_of_uint32 within), if_neg long]

theorem uint32Text_settled_iff : Settled field "uint32" o (uint32Text field o) ↔ ¬ TooLong o := by
  constructor
  · intro settled long
    rw [uint32Text_tooLong field long] at settled
    rcases settled with ⟨text, read⟩ | ⟨detail, refused⟩
    · cases read
    · cases refused
  · exact uint32Text_settled field

/-- Exactly the numbers of 32 bits are read, as their decimal writing. -/
theorem uint32Text_ok_iff {text : String} : uint32Text field o = .ok text ↔
    ∃ n : Nat, IsInteger o n ∧ n < 2 ^ 32 ∧ text = decimal n := by
  constructor
  · intro read
    by_cases integer : ∃ i, IsInteger o i
    · obtain ⟨i, integer⟩ := integer
      rw [uint32Text_integer integer] at read
      split at read
      · rename_i within
        cases read
        obtain ⟨n, rfl⟩ := Int.eq_ofNat_of_zero_le within.1
        refine ⟨n, integer, ?_, rfl⟩
        have most := within.2
        unfold maxUint32 at most
        omega
      · split at read <;> cases read
    · obtain ⟨detail, refused⟩ := uint32Text_other field fun i is => integer ⟨i, is⟩
      rw [refused] at read
      cases read
  · rintro ⟨n, integer, small, rfl⟩
    have within : (0 : Int) ≤ n ∧ (n : Int) ≤ maxUint32 := by
      unfold maxUint32
      omega
    rw [uint32Text_integer integer, if_pos within]
    rfl

end Readers
end MailRules.Search

namespace MailRules.Sweep
open MailRules.Search MailRules.Calendar MailRules.Text

theorem compileErrors_leaves {p : Precondition} (now : Moment) (writable : p.Writable) :
    ∃ tokens, Search.Leaves now p tokens (compileErrors now p) := by
  obtain ⟨errors, left, outcome⟩ := compile_leaves now p writable
  suffices same : compileErrors now p = errors from ⟨_, same ▸ left⟩
  unfold compileErrors
  rw [outcome]
  cases raised : raiseErrors errors with
  | ok u => exact ((raiseErrors_ok_iff errors).mp raised).symm
  | error failure =>
    obtain ⟨e, rfl, flat⟩ := raiseErrors_concerning left.concerns raised
    exact flat

theorem compileErrors_told {now : Moment} {d : Document} {a : Account} {m : Mailbox} {r : Rule}
    {p : Precondition} (account : a ∈ d.accounts) (mailbox : m ∈ a.mailboxes) (rule : r ∈ m.rules)
    (member : p ∈ r.preconditions) : compileErrors now p ⊆ documentMistakes now d := by
  intro e mistaken
  have inRule : e ∈ preconditionMistakes now r := List.mem_flatMap.mpr ⟨p, member, mistaken⟩
  have told : e ∈ ruleMistakes now r := by
    unfold ruleMistakes
    rw [if_neg]
    · exact inRule
    · simp [List.ne_nil_of_mem inRule]
  refine List.mem_flatMap.mpr ⟨a, account, ?_⟩
  refine List.mem_flatMap.mpr ⟨m, mailbox, ?_⟩
  exact List.mem_flatMap.mpr ⟨r, rule, told⟩

/-- The validation pass tells what the preconditions leave, unless it meets an integer that is too long to be
written. -/
theorem pass_tells_refused {σ : Type} (now : Moment) (d : Document) (st : σ) :
    (∃ errors, (pass (Family.idle σ) now d st).1 = .ok errors ∧
      ∀ a ∈ d.accounts, ∀ m ∈ a.mailboxes, ∀ r ∈ m.rules, ∀ p ∈ r.preconditions, p.Writable →
        ∃ tokens refused, Search.Leaves now p tokens refused ∧ refused ⊆ errors) ∨
    ¬ d.Writable ∧ (pass (Family.idle σ) now d st).1 = .error (.fault .integerTooLong) := by
  have ended := pass_collects now d st trivial
  split at ended <;> rename_i same <;> rw [same]
  · refine .inl ⟨_, rfl, ?_⟩
    intro a account m mailbox r rule p member writable
    obtain ⟨tokens, left⟩ := compileErrors_leaves now writable
    exact ⟨tokens, _, left, ended ▸ compileErrors_told account mailbox rule member⟩
  · exact .inr ⟨ended.1, congrArg Except.error ended.2⟩

/-- Every reader of arguments gives a text or refuses its operand, under the field and at the operand's own
place, but for an integer that is too long to be written: that is a fault of the reader of numbers. The
numbers of 32 bits are read, as their decimal writing, and no others. Where the validation pass meets no such
fault, it ends, and tells all that the preconditions of the document leave. -/
theorem values_settled (now : Moment) (field : String) (o : Operand) :
    Settled field "string" o (stringText field o) ∧
    Settled field "date" o (dateText field o) ∧
    Settled field "duration" o (durationText now field o) ∧
    (Settled field "uint32" o (uint32Text field o) ↔ ¬ TooLong o) ∧
    (TooLong o → uint32Text field o = .error (.fault .integerTooLong)) ∧
    ((∃ text, uint32Text field o = .ok text) ↔ ∃ n : Nat, IsInteger o n ∧ n < 2 ^ 32) ∧
    (∀ (n : Nat) text, IsInteger o n → uint32Text field o = .ok text → Canonical n text) ∧
    ∀ {σ : Type} d (st : σ),
      (∃ errors, (pass (Family.idle σ) now d st).1 = .ok errors ∧
        ∀ a ∈ d.accounts, ∀ m ∈ a.mailboxes, ∀ r ∈ m.rules, ∀ p ∈ r.preconditions, p.Writable →
          ∃ tokens refused, Search.Leaves now p tokens refused ∧ refused ⊆ errors) ∨
      ¬ d.Writable ∧ (pass (Family.idle σ) now d st).1 = .error (.fault .integerTooLong) := by
  refine ⟨stringText_settled field o, dateText_settled field o, durationText_settled now field o,
    uint32Text_settled_iff, uint32Text_tooLong field, ?_, ?_, pass_tells_refused now⟩
  · constructor
    · rintro ⟨text, read⟩
      obtain ⟨n, integer, small, -⟩ := uint32Text_ok_iff.mp read
      exact ⟨n, integer, small⟩
    · rintro ⟨n, integer, small⟩
      exact ⟨decimal n, uint32Text_ok_iff.mpr ⟨n, integer, small, rfl⟩⟩
  · rintro n text ⟨l, rfl, -, same⟩ read
    obtain ⟨k, ⟨l', here, -, same'⟩, -, rfl⟩ := uint32Text_ok_iff.mp read
    cases here
    cases same.symm.trans same'
    exact decimal_canonical n

/-! A number of 3600 hexadecimal digits -/

def longNumber : Leaf :=
  ⟨String.ofList ('0' :: 'x' :: List.replicate 3600 'f'), .int (16 ^ 3600 - 1), true, ⟨"c", 7, 34⟩⟩

def overlong : Document :=
  ⟨"c", [⟨"h", {}, {}, [⟨"INBOX",
    [⟨[.mk "LARGER" [.leaf longNumber] ⟨"c", 7, 9⟩], [], ⟨"c", 6, 7⟩⟩,
      ⟨[fieldOf "SINCE" ["soon"]], [], ⟨"c", 8, 7⟩⟩], ⟨"c", 4, 5⟩⟩], ⟨"c", 2, 3⟩⟩]⟩

theorem long_number_ends_pass : (¬ ∀ field o, Settled field "uint32" o (uint32Text field o)) ∧
    (pass (Family.idle Unit) newYear overlong ()).1 = .error (.fault .integerTooLong) := by
  have unwritable : ¬ Number.writable (16 ^ 3600 - 1) = true := by decide +kernel
  have long : TooLong (.leaf longNumber) := ⟨_, ⟨longNumber, rfl, rfl, rfl⟩, unwritable⟩
  constructor
  · intro always
    exact uint32Text_settled_iff.mp (always "LARGER" (.leaf longNumber)) long
  · have refused : (pass (Family.idle Unit) newYear overlong ()).1.isOk = false := by decide +kernel
    rcases pass_tells_refused newYear overlong () with ⟨errors, told, -⟩ | ⟨-, fault⟩
    · rw [told] at refused
      cases refused
    · exact fault

end MailRules.Sweep
