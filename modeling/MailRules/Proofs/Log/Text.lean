import Mathlib
import MailRules.Yaml.Token.Property
import MailRules.Log.Record
/-!
Texts in JSON and how they read back. A code point beyond the basic plane is written as two surrogates, so a
text that holds such two by themselves cannot be told from one that holds the code point: they read back
joined. Every text without such a pair reads back as it is.
-/
namespace MailRules.Text

namespace CodePoint

def IsHigh (p : CodePoint) : Prop := 0xD800 ≤ p.val ∧ p.val < 0xDC00

def IsLow (p : CodePoint) : Prop := 0xDC00 ≤ p.val ∧ p.val < 0xE000

instance (p : CodePoint) : Decidable p.IsHigh := inferInstanceAs (Decidable (_ ∧ _))

instance (p : CodePoint) : Decidable p.IsLow := inferInstanceAs (Decidable (_ ∧ _))

/-- The code point that two surrogates stand for: each has ten of its bits. -/
def ofPair (high low : CodePoint) : CodePoint :=
  Fin.ofNat 0x110000 (0x10000 + (high.val - 0xD800) * 0x400 + (low.val - 0xDC00))

theorem char?_ofChar (c : Char) : (ofChar c).char? = some c := by
  have valid : (ofChar c).val.isValidChar := c.valid
  rw [char?, dif_pos valid]
  rfl

theorem eq_ofChar {p : CodePoint} {c : Char} (char : p.char? = some c) : p = ofChar c := by
  unfold char? at char
  split at char
  · cases char
    rfl
  · cases char

theorem surrogate_of_none {p : CodePoint} (none : p.char? = none) : p.IsHigh ∨ p.IsLow := by
  unfold char? at none
  split at none
  · cases none
  · rename_i invalid
    have bound := p.isLt
    simp only [Nat.isValidChar] at invalid
    unfold IsHigh IsLow
    omega

theorem ofChar_sound (c : Char) : ¬(ofChar c).IsHigh ∧ ¬(ofChar c).IsLow := by
  have valid : c.toNat < 0xD800 ∨ 0xDFFF < c.toNat ∧ c.toNat < 0x110000 := c.valid
  simp only [IsHigh, IsLow, ofChar]
  omega

theorem ofPair_beyond {p q : CodePoint} (high : p.IsHigh) (low : q.IsLow) :
    0x10000 ≤ (ofPair p q).val := by
  unfold IsHigh at high
  unfold IsLow at low
  simp only [ofPair, Fin.val_ofNat]
  omega

end CodePoint

namespace Points

def Unsplit (ps : Points) : Prop := ps.IsChain fun p q => ¬(p.IsHigh ∧ q.IsLow)

instance (ps : Points) : Decidable ps.Unsplit := inferInstanceAs (Decidable (ps.IsChain _))

/-- The text with each pair of surrogates as the code point that they stand for. -/
def joined : Points → Points
  | p :: q :: ps => if p.IsHigh ∧ q.IsLow then .ofPair p q :: joined ps else p :: joined (q :: ps)
  | ps => ps

theorem joined_eq_self_iff (ps : Points) : ps.joined = ps ↔ ps.Unsplit := by
  induction ps using joined.induct with
  | case1 p q ps pair ih =>
    have beyond := CodePoint.ofPair_beyond pair.1 pair.2
    have low := pair.1.2
    rw [joined, if_pos pair]
    refine iff_of_false (fun same => ?_) fun unsplit => (List.isChain_cons_cons.mp unsplit).1 pair
    rw [(List.cons.inj same).1] at beyond
    omega
  | case2 p q ps apart ih =>
    rw [joined, if_neg apart, Unsplit, List.isChain_cons_cons, ← Unsplit, ← ih]
    simp [apart]
  | case3 ps short =>
    rw [joined]
    · refine iff_of_true rfl ?_
      match ps with
      | [] => exact .nil
      | [p] => exact .singleton p
      | p :: q :: ps => exact (short p q ps rfl).elim
    · exact short

end Points
end MailRules.Text

namespace MailRules.Log
open MailRules.Text
open MailRules.Yaml.Scan (isHexDigit ofHexDigits)

/-! Reading texts -/

def unit? : List Char → Option (CodePoint × List Char)
  | a :: b :: c :: d :: rest =>
    if [a, b, c, d].all isHexDigit then some (Fin.ofNat 0x110000 (ofHexDigits [a, b, c, d]), rest) else none
  | _ => none

def escaped? : List Char → Option (CodePoint × List Char)
  | '\\' :: 'u' :: cs => unit? cs
  | _ => none

def point? (cs : List Char) : Option (CodePoint × List Char) := do
  let (p, rest) ← unit? cs
  match escaped? rest with
  | some (q, after) => if p.IsHigh ∧ q.IsLow then return (.ofPair p q, after) else return (p, rest)
  | none => return (p, rest)

def escapeLetters : List (Char × Char) :=
  [('"', '"'), ('\\', '\\'), ('/', '/'), ('b', '\x08'), ('f', '\x0C'), ('n', '\n'), ('r', '\r'), ('t', '\t')]

/-- A code point of a text, and what follows it. A control character stands there only by an escape. -/
def char? : List Char → Option (CodePoint × List Char)
  | [] => none
  | ['\\'] => none
  | '\\' :: 'u' :: rest => point? rest
  | '\\' :: letter :: rest => (escapeLetters.lookup letter).map fun c => (.ofChar c, rest)
  | c :: rest => if ' ' ≤ c then some (.ofChar c, rest) else none

def chars? : Nat → List Char → Option (Points × List Char)
  | 0, _ => none
  | _ + 1, '"' :: rest => some ([], rest)
  | n + 1, cs => do
    let (p, rest) ← char? cs
    let (more, rest) ← chars? n rest
    return (p :: more, rest)

/-! Units read back -/

theorem hexPadded_succ {width n : Nat} (some : 0 < width) :
    hexPadded (width + 1) n = hexPadded width (n / 16) ++ [(n % 16).digitChar] := by
  rcases Nat.lt_or_ge n 16 with small | large
  · rw [hexPadded, hexPadded, Nat.toDigits_of_lt_base small, Nat.div_eq_of_lt small, Nat.mod_eq_of_lt small,
      Nat.toDigits_zero, List.length_singleton, List.length_singleton, ← List.replicate_succ',
      Nat.add_sub_cancel, Nat.sub_add_cancel some]
  · rw [hexPadded, hexPadded, Nat.toDigits_of_base_le (by decide) large, List.length_append,
      List.length_singleton, Nat.add_sub_add_right, List.append_assoc]

theorem hexPadded_one {n : Nat} (fits : n < 16) : hexPadded 1 n = [n.digitChar] := by
  rw [hexPadded, Nat.toDigits_of_lt_base fits]
  rfl

theorem hexPadded_four {n : Nat} (fits : n < 0x10000) : hexPadded 4 n =
    [(n / 16 / 16 / 16).digitChar, (n / 16 / 16 % 16).digitChar, (n / 16 % 16).digitChar,
      (n % 16).digitChar] := by
  rw [hexPadded_succ (by decide), hexPadded_succ (by decide), hexPadded_succ (by decide),
    hexPadded_one (by omega)]
  rfl

theorem digitChar_hex :
    ∀ d < 16, isHexDigit d.digitChar = true ∧ Number.placeValue? d.digitChar = some d := by
  decide

variable {p q : CodePoint}

theorem unit?_hexPadded (fits : p.val < 0x10000) (rest : List Char) :
    unit? (hexPadded 4 p ++ rest) = some (p, rest) := by
  obtain ⟨first, firstValue⟩ := digitChar_hex (p / 16 / 16 / 16) (by omega)
  obtain ⟨second, secondValue⟩ := digitChar_hex (p / 16 / 16 % 16) (by omega)
  obtain ⟨third, thirdValue⟩ := digitChar_hex (p / 16 % 16) (by omega)
  obtain ⟨last, lastValue⟩ := digitChar_hex (p % 16) (by omega)
  rw [hexPadded_four fits]
  simp only [List.cons_append, List.nil_append, unit?, List.all_cons, List.all_nil, first, second, third, last,
    ofHexDigits, List.foldl_cons, List.foldl_nil, firstValue, secondValue, thirdValue, lastValue,
    Option.getD_some, Bool.and_self, if_true]
  congr 2
  apply Fin.ext
  simp only [Fin.val_ofNat]
  omega

theorem escaped?_unicodeEscape (fits : p.val < 0x10000) (rest : List Char) :
    escaped? (unicodeEscape p ++ rest) = some (p, rest) :=
  unit?_hexPadded fits rest

theorem char?_unicodeEscape (fits : p.val < 0x10000) (rest : List Char) :
    char? (unicodeEscape p ++ rest) = match escaped? rest with
      | some (q, after) => if p.IsHigh ∧ q.IsLow then some (.ofPair p q, after) else some (p, rest)
      | none => some (p, rest) := by
  have same : char? (unicodeEscape p ++ rest) = point? (hexPadded 4 p ++ rest) := rfl
  rw [same, point?, unit?_hexPadded fits]
  simp only [Option.bind_eq_bind, Option.bind_some]
  rfl

theorem char?_single (fits : p.val < 0x10000) (high : ¬p.IsHigh) (rest : List Char) :
    char? (unicodeEscape p ++ rest) = some (p, rest) := by
  rw [char?_unicodeEscape fits]
  split
  · exact if_neg fun pair => high pair.1
  · rfl

theorem char?_pair (high : p.IsHigh) (low : q.IsLow) (rest : List Char) :
    char? (unicodeEscape p ++ (unicodeEscape q ++ rest)) = some (.ofPair p q, rest) := by
  have fits : p.val < 0x10000 := Nat.lt_trans high.2 (by decide)
  have fits' : q.val < 0x10000 := Nat.lt_trans low.2 (by decide)
  rw [char?_unicodeEscape fits, escaped?_unicodeEscape fits']
  exact if_pos ⟨high, low⟩

/-! Code points read back -/

theorem char?_plain {c : Char} (unescaped : c ≠ '\\') (printable : ' ' ≤ c) (rest : List Char) :
    char? (c :: rest) = some (.ofChar c, rest) := by
  unfold char?
  split <;> simp_all

structure Halves (c : Char) (p q : CodePoint) : Prop where
  high : p.IsHigh
  low : q.IsLow
  whole : .ofPair p q = CodePoint.ofChar c

theorem halves_of_astral {c : Char} (astral : 0x10000 ≤ c.toNat) : ∃ p q : CodePoint, Halves c p q ∧
    p.val = 0xD800 + (c.toNat - 0x10000) / 0x400 ∧ q.val = 0xDC00 + (c.toNat - 0x10000) % 0x400 := by
  have bound : c.toNat < 0x110000 := (CodePoint.ofChar c).isLt
  refine ⟨⟨0xD800 + (c.toNat - 0x10000) / 0x400, by omega⟩, ⟨0xDC00 + (c.toNat - 0x10000) % 0x400, by omega⟩,
    ⟨?_, ?_, ?_⟩, rfl, rfl⟩
  · exact ⟨by simp, by simp only; omega⟩
  · exact ⟨by simp, by simp only; omega⟩
  · apply Fin.ext
    simp only [CodePoint.ofPair, CodePoint.ofChar, Fin.val_ofNat]
    omega

inductive Spelled (c : Char) : List Char → Prop
  | letter (l : Char) (letter : (l, c) ∈ escapeLetters) : Spelled c ['\\', l]
  | plain (unescaped : c ≠ '\\') (unquoted : c ≠ '"') (printable : ' ' ≤ c) : Spelled c [c]
  | unit (fits : (CodePoint.ofChar c).val < 0x10000) : Spelled c (unicodeEscape (CodePoint.ofChar c))
  | pair (p q : CodePoint) (halves : Halves c p q) : Spelled c (unicodeEscape p ++ unicodeEscape q)

theorem jsonChar_spelled (c : Char) : Spelled c (jsonChar c) := by
  unfold jsonChar
  split
  -- The seven characters that have an escape letter.
  iterate 7 exact .letter _ (by decide)
  next unquoted unescaped _ _ _ _ _ =>
    dsimp only
    split
    next printable => exact .plain (fun same => unescaped same) (fun same => unquoted same) printable.1
    next =>
      split
      next basic => exact .unit basic
      next astral =>
        obtain ⟨p, q, halves, first, second⟩ := halves_of_astral (Nat.le_of_not_lt astral)
        rw [← first, ← second]
        exact .pair p q halves

theorem char?_jsonChar (c : Char) (rest : List Char) :
    char? (jsonChar c ++ rest) = some (.ofChar c, rest) := by
  generalize jsonChar c = cs, jsonChar_spelled c = spelled
  cases spelled with
  | letter l letter =>
    simp only [escapeLetters, List.mem_cons, Prod.mk.injEq, List.not_mem_nil, or_false] at letter
    rcases letter with ⟨rfl, rfl⟩ | ⟨rfl, rfl⟩ | ⟨rfl, rfl⟩ | ⟨rfl, rfl⟩ | ⟨rfl, rfl⟩ | ⟨rfl, rfl⟩ |
      ⟨rfl, rfl⟩ | ⟨rfl, rfl⟩ <;> rfl
  | plain unescaped _ printable => exact char?_plain unescaped printable rest
  | unit fits => exact char?_single fits (CodePoint.ofChar_sound c).1 rest
  | pair p q halves => rw [List.append_assoc, char?_pair halves.high halves.low, halves.whole]

theorem jsonPoint_ofChar (c : Char) : jsonPoint (.ofChar c) = jsonChar c := by
  rw [jsonPoint, CodePoint.char?_ofChar]

theorem jsonPoint_surrogate (none : p.char? = none) : jsonPoint p = unicodeEscape p := by
  rw [jsonPoint, none]

theorem surrogate_basic (none : p.char? = none) : p.val < 0x10000 := by
  rcases CodePoint.surrogate_of_none none with high | low
  · exact Nat.lt_trans high.2 (by decide)
  · exact Nat.lt_trans low.2 (by decide)

theorem jsonPoint_high (high : p.IsHigh) : jsonPoint p = unicodeEscape p := by
  apply jsonPoint_surrogate
  cases char : p.char? with
  | none => rfl
  | some c => exact ((CodePoint.ofChar_sound c).1 (CodePoint.eq_ofChar char ▸ high)).elim

theorem jsonPoint_low (low : p.IsLow) : jsonPoint p = unicodeEscape p := by
  apply jsonPoint_surrogate
  cases char : p.char? with
  | none => rfl
  | some c => exact ((CodePoint.ofChar_sound c).2 (CodePoint.eq_ofChar char ▸ low)).elim

theorem jsonPoint_opens (p : CodePoint) : ∃ c cs, jsonPoint p = c :: cs ∧ c ≠ '"' := by
  cases char : p.char? with
  | none => exact ⟨_, _, jsonPoint_surrogate char, by decide⟩
  | some c =>
    rw [CodePoint.eq_ofChar char, jsonPoint_ofChar]
    generalize jsonChar c = cs, jsonChar_spelled c = spelled
    cases spelled with
    | letter l => exact ⟨_, _, rfl, by decide⟩
    | plain _ unquoted => exact ⟨_, _, rfl, unquoted⟩
    | unit => exact ⟨_, _, rfl, by decide⟩
    | pair p q => exact ⟨_, _, rfl, by decide⟩

/-- What a code point is written as begins with its own unit, with a surrogate that comes first, or with none. -/
theorem escaped?_jsonPoint {rest after : List Char} (first : escaped? (jsonPoint p ++ rest) = some (q, after)) :
    q = p ∨ q.IsHigh := by
  have unit {r : CodePoint} {cs : List Char} (fits : r.val < 0x10000)
      (first : escaped? (unicodeEscape r ++ cs) = some (q, after)) : q = r := by
    rw [escaped?_unicodeEscape fits] at first
    exact (Prod.mk.inj (Option.some.inj first)).1.symm
  cases char : p.char? with
  | none =>
    rw [jsonPoint_surrogate char] at first
    exact Or.inl (unit (surrogate_basic char) first)
  | some c =>
    rw [CodePoint.eq_ofChar char, jsonPoint_ofChar] at first
    generalize jsonChar c = cs, jsonChar_spelled c = spelled at first
    cases spelled with
    | letter l letter =>
      have other : ∀ e ∈ escapeLetters, e.1 ≠ 'u' := by decide
      have none : escaped? (['\\', l] ++ rest) = none := by
        unfold escaped?
        split
        next same => exact (other _ letter (List.cons.inj (List.cons.inj same).2).1).elim
        next => rfl
      rw [none] at first
      cases first
    | plain unescaped =>
      have none : escaped? ([c] ++ rest) = none := by
        unfold escaped?
        split
        next same => exact (unescaped (List.cons.inj same).1).elim
        next => rfl
      rw [none] at first
      cases first
    | unit fits => exact Or.inl (CodePoint.eq_ofChar char ▸ unit fits first)
    | pair r s halves =>
      rw [List.append_assoc] at first
      exact Or.inr (unit (Nat.lt_trans halves.high.2 (by decide)) first ▸ halves.high)

theorem char?_jsonPoint {rest : List Char}
    (apart : p.IsHigh → ∀ q after, escaped? rest = some (q, after) → ¬q.IsLow) :
    char? (jsonPoint p ++ rest) = some (p, rest) := by
  cases char : p.char? with
  | none =>
    rw [jsonPoint_surrogate char, char?_unicodeEscape (surrogate_basic char)]
    split
    next q after next => exact if_neg fun pair => apart pair.1 q after next pair.2
    next => rfl
  | some c => rw [CodePoint.eq_ofChar char, jsonPoint_ofChar, char?_jsonChar]

/-! Texts read back -/

theorem chars?_step {r : CodePoint} {rest after : List Char} (n : Nat)
    (read : char? (jsonPoint p ++ rest) = some (r, after)) :
    chars? (n + 1) (jsonPoint p ++ rest) = (chars? n after).map fun (more, rest) => (r :: more, rest) := by
  obtain ⟨c, cs, same, unquoted⟩ := jsonPoint_opens p
  have goes : ∀ after, jsonPoint p ++ rest = '"' :: after → False := by
    intro after quoted
    rw [same] at quoted
    exact unquoted (List.cons.inj quoted).1
  rw [chars?, read]
  · simp only [Option.bind_eq_bind, Option.bind_some]
    cases chars? n after <;> rfl
  · exact goes

theorem chars?_flatMap (ps : Points) {n : Nat} (fuel : ps.length < n) (rest : List Char) :
    chars? n (ps.flatMap jsonPoint ++ '"' :: rest) = some (ps.joined, rest) := by
  induction ps using Points.joined.induct generalizing n with
  | case1 p q ps pair ih =>
    obtain ⟨n, rfl⟩ := Nat.exists_eq_add_one.mpr (Nat.zero_lt_of_lt fuel)
    rw [List.length_cons, List.length_cons] at fuel
    have read (after : List Char) :
        char? (jsonPoint p ++ (jsonPoint q ++ after)) = some (.ofPair p q, after) := by
      rw [jsonPoint_high pair.1, jsonPoint_low pair.2]
      exact char?_pair pair.1 pair.2 after
    rw [List.flatMap_cons, List.flatMap_cons, List.append_assoc, List.append_assoc, chars?_step n (read _),
      ih (by omega), Points.joined, if_pos pair]
    rfl
  | case2 p q ps apart ih =>
    obtain ⟨n, rfl⟩ := Nat.exists_eq_add_one.mpr (Nat.zero_lt_of_lt fuel)
    have read : char? (jsonPoint p ++ ((q :: ps).flatMap jsonPoint ++ '"' :: rest)) =
        some (p, (q :: ps).flatMap jsonPoint ++ '"' :: rest) := by
      apply char?_jsonPoint
      intro high r after next low
      rw [List.flatMap_cons, List.append_assoc] at next
      rcases escaped?_jsonPoint next with rfl | first
      · exact apart ⟨high, low⟩
      · exact absurd low.1 (Nat.not_le_of_lt first.2)
    rw [List.flatMap_cons, List.append_assoc, chars?_step n read, ih (Nat.lt_of_succ_lt_succ fuel),
      Points.joined, if_neg apart]
    rfl
  | case3 ps short =>
    obtain ⟨n, rfl⟩ := Nat.exists_eq_add_one.mpr (Nat.zero_lt_of_lt fuel)
    match ps with
    | [] => rfl
    | [p] =>
      obtain ⟨n, rfl⟩ := Nat.exists_eq_add_one.mpr (Nat.lt_of_succ_lt_succ fuel)
      have read : char? (jsonPoint p ++ '"' :: rest) = some (p, '"' :: rest) := by
        apply char?_jsonPoint
        rintro _ q after ⟨⟩
      rw [List.flatMap_singleton, chars?_step (n + 1) read]
      rfl
    | p :: q :: ps => exact (short p q ps rfl).elim

theorem length_flatMap_jsonPoint (ps : Points) : ps.length ≤ (ps.flatMap jsonPoint).length := by
  induction ps with
  | nil => exact Nat.le_refl 0
  | cons p ps ih =>
    obtain ⟨c, cs, same, -⟩ := jsonPoint_opens p
    rw [List.flatMap_cons, same, List.length_append, List.length_cons, List.length_cons]
    omega

theorem length_jsonText (ps : Points) : ps.length + 2 ≤ (jsonText ps).length := by
  have points := length_flatMap_jsonPoint ps
  have same : jsonText ps = '"' :: ps.flatMap jsonPoint ++ ['"'] := rfl
  rw [same]
  simp only [List.cons_append, List.length_cons, List.length_append, List.length_nil]
  omega

theorem jsonText_append (ps : Points) (rest : List Char) :
    jsonText ps ++ rest = '"' :: (ps.flatMap jsonPoint ++ '"' :: rest) := by
  have same : jsonText ps = '"' :: ps.flatMap jsonPoint ++ ['"'] := rfl
  simp [same]

end MailRules.Log
