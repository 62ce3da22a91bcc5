import Mathlib
import MailRules.Live.Host
import MailRules.Proofs.Number.Numeral
/-!
What hosts are written like, and what is read from each text. The texts of the written forms give their name and
their port. Brackets that are not closed, or that something other than a port follows, are read all the same:
what stands in them is the name, and the rest is lost.
-/
namespace MailRules.Live
open MailRules.Text MailRules.Number

/-- The forms of a host: the name, and the text after the colon of the port if there is one. -/
inductive Writes (name : List Char) : Option (List Char) → List Char → Prop
  | bare (unbracketed : name.head? ≠ some '[') (plain : ':' ∉ name) : Writes name none name
  | colons (unbracketed : name.head? ≠ some '[') (several : 2 ≤ name.count ':') : Writes name none name
  | ported {port : List Char} (unbracketed : name.head? ≠ some '[') (plain : ':' ∉ name)
      (single : ':' ∉ port) : Writes name (some port) (name ++ ':' :: port)
  | bracketed (inside : ']' ∉ name) : Writes name none ('[' :: name ++ [']'])
  | bracketedPorted {port : List Char} (inside : ']' ∉ name) :
      Writes name (some port) ('[' :: name ++ ']' :: ':' :: port)

/-- Brackets that are not closed, or closed and followed by what is no port. -/
inductive Strays (name : List Char) : List Char → Prop
  | unclosed (inside : ']' ∉ name) : Strays name ('[' :: name)
  | trailed {rest : List Char} (inside : ']' ∉ name) (more : rest ≠ []) (portless : rest.head? ≠ some ':') :
      Strays name ('[' :: name ++ ']' :: rest)

section Pieces
variable {cs name : List Char} {written : Option (List Char)}

theorem takeWhile_until {x : Char} {before after : List Char} (first : x ∉ before) :
    (before ++ x :: after).takeWhile (· ≠ x) = before := by
  rw [List.takeWhile_append_of_pos fun c member => by simpa using ne_of_mem_of_not_mem member first]
  simp

theorem hostPieces_unbracketed (unbracketed : cs.head? ≠ some '[') : hostPieces cs =
    if cs.count ':' = 1 then
      (cs.takeWhile (· ≠ ':'), cs.drop ((cs.takeWhile (· ≠ ':')).length + 1))
    else (cs, []) := by
  unfold hostPieces
  split
  · exact absurd rfl unbracketed
  · rfl

theorem hostPieces_closed {rest : List Char} (inside : ']' ∉ name) :
    hostPieces ('[' :: name ++ ']' :: rest) = match rest with
      | ':' :: port => (name, port)
      | _ => (name, []) := by
  have scanned : (name ++ ']' :: rest).takeWhile (· ≠ ']') = name := takeWhile_until inside
  have after : ((name ++ ']' :: rest).drop name.length).drop 1 = rest := by simp
  change (match ((name ++ ']' :: rest).drop ((name ++ ']' :: rest).takeWhile (· ≠ ']')).length).drop 1 with
    | ':' :: port => ((name ++ ']' :: rest).takeWhile (· ≠ ']'), port)
    | _ => ((name ++ ']' :: rest).takeWhile (· ≠ ']'), [])) = _
  rw [scanned, after]

theorem hostPieces_writes (form : Writes name written cs) : hostPieces cs = (name, written.getD []) := by
  cases form with
  | bare unbracketed plain =>
    rw [hostPieces_unbracketed unbracketed, if_neg (by simp [List.count_eq_zero.mpr plain])]
    rfl
  | colons unbracketed several =>
    rw [hostPieces_unbracketed unbracketed, if_neg (by omega)]
    rfl
  | @ported port unbracketed plain single =>
    have one : (name ++ ':' :: port).count ':' = 1 := by
      simp [List.count_eq_zero.mpr plain, List.count_eq_zero.mpr single]
    have head : (name ++ ':' :: port).head? ≠ some '[' := by
      cases name with
      | nil => simp
      | cons c name => exact unbracketed
    rw [hostPieces_unbracketed head, if_pos one, takeWhile_until plain]
    simp
  | bracketed inside => exact hostPieces_closed inside
  | bracketedPorted inside => exact hostPieces_closed inside

theorem hostPieces_strays (form : Strays name cs) : hostPieces cs = (name, []) := by
  cases form with
  | unclosed inside =>
    have whole : name.takeWhile (· ≠ ']') = name :=
      List.takeWhile_eq_self_iff.mpr fun c member => by simpa using ne_of_mem_of_not_mem member inside
    simp only [hostPieces, whole, List.drop_length, List.drop_nil]
  | @trailed rest inside more portless =>
    rw [hostPieces_closed inside]
    split
    · exact absurd rfl portless
    · rfl

theorem writes_or_strays (cs : List Char) :
    (∃ name written, Writes name written cs) ∨ ∃ name, Strays name cs := by
  by_cases unbracketed : cs.head? ≠ some '['
  · left
    by_cases plain : ':' ∈ cs
    · obtain ⟨name, port, rfl, first⟩ := List.eq_append_cons_of_mem plain
      by_cases single : ':' ∈ port
      · have several : 2 ≤ (name ++ ':' :: port).count ':' := by
          have := List.count_pos_iff.mpr single
          simp
          omega
        exact ⟨_, none, .colons unbracketed several⟩
      · refine ⟨name, some port, .ported ?_ first single⟩
        cases name with
        | nil => simp
        | cons c name => exact unbracketed
    · exact ⟨cs, none, .bare unbracketed plain⟩
  · obtain ⟨inner, rfl⟩ : ∃ inner, cs = '[' :: inner := List.head?_eq_some_iff.mp (not_not.mp unbracketed)
    by_cases closed : ']' ∈ inner
    · obtain ⟨name, rest, rfl, inside⟩ := List.eq_append_cons_of_mem closed
      cases rest with
      | nil => exact .inl ⟨name, none, .bracketed inside⟩
      | cons c rest =>
        by_cases colon : c = ':'
        · exact .inl ⟨name, some rest, colon ▸ .bracketedPorted inside⟩
        · exact .inr ⟨name, .trailed inside (List.cons_ne_nil c rest) (by simpa using colon)⟩
    · exact .inr ⟨inner, .unclosed closed⟩

theorem writes_bracketed {inner : List Char} (form : Writes name written ('[' :: inner)) :
    inner = name ++ [']'] ∨ ∃ port, inner = name ++ ']' :: ':' :: port := by
  generalize whole : '[' :: inner = cs at form
  cases form with
  | bare unbracketed => exact absurd (whole ▸ rfl) unbracketed
  | colons unbracketed => exact absurd (whole ▸ rfl) unbracketed
  | ported unbracketed =>
    cases name with
    | nil => simp at whole
    | cons c name => exact absurd (congrArg some (List.cons.inj whole).1.symm) unbracketed
  | bracketed => exact .inl (List.cons.inj whole).2
  | @bracketedPorted port => exact .inr ⟨port, (List.cons.inj whole).2⟩

theorem strays_unwritten {other : List Char} (stray : Strays other cs) : ¬Writes name written cs := by
  intro form
  have same := (hostPieces_writes form).symm.trans (hostPieces_strays stray)
  obtain ⟨rfl, -⟩ := Prod.mk.inj same
  cases stray with
  | unclosed inside =>
    apply inside
    rcases writes_bracketed form with closed | ⟨port, closed⟩ <;> rw [closed] <;> simp
  | trailed inside more portless =>
    rcases writes_bracketed form with closed | ⟨port, closed⟩
    · exact more (by simpa using closed)
    · exact portless (by simp_all)

end Pieces

/-- What a host comes apart into. Of a written host the port is the one written, or the default one if none is;
a port that is no decimal number is refused, unless it is made of digits all the same. -/
inductive Splits (host : String) (tls : Bool) : Except Failure (String × Nat) → Prop
  | default {name : String} {written : Option (List Char)} (form : Writes name.toList written host.toList)
      (empty : written.getD [] = []) : Splits host tls (.ok (name, defaultPort tls))
  | port {name : String} {text : List Char} {n : Nat} (form : Writes name.toList (some text) host.toList)
      (numeral : IsNumeral text n) : Splits host tls (.ok (name, n))
  | refused {name text : List Char} {c : Char} (form : Writes name (some text) host.toList)
      (member : c ∈ text) (other : isDigitLike c = false) :
      Splits host tls (.error (.error (.protocol "dial" ("invalid port in " ++ quoted host))))
  | unreadable {name text : List Char} (form : Writes name (some text) host.toList) (some : text ≠ [])
      (digits : ∀ c ∈ text, isDigitLike c = true)
      (no_number : (∃ c ∈ text, digitValue? c = none) ∨ digitLimit < text.length) :
      Splits host tls (.error (.fault .portUnreadable))
  | stray {name : String} (form : Strays name.toList host.toList) :
      Splits host tls (.ok (name, defaultPort tls))

section Splits
variable {host : String} {tls : Bool} {name text : List Char}

theorem splitHost_default (pieces : hostPieces host.toList = (name, [])) :
    splitHost host tls = .ok (String.ofList name, defaultPort tls) := by
  simp [splitHost, pieces]

theorem splitHost_ported (pieces : hostPieces host.toList = (name, text)) (some : text ≠ []) :
    splitHost host tls = if text.all isDigitLike then
        match readInteger 10 text with
        | .ok i => .ok (String.ofList name, i.toNat)
        | .error _ => .error (.fault .portUnreadable)
      else .error (.error (.protocol "dial" ("invalid port in " ++ quoted host))) := by
  simp only [splitHost, pieces, List.isEmpty_eq_false_iff.mpr some]
  cases text.all isDigitLike <;> rfl

theorem splitHost_splits {r : Except Failure (String × Nat)} (splits : Splits host tls r) :
    splitHost host tls = r := by
  cases splits with
  | @default name written form empty =>
    have pieces := hostPieces_writes form
    rw [empty] at pieces
    rw [splitHost_default pieces, String.ofList_toList]
  | @port name text n form numeral =>
    have digits := numeral.digitLike
    have read : readInteger 10 text = .ok n := (readInteger_digitLike digits).mpr ⟨n, rfl, numeral⟩
    have all : text.all isDigitLike = true := List.all_eq_true.mpr digits
    rw [splitHost_ported (hostPieces_writes form) numeral.ne_nil]
    simp [all, read]
  | @refused name text c form member other =>
    have some : text ≠ [] := List.ne_nil_of_mem member
    rw [splitHost_ported (hostPieces_writes form) some, if_neg]
    simpa using ⟨c, member, other⟩
  | @unreadable name text form some digits no_number =>
    rw [splitHost_ported (hostPieces_writes form) some]
    have all : text.all isDigitLike = true := List.all_eq_true.mpr digits
    cases read : readInteger 10 text with
    | ok i =>
      obtain ⟨n, -, numeral⟩ := (readInteger_digitLike digits).mp read
      exact absurd numeral (not_isNumeral_iff.mpr (.inr no_number) n)
    | error e => simp [all, read]
  | stray form => rw [splitHost_default (hostPieces_strays form), String.ofList_toList]

theorem splits_some (host : String) (tls : Bool) : ∃ r, Splits host tls r := by
  rcases writes_or_strays host.toList with ⟨name, written, form⟩ | ⟨name, form⟩
  · have named : Writes (String.ofList name).toList written host.toList := by simpa using form
    by_cases empty : written.getD [] = []
    · exact ⟨_, .default named empty⟩
    · obtain ⟨text, rfl⟩ : ∃ text, written = some text := by
        cases written with
        | none => exact absurd rfl empty
        | some text => exact ⟨text, rfl⟩
      by_cases digits : ∀ c ∈ text, isDigitLike c = true
      · by_cases number : ∃ n, IsNumeral text n
        · exact ⟨_, .port named number.choose_spec⟩
        · have none := (not_isNumeral_iff.mp (not_exists.mp number)).resolve_left empty
          exact ⟨_, .unreadable form empty digits none⟩
      · obtain ⟨c, member, other⟩ : ∃ c ∈ text, isDigitLike c ≠ true := by simpa using digits
        exact ⟨_, .refused form member (by simpa using other)⟩
  · exact ⟨_, .stray (by simpa using form : Strays (String.ofList name).toList host.toList)⟩

end Splits

/-- Exactly the texts of the written forms give the name and the port that they write, or are refused for
their port; the others are the stray ones, which give what stands in the bracket and the default port. -/
theorem host_splits_as_written (host : String) (tls : Bool) :
    (∀ r, splitHost host tls = r ↔ Splits host tls r) ∧
    Xor (∃ name written, Writes name written host.toList) (∃ name, Strays name host.toList) := by
  constructor
  · intro r
    constructor
    · rintro rfl
      obtain ⟨r, splits⟩ := splits_some host tls
      rwa [splitHost_splits splits]
    · exact splitHost_splits
  · rcases writes_or_strays host.toList with written | ⟨name, stray⟩
    · exact .inl ⟨written, fun ⟨_, stray⟩ => written.elim fun _ ⟨_, form⟩ => strays_unwritten stray form⟩
    · exact .inr ⟨⟨name, stray⟩, fun ⟨_, _, form⟩ => strays_unwritten stray form⟩

theorem stray_hosts_split :
    (¬∀ host tls place, splitHost host tls = .ok place →
      ∃ name written, Writes name written host.toList) ∧
    ¬∀ host tls failure, splitHost host tls = .error failure →
      ∃ detail, failure = .error (.protocol "dial" detail) := by
  constructor
  · intro written
    have stray : Strays "::1".toList "[::1".toList := .unclosed (by decide)
    obtain ⟨name, port, form⟩ := written "[::1" true ("::1", defaultPort true) (splitHost_splits (.stray stray))
    exact strays_unwritten stray form
  · intro refused
    have form : Writes ['h'] (some ['²']) "h:²".toList := .ported (by decide) (by decide) (by decide)
    have digits : ∀ c ∈ ['²'], isDigitLike c = true := by simp; decide +kernel
    have superscript : digitValue? '²' = none := by decide +kernel
    have unreadable : Splits "h:²" true (.error (.fault .portUnreadable)) :=
      .unreadable form (by decide) digits (.inl ⟨'²', by simp, superscript⟩)
    obtain ⟨detail, same⟩ := refused "h:²" true _ (splitHost_splits unreadable)
    cases same

end MailRules.Live
