import MailRules.Proofs.Search.Groups
/-!
The criteria that accepted preconditions write. Their groups are closed where they were opened, so their
tokens always write criteria; and they write none just if each precondition lists nothing to look for.
-/
namespace MailRules
open MailRules.Search MailRules.Calendar

mutual

/-- No message numbers, no alternatives, or one alternative that is vacuous. -/
def Precondition.Vacuous : Precondition → Prop
  | .mk field operands _ =>
    (field = "MSG" ∧ operands = []) ∨ (field = "OR" ∧ Operand.NothingMore operands)

def Operand.NothingMore : List Operand → Prop
  | [] => True
  | [.nested p] => p.Vacuous
  | _ => False

end

namespace Search

/-- Each group is closed within the tokens, and no other group is. -/
inductive Balanced : List Token → Prop
  | nil : Balanced []
  | text (s : String) : Balanced [.text s]
  | append {front back : List Token} (first : Balanced front) (second : Balanced back) :
      Balanced (front ++ back)
  | group {inside : List Token} (inner : Balanced inside) :
      Balanced (.opening :: inside ++ [.closing])

theorem written_of_balanced {tokens : List Token} (balanced : Balanced tokens) :
    ∃ criteria, tokens = Criterion.allWritten criteria := by
  induction balanced with
  | nil => exact ⟨[], rfl⟩
  | text s => exact ⟨[.text s], rfl⟩
  | append _ _ first second =>
    obtain ⟨items, rfl⟩ := first
    obtain ⟨more, rfl⟩ := second
    exact ⟨items ++ more, (allWritten_append items more).symm⟩
  | group _ inner =>
    obtain ⟨items, rfl⟩ := inner
    exact ⟨[.group items], by simp [Criterion.allWritten, Criterion.written]⟩

theorem nest_balanced {tokens : List Token} (balanced : Balanced tokens) :
    ∃ criteria, nest tokens = .ok criteria := by
  obtain ⟨criteria, written⟩ := written_of_balanced balanced
  exact ⟨criteria, (nest_ok_iff tokens criteria).mpr written⟩

theorem balanced_cons (s : String) {tokens : List Token} (balanced : Balanced tokens) :
    Balanced (.text s :: tokens) := .append (.text s) balanced

theorem balanced_texts (texts : List String) : Balanced (texts.map .text) := by
  induction texts with
  | nil => exact .nil
  | cons s texts ih => exact balanced_cons s ih

theorem balanced_of_laid {lists : List Precondition} {tokens : List Token} {criteria : List Criterion}
    (laid : Laid lists tokens criteria) : Balanced tokens := by
  induction laid with
  | nil => exact .nil
  | text s _ ih => exact balanced_cons s ih
  | group leaves _ _ ih =>
    have inside : Balanced (.text "UID" :: leaves.map fun l => .text l.text) := by
      simpa [Function.comp_def] using balanced_texts ("UID" :: leaves.map Leaf.text)
    simpa using (Balanced.group inside).append ih

variable {now : Moment}

theorem emitted_balanced {ps : List Precondition}
    (accepted : ∀ p ∈ ps, (compile now p).outcome = .ok ()) : Balanced (emitted now ps) := by
  obtain ⟨sent, criteria, laid, _⟩ := gathered_laid now ps
  rw [← gathered_accepted accepted]
  exact balanced_of_laid laid

/-! Preconditions that emit nothing -/

theorem Field.untagged_is_msg {f : Field} (known : f ∈ Field.all) (untagged : f.tag = none) :
    f.name = "MSG" := by
  revert f
  decide

theorem fieldTokens_nil_iff {f : Field} {texts : List String} (known : f ∈ Field.all) :
    fieldTokens f texts = [] ↔ f.name = "MSG" ∧ texts = [] := by
  constructor
  · intro none
    unfold fieldTokens at none
    dsimp only at none
    split at none
    · simp at none
    · obtain ⟨tag, empty⟩ := List.append_eq_nil_iff.mp none
      exact ⟨Field.untagged_is_msg known (by simpa using tag), by simpa using empty⟩
  · rintro ⟨name, rfl⟩
    simp [msg_tokens known name]

theorem tokens_nil_iff_vacuous (p : Precondition) (accepted : (compile now p).outcome = .ok ()) :
    (compile now p).tokens = [] ↔ p.Vacuous := by
  induction p using Precondition.induction with
  | step name operands location ih =>
    have compiled := compiled_of_ok accepted
    rw [Precondition.Vacuous]
    generalize (compile now (.mk name operands location)).tokens = tokens at compiled ⊢
    cases compiled with
    | negation q _ inner => simp
    | alternatives qs _ inner =>
      match qs with
      | [] => simp [joined, Operand.NothingMore]
      | [q] =>
        have only := ih q List.mem_cons_self (inner q List.mem_cons_self)
        simpa [joined, Operand.NothingMore] using only
      | q :: q' :: qs => simp [joined, Operand.NothingMore]
    | field f _ _ texts known plain arity read =>
      have noAlternatives := (Field.plain_name known plain).2
      have listed : operands = [] ↔ texts = [] := by
        have lengths := congrArg List.length read
        rw [← List.length_eq_zero_iff, ← List.length_eq_zero_iff]
        simp only [List.length_map] at lengths
        rw [lengths]
      simp [fieldTokens_nil_iff known, listed, noAlternatives]

theorem emitted_nil_iff {ps : List Precondition}
    (accepted : ∀ p ∈ ps, (compile now p).outcome = .ok ()) :
    emitted now ps = [] ↔ ∀ p ∈ ps, p.Vacuous := by
  rw [emitted, List.flatMap_eq_nil_iff]
  exact forall₂_congr fun p member => tokens_nil_iff_vacuous p (accepted p member)

end Search
end MailRules
