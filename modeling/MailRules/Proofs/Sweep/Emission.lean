import MailRules.Proofs.Sweep.Step
import MailRules.Proofs.Search.Compile
/-!
Compiling into the search of a rule. A family that refuses no token with an error receives the tokens
that the precondition compiles to, in their order, and the step ends as the precondition does.
-/
namespace MailRules.Sweep
open MailRules.Search MailRules.Calendar MailRules.Sweep.Step

variable {σ : Type} {f : Family σ} {now : Moment}

/-- A token is taken, or its refusal is a fault. -/
def Family.TakesTokens (f : Family σ) : Prop :=
  ∀ t st e st', f.append t st ≠ (.error (.error e), st')

theorem appendAll_takes (takes : f.TakesTokens) (tokens : List Token) (st : σ) :
    (∃ st', tokens.forM f.append st = (.ok (), st')) ∨
      ∃ x st', tokens.forM f.append st = (.error (.fault x), st') := by
  induction tokens generalizing st with
  | nil => exact Or.inl ⟨st, rfl⟩
  | cons t tokens ih =>
    have first : (t :: tokens).forM f.append st =
        (do f.append t; tokens.forM f.append) st := rfl
    rw [first, bind_apply]
    cases same : f.append t st with
    | mk result st' =>
      match result with
      | .ok () => exact ih st'
      | .error (.fault x) => exact Or.inr ⟨x, st', rfl⟩
      | .error (.error e) => exact (takes t st e st' same).elim

theorem emit_after (tokens : List Token) (c : Compilation) :
    emit f (c.after tokens) = (do tokens.forM f.append; emit f c) := by
  simp [emit, Compilation.after, List.forM_append, bind_assoc]

theorem compiled_apply (s : Step σ Unit) (st : σ) :
    s.compiled st = match s st with
      | (.ok (), st') => (.ok [], st')
      | (.error (.error e), st') =>
        if e.isCompilation then (.ok e.flat, st') else (.error (.error e), st')
      | (.error (.fault x), st') => (.error (.fault x), st') := by
  simp only [compiled, bind_apply, attempt]
  cases s st with
  | mk result st' =>
    cases result with
    | ok u => rfl
    | error failure =>
      cases failure with
      | fault x => rfl
      | error e =>
        by_cases kind : e.isCompilation
        · simp only [kind, if_true]
          rfl
        · simp only [kind, Bool.false_eq_true, if_false]
          rfl

theorem alternativesInto_emit (takes : f.TakesTokens) {g : Field} {tag : List Token}
    {os : List Operand}
    (inner : ∀ q, .nested q ∈ os → compileInto f now q = emit f (compile now q))
    (errors : List Error) :
    (do Step.raise (errors ++ (← alternativesInto f now g tag os))) =
      emit f (compileAlternatives now g tag errors os) := by
  induction os generalizing errors with
  | nil =>
    simp [alternativesInto, compileAlternatives, emit]
    rfl
  | cons o os ih =>
    have later : ∀ q, .nested q ∈ os → compileInto f now q = emit f (compile now q) :=
      fun q member => inner q (List.mem_cons_of_mem o member)
    cases o with
    | leaf l =>
      have rest := ih later (errors ++ [notNested g l])
      simpa [alternativesInto, compileAlternatives] using rest
    | nested q =>
      funext st
      obtain ⟨joint, jointIs⟩ : ∃ ts, ts = (if os.isEmpty then [] else tag) ++ (compile now q).tokens :=
        ⟨_, rfl⟩
      have joined : (do
            if !os.isEmpty then tag.forM f.append
            compileInto f now q) =
          (do joint.forM f.append; fun st => ((compile now q).outcome, st)) := by
        rw [inner q List.mem_cons_self, jointIs]
        cases os <;> simp [emit, List.forM_append, bind_assoc]
      have rest (own : List Error) (st : σ) : (do
            let more ← alternativesInto f now g tag os
            Step.raise (errors ++ (own ++ more))) st =
          emit f (compileAlternatives now g tag (errors ++ own) os) st := by
        rw [← ih later]
        simp
      rw [alternativesInto, joined, compileAlternatives, ← jointIs]
      simp only [bind_assoc, pure_bind]
      rw [bind_apply, compiled_apply, bind_apply]
      rcases appendAll_takes takes joint st with ⟨st', same⟩ | ⟨x, st', same⟩
      · cases outcome : (compile now q).outcome with
        | ok u =>
          have tail := rest [] st'
          rw [bind_apply] at tail
          simpa only [same, emit_after, bind_apply, List.append_nil, List.nil_append] using tail
        | error failure =>
          cases failure with
          | fault x => simp only [same, emit, bind_apply]
          | error e =>
            have kind := Failure.isCompilation_of_precondition (compile_failure q _ outcome)
            have tail := rest e.flat st'
            rw [bind_apply] at tail
            simpa only [same, kind, emit_after, bind_apply, if_true] using tail
      · cases (compile now q).outcome with
        | ok u => simp only [same, emit_after, bind_apply]
        | error failure =>
          cases failure with
          | error e => simp only [same, emit_after, bind_apply]
          | fault y => simp only [same, emit, bind_apply]

theorem negatedInto_emit {g : Field} {tag : List Token} {os : List Operand}
    (inner : ∀ q, .nested q ∈ os → compileInto f now q = emit f (compile now q)) :
    negatedInto f now g tag os = emit f (compileNegated now g tag os) := by
  have alone : tag.forM f.append = emit f ⟨tag, .ok ()⟩ :=
    (bind_pure (tag.forM f.append)).symm
  match os with
  | [.leaf l] => rfl
  | [.nested q] =>
    rw [negatedInto, inner q List.mem_cons_self]
    exact (emit_after tag (compile now q)).symm
  | [] => exact alone
  | .leaf l :: o :: rest => exact alone
  | .nested q :: o :: rest => exact alone

theorem compileInto_emit (takes : f.TakesTokens) (p : Precondition) :
    compileInto f now p = emit f (compile now p) := by
  induction p using Precondition.induction with
  | step field os location inner =>
    cases known : Field.named? field with
    | none =>
      simp only [compileInto, compile, known]
      rfl
    | some g =>
      by_cases met : g.arity.any (· ≠ os.length)
      · simp only [compileInto, compile, known, if_pos met]
        rfl
      · simp only [compileInto, compile, known, if_neg met]
        cases g.kind with
        | nested => exact negatedInto_emit inner
        | nestedList => simpa using alternativesInto_emit takes inner []
        | _ => rfl

/-! Families that keep what they are given -/

def Family.Holds (f : Family σ) (Held : List Token → σ → Prop) : Prop :=
  ∀ t tokens st, Held tokens st → ∃ st', f.append t st = (.ok (), st') ∧ Held (tokens ++ [t]) st'

theorem appendAll_holds {Held : List Token → σ → Prop} (holds : f.Holds Held) (more : List Token)
    {tokens : List Token} {st : σ} (held : Held tokens st) :
    ∃ st', more.forM f.append st = (.ok (), st') ∧ Held (tokens ++ more) st' := by
  induction more generalizing tokens st with
  | nil => exact ⟨st, rfl, by simpa using held⟩
  | cons t more ih =>
    obtain ⟨next, taken, first⟩ := holds t tokens st held
    obtain ⟨last, others, all⟩ := ih first
    refine ⟨last, ?_, by simpa using all⟩
    have step : (t :: more).forM f.append st = (do f.append t; more.forM f.append) st := rfl
    rw [step, bind_apply, taken]
    exact others

end MailRules.Sweep
