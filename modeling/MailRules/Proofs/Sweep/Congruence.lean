import Mathlib.Data.List.Forall2
import MailRules.Proofs.Sweep.Emission
/-!
Relations between steps that every way of putting steps together respects. A rule is put together from
the requests to its family, so rules are related wherever the requests are: what is to be shown of a
rule is shown of its requests. Where releases are respected too, the same goes for whole passes, and for
passes over two documents whose accounts differ in no more than how they are connected.
-/
namespace MailRules.Sweep
open MailRules.Search MailRules.Calendar MailRules.Sweep.Step

structure Congruence (σ τ : Type) where
  Related : ∀ {α : Type}, Step σ α → Step τ α → Prop
  outcome : ∀ {α : Type} (r : Except Failure α), Related (fun st => (r, st)) (fun st => (r, st))
  bind : ∀ {α β : Type} {s : Step σ α} {t : Step τ α} {next : α → Step σ β} {next' : α → Step τ β},
    Related s t → (∀ a, Related (next a) (next' a)) → Related (s >>= next) (t >>= next')
  attempt : ∀ {s : Step σ Unit} {t : Step τ Unit}, Related s t → Related s.attempt t.attempt

namespace Congruence

variable {σ τ α β : Type} (R : Congruence σ τ)

section Steps
variable {s : Step σ Unit} {t : Step τ Unit}

theorem collected (inner : R.Related s t) : R.Related s.collected t.collected := by
  apply R.bind (R.attempt inner)
  intro raised
  cases raised <;> exact R.outcome _

theorem compiled (inner : R.Related s t) : R.Related s.compiled t.compiled := by
  apply R.bind (R.attempt inner)
  intro raised
  cases raised with
  | none => exact R.outcome _
  | some e =>
    dsimp only
    split <;> exact R.outcome _

theorem collectPairs {items : List α} {items' : List β} {s : α → Step σ Unit} {t : β → Step τ Unit}
    (pairs : List.Forall₂ (fun a b => R.Related (s a) (t b)) items items') :
    R.Related (Step.collectEach items s) (Step.collectEach items' t) := by
  induction pairs with
  | nil => exact R.outcome _
  | cons one _ ih =>
    apply R.bind (R.collected one)
    exact fun _ => R.bind ih fun _ => R.outcome _

theorem collectEach {items : List α} {s : α → Step σ Unit} {t : α → Step τ Unit}
    (one : ∀ a, R.Related (s a) (t a)) :
    R.Related (Step.collectEach items s) (Step.collectEach items t) :=
  R.collectPairs (List.forall₂_same.mpr fun a _ => one a)

end Steps

section Preconditions
variable {f : Family σ} {g : Family τ} {now : Moment}
  (append : ∀ token, R.Related (f.append token) (g.append token))
include append

theorem appendAll (tokens : List Token) :
    R.Related (tokens.forM f.append) (tokens.forM g.append) := by
  induction tokens with
  | nil => exact R.outcome _
  | cons t tokens ih => exact R.bind (append t) fun _ => ih

theorem emit (c : Compilation) : R.Related (emit f c) (emit g c) :=
  R.bind (R.appendAll append c.tokens) fun _ => R.outcome _

theorem negatedInto {field : Field} {tag : List Token} {os : List Operand}
    (inner : ∀ q, .nested q ∈ os → R.Related (compileInto f now q) (compileInto g now q)) :
    R.Related (negatedInto f now field tag os) (negatedInto g now field tag os) := by
  match os with
  | [.leaf l] => exact R.outcome _
  | [.nested q] => exact R.bind (R.appendAll append tag) fun _ => inner q List.mem_cons_self
  | [] => exact R.appendAll append tag
  | .leaf l :: o :: rest => exact R.appendAll append tag
  | .nested q :: o :: rest => exact R.appendAll append tag

theorem alternativesInto {field : Field} {tag : List Token} {os : List Operand}
    (inner : ∀ q, .nested q ∈ os → R.Related (compileInto f now q) (compileInto g now q)) :
    R.Related (alternativesInto f now field tag os) (alternativesInto g now field tag os) := by
  induction os with
  | nil => exact R.outcome _
  | cons o os ih =>
    have later := ih fun q member => inner q (List.mem_cons_of_mem o member)
    cases o with
    | leaf l => exact R.bind later fun _ => R.outcome _
    | nested q =>
      have operand := inner q List.mem_cons_self
      apply R.bind
      · apply R.compiled
        split
        · exact R.bind (R.appendAll append tag) fun _ => operand
        · exact operand
      · exact fun _ => R.bind later fun _ => R.outcome _

theorem compileInto (p : Precondition) : R.Related (compileInto f now p) (compileInto g now p) := by
  induction p using Precondition.induction with
  | step field os location inner =>
    unfold Sweep.compileInto
    cases Field.named? field with
    | none => exact R.outcome _
    | some known =>
      dsimp only
      split
      · exact R.outcome _
      · cases known.kind with
        | nested => exact R.negatedInto append inner
        | nestedList => exact R.bind (R.alternativesInto append inner) fun _ => R.outcome _
        | _ => exact R.emit append _

end Preconditions

section Actions
variable {f : Family σ} {g : Family τ} {now : Moment}
  (move : ∀ destination, R.Related (f.move destination) (g.move destination))
include move

theorem copyEach (errors : List Error) (leaves : List Leaf) :
    R.Related (copyEach f errors leaves) (copyEach g errors leaves) := by
  induction leaves generalizing errors with
  | nil => exact R.outcome _
  | cons l leaves ih =>
    unfold Sweep.copyEach
    split
    · exact ih _
    · exact R.outcome _
    · rename_i destination _
      apply R.bind (R.attempt (move destination))
      intro raised
      cases raised with
      | none => exact ih errors
      | some e => exact R.outcome _

theorem perform (done : Progress) (actions : List Action) :
    R.Related (perform f done actions) (perform g done actions) := by
  induction actions generalizing done with
  | nil => exact R.outcome _
  | cons a actions ih =>
    unfold Sweep.perform
    split
    · apply R.bind (R.copyEach move done.errors a.arguments)
      intro progress
      split
      · exact R.outcome _
      · exact ih progress
    · exact ih _

theorem execute (mark : R.Related f.mark g.mark) (actions : List Action) :
    R.Related (execute f actions) (execute g actions) := by
  apply R.bind (R.perform move {} actions)
  intro progress
  dsimp only
  split
  · exact R.bind (R.collected mark) fun _ => R.outcome _
  · exact R.outcome _

end Actions

theorem rule {f : Family σ} {g : Family τ} {now : Moment}
    (append : ∀ token, R.Related (f.append token) (g.append token))
    (search : R.Related f.search g.search)
    (move : ∀ destination, R.Related (f.move destination) (g.move destination))
    (mark : R.Related f.mark g.mark) (r : Rule) : R.Related (rule f now r) (rule g now r) := by
  apply R.bind (R.collectEach (R.compileInto append))
  intro errors
  apply R.bind (R.outcome _)
  intro _
  exact R.bind search fun _ => R.execute move mark r.actions

structure Requests (f : Family σ) (g : Family τ) : Prop where
  newAccount : R.Related f.newAccount g.newAccount
  newMailbox : R.Related f.newMailbox g.newMailbox
  select : ∀ name, R.Related (f.select name) (g.select name)
  newRule : R.Related f.newRule g.newRule
  append : ∀ token, R.Related (f.append token) (g.append token)
  search : R.Related f.search g.search
  move : ∀ destination, R.Related (f.move destination) (g.move destination)
  mark : R.Related f.mark g.mark
  close : R.Related f.close g.close
  logout : R.Related f.logout g.logout

structure SameAccount (f : Family σ) (g : Family τ) (a a' : Account) : Prop where
  connect : R.Related (f.connect a.host a.flags a.credentials)
    (g.connect a'.host a'.flags a'.credentials)
  mailboxes : a.mailboxes = a'.mailboxes

section Passes
variable {R} {f : Family σ} {g : Family τ} {now : Moment} (requests : R.Requests f g)
  (released : ∀ {body : Step σ (List Error)} {body' : Step τ (List Error)} {release : Step σ Unit}
    {release' : Step τ Unit}, R.Related body body' → R.Related release release' →
    R.Related (body.released release) (body'.released release'))
include requests released

theorem mailbox (m : Mailbox) : R.Related (mailbox f now m) (mailbox g now m) := by
  apply R.bind (requests.select m.name)
  intro _
  apply R.bind (released (R.collectEach _) requests.close)
  · exact fun _ => R.outcome _
  · intro r
    apply R.bind requests.newRule
    intro _
    exact R.rule requests.append requests.search requests.move requests.mark r

theorem account {a a' : Account} (same : R.SameAccount f g a a') :
    R.Related (account f now a) (account g now a') := by
  apply R.bind same.connect
  intro _
  rw [same.mailboxes]
  apply R.bind (released (R.collectEach _) requests.logout)
  · exact fun _ => R.outcome _
  · intro m
    exact R.bind requests.newMailbox fun _ => mailbox requests released m

theorem pass {d d' : Document} (accounts : List.Forall₂ (R.SameAccount f g) d.accounts d'.accounts) :
    R.Related (pass f now d) (pass g now d') := by
  apply R.collectPairs
  apply accounts.imp
  intro a a' same
  exact R.bind requests.newAccount fun _ => account requests released same

end Passes
end Congruence

def keeping {σ : Type} (I : σ → Prop) : Congruence σ σ where
  Related := fun s _ => Keeps I s
  outcome := keeps_outcome
  bind := keeps_bind
  attempt := fun inner => triple_attempt_alike inner

section Lockstep
variable {σ τ : Type} {R : σ → τ → Prop}

/-- From states with `R` the steps end alike, and in states with `R`. -/
def InStep {α : Type} (R : σ → τ → Prop) (s : Step σ α) (t : Step τ α) : Prop :=
  ∀ st st', R st st' → ∃ r u u', s st = (r, u) ∧ t st' = (r, u') ∧ R u u'

def lockstep (R : σ → τ → Prop) : Congruence σ τ where
  Related := InStep R
  outcome := fun r st st' holds => ⟨r, st, st', rfl, rfl, holds⟩
  bind := by
    intro _ _ s t next next' first later st st' holds
    obtain ⟨r, u, u', left, right, after⟩ := first st st' holds
    rw [bind_apply, bind_apply, left, right]
    cases r with
    | ok a => exact later a u u' after
    | error failure => exact ⟨.error failure, u, u', rfl, rfl, after⟩
  attempt := by
    intro s t inner st st' holds
    obtain ⟨r, u, u', left, right, after⟩ := inner st st' holds
    unfold attempt
    rw [left, right]
    match r with
    | .ok () => exact ⟨_, u, u', rfl, rfl, after⟩
    | .error (.error e) => exact ⟨_, u, u', rfl, rfl, after⟩
    | .error (.fault x) => exact ⟨_, u, u', rfl, rfl, after⟩

theorem lockstep_leaving {s : Step σ Unit} {t : Step τ Unit} (inner : (lockstep R).Related s t) :
    (lockstep R).Related s.leaving t.leaving := by
  intro st st' holds
  obtain ⟨r, u, u', left, right, after⟩ := inner st st' holds
  rw [leaving_apply, leaving_apply, left, right]
  exact ⟨r.mapError Failure.leaving, u, u', rfl, rfl, after⟩

theorem lockstep_released {body : Step σ (List Error)} {body' : Step τ (List Error)}
    {release : Step σ Unit} {release' : Step τ Unit} (inner : (lockstep R).Related body body')
    (last : (lockstep R).Related release release') :
    (lockstep R).Related (body.released release) (body'.released release') := by
  intro st st' holds
  obtain ⟨r, u, u', left, right, after⟩ := inner st st' holds
  have releases := (lockstep R).collected (lockstep_leaving last)
  unfold released
  rw [left, right]
  cases r with
  | ok errors => exact (lockstep R).bind releases (fun _ => (lockstep R).outcome _) u u' after
  | error failure =>
    apply (lockstep R).bind _ (fun _ => (lockstep R).outcome (.error failure)) u u' after
    exact (lockstep R).bind releases fun _ => (lockstep R).outcome _

end Lockstep
end MailRules.Sweep
