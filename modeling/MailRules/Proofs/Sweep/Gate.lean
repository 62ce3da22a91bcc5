import Mathlib.Data.List.Flatten
import MailRules.Proofs.Sweep.Run
import MailRules.Proofs.Sweep.Validation
import MailRules.Proofs.Search.Meaning
import MailRules.Proofs.Document.Reader
import MailRules.Sweep.Script
/-!
The gate between the passes of a run. A live pass follows only a validation pass that found nothing, so
it works on an accepted document: its preconditions compile whatever the family does, and its actions
copy to texts. All that is left to go wrong are the requests, and the invariant of a step is that the
errors it carries are among those that requests have raised so far, in the order in which they arose.
-/
namespace MailRules.Sweep
open MailRules.Search MailRules.Calendar MailRules.Sweep.Step

/-- The errors and faults of the requests as a pass meets them, one by one. -/
def raised (events : List Event) : List Error :=
  events.flatMap fun e => e.met.toList.flatMap fun failure => failure.asError.parts

variable {σ τ α β : Type} {f : Family σ} {now : Moment}

def Told (errors : List Error) (w : Watched σ) : Prop :=
  (errors.flatMap Error.parts).Sublist (raised w.events)

/-- The step is given the errors `left` and ends with the errors `right`, or with a failure in place of
both; beside what requests raise, it adds none. -/
def Carries (left : List Error) (s : Step (Watched σ) α) (right : α → List Error) : Prop :=
  ∀ before, Triple (Told (before ++ left)) s (fun a => Told (before ++ right a))
    fun failure => Told (before ++ [failure.asError])

/-- The step fails only with what one of its requests raised. -/
def Truthful (s : Step (Watched σ) α) : Prop := Carries [] s fun _ => []

theorem told_of_sublist {few many : List Error} {w : Watched σ} (told : Told many w)
    (sub : few.Sublist many) : Told few w :=
  (sub.flatMap Error.parts).trans told

section Rules
variable {left : List Error} {right : α → List Error}

theorem carries_pure {a : α} (same : (right a).flatMap Error.parts = left.flatMap Error.parts) :
    Carries left (pure a : Step (Watched σ) α) right := by
  intro before
  apply triple_pure
  intro w told
  simpa [Told, same] using told

theorem carries_bind {m : α → List Error} {last : β → List Error} {s : Step (Watched σ) α}
    {next : α → Step (Watched σ) β} (first : Carries left s m)
    (later : ∀ a, Carries (m a) (next a) last) : Carries left (s >>= next) last := fun before =>
  triple_bind (first before) fun a => later a before

theorem carries_frame {s : Step (Watched σ) α} (inner : Carries [] s right) :
    Carries left s fun a => left ++ right a := by
  intro before
  apply triple_weaken (inner (before ++ left))
  · intro w told
    simpa using told
  · intro a w told
    simpa using told
  · intro failure w told
    apply told_of_sublist told
    exact (List.sublist_append_left before left).append_right _

theorem truthful_meet (q : Request) : Truthful (meet f q) := by
  intro before
  apply triple_meet
  · intro st events told st'
    simpa [Told, raised, Event.met] using told
  · intro st events told e failure st' _ met
    have parts : raised (events ++ [e]) = raised events ++ failure.asError.parts := by
      simp [raised, met]
    rw [Told, parts, List.flatMap_append]
    rw [List.append_nil] at told
    simpa using told.append_right failure.asError.parts

theorem truthful_watch {q : Request} (other : q.isRelease = false) : Truthful (watch f q) := by
  rw [← meet_other f other]
  exact truthful_meet q

theorem truthful_leaving {q : Request} (release : q.isRelease = true) :
    Truthful (watch f q).leaving := by
  rw [← meet_release f release]
  exact truthful_meet q

theorem carries_raise (errors : List Error) :
    Carries errors (raise errors : Step (Watched σ) Unit) fun _ => [] := by
  intro before
  apply triple_raise
  · rintro w told rfl
    exact told
  · intro w failure told failed
    simpa [Told, raiseErrors_parts failed] using told

section Collecting
variable {s : Step (Watched σ) Unit} (inner : Truthful s)
include inner

theorem carries_attempt : Carries [] s.attempt Option.toList := by
  intro before
  apply triple_attempt
  apply triple_weaken (inner before) (fun _ => id) (fun _ _ => id)
  intro failure w told
  cases failure <;> exact told

theorem carries_collected : Carries [] s.collected id := by
  apply carries_bind (carries_attempt inner)
  intro raised
  cases raised with
  | none => exact carries_pure rfl
  | some e => exact carries_pure (by simp [Error.parts_flat])

theorem carries_compiled : Carries [] s.compiled id := by
  apply carries_bind (carries_attempt inner)
  intro raised
  cases raised with
  | none => exact carries_pure rfl
  | some e =>
    dsimp only
    split
    · exact carries_pure (by simp [Error.parts_flat])
    · exact fun before w told => told

end Collecting

theorem carries_collectEach {items : List α} {each : α → Step (Watched σ) Unit}
    (one : ∀ a ∈ items, Truthful (each a)) : Carries [] (collectEach items each) id := by
  induction items with
  | nil => exact carries_pure rfl
  | cons a items ih =>
    apply carries_bind (carries_collected (one a List.mem_cons_self))
    intro errors
    have rest := ih fun b member => one b (List.mem_cons_of_mem a member)
    exact carries_bind (carries_frame rest) fun more => carries_pure rfl

theorem carries_released {body : Step (Watched σ) (List Error)} {release : Step (Watched σ) Unit}
    (inner : Carries [] body id) (last : Truthful release.leaving) :
    Carries [] (released body release) id := by
  intro before
  apply triple_released (inner before)
  · intro errors
    exact carries_frame (carries_collected last) before
  · intro failure
    apply triple_weaken (carries_frame (carries_collected last) before) (fun _ => id) _ (fun _ _ => id)
    intro errors w told
    apply told_of_sublist told
    exact (List.sublist_append_left _ errors).append_left before

end Rules

/-! Accepted documents -/

theorem truthful_appendAll (tokens : List Token) : Truthful (tokens.forM f.watched.append) := by
  induction tokens with
  | nil => exact carries_pure rfl
  | cons t tokens ih => exact carries_bind (truthful_watch (q := .append t) rfl) fun _ => ih

theorem truthful_emit {c : Compilation} (accepted : c.outcome = .ok ()) :
    Truthful (emit f.watched c) := by
  apply carries_bind (truthful_appendAll c.tokens)
  intro _
  rw [accepted]
  exact carries_pure rfl

theorem carries_alternativesInto {g : Field} {tag : List Token} {qs : List Precondition}
    (inner : ∀ q ∈ qs, Truthful (compileInto f.watched now q)) :
    Carries [] (alternativesInto f.watched now g tag (qs.map .nested)) id := by
  induction qs with
  | nil => exact carries_pure rfl
  | cons q qs ih =>
    have operand := inner q List.mem_cons_self
    have rest := ih fun p member => inner p (List.mem_cons_of_mem q member)
    apply carries_bind (m := id)
    · apply carries_compiled
      split
      · exact carries_bind (truthful_appendAll tag) fun _ => operand
      · exact operand
    -- The errors of this operand are dropped where a later token is refused with anything but an error of
    -- a precondition, so what is carried is a part of what was raised and not all of it.
    · exact fun errors => carries_bind (carries_frame rest) fun more => carries_pure rfl

theorem truthful_compileInto (p : Precondition) (accepted : (compile now p).outcome = .ok ()) :
    Truthful (compileInto f.watched now p) := by
  induction p using Precondition.induction with
  | step field os location inner =>
    rw [compile] at accepted
    rw [compileInto]
    cases found : Field.named? field with
    | none =>
      rw [found] at accepted
      cases accepted
    | some g =>
      rw [found] at accepted
      dsimp only at accepted ⊢
      obtain ⟨known, rfl⟩ := Field.named?_some found
      by_cases met : g.arity.any (· ≠ os.length) = true
      · rw [if_pos met] at accepted
        cases accepted
      · rw [if_neg met] at accepted ⊢
        cases kind : g.kind with
        | nested =>
          obtain rfl := Field.nested_is_not known kind
          obtain ⟨q, rfl, accepted, _⟩ := compileNegated_ok (arity_met met 1 rfl) accepted
          have operand := inner q List.mem_cons_self accepted
          exact carries_bind (truthful_appendAll _) fun _ => operand
        | nestedList =>
          obtain rfl := Field.nestedList_is_or known kind
          obtain ⟨_, qs, rfl, accepted, _⟩ := compileAlternatives_ok accepted
          apply carries_bind (carries_alternativesInto _) carries_raise
          intro q member
          exact inner q (List.mem_map_of_mem member) (accepted q member)
        | _ =>
          simp only [kind] at accepted
          exact truthful_emit accepted

theorem carries_copyEach {leaves : List Leaf} (scalars : ∀ l ∈ leaves, l.isScalar = true)
    (errors : List Error) : Carries errors (copyEach f.watched errors leaves) Progress.errors := by
  induction leaves generalizing errors with
  | nil => exact carries_pure rfl
  | cons l leaves ih =>
    have rest := ih fun x member => scalars x (List.mem_cons_of_mem l member)
    rw [copyEach, stringText_leaf moveKind l (scalars l List.mem_cons_self)]
    apply carries_bind (carries_frame (carries_attempt (truthful_watch (q := .move l.text) rfl)))
    intro raised
    cases raised with
    | none => simpa using rest errors
    | some e => exact carries_pure (by simp [Error.parts_flat])

theorem carries_perform {actions : List Action} (moves : ∀ a ∈ actions, Moves a) (done : Progress) :
    Carries done.errors (perform f.watched done actions) Progress.errors := by
  induction actions generalizing done with
  | nil => exact carries_pure rfl
  | cons a actions ih =>
    have mover := moves a List.mem_cons_self
    have rest := ih fun b member => moves b (List.mem_cons_of_mem a member)
    rw [perform, if_pos mover.1]
    apply carries_bind (carries_copyEach mover.2 done.errors)
    intro progress
    split
    · exact carries_pure rfl
    · exact rest progress

theorem truthful_execute {actions : List Action} (moves : ∀ a ∈ actions, Moves a) :
    Truthful (execute f.watched actions) := by
  apply carries_bind (carries_perform moves {})
  intro done
  dsimp only
  split
  · have marking := carries_collected (truthful_watch (f := f) (q := .mark) rfl)
    exact carries_bind (carries_frame marking) fun _ => carries_raise _
  · exact carries_bind (m := fun marking => done.errors ++ marking) (carries_pure (by simp)) fun _ =>
      carries_raise _

theorem truthful_rule {r : Rule} (accepted : RuleAccepted now r) :
    Truthful (rule f.watched now r) := by
  apply carries_bind (carries_collectEach fun p member =>
    truthful_compileInto p (accepted.compiles p member))
  intro errors
  apply carries_bind (carries_raise errors)
  intro _
  exact carries_bind (truthful_watch (q := .search) rfl) fun _ => truthful_execute accepted.moves

theorem truthful_mailbox {m : Mailbox} (accepted : ∀ r ∈ m.rules, RuleAccepted now r) :
    Truthful (mailbox f.watched now m) := by
  apply carries_bind (truthful_watch (q := .select m.name) rfl)
  intro _
  apply carries_bind
    (carries_released (carries_collectEach _) (truthful_leaving (q := .close) rfl)) carries_raise
  intro r member
  exact carries_bind (truthful_watch (q := .newRule) rfl) fun _ => truthful_rule (accepted r member)

theorem truthful_account {a : Account} (accepted : ∀ m ∈ a.mailboxes, ∀ r ∈ m.rules, RuleAccepted now r) :
    Truthful (account f.watched now a) := by
  apply carries_bind (truthful_watch (q := .connect a.host a.flags a.credentials) rfl)
  intro _
  apply carries_bind
    (carries_released (carries_collectEach _) (truthful_leaving (q := .logout) rfl)) carries_raise
  intro m member
  exact carries_bind (truthful_watch (q := .newMailbox) rfl) fun _ =>
    truthful_mailbox (accepted m member)

theorem pass_carries {d : Document} (accepted : DocumentAccepted now d) :
    Carries [] (pass f.watched now d) id := by
  apply carries_collectEach
  intro a member
  exact carries_bind (truthful_watch (q := .newAccount) rfl) fun _ =>
    truthful_account (accepted a member)

/-- What a pass ends with, its requests have raised, in this order. -/
def RaisedByRequests (events : List Event) : Except Failure (List Error) → Prop
  | .ok errors => (errors.flatMap Error.parts).Sublist (raised events)
  | .error failure => failure.asError.parts.Sublist (raised events)

theorem accepted_raisedByRequests (f : Family σ) {d : Document} (accepted : DocumentAccepted now d)
    (st : σ) : RaisedByRequests (trace f now d st) (pass f now d st).1 := by
  have ended := pass_carries (f := f) accepted [] ⟨st, []⟩ (List.nil_sublist _)
  rw [← pass_watched_outcome now d f st]
  unfold trace
  split at ended
  · rename_i errors w same
    rw [same]
    exact ended
  · rename_i failure w same
    rw [same]
    simpa [RaisedByRequests, Told] using ended

theorem ending_runFailed_iff {outcome : Except Failure (List Error)}
    (byFault : ∀ failure, outcome = .error failure → ∃ x, failure = .fault x) (es : List Error) :
    ending .runFailed outcome = .error (.error (.runFailed es)) ↔ outcome = .ok es ∧ es ≠ [] := by
  match outcome with
  | .ok [] => simp [ending]
  | .ok (e :: rest) => simp +contextual [ending, eq_comm]
  | .error failure =>
    obtain ⟨x, rfl⟩ := byFault failure rfl
    simp [ending]

theorem ending_validationFailed_ne {outcome : Except Failure (List Error)}
    (byFault : ∀ failure, outcome = .error failure → ∃ x, failure = .fault x) (es : List Error) :
    ending .validationFailed outcome ≠ .error (.error (.runFailed es)) := by
  match outcome with
  | .ok [] => simp [ending]
  | .ok (e :: rest) => simp [ending]
  | .error failure =>
    obtain ⟨x, rfl⟩ := byFault failure rfl
    simp [ending]

/-- Unless the validation pass ends well and without errors, the live family is asked nothing; otherwise it
is asked what its own pass asks, and the run fails with the errors of that pass, if there are any. Behind the
family that does nothing, the document is accepted and every error of the live pass was raised by a request. -/
theorem live_pass_gated (live : Family σ) (validator : Family τ) (component : String) (now : Moment)
    (d : Document) (st : σ) (st' : τ) :
    ((pass validator now d st').1 ≠ .ok [] →
      (watchedRun live validator component now d st st').live.events = [] ∧
        ∀ es, (run live validator component now d st st').outcome ≠ .error (.error (.runFailed es))) ∧
    ((pass validator now d st').1 = .ok [] →
      (watchedRun live validator component now d st st').live.events = trace live now d st ∧
        ∀ es, (run live validator component now d st st').outcome = .error (.error (.runFailed es)) ↔
          (pass live now d st).1 = .ok es ∧ es ≠ []) ∧
    (validator = Family.idle τ → (pass validator now d st').1 = .ok [] →
      DocumentAccepted now d ∧ RaisedByRequests (trace live now d st) (pass live now d st).1) := by
  refine ⟨fun refused => ⟨?_, ?_⟩, fun passed => ⟨?_, ?_⟩, ?_⟩
  · exact watchedRun_refused live validator component now d st st' refused
  · rw [(run_refused live validator component now d st st' refused).2]
    exact ending_validationFailed_ne fun failure => pass_fails_by_fault validator now d st'
  · exact watchedRun_passed live validator component now d st st' passed
  · rw [(run_passed live validator component now d st st' passed).2]
    exact ending_runFailed_iff fun failure => pass_fails_by_fault live now d st
  · rintro rfl passed
    have ended : pass (Family.idle τ) now d st' = (.ok [], (pass (Family.idle τ) now d st').2) :=
      Prod.ext passed rfl
    have accepted := accepted_of_no_errors ended
    exact ⟨accepted, accepted_raisedByRequests live accepted st⟩

def refusing : Script := fun _ call =>
  match call with
  | .move _ => some (.error (.protocol "copy" "refused"))
  | .close => some (.error (.protocol "close" "refused"))
  | _ => none

theorem refusing_gated :
    (run refusing.family (Family.idle Unit) "sweep" newYear twoRules {} ()).outcome =
        .error (.error (.runFailed [.protocol "copy" "refused", .protocol "close" "refused"])) ∧
      DocumentAccepted newYear twoRules ∧
      RaisedByRequests (trace refusing.family newYear twoRules {})
        (.ok [.protocol "copy" "refused", .protocol "close" "refused"]) := by
  have passed : (pass (Family.idle Unit) newYear twoRules ()).1 = .ok [] := by cbv
  have swept : (pass refusing.family newYear twoRules {}).1 =
      .ok [.protocol "copy" "refused", .protocol "close" "refused"] := by cbv
  obtain ⟨_, opened, idle⟩ :=
    live_pass_gated refusing.family (Family.idle Unit) "sweep" newYear twoRules {} ()
  refine ⟨((opened passed).2 _).mpr ⟨swept, by simp⟩, ?_⟩
  rw [← swept]
  exact idle rfl passed

end MailRules.Sweep
