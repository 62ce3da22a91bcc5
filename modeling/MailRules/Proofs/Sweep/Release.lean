import MailRules.Sweep.Script
import MailRules.Proofs.Sweep.Run
import MailRules.Proofs.Document.Reader
import MailRules.Proofs.Search.Meaning
/-!
What is released after a fault. Once a request has ended in a fault, nothing is asked but the closing of
what is open, innermost first, and the last fault is how the pass ends, that of a release as it leaves the
release. The invariant is about what is open: each part of a pass leaves open what was open before it, or
it stops at a fault and leaves exactly that to those around it.
-/
namespace MailRules.Sweep
open MailRules.Search MailRules.Calendar MailRules.Sweep.Step

/-- The fault of a request, that of a release as it leaves the release. -/
def Event.fault? (e : Event) : Option Fault :=
  match e.met with
  | some (.fault x) => some x
  | _ => none

def Calm (events : List Event) : Prop := ∀ e ∈ events, e.fault? = none

def lastFault? (events : List Event) : Option Fault := (events.filterMap Event.fault?).getLast?

/-- What is open: a mailbox from its selection to its closing, a session from its connection to its
logout, whether or not they are closed and logged out without failure. -/
structure Open where
  mailbox : Bool := false
  session : Bool := false
  deriving DecidableEq

def Open.after (o : Open) (e : Event) : Open :=
  match e.request, e.failure with
  | .connect .., none => { o with session := true }
  | .select _, none => { o with mailbox := true }
  | .close, _ => { o with mailbox := false }
  | .logout, _ => { o with session := false }
  | _, _ => o

def leftOpen (events : List Event) : Open := events.foldl Open.after {}

def Open.releases (o : Open) : List Request :=
  (if o.mailbox then [.close] else []) ++ if o.session then [.logout] else []

/-- After the first fault there are only the releases of what is open then, and the last of the faults is
the outcome. -/
def ReleasesAfterFault {α : Type} (events : List Event) (outcome : Except Failure α) : Prop :=
  ∀ before e after x, events = before ++ e :: after → Calm before → e.fault? = some x →
    after.map Event.request = (leftOpen (before ++ [e])).releases ∧
      ∃ y, lastFault? events = some y ∧ outcome = .error (.fault y)

theorem fault?_of_error {e : Event} {x : Error} (met : e.met = some (.error x)) : e.fault? = none := by
  simp [Event.fault?, met]

theorem fault?_of_fault {e : Event} {x : Fault} (met : e.met = some (.fault x)) : e.fault? = some x := by
  simp [Event.fault?, met]

theorem fault?_of_raised (q : Request) (x : Fault) :
    Event.fault? ⟨q, some (.fault x)⟩ = some (if q.isRelease then x.leaving else x) := by
  cases release : q.isRelease <;> simp [Event.fault?, Event.met, Failure.leaving, release]

theorem fault?_granted (q : Request) : Event.fault? ⟨q, none⟩ = none := by
  simp [Event.fault?, Event.met]

@[simp] theorem leftOpen_snoc (events : List Event) (e : Event) :
    leftOpen (events ++ [e]) = (leftOpen events).after e := by
  simp [leftOpen]

theorem lastFault?_snoc_of_fault (events : List Event) {e : Event} {x : Fault}
    (fault : e.fault? = some x) : lastFault? (events ++ [e]) = some x := by
  simp [lastFault?, fault]

theorem lastFault?_snoc_of_none (events : List Event) {e : Event} (none : e.fault? = none) :
    lastFault? (events ++ [e]) = lastFault? events := by
  simp [lastFault?, none]

theorem calm_snoc {events : List Event} {e : Event} (calm : Calm events) (none : e.fault? = none) :
    Calm (events ++ [e]) := by
  intro x member
  rcases List.mem_append.mp member with old | new
  · exact calm x old
  · rw [List.mem_singleton.mp new]
    exact none

variable {σ τ α β : Type} {f : Family σ} {q : Request} {o o' : Open}

def CalmAt (o : Open) (w : Watched σ) : Prop := Calm w.events ∧ leftOpen w.events = o

/-- There has been a fault, the last one is `x`, and of what was open at the first one exactly `o` is
still to be released. -/
def BrokenAt (o : Open) (x : Fault) (w : Watched σ) : Prop :=
  lastFault? w.events = some x ∧ ∃ before e y after, w.events = before ++ e :: after ∧
    Calm before ∧ e.fault? = some y ∧
    after.map Event.request ++ o.releases = (leftOpen (before ++ [e])).releases

/-- A fault need not come from a request: a precondition may fail with one. -/
def StopsAt (o : Open) : Failure → Watched σ → Prop
  | .error _, w => CalmAt o w
  | .fault x, w => CalmAt o w ∨ BrokenAt o x w

theorem brokenAt_first {st : σ} {events : List Event} {e : Event} {x : Fault} (calm : Calm events)
    (fault : e.fault? = some x) (opened : (leftOpen events).after e = o) :
    BrokenAt o x ⟨st, events ++ [e]⟩ := by
  refine ⟨lastFault?_snoc_of_fault events fault, events, e, x, [], by simp, calm, fault, ?_⟩
  simp [opened]

theorem brokenAt_release {st st' : σ} {events : List Event} {x y : Fault} {release : Event}
    (broken : BrokenAt o x ⟨st, events⟩) (head : o.releases = release.request :: o'.releases)
    (last : lastFault? (events ++ [release]) = some y) : BrokenAt o' y ⟨st', events ++ [release]⟩ := by
  obtain ⟨_, before, e, z, after, rfl, calm, fault, left⟩ := broken
  refine ⟨last, before, e, z, after ++ [release], by simp, calm, fault, ?_⟩
  rw [← left, head]
  simp

theorem triple_request {o₁ o₂ : Open} (success : o.after ⟨q, none⟩ = o₁)
    (failed : ∀ failure, o.after ⟨q, some failure⟩ = o₂) :
    Triple (CalmAt o) (meet f q) (fun _ => CalmAt o₁) (StopsAt o₂) := by
  apply triple_meet
  · rintro st events ⟨calm, rfl⟩ st'
    exact ⟨calm_snoc calm (fault?_granted q), by simpa using success⟩
  · rintro st events ⟨calm, rfl⟩ e failure st' rfl met
    have closed : (leftOpen events).after e = o₂ := by
      obtain ⟨q, refusal⟩ := e
      cases refusal with
      | none => simp [Event.met] at met
      | some refusal => exact failed refusal
    cases failure with
    | error x => exact ⟨calm_snoc calm (fault?_of_error met), by simpa using closed⟩
    | fault x => exact Or.inr (brokenAt_first calm (fault?_of_fault met) closed)

def Orderly (o : Open) (s : Step (Watched σ) α) : Prop :=
  Triple (CalmAt o) s (fun _ => CalmAt o) (StopsAt o)

def orderly (σ : Type) (o : Open) : Congruence (Watched σ) (Watched σ) where
  Related := fun s _ => Orderly o s
  outcome := by
    intro _ r w holds
    match r with
    | .ok a => exact holds
    | .error (.error e) => exact holds
    | .error (.fault x) => exact Or.inl holds
  bind := fun first later => triple_bind first later
  attempt := by
    intro s _ inner
    apply triple_attempt
    apply triple_weaken inner (fun _ => id) (fun _ _ => id)
    intro failure w stopped
    cases failure <;> exact stopped

theorem orderly_raise (errors : List Error) : Orderly o (raise errors : Step (Watched σ) Unit) :=
  (orderly σ o).outcome (raiseErrors errors)

theorem triple_opening (other : q.isRelease = false) (success : o.after ⟨q, none⟩ = o')
    (failed : ∀ failure, o.after ⟨q, some failure⟩ = o) :
    Triple (CalmAt o) (watch f q) (fun _ => CalmAt o') (StopsAt o) := by
  rw [← meet_other f other]
  exact triple_request success failed

theorem orderly_request (other : q.isRelease = false) (quiet : ∀ failure, o.after ⟨q, failure⟩ = o) :
    Orderly o (watch f q) :=
  triple_opening other (quiet none) fun failure => quiet (some failure)

theorem orderly_rule (o : Open) (now : Moment) (r : Rule) :
    Orderly o (do f.watched.newRule; rule f.watched now r) := by
  apply (orderly σ o).bind (t := watch f .newRule) (orderly_request rfl fun _ => rfl)
  intro _
  have quiet {q : Request} (other : q.isRelease = false) (none : ∀ failure, o.after ⟨q, failure⟩ = o) :
      (orderly σ o).Related (watch f q) (watch f q) := orderly_request other none
  exact (orderly σ o).rule (f := f.watched) (g := f.watched)
    (fun t => quiet (q := .append t) rfl fun _ => rfl) (quiet (q := .search) rfl fun _ => rfl)
    (fun folder => quiet (q := .move folder) rfl fun _ => rfl) (quiet (q := .mark) rfl fun _ => rfl) r

theorem triple_released_request {body : Step (Watched σ) (List Error)} (inner : Orderly o body)
    (release : q.isRelease = true) (head : o.releases = q :: o'.releases)
    (closing : ∀ failure, o.after ⟨q, failure⟩ = o') :
    Triple (CalmAt o) (released body (watch f q)) (fun _ => CalmAt o') (StopsAt o') := by
  have calmly {Q : List Error → Watched σ → Prop} (holds : ∀ es w, CalmAt o' w → Q es w) :
      Triple (CalmAt o) (watch f q).leaving.collected Q (StopsAt o') := by
    rw [← meet_release f release]
    apply triple_collected
    apply triple_weaken (triple_request (closing none) fun failure => closing (some failure))
      (fun _ => id) (fun _ => holds [])
    intro failure w stopped
    cases failure with
    | error e => exact holds e.flat w stopped
    | fault x => exact stopped
  apply triple_released inner
  · exact fun _ => calmly fun _ _ => id
  · intro failure
    cases failure with
    | error e => exact calmly fun _ _ => id
    | fault x =>
      have broken : Triple (BrokenAt o x) (watch f q).leaving.collected (fun _ => BrokenAt o' x)
          (StopsAt o') := by
        rw [← meet_release f release]
        apply triple_collected
        apply triple_meet
        · intro st events before st'
          exact brokenAt_release before head
            ((lastFault?_snoc_of_none events (fault?_granted q)).trans before.1)
        · rintro st events before e failure st' rfl met
          cases failure with
          | error _ =>
            exact brokenAt_release before head
              ((lastFault?_snoc_of_none events (fault?_of_error met)).trans before.1)
          | fault y =>
            exact Or.inr (brokenAt_release before head
              (lastFault?_snoc_of_fault events (fault?_of_fault met)))
      rintro w (calm | before)
      · exact calmly (Q := fun _ => StopsAt o' (.fault x)) (fun _ _ => Or.inl) w calm
      · exact triple_weaken broken (fun _ => id) (fun _ _ => Or.inr) (fun _ _ => id) w before

theorem orderly_mailbox (now : Moment) (m : Mailbox) :
    Orderly ⟨false, true⟩ (mailbox f.watched now m) := by
  apply triple_bind (M := fun _ => CalmAt ⟨true, true⟩)
  · exact triple_opening rfl rfl fun _ => rfl
  · intro _
    apply triple_bind _ orderly_raise
    apply triple_released_request (o := ⟨true, true⟩) _ rfl rfl fun _ => rfl
    exact (orderly σ _).collectEach (t := fun r => do f.watched.newRule; rule f.watched now r)
      (orderly_rule _ now)

theorem orderly_account (now : Moment) (a : Account) :
    Orderly {} (account f.watched now a) := by
  apply triple_bind (M := fun _ => CalmAt ⟨false, true⟩)
  · exact triple_opening rfl rfl fun _ => rfl
  · intro _
    apply triple_bind _ orderly_raise
    apply triple_released_request (o := ⟨false, true⟩) _ rfl rfl fun _ => rfl
    apply (orderly σ _).collectEach (t := fun m => do f.watched.newMailbox; mailbox f.watched now m)
    intro m
    apply triple_bind (orderly_request rfl fun _ => rfl)
    exact fun _ => orderly_mailbox now m

theorem orderly_pass (now : Moment) (d : Document) : Orderly {} (pass f.watched now d) := by
  apply (orderly σ _).collectEach (t := fun a => do f.watched.newAccount; account f.watched now a)
  intro a
  apply triple_bind (orderly_request rfl fun _ => rfl)
  exact fun _ => orderly_account now a

theorem first_fault_unique {before before' after after' : List Event} {e e' : Event} {x x' : Fault}
    (same : before ++ e :: after = before' ++ e' :: after') (calm : Calm before)
    (calm' : Calm before') (fault : e.fault? = some x) (fault' : e'.fault? = some x') :
    before = before' ∧ e = e' ∧ after = after' := by
  rcases List.append_eq_append_iff.mp same with ⟨more, outer, rest⟩ | ⟨more, outer, rest⟩
  · cases more with
    | nil =>
      cases rest
      exact ⟨by simpa using outer.symm, rfl, rfl⟩
    | cons y more =>
      have clash := calm' e (by simp [outer, (List.cons.inj rest).1])
      simp [fault] at clash
  · cases more with
    | nil =>
      cases rest
      exact ⟨by simpa using outer, rfl, rfl⟩
    | cons y more =>
      have clash := calm e' (by simp [outer, (List.cons.inj rest).1])
      simp [fault'] at clash

theorem releasesAfterFault_of_calm {events : List Event} {outcome : Except Failure α}
    (calm : Calm events) : ReleasesAfterFault events outcome := by
  rintro before e after x rfl _ fault
  have none := calm e (by simp)
  simp [fault] at none

theorem releasesAfterFault_of_broken {w : Watched σ} {x : Fault} (broken : BrokenAt {} x w) :
    ReleasesAfterFault w.events (.error (.fault x) : Except Failure α) := by
  obtain ⟨last, before, e, y, after, split, calm, fault, left⟩ := broken
  intro before' e' after' x' split' calm' fault'
  obtain ⟨rfl, rfl, rfl⟩ := first_fault_unique (split.symm.trans split') calm calm' fault fault'
  exact ⟨by simpa [Open.releases] using left, x, last, rfl⟩

/-- Whatever the family does: after the first fault of a pass there are only the releases of what is open,
and the pass ends with the last fault. -/
theorem pass_releases (f : Family σ) (now : Moment) (d : Document) (st : σ) :
    ReleasesAfterFault (trace f now d st) (pass f now d st).1 := by
  have ended := orderly_pass (f := f) now d ⟨st, []⟩ ⟨by simp [Calm], rfl⟩
  rw [← pass_watched_outcome now d f st]
  unfold trace
  match same : pass f.watched now d ⟨st, []⟩ with
  | (.ok errors, w) =>
    rw [same] at ended
    exact releasesAfterFault_of_calm ended.1
  | (.error (.error e), w) =>
    rw [same] at ended
    exact releasesAfterFault_of_calm ended.1
  | (.error (.fault x), w) =>
    rw [same] at ended
    rcases ended with calm | broken
    · exact releasesAfterFault_of_calm calm.1
    · exact releasesAfterFault_of_broken broken

theorem releasesAfterFault_ending {events : List Event} {outcome : Except Failure (List Error)}
    (releases : ReleasesAfterFault events outcome) (told : List Error → Error) :
    ReleasesAfterFault events (ending told outcome) := by
  intro before e after x split calm fault
  obtain ⟨rest, y, last, rfl⟩ := releases before e after x split calm fault
  exact ⟨rest, y, last, rfl⟩

theorem releasesAfterFault_of_ok {events : List Event} {errors : List Error}
    (releases : ReleasesAfterFault events (.ok errors : Except Failure (List Error)))
    (outcome : Except Failure α) : ReleasesAfterFault events outcome := by
  intro before e after x split calm fault
  obtain ⟨_, _, _, impossible⟩ := releases before e after x split calm fault
  cases impossible

def stumbling : Script := fun _ call =>
  match call with
  | .search _ => some (.fault (.foreign "ValueError" "search"))
  | .close => some (.fault (.foreign "OSError" "close"))
  | .logout => some (.error (.protocol "logout" "refused"))
  | _ => none

def untilSearch : List Event :=
  [⟨.newAccount, none⟩, ⟨.connect "h" {} {}, none⟩, ⟨.newMailbox, none⟩, ⟨.select "INBOX", none⟩,
    ⟨.newRule, none⟩]

theorem stumbling_trace : trace stumbling.family newYear twoRules {} =
    untilSearch ++ ⟨.search, some (.fault (.foreign "ValueError" "search"))⟩ ::
      [⟨.close, some (.fault (.foreign "OSError" "close"))⟩,
        ⟨.logout, some (.error (.protocol "logout" "refused"))⟩] := by
  cbv

def exhausted : Script := fun _ call =>
  match call with
  | .close => some (.fault (.foreign "StopIteration" "no more"))
  | _ => none

def oneMailbox : Document :=
  ⟨"c", [⟨"h", {}, {}, [⟨"INBOX", [], ⟨"c", 4, 5⟩⟩], ⟨"c", 2, 3⟩⟩]⟩

end MailRules.Sweep
