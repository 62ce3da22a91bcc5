import MailRules.Proofs.Sweep.Congruence
/-!
Passes that are watched. A watched family answers as the family does and notes every request with the
way it ended. Watching changes nothing: a watched pass ends as the pass does and in the same state, so
its notes are what the family is asked.
-/
namespace MailRules.Sweep
open MailRules.Search MailRules.Calendar MailRules.Sweep.Step

inductive Request
  | newAccount
  | connect (host : String) (flags : Flags) (credentials : Credentials)
  | newMailbox
  | select (name : String)
  | newRule
  | append (token : Token)
  | search
  | move (destination : String)
  | mark
  | close
  | logout

def Request.isRelease : Request → Bool
  | .close | .logout => true
  | _ => false

structure Event where
  request : Request
  failure : Option Failure

/-- The failure of a request as a pass meets it: that of a release as it leaves the release. -/
def Event.met (e : Event) : Option Failure :=
  if e.request.isRelease then e.failure.map Failure.leaving else e.failure

theorem Event.raised_of_met {e : Event} {failure : Failure} (met : e.met = some failure) :
    ∃ raised, e.failure = some raised ∧ (failure = raised ∨ failure = raised.leaving) := by
  unfold Event.met at met
  split at met
  · obtain ⟨raised, same, rfl⟩ := Option.map_eq_some_iff.mp met
    exact ⟨raised, same, Or.inr rfl⟩
  · exact ⟨failure, met, Or.inl rfl⟩

structure Watched (σ : Type) where
  state : σ
  events : List Event := []

variable {σ : Type}

def Family.answer (f : Family σ) : Request → Step σ Unit
  | .newAccount => f.newAccount
  | .connect host flags credentials => f.connect host flags credentials
  | .newMailbox => f.newMailbox
  | .select name => f.select name
  | .newRule => f.newRule
  | .append token => f.append token
  | .search => f.search
  | .move destination => f.move destination
  | .mark => f.mark
  | .close => f.close
  | .logout => f.logout

def watch (f : Family σ) (q : Request) : Step (Watched σ) Unit := fun w =>
  match f.answer q w.state with
  | (.ok (), st) => (.ok (), ⟨st, w.events ++ [⟨q, none⟩]⟩)
  | (.error failure, st) => (.error failure, ⟨st, w.events ++ [⟨q, some failure⟩]⟩)

def Family.watched (f : Family σ) : Family (Watched σ) where
  newAccount := watch f .newAccount
  connect := fun host flags credentials => watch f (.connect host flags credentials)
  newMailbox := watch f .newMailbox
  select := fun name => watch f (.select name)
  newRule := watch f .newRule
  append := fun token => watch f (.append token)
  search := watch f .search
  move := fun destination => watch f (.move destination)
  mark := watch f .mark
  close := watch f .close
  logout := watch f .logout

/-- The requests of a pass, in order, and how each of them ended. -/
def trace (f : Family σ) (now : Moment) (d : Document) (start : σ) : List Event :=
  (pass f.watched now d ⟨start, []⟩).2.events

theorem triple_watch {f : Family σ} {q : Request} {P : Watched σ → Prop}
    {Q : Unit → Watched σ → Prop} {E : Failure → Watched σ → Prop}
    (success : ∀ st events st', P ⟨st, events⟩ → f.answer q st = (.ok (), st') →
      Q () ⟨st', events ++ [⟨q, none⟩]⟩)
    (failed : ∀ st events failure st', P ⟨st, events⟩ → f.answer q st = (.error failure, st') →
      E failure ⟨st', events ++ [⟨q, some failure⟩]⟩) :
    Triple P (watch f q) Q E := by
  rintro ⟨st, events⟩ holds
  unfold watch
  match same : f.answer q st with
  | (.ok (), st') => exact success st events st' holds same
  | (.error failure, st') => exact failed st events failure st' holds same

theorem watch_fst (f : Family σ) (q : Request) (w : Watched σ) :
    (watch f q w).1 = (f.answer q w.state).1 := by
  unfold watch
  match f.answer q w.state with
  | (.ok (), st) => rfl
  | (.error failure, st) => rfl

def meet (f : Family σ) (q : Request) : Step (Watched σ) Unit :=
  if q.isRelease then (watch f q).leaving else watch f q

theorem meet_release (f : Family σ) {q : Request} (release : q.isRelease = true) :
    meet f q = (watch f q).leaving := if_pos release

theorem meet_other (f : Family σ) {q : Request} (other : q.isRelease = false) :
    meet f q = watch f q := by
  rw [meet, other, if_neg Bool.false_ne_true]

theorem triple_meet {f : Family σ} {q : Request} {P : Watched σ → Prop}
    {Q : Unit → Watched σ → Prop} {E : Failure → Watched σ → Prop}
    (success : ∀ st events, P ⟨st, events⟩ → ∀ st', Q () ⟨st', events ++ [⟨q, none⟩]⟩)
    (failed : ∀ st events, P ⟨st, events⟩ → ∀ e : Event, ∀ failure st', e.request = q →
      e.met = some failure → E failure ⟨st', events ++ [e]⟩) :
    Triple P (meet f q) Q E := by
  unfold meet
  split
  · rename_i release
    apply triple_leaving
    apply triple_watch fun st events st' holds _ => success st events holds st'
    intro st events failure st' holds _
    exact failed st events holds ⟨q, some failure⟩ failure.leaving st' rfl (by simp [Event.met, release])
  · rename_i other
    apply triple_watch fun st events st' holds _ => success st events holds st'
    intro st events failure st' holds _
    exact failed st events holds ⟨q, some failure⟩ failure st' rfl (by simp [Event.met, other])

/-! Watching changes nothing -/

def shadow : Congruence (Watched σ) σ where
  Related := fun s t => ∀ w, t w.state = ((s w).1, (s w).2.state)
  outcome := fun _ _ => rfl
  bind := by
    intro _ _ s t next next' first later w
    rw [bind_apply, bind_apply, first w]
    match s w with
    | (.ok a, w') => exact later a w'
    | (.error failure, w') => rfl
  attempt := by
    intro s t inner w
    unfold attempt
    rw [inner w]
    match s w with
    | (.ok (), w') => rfl
    | (.error (.error e), w') => rfl
    | (.error (.fault x), w') => rfl

theorem shadow_watch (f : Family σ) (q : Request) : shadow.Related (watch f q) (f.answer q) := by
  intro w
  unfold watch
  match f.answer q w.state with
  | (.ok (), st) => rfl
  | (.error failure, st) => rfl

theorem shadow_leaving {s : Step (Watched σ) Unit} {t : Step σ Unit} (inner : shadow.Related s t) :
    shadow.Related s.leaving t.leaving := by
  intro w
  rw [leaving_apply, leaving_apply, inner w]

theorem shadow_released {body : Step (Watched σ) (List Error)} {body' : Step σ (List Error)}
    {release : Step (Watched σ) Unit} {release' : Step σ Unit}
    (inner : shadow.Related body body') (last : shadow.Related release release') :
    shadow.Related (released body release) (released body' release') := by
  intro w
  unfold released
  rw [inner w]
  match body w with
  | (.ok errors, w') =>
    exact shadow.bind (shadow.collected (shadow_leaving last)) (fun _ => shadow.outcome _) w'
  | (.error failure, w') =>
    apply shadow.bind _ (fun _ => shadow.outcome (.error failure)) w'
    exact shadow.bind (shadow.collected (shadow_leaving last)) fun _ => shadow.outcome _

theorem shadow_requests (f : Family σ) : shadow.Requests f.watched f where
  newAccount := shadow_watch f .newAccount
  newMailbox := shadow_watch f .newMailbox
  select := fun name => shadow_watch f (.select name)
  newRule := shadow_watch f .newRule
  append := fun token => shadow_watch f (.append token)
  search := shadow_watch f .search
  move := fun destination => shadow_watch f (.move destination)
  mark := shadow_watch f .mark
  close := shadow_watch f .close
  logout := shadow_watch f .logout

theorem pass_watched (f : Family σ) (now : Moment) (d : Document) (w : Watched σ) :
    pass f now d w.state = ((pass f.watched now d w).1, (pass f.watched now d w).2.state) := by
  have connects : ∀ a, shadow.SameAccount f.watched f a a := fun a =>
    ⟨shadow_watch f (.connect a.host a.flags a.credentials), rfl⟩
  have same : shadow.Related (pass f.watched now d) (pass f now d) :=
    Congruence.pass (shadow_requests f) shadow_released (List.forall₂_same.mpr fun a _ => connects a)
  exact same w

end MailRules.Sweep
