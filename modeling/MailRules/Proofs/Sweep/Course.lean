import MailRules.Proofs.Sweep.Run
import MailRules.Proofs.Sweep.Actions
import MailRules.Proofs.Document.Reader
/-!
The course of a pass whose family fails only with errors: what it asks, in the order of the document,
and the errors it leaves, in the order in which they arise. The courses of the parts are put together
as the document is, so that an error of one part is neither lost nor told twice and stops no other part.
Only a fault that a request puts into an aggregate by itself comes out again and ends the pass.
-/
namespace MailRules

def Document.Writable (d : Document) : Prop :=
  ∀ a ∈ d.accounts, ∀ m ∈ a.mailboxes, ∀ r ∈ m.rules, ∀ p ∈ r.preconditions, p.Writable

namespace Sweep
open MailRules.Search MailRules.Calendar MailRules.Sweep.Step

/-! Courses -/

inductive Each {α : Type} (part : α → Course) : List α → Course
  | nil : Each part [] [] []
  | cons {a : α} {items : List α} {events more : List Event} {errors others : List Error}
      (first : part a events errors) (rest : Each part items more others) :
      Each part (a :: items) (events ++ more) (errors ++ others)

/-- The second part follows if the first leaves no errors. -/
inductive ThenCourse (T T' : Course) : Course
  | stopped {events : List Event} {errors : List Error} (first : T events errors)
      (failed : errors ≠ []) : ThenCourse T T' events errors
  | both {front back : List Event} {errors : List Error} (first : T front []) (second : T' back errors) :
      ThenCourse T T' (front ++ back) errors

inductive RequestCourse (q : Request) : Course
  | granted : RequestCourse q [asked q none] []
  | refused (e : Error) (nonempty : e.flat ≠ []) : RequestCourse q [asked q (some e)] e.flat

def gathering (now : Moment) (r : Rule) : List Event :=
  asked .newRule none :: (emitted now r.preconditions).map fun t => asked (.append t) none

def compileErrors (now : Moment) (p : Precondition) : List Error :=
  match (compile now p).outcome with
  | .error (.error e) => e.flat
  | _ => []

inductive RuleCourse (now : Moment) (r : Rule) : Course
  | uncompiled (failing : ∃ p ∈ r.preconditions, (compile now p).outcome ≠ .ok ()) :
      RuleCourse now r (gathering now r) (r.preconditions.flatMap (compileErrors now))
  | unsearched (compiles : ∀ p ∈ r.preconditions, (compile now p).outcome = .ok ()) (e : Error) :
      RuleCourse now r (gathering now r ++ [asked .search (some e)]) e.flat
  | searched (compiles : ∀ p ∈ r.preconditions, (compile now p).outcome = .ok ())
      {events : List Event} {errors : List Error} (actions : ActionsCourse r.actions events errors) :
      RuleCourse now r (gathering now r ++ asked .search none :: events) errors

/-- A part that is opened, gone through and released, or that cannot be opened. -/
inductive OpenedCourse (opening release : Request) (inside : Course) : Course
  | unopened (e : Error) : OpenedCourse opening release inside [asked opening (some e)] e.flat
  | opened {events : List Event} {errors : List Error} (course : inside events errors)
      (refusal : Option Error) :
      OpenedCourse opening release inside
        (asked opening none :: events ++ [asked release refusal])
        (errors ++ Error.collect refusal.toList)

inductive BegunCourse (q : Request) (inside : Course) : Course
  | intro {events : List Event} {errors : List Error} (course : inside events errors) :
      BegunCourse q inside (asked q none :: events) errors

def MailboxCourse (now : Moment) (m : Mailbox) : Course :=
  BegunCourse .newMailbox (OpenedCourse (.select m.name) .close (Each (RuleCourse now) m.rules))

def AccountCourse (now : Moment) (a : Account) : Course :=
  BegunCourse .newAccount (OpenedCourse (.connect a.host a.flags a.credentials) .logout
    (Each (MailboxCourse now) a.mailboxes))

def DocumentCourse (now : Moment) (d : Document) : Course := Each (AccountCourse now) d.accounts

/-! Families -/

def Request.Preparing : Request → Prop
  | .newAccount | .newMailbox | .newRule | .append _ => True
  | _ => False

/-- Preparations succeed, and whatever else fails does so with an error. -/
structure Family.Steady {σ : Type} (f : Family σ) : Prop where
  prepares : ∀ q st failure, q.Preparing → (f.answer q st).1 ≠ .error failure
  flattened : ∀ q, f.Refuses q Flattened

/-- A request was refused with an aggregate that holds the fault and nothing else. -/
def ToldAlone (x : Fault) (events : List Event) : Prop :=
  ∃ q e, asked q (some e) ∈ events ∧ e.flat = [.fault x]

variable {σ α : Type} {f : Family σ} {now : Moment} {T T' : Course}

/-- Since the events `base`, the course has been run and has left the errors. -/
structure Ended (T : Course) (base : List Event) (errors : List Error) (w : Watched σ) : Prop where
  single : ∀ e ∈ errors, e.Single
  alone : ∀ x, errors = [.fault x] → ToldAlone x w.events
  ran : ∃ events, w.events = base ++ events ∧ T events errors

def CameOut (failure : Failure) (w : Watched σ) : Prop :=
  ∃ x, failure = .fault x ∧ ToldAlone x w.events

def RaisedAfter (T : Course) (base : List Event) (failure : Failure) (w : Watched σ) : Prop :=
  (∃ e, failure = .error e ∧ e.flat ≠ [] ∧ Ended T base e.flat w) ∨ CameOut failure w

/-- The step runs the course and gives its errors, or a fault comes out. -/
def Leaves (T : Course) (s : Step (Watched σ) (List Error)) : Prop :=
  ∀ base, Triple (fun w => w.events = base) s (Ended T base) CameOut

/-- The step runs the course and fails with its errors, if there are any, or a fault comes out. -/
def Raises (T : Course) (s : Step (Watched σ) Unit) : Prop :=
  ∀ base, Triple (fun w => w.events = base) s (fun _ => Ended T base []) (RaisedAfter T base)

theorem ToldAlone.mono {x : Fault} {events more : List Event} (told : ToldAlone x events)
    (sub : events ⊆ more) : ToldAlone x more := by
  obtain ⟨q, e, inside, alone⟩ := told
  exact ⟨q, e, sub inside, alone⟩

theorem ended_nil {base events : List Event} {w : Watched σ} (same : w.events = base ++ events)
    (course : T events []) : Ended T base [] w :=
  ⟨by simp, by simp, events, same, course⟩

theorem ended_proper {base events : List Event} {errors : List Error} {w : Watched σ}
    (proper : ∀ e ∈ errors, e.Proper) (same : w.events = base ++ events) (course : T events errors) :
    Ended T base errors w := by
  refine ⟨fun e member => Error.single_of_proper (proper e member), ?_, events, same, course⟩
  rintro x rfl
  exact (proper _ (List.mem_singleton_self _)).elim

theorem alone_append {errors others : List Error} {x : Fault} {events more : List Event}
    (first : errors = [.fault x] → ToldAlone x events) (second : others = [.fault x] → ToldAlone x more)
    (sub : events ⊆ more) (lone : errors ++ others = [.fault x]) : ToldAlone x more := by
  rcases List.append_eq_singleton_iff.mp lone with ⟨_, last⟩ | ⟨last, _⟩
  · exact second last
  · exact (first last).mono sub

theorem Ended.mono {base : List Event} {errors : List Error} {w : Watched σ}
    (ended : Ended T base errors w) (imp : ∀ events errors, T events errors → T' events errors) :
    Ended T' base errors w := by
  obtain ⟨single, alone, events, same, course⟩ := ended
  exact ⟨single, alone, events, same, imp events errors course⟩

theorem raises_mono {s : Step (Watched σ) Unit} (raises : Raises T s)
    (imp : ∀ events errors, T events errors → T' events errors) : Raises T' s := by
  intro base
  apply triple_weaken (raises base) (fun _ => id)
  · exact fun _ w ended => ended.mono imp
  · rintro failure w (⟨e, same, some, ended⟩ | out)
    · exact Or.inl ⟨e, same, some, ended.mono imp⟩
    · exact Or.inr out

theorem Ended.raised {base : List Event} {errors : List Error} {w : Watched σ} {failure : Failure}
    (ended : Ended T base errors w) (failed : raiseErrors errors = .error failure) :
    RaisedAfter T base failure w := by
  rcases raiseErrors_error ended.single failed with ⟨e, rfl, reported, rfl⟩ | ⟨x, rfl, lone⟩
  · exact Or.inl ⟨e, rfl, Error.flat_nonempty reported, ended⟩
  · exact Or.inr ⟨x, rfl, ended.alone x lone⟩

theorem raise_ended {base : List Event} (errors : List Error) :
    Triple (Ended T base errors) (raise errors : Step (Watched σ) Unit) (fun _ => Ended T base [])
      (RaisedAfter T base) := by
  apply triple_raise
  · rintro w ended rfl
    exact ended
  · exact fun w failure ended failed => ended.raised failed

theorem raises_raise {s : Step (Watched σ) (List Error)} (leaves : Leaves T s) :
    Raises T (do raise (← s)) := by
  intro base
  apply triple_bind (M := Ended T base)
  · exact triple_weaken (leaves base) (fun _ => id) (fun _ _ => id) fun _ _ => Or.inr
  · exact raise_ended

theorem leaves_collected {s : Step (Watched σ) Unit} (raises : Raises T s) :
    Leaves T s.collected := by
  intro base
  apply triple_collected
  apply triple_weaken (raises base) (fun _ => id) (fun _ _ => id)
  rintro failure w (⟨e, rfl, _, ended⟩ | ⟨x, rfl, told⟩)
  · exact ended
  · exact ⟨x, rfl, told⟩

theorem triple_ended {base : List Event} {errors : List Error} {s : Step (Watched σ) α}
    {Q : α → Watched σ → Prop} {E : Failure → Watched σ → Prop}
    (later : ∀ events, T events errors → (∀ e ∈ errors, e.Single) →
      (∀ x, errors = [.fault x] → ToldAlone x (base ++ events)) →
      Triple (fun w => w.events = base ++ events) s Q E) :
    Triple (Ended T base errors) s Q E := by
  rintro w ⟨single, alone, events, same, course⟩
  exact later events course single (same ▸ alone) w same

theorem leaves_collectEach {items : List α} {each : α → Step (Watched σ) Unit} {part : α → Course}
    (one : ∀ a ∈ items, Raises (part a) (each a)) :
    Leaves (Each part items) (collectEach items each) := by
  induction items with
  | nil =>
    intro base
    apply triple_pure
    rintro w rfl
    exact ended_nil (List.append_nil _).symm .nil
  | cons a items ih =>
    intro base
    apply triple_bind (leaves_collected (one a List.mem_cons_self) base)
    intro errors
    apply triple_ended
    intro events first single alone
    have rest := ih fun b member => one b (List.mem_cons_of_mem a member)
    apply triple_bind (rest (base ++ events))
    intro others
    apply triple_pure
    rintro w ⟨single', alone', more, same, course⟩
    refine ⟨List.forall_mem_append.mpr ⟨single, single'⟩, ?_, events ++ more, ?_, .cons first course⟩
    · exact fun x => alone_append (alone x) (alone' x) (by simp [same])
    · simp [same]

theorem raises_then {s s' : Step (Watched σ) Unit} (first : Raises T s) (second : Raises T' s') :
    Raises (ThenCourse T T') (do s; s') := by
  intro base
  apply triple_bind (M := fun _ => Ended T base [])
  · apply triple_weaken (first base) (fun _ => id) (fun _ _ => id)
    rintro failure w (⟨e, same, failed, single, alone, events, split, course⟩ | out)
    · exact Or.inl ⟨e, same, failed, single, alone, events, split, .stopped course failed⟩
    · exact Or.inr out
  · intro _
    apply triple_ended
    intro front course _ _
    have both {errors : List Error} {w : Watched σ} (ended : Ended T' (base ++ front) errors w) :
        Ended (ThenCourse T T') base errors w := by
      obtain ⟨single, alone, back, split, course'⟩ := ended
      exact ⟨single, alone, front ++ back, by simp [split], .both course course'⟩
    apply triple_weaken (second (base ++ front)) (fun _ => id) (fun _ _ => both)
    rintro failure w (⟨e, same, failed, ended⟩ | out)
    · exact Or.inl ⟨e, same, failed, both ended⟩
    · exact Or.inr out

theorem each_collects {α : Type} {part : α → Course} {own : α → List Event} {told : α → List Error}
    {items : List α} {events : List Event} {errors : List Error}
    (one : ∀ a events errors, part a events errors → events = own a ∧ errors = told a)
    (each : Each part items events errors) : events = items.flatMap own ∧ errors = items.flatMap told := by
  induction each with
  | nil => exact ⟨rfl, rfl⟩
  | cons first rest ih =>
    obtain ⟨rfl, rfl⟩ := one _ _ _ first
    obtain ⟨rfl, rfl⟩ := ih
    simp

theorem compileErrors_nil_iff {p : Precondition} (writable : p.Writable) :
    compileErrors now p = [] ↔ (compile now p).outcome = .ok () := by
  have fails : FailsWith (fun _ => False) (compile now p).outcome :=
    compile_failsWith p (Or.inr writable)
  unfold compileErrors
  cases outcome : (compile now p).outcome with
  | ok u => simp
  | error failure =>
    have of := fails failure outcome
    cases failure with
    | fault x => exact of.elim
    | error e => simpa using Error.flat_nonempty of.1

theorem compileErrors_none_iff {ps : List Precondition} (writable : ∀ p ∈ ps, p.Writable) :
    ps.flatMap (compileErrors now) = [] ↔ ∀ p ∈ ps, (compile now p).outcome = .ok () := by
  rw [List.flatMap_eq_nil_iff]
  exact forall₂_congr fun p member => compileErrors_nil_iff (writable p member)

section Requests
variable (steady : f.Steady)
include steady

theorem raises_watch (q : Request) : Raises (RequestCourse q) (watch f q) := by
  intro base
  apply triple_watch
  · rintro st events st' rfl _
    exact ended_nil rfl .granted
  · rintro st events failure st' rfl failed
    obtain ⟨e, rfl, flattened⟩ := steady.flattened q st failure (by rw [failed])
    refine Or.inl ⟨e, rfl, flattened.nonempty, flattened.single, ?_, [asked q (some e)], rfl,
      .refused e flattened.nonempty⟩
    exact fun x alone => ⟨q, e, by simp [asked], alone⟩

theorem raises_prepared {q : Request} (preparing : q.Preparing) :
    Raises (fun events errors => events = [asked q none] ∧ errors = []) (watch f q) := by
  intro base
  apply triple_watch
  · rintro st events st' rfl _
    exact ended_nil rfl ⟨rfl, rfl⟩
  · intro st events failure st' _ failed
    exact (steady.prepares q st failure preparing (by rw [failed])).elim

theorem raises_begun {q : Request} (preparing : q.Preparing) {s : Step (Watched σ) Unit}
    (inner : Raises T s) : Raises (BegunCourse q T) (do watch f q; s) := by
  apply raises_mono (raises_then (raises_prepared steady preparing) inner)
  rintro events errors (⟨⟨_, rfl⟩, failed⟩ | ⟨⟨rfl, _⟩, course⟩)
  · exact (failed rfl).elim
  · exact .intro course

theorem leaves_released {body : Step (Watched σ) (List Error)} (inner : Leaves T body)
    (release : Request) :
    Leaves (fun events errors => ∃ front own refusal, T front own ∧
      events = front ++ [asked release refusal] ∧ errors = own ++ Error.collect refusal.toList)
      (released body (watch f release)) := by
  intro base
  have plainly : (watch f release).leaving = watch f release := by
    apply leaving_eq
    intro w x failed
    obtain ⟨e, impossible, _⟩ := steady.flattened release w.state (.fault x) (watch_fst f release w ▸ failed)
    cases impossible
  apply triple_released (inner base)
  · intro own
    rw [plainly]
    apply triple_ended
    intro front course single alone
    apply triple_weaken (triple_asked_collected (steady.flattened release) _) (fun _ => id) _
      fun _ _ => False.elim
    rintro _ w ⟨refusal, same, rfl, flattened⟩
    refine ⟨List.forall_mem_append.mpr ⟨single, ?_⟩, fun x => alone_append (alone x) ?_ (by simp [same]),
      front ++ [asked release refusal], by simp [same], front, own, refusal, course, rfl, rfl⟩
    · intro x member
      obtain ⟨e, given, inside⟩ := List.mem_flatMap.mp member
      exact (flattened e (Option.mem_toList.mp given)).single x inside
    · intro lone
      cases refusal with
      | none => simp [Error.collect] at lone
      | some e => exact ⟨release, e, by simp [same], by simpa [Error.collect] using lone⟩
  · rintro failure w ⟨x, rfl, told⟩
    rw [plainly]
    apply triple_weaken (triple_asked_collected (steady.flattened release) w.events) (fun _ => id) _
      (fun _ _ => False.elim) w rfl
    rintro _ w' ⟨refusal, same, _, _⟩
    exact ⟨x, rfl, told.mono (by simp [same])⟩

theorem raises_opened {body : Step (Watched σ) (List Error)} (inner : Leaves T body)
    (opening release : Request) :
    Raises (OpenedCourse opening release T) (do
      watch f opening
      raise (← released body (watch f release))) := by
  have inside := raises_raise (leaves_released steady inner release)
  apply raises_mono (raises_then (raises_watch steady opening) inside)
  rintro events errors (⟨first, failed⟩ | ⟨first, own, errors, refusal, course, rfl, rfl⟩)
  · cases first with
    | granted => exact (failed rfl).elim
    | refused e _ => exact .unopened e
  · generalize none : [] = left at first
    cases first with
    | granted => exact .opened course refusal
    | refused e nonempty => exact (nonempty none.symm).elim

/-! Rules -/

theorem watched_takes : f.watched.TakesTokens := by
  intro t w e w' failed
  have ended := raises_prepared steady (q := .append t) trivial w.events w rfl
  have same : watch f (.append t) w = (.error (.error e), w') := failed
  rw [same] at ended
  rcases ended with ⟨_, ⟨⟩, nonempty, ended⟩ | ⟨_, impossible, _⟩
  · obtain ⟨_, _, _, none⟩ := ended.ran
    exact nonempty none
  · cases impossible

theorem appendAll_gathers (tokens : List Token) (base : List Event) :
    Triple (fun w => w.events = base) (tokens.forM f.watched.append)
      (fun _ w => w.events = base ++ tokens.map fun t => asked (.append t) none) fun _ _ => False := by
  induction tokens generalizing base with
  | nil =>
    apply triple_pure
    rintro w rfl
    simp
  | cons t tokens ih =>
    apply triple_bind (M := fun _ w => w.events = base ++ [asked (.append t) none])
    · apply triple_watch
      · rintro st events st' rfl _
        rfl
      · intro st events failure st' _ failed
        exact (steady.prepares (.append t) st failure trivial (by rw [failed])).elim
    · intro _
      simpa using ih (base ++ [asked (.append t) none])

theorem raises_compileInto (now : Moment) (p : Precondition) (writable : p.Writable) :
    Raises (fun events errors => events = (compile now p).tokens.map (fun t => asked (.append t) none) ∧
      errors = compileErrors now p) (compileInto f.watched now p) := by
  rw [compileInto_emit (watched_takes steady)]
  intro base
  apply triple_bind (triple_weaken (appendAll_gathers steady (compile now p).tokens base) (fun _ => id)
    (fun _ _ => id) fun _ _ => False.elim)
  intro _ w same
  have fails : FailsWith (fun _ => False) (compile now p).outcome :=
    compile_failsWith p (Or.inr writable)
  unfold compileErrors
  cases outcome : (compile now p).outcome with
  | ok u => exact ended_nil same ⟨rfl, rfl⟩
  | error failure =>
    have of := fails failure outcome
    cases failure with
    | fault x => exact of.elim
    | error e =>
      have proper : ∀ x ∈ e.flat, x.Proper := fun x member => Error.proper_of_precondition (of.2 x member)
      exact Or.inl ⟨e, rfl, Error.flat_nonempty of.1, ended_proper proper same ⟨rfl, rfl⟩⟩

omit steady in
/-- The errors that actions have of their own are no faults. -/
theorem actions_alone {actions : List Action} {events : List Event} {x : Fault}
    (course : ActionsCourse actions events [.fault x]) : ToldAlone x events := by
  have last {own more : List Error} (proper : ∀ e ∈ own, e.Proper) (lone : [.fault x] = own ++ more) :
      more = [.fault x] := by
    rcases List.append_eq_singleton_iff.mp lone.symm with ⟨_, last⟩ | ⟨rfl, _⟩
    · exact last
    · exact (proper (.fault x) (List.mem_singleton_self _)).elim
  generalize told : [Error.fault x] = errors at course
  cases course with
  | @refused front _ _ done _ l _ _ _ _ e =>
    have proper : ∀ e ∈ front.flatMap actionErrors ++ done.flatMap destinationErrors, e.Proper :=
      List.forall_mem_append.mpr ⟨errors_proper actionErrors_proper, errors_proper destinationErrors_proper⟩
    exact ⟨.move l.text, e, by simp, last proper told⟩
  | unmarked none =>
    cases last (errors_proper actionErrors_proper) (told.trans (List.append_nil _).symm)
  | marked some refusal =>
    have lone := last (errors_proper actionErrors_proper) told
    cases refusal with
    | none => cases lone
    | some e => exact ⟨.mark, e, by simp, by simpa [Error.collect] using lone⟩

theorem raises_execute (actions : List Action) :
    Raises (ActionsCourse actions) (execute f.watched actions) := by
  have acts : f.Acts Flattened :=
    ⟨fun destination => steady.flattened (.move destination), steady.flattened .mark,
      fun _ told => told.nonempty⟩
  have ended {base : List Event} {errors : List Error} {w : Watched σ}
      (executed : Executed Flattened base actions errors w) : Ended (ActionsCourse actions) base errors w := by
    obtain ⟨left, events, same, course⟩ := executed
    refine ⟨left.single, ?_, events, same, course⟩
    rintro x rfl
    exact (actions_alone course).mono (by simp [same])
  intro base
  apply triple_weaken (execute_executed acts actions base) (fun _ => id) (fun _ _ => ended)
  rintro failure w ⟨errors, raised, executed⟩
  exact (ended executed).raised raised

theorem raises_rule {r : Rule} (writable : ∀ p ∈ r.preconditions, p.Writable) :
    Raises (RuleCourse now r) (do f.watched.newRule; rule f.watched now r) := by
  have compiling := raises_raise (leaves_collectEach fun p member =>
    raises_compileInto steady now p (writable p member))
  have searching := raises_then (raises_watch steady .search) (raises_execute steady r.actions)
  have whole := raises_begun steady (q := .newRule) trivial (raises_then compiling searching)
  -- The compiling of a rule is grouped with the raising of its errors, so that it is one part.
  have same : (do f.watched.newRule; rule f.watched now r) =
      (watch f .newRule >>= fun _ =>
        (collectEach r.preconditions (compileInto f.watched now) >>= raise) >>= fun _ =>
          watch f .search >>= fun _ => execute f.watched r.actions) := by
    simp only [bind_assoc]
    rfl
  rw [same]
  apply raises_mono whole
  have gathered {events : List Event} {errors : List Error}
      (each : Each (fun p events errors =>
        events = (compile now p).tokens.map (fun t => asked (.append t) none) ∧
          errors = compileErrors now p) r.preconditions events errors) :
      asked .newRule none :: events = gathering now r ∧
        errors = r.preconditions.flatMap (compileErrors now) := by
    obtain ⟨rfl, rfl⟩ := each_collects (fun _ _ _ => id) each
    simp [gathering, emitted, List.map_flatMap]
  rintro events errors ⟨⟨each, failing⟩ | ⟨each, searched⟩⟩
  · obtain ⟨events, told⟩ := gathered each
    rw [events, told]
    apply RuleCourse.uncompiled
    apply Classical.byContradiction
    intro none
    have compiles : ∀ p ∈ r.preconditions, (compile now p).outcome = .ok () := by simpa using none
    exact failing (told.trans ((compileErrors_none_iff writable).mpr compiles))
  · obtain ⟨events, none⟩ := gathered each
    have compiles := (compileErrors_none_iff writable).mp none.symm
    rw [← List.cons_append, events]
    rcases searched with ⟨refused, failing⟩ | ⟨answered, actions⟩
    · cases refused with
      | granted => exact (failing rfl).elim
      | refused e _ => exact .unsearched compiles e
    · generalize nothing : [] = left at answered
      cases answered with
      | granted => exact .searched compiles actions
      | refused e nonempty => exact (nonempty nothing.symm).elim

theorem raises_mailbox {m : Mailbox}
    (writable : ∀ r ∈ m.rules, ∀ p ∈ r.preconditions, p.Writable) :
    Raises (MailboxCourse now m) (do f.watched.newMailbox; mailbox f.watched now m) :=
  raises_begun steady (q := .newMailbox) trivial (raises_opened steady
    (leaves_collectEach fun r member => raises_rule steady (writable r member)) _ .close)

theorem raises_account {a : Account}
    (writable : ∀ m ∈ a.mailboxes, ∀ r ∈ m.rules, ∀ p ∈ r.preconditions, p.Writable) :
    Raises (AccountCourse now a) (do f.watched.newAccount; account f.watched now a) :=
  raises_begun steady (q := .newAccount) trivial (raises_opened steady
    (leaves_collectEach fun m member => raises_mailbox steady (writable m member)) _ .logout)

/-- A pass runs the course of its document and ends with the errors that the course leaves. Otherwise one of
its requests has told a fault alone, and the pass ends with that fault. -/
theorem pass_runs_course {d : Document} (writable : d.Writable) (now : Moment) (st : σ) :
    (∃ errors, (pass f now d st).1 = .ok errors ∧ DocumentCourse now d (trace f now d st) errors ∧
      ∀ e ∈ errors, e.Single) ∨
    ∃ x, (pass f now d st).1 = .error (.fault x) ∧ ToldAlone x (trace f now d st) := by
  have leaves : Leaves (DocumentCourse now d) (pass f.watched now d) :=
    leaves_collectEach fun a member => raises_account steady (writable a member)
  have ended := leaves [] ⟨st, []⟩ rfl
  rw [← pass_watched_outcome now d f st]
  unfold trace
  split at ended
  · rename_i errors w same
    obtain ⟨single, _, events, split, course⟩ := ended
    rw [same]
    rw [List.nil_append] at split
    exact Or.inl ⟨errors, rfl, split ▸ course, single⟩
  · rename_i failure w same
    obtain ⟨x, rfl, told⟩ := ended
    rw [same]
    exact Or.inr ⟨x, rfl, told⟩

end Requests

theorem Script.steady {s : Script}
    (refuses : ∀ calls call failure, s calls call = some failure →
      ∃ e, failure = .error e ∧ Flattened e) : s.family.Steady := by
  constructor
  · intro q t failure preparing
    cases q <;> first | exact preparing.elim | simp [Family.answer, Script.family]
  · intro q t failure failed
    cases q with
    | newAccount | newMailbox | newRule | append token => cases failed
    | _ => exact Script.answer_fails refuses _ t failure failed

def flawed : Document :=
  ⟨"c", [⟨"h", {}, {}, [⟨"INBOX", [⟨[fieldOf "NOSUCH" []], [], ⟨"c", 5, 7⟩⟩,
    moving 6 [place "A" 23, place "B" 26]], ⟨"c", 4, 5⟩⟩], ⟨"c", 2, 3⟩⟩]⟩

def reluctant : Script := fun _ call =>
  match call with
  | .move "B" => some (.error (.protocol "copy" "refused"))
  | .close => some (.error (.protocol "close" "refused"))
  | _ => none

theorem flawed_course : DocumentCourse newYear flawed (trace reluctant.family newYear flawed {})
    [.unknownField "NOSUCH" (some ⟨"c", 1, 1⟩), .protocol "copy" "refused",
      .protocol "close" "refused"] := by
  have steady : reluctant.family.Steady := by
    apply Script.steady
    intro calls call failure refused
    unfold reluctant at refused
    split at refused <;> cases refused
    · exact ⟨_, rfl, flattened_of_single trivial⟩
    · exact ⟨_, rfl, flattened_of_single trivial⟩
  have writable : flawed.Writable := by
    simp [Document.Writable, flawed, moving, Precondition.Writable, fieldOf, Precondition.nodes,
      Operand.nodes, Precondition.operands]
  have same : (pass reluctant.family newYear flawed {}).1 =
      .ok [.unknownField "NOSUCH" (some ⟨"c", 1, 1⟩), .protocol "copy" "refused",
        .protocol "close" "refused"] := by
    cbv
  rcases pass_runs_course steady writable newYear {} with ⟨errors, ended, course, _⟩ | ⟨x, ended, _⟩
  · cases same.symm.trans ended
    exact course
  · cases same.symm.trans ended

def misleading : Script := fun _ call =>
  match call with
  | .select _ => some (.error (.aggregate [.fault (.foreign "RuntimeError" "refused")]))
  | _ => none

def twoHosts : Document :=
  ⟨"c", [⟨"g", {}, {}, [⟨"INBOX", [], ⟨"c", 4, 5⟩⟩], ⟨"c", 2, 3⟩⟩, ⟨"h", {}, {}, [], ⟨"c", 5, 3⟩⟩]⟩

/-- A fault that is told alone stops the pass, here before the second account. -/
theorem lone_fault_stops_pass : ¬ ∀ (s : Script) (d : Document), s.family.Steady → d.Writable →
    ∃ errors, (pass s.family newYear d {}).1 = .ok errors ∧
      DocumentCourse newYear d (trace s.family newYear d {}) errors := by
  intro always
  have steady : misleading.family.Steady := by
    apply Script.steady
    intro calls call failure refused
    unfold misleading at refused
    split at refused <;> cases refused
    exact ⟨_, rfl, by simp [Error.flat], by simp [Error.flat, Error.Single]⟩
  obtain ⟨errors, ended, _⟩ := always misleading twoHosts steady
    (by simp [Document.Writable, twoHosts])
  have stopped : (pass misleading.family newYear twoHosts {}).1 =
      .error (.fault (.foreign "RuntimeError" "refused")) := by
    cbv
  cases stopped.symm.trans ended

end Sweep
end MailRules
