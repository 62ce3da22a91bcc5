import Mathlib.Data.List.DropRight
import MailRules.Proofs.Sweep.Watch
import MailRules.Proofs.Live.Groups
import MailRules.Proofs.Live.Reporting
/-!
Sessions in which anything may be asked for, in any order and whatever has failed before. What a rule holds
and whether an account is connected can be read off the entries of what was done: each step either leaves both
alone or changes one of them as its entry says.
-/
namespace MailRules.Live
open MailRules.Search MailRules.Sweep MailRules.Sweep.Step MailRules.Calendar

inductive Work
  | request (q : Request)
  | compile (now : Moment) (p : Precondition)

def Work.step {σ : Type} (f : Family σ) : Work → Step σ Unit
  | request q => f.answer q
  | compile now p => compileInto f now p

/-- What was done, how it ended, and all commands that had been issued by then. -/
structure Entry where
  work : Work
  outcome : Except Failure Unit
  issued : List Command

def entered (server : Server) (o : Options) (sofar : List Entry × State) (w : Work) : List Entry × State :=
  let ended := w.step (family server o) sofar.2
  (sofar.1 ++ [⟨w, ended.1, ended.2.commands⟩], ended.2)

/-- The entries of all that is done, one after another, whether or not it fails, and the state after it. -/
def worked (server : Server) (o : Options) (works : List Work) : List Entry × State :=
  works.foldl (entered server o) ([], {})

/-! What the entries tell -/

/-- The tokens that a rule is given. A compilation that fails has given those before its failure. -/
def Work.tokens : Work → List Token
  | .request (.append t) => [t]
  | .compile now p => (Search.compile now p).tokens
  | _ => []

namespace Entry

def beginsRule : Entry → Bool
  | ⟨.request .newRule, .ok (), _⟩ => true
  | _ => false

def beginsMailbox : Entry → Bool
  | ⟨.request .newMailbox, .ok (), _⟩ => true
  | _ => false

def beginsAccount : Entry → Bool
  | ⟨.request .newAccount, _, _⟩ => true
  | _ => false

def leaves : Entry → Bool
  | ⟨.request .logout, _, _⟩ => true
  | _ => false

def found (server : Server) : Entry → Option (List Nat)
  | ⟨.request .search, .ok (), issued⟩ => some (server.found issued)
  | _ => none

def opened : Entry → Option Session
  | ⟨.request (.connect host _ _), .ok (), _⟩ => some ⟨host⟩
  | _ => none

end Entry

def since (p : Entry → Bool) (entries : List Entry) : List Entry := entries.rtakeWhile fun e => !p e

structure Sheet where
  tokens : List Token
  matched : List Nat

def OpenRule.sheet (r : OpenRule) : Sheet := ⟨r.tokens, r.matched⟩

/-- What the current rule holds: the tokens given since it was begun, and what its last successful search
found. -/
def sheetOf (server : Server) (entries : List Entry) : Option Sheet :=
  if entries.any Entry.beginsRule then
    let rule := since Entry.beginsRule entries
    some ⟨rule.flatMap fun e => e.work.tokens, (rule.filterMap (Entry.found server)).getLast?.getD []⟩
  else none

/-- The session of the current account: the last one opened for it, unless there was a logout since. -/
def sessionOf (entries : List Entry) : Option Session :=
  let account := since Entry.beginsAccount entries
  if (since (fun e => e.opened.isSome) account).any Entry.leaves then none
  else (account.filterMap Entry.opened).getLast?

def Work.sends (rule : Option Sheet) : Work → List Command
  | .request .search => rule.elim [] fun r => match Operation.criteria r.tokens with
    | .ok criteria => [.search criteria (Operation.charset r.tokens)]
    | .error _ => []
  | .request (.move destination) => rule.elim [] fun r =>
    if r.matched = [] then [] else [.copy r.matched destination]
  | .request .mark => rule.elim [] fun r =>
    if r.matched = [] then [] else [.addFlags r.matched [deletedFlag] true]
  | _ => []

/-- What the work needs is there: it was begun, and the server accepts the search. -/
def Work.Prompt (server : Server) (commands : List Command) (connected selecting : Bool) (rule : Option Sheet) :
    Work → Prop
  | .request .newAccount => True
  | .request .newMailbox => connected = true
  | .request .newRule => selecting = true
  | .request (.append _) => rule.isSome = true
  | .compile now p => rule.isSome = true ∧ (Search.compile now p).outcome = .ok ()
  | .request .search => ∃ r criteria, rule = some r ∧ Operation.criteria r.tokens = .ok criteria ∧
    server.refusal commands (.search criteria (Operation.charset r.tokens)) = none
  | .request (.move _) | .request .mark => ∃ tokens, rule = some ⟨tokens, []⟩
  | _ => False

/-- A logout ends the session and a compilation gives its tokens also where they fail. -/
def Work.isPartial : Work → Bool
  | .request .logout | .compile .. => true
  | _ => false

section Entries
variable {server : Server} {entries : List Entry}

theorem since_snoc (p : Entry → Bool) (e : Entry) :
    since p (entries ++ [e]) = if p e then [] else since p entries ++ [e] := by
  unfold since
  rw [List.rtakeWhile_concat]
  cases p e <;> rfl

theorem sheetOf_snoc (e : Entry) : sheetOf server (entries ++ [e]) =
    if e.beginsRule then some ⟨[], []⟩
    else (sheetOf server entries).map fun r =>
      ⟨r.tokens ++ e.work.tokens, (e.found server).getD r.matched⟩ := by
  unfold sheetOf
  rw [since_snoc, List.any_append]
  cases begins : e.beginsRule with
  | true => simp [begins]
  | false =>
    cases begun : entries.any Entry.beginsRule with
    | false => simp [begins]
    | true => cases found : e.found server <;> simp [begins, found]

theorem sheetOf_aside {e : Entry} (begins : e.beginsRule = false) (found : e.found server = none)
    (tokens : e.work.tokens = [] ∨ sheetOf server entries = none) :
    sheetOf server (entries ++ [e]) = sheetOf server entries := by
  rw [sheetOf_snoc, begins, found]
  rcases tokens with nothing | unbegun
  · simp [nothing]
  · simp [unbegun]

theorem Entry.stays_of_opened {e : Entry} {s : Session} (opened : e.opened = some s) : e.leaves = false := by
  unfold Entry.opened at opened
  split at opened
  · rfl
  · cases opened

theorem sessionOf_snoc (e : Entry) : sessionOf (entries ++ [e]) =
    if e.beginsAccount || e.leaves then none else e.opened.or (sessionOf entries) := by
  unfold sessionOf
  rw [since_snoc]
  cases begins : e.beginsAccount with
  | true => simp [since]
  | false =>
    cases opened : e.opened with
    | some s => simp [since_snoc, opened, e.stays_of_opened opened]
    | none => cases leaves : e.leaves <;> simp [since_snoc, opened, leaves]

end Entries

/-! What a step does -/

/-- The work leaves the state alone: it is none that changes it, or it fails before it would. -/
def Work.Idles (st : State) : Work → Except Failure Unit → Prop
  | .request .newAccount, _ | .request .logout, _ => False
  | .request (.select _), _ | .request (.move _), _ | .request .mark, _ | .request .close, _ => True
  | .request (.append _), _ | .compile _ _, _ => st.rule = none
  | _, result => ∃ failure, result = .error failure

/-- What becomes of the state, commands and log apart, when the commands that had been issued are these. -/
inductive Alters (server : Server) (issued : List Command) (st : State) :
    Work → Except Failure Unit → State → Prop
  | account : Alters server issued st (.request .newAccount) (.ok ()) { st with session := none }
  | session {host : String} {flags : Flags} {credentials : Credentials} :
      Alters server issued st (.request (.connect host flags credentials)) (.ok ())
        { st with session := some ⟨host⟩ }
  | mailbox {s : Session} (connected : st.session = some s) :
      Alters server issued st (.request .newMailbox) (.ok ()) { st with mailbox := some s }
  | rule {s : Session} (selected : st.mailbox = some s) :
      Alters server issued st (.request .newRule) (.ok ()) { st with rule := some { session := s } }
  | token {r : OpenRule} {t : Token} (begun : st.rule = some r) :
      Alters server issued st (.request (.append t)) (.ok ())
        { st with rule := some { r with tokens := r.tokens ++ [t] } }
  | precondition {r : OpenRule} {now : Moment} {p : Precondition} {result : Except Failure Unit}
      (begun : st.rule = some r) :
      Alters server issued st (.compile now p) result
        { st with rule := some { r with tokens := r.tokens ++ (compile now p).tokens } }
  | found {r : OpenRule} (begun : st.rule = some r) :
      Alters server issued st (.request .search) (.ok ())
        { st with rule := some { r with matched := server.found issued } }
  | left {result : Except Failure Unit} :
      Alters server issued st (.request .logout) result { st with session := none }
  | none {w : Work} {result : Except Failure Unit} (idles : w.Idles st result) :
      Alters server issued st w result st

/-- The entries tell what the current rule holds, whether a mailbox was begun, and the session of the account. -/
structure Recorded (server : Server) (entries : List Entry) (st : State) : Prop where
  rule : st.rule.map OpenRule.sheet = sheetOf server entries
  mailbox : st.mailbox.isSome = entries.any Entry.beginsMailbox
  session : st.session = sessionOf entries

section Alterations
variable {server : Server} {entries : List Entry} {issued : List Command} {st st' : State} {w : Work}
  {result : Except Failure Unit}

theorem Work.Idles.aside (server : Server) (issued : List Command) (idles : w.Idles st result) :
    ∃ e : Entry, e = ⟨w, result, issued⟩ ∧
      (e.beginsRule = false ∧ e.found server = none ∧ (e.work.tokens = [] ∨ st.rule = none)) ∧
      e.beginsMailbox = false ∧ e.beginsAccount = false ∧ e.leaves = false ∧ e.opened = none := by
  refine ⟨_, rfl, ?_⟩
  cases w with
  | compile now p => exact ⟨⟨rfl, rfl, Or.inr idles⟩, rfl, rfl, rfl, rfl⟩
  | request q =>
    cases q with
    | newAccount => exact idles.elim
    | logout => exact idles.elim
    | append t => exact ⟨⟨rfl, rfl, Or.inr idles⟩, rfl, rfl, rfl, rfl⟩
    | connect | newMailbox | newRule | search =>
      obtain ⟨failure, rfl⟩ := idles
      exact ⟨⟨rfl, rfl, Or.inl rfl⟩, rfl, rfl, rfl, rfl⟩
    | _ => exact ⟨⟨rfl, rfl, Or.inl rfl⟩, rfl, rfl, rfl, rfl⟩

theorem Alters.tells_rule (told : st.rule.map OpenRule.sheet = sheetOf server entries)
    (alters : Alters server issued st w result st') :
    st'.rule.map OpenRule.sheet = sheetOf server (entries ++ [⟨w, result, issued⟩]) := by
  cases alters with
  | rule selected => simp [sheetOf_snoc, Entry.beginsRule, OpenRule.sheet]
  | token begun | precondition begun | found begun =>
    simp [sheetOf_snoc, Entry.beginsRule, Entry.found, Work.tokens, ← told, begun, OpenRule.sheet]
  | none idles =>
    obtain ⟨e, same, ⟨begins, found, tokens⟩, _⟩ := idles.aside server issued
    rw [← same, sheetOf_aside begins found, told]
    exact tokens.imp_right fun unbegun => by simp [← told, unbegun]
  | _ => exact told.trans (sheetOf_aside rfl rfl (Or.inl rfl)).symm

theorem Alters.tells_mailbox (told : st.mailbox.isSome = entries.any Entry.beginsMailbox)
    (alters : Alters server issued st w result st') :
    st'.mailbox.isSome = (entries ++ [(⟨w, result, issued⟩ : Entry)]).any Entry.beginsMailbox := by
  rw [List.any_append, ← told]
  cases alters with
  | none idles =>
    obtain ⟨e, same, _, begins, _⟩ := idles.aside server issued
    simp [← same, begins]
  | _ => simp [Entry.beginsMailbox]

theorem Alters.tells_session (told : st.session = sessionOf entries)
    (alters : Alters server issued st w result st') :
    st'.session = sessionOf (entries ++ [⟨w, result, issued⟩]) := by
  rw [sessionOf_snoc, ← told]
  cases alters with
  | none idles =>
    obtain ⟨e, same, _, _, begins, leaves, opened⟩ := idles.aside server issued
    simp [← same, begins, leaves, opened]
  | _ => simp [Entry.beginsAccount, Entry.leaves, Entry.opened]

end Alterations

/-- The step does to the state what the work does, and sends what it sends. -/
def Does (server : Server) (w : Work) (s : LiveStep Unit) (st : State) : Prop :=
  ∃ cs log st', (s st).2 = { st' with commands := st.commands ++ cs, log := log } ∧
    Alters server (st.commands ++ cs) st w (s st).1 st' ∧
    cs.filter Command.touchesMessages = w.sends (st.rule.map OpenRule.sheet)

section Steps
variable {server : Server} {o : Options} {st : State} {w : Work} {α : Type}

theorem currentSession_apply (st : State) :
    currentSession st = (st.session.elim (.error (.fault .notConnected)) .ok, st) := by
  simp only [currentSession, bind_apply, get_apply]
  cases st.session <;> rfl

theorem currentMailbox_apply (st : State) :
    currentMailbox st = (st.mailbox.elim (.error (.fault .notBegun)) .ok, st) := by
  simp only [currentMailbox, bind_apply, get_apply]
  cases st.mailbox <;> rfl

theorem currentRule_apply (st : State) :
    currentRule st = (st.rule.elim (.error (.fault .notBegun)) .ok, st) := by
  simp only [currentRule, bind_apply, get_apply]
  cases st.rule <;> rfl

theorem does_current {current : LiveStep α} {part : Option α} {next : α → LiveStep Unit} {x : Fault}
    (gives : current st = (part.elim (.error (.fault x)) .ok, st))
    (missing : part = none →
      w.Idles st (.error (.fault x)) ∧ w.sends (st.rule.map OpenRule.sheet) = [])
    (present : ∀ a, part = some a → Does server w (next a) st) : Does server w (current >>= next) st := by
  unfold Does
  rw [bind_apply, gives]
  cases part with
  | some a => exact present a rfl
  | none =>
    obtain ⟨idles, nothing⟩ := missing rfl
    exact ⟨[], st.log, st, by simp, .none idles, nothing.symm⟩

theorem does_issues {s : LiveStep Unit} (issues : Issues st.commands s fun cs result =>
    w.Idles st result ∧ cs.filter Command.touchesMessages = w.sends (st.rule.map OpenRule.sheet)) :
    Does server w s st := by
  obtain ⟨cs, log, issued, idles, sent⟩ := issues st rfl
  exact ⟨cs, log, st, issued, .none idles, sent⟩

theorem does_change {s : LiveStep α} (change : α → State → State)
    {T : List Command → Except Failure α → Prop} (issues : Issues st.commands s T)
    (sent : ∀ cs result, T cs result →
      cs.filter Command.touchesMessages = w.sends (st.rule.map OpenRule.sheet))
    (done : ∀ cs a, T cs (.ok a) → Alters server (st.commands ++ cs) st w (.ok ()) (change a st))
    (failed : ∀ failure, w.Idles st (.error failure))
    (framed : ∀ a commands log, change a { st with commands := commands, log := log } =
      { change a st with commands := commands, log := log }) :
    Does server w (s >>= fun a => modify (change a)) st := by
  obtain ⟨cs, log, issued, ended⟩ := issues st rfl
  unfold Does
  rw [bind_apply]
  match same : s st with
  | (.ok a, st') =>
    rw [same] at issued ended
    refine ⟨cs, log, change a st, ?_, done cs a ended, sent cs _ ended⟩
    rw [← framed, ← issued]
    rfl
  | (.error failure, st') =>
    rw [same] at issued ended
    exact ⟨cs, log, st, issued, .none (failed failure), sent cs _ ended⟩

/-! Commands that are not about messages -/

theorem issues_quietly {s : LiveStep α} {h : List Command} {T : List Command → Except Failure α → Prop}
    (issues : Issues h s T)
    (keeps : ∀ P : List Command → Prop, (∀ h c, c.touchesMessages = false → P h → P (h ++ [c])) →
      Keeps (OnCommands P) s) :
    Issues h s fun cs result => T cs result ∧ cs.filter Command.touchesMessages = [] := by
  rintro st rfl
  obtain ⟨cs, log, issued, ended⟩ := issues st rfl
  refine ⟨cs, log, issued, ended, ?_⟩
  -- What has been sent about messages is the same as before.
  have kept := keeps (fun h => h.filter Command.touchesMessages = st.commands.filter Command.touchesMessages)
    (fun h c quiet same => by simp [quiet, same]) st rfl
  have after : OnCommands (fun h => h.filter Command.touchesMessages =
      st.commands.filter Command.touchesMessages) (s st).2 := by
    split at kept <;> rename_i same <;> rw [same] <;> exact kept
  rw [OnCommands, issued] at after
  simpa using after

theorem openSession_quietly {host : String} {flags : Flags} {credentials : Credentials} {h : List Command} :
    Issues h (openSession server o host flags credentials) fun cs result =>
      (∀ s, result = .ok s → s = ⟨host⟩) ∧ cs.filter Command.touchesMessages = [] := by
  apply issues_weaken (issues_quietly openSession_issues fun P quiet =>
    openSession_keeps quiet flags credentials)
  rintro cs result ⟨⟨_, ended⟩, quiet⟩
  refine ⟨?_, quiet⟩
  rintro s rfl
  cases ended with
  | reported reports => cases reports with
    | session => rfl

theorem searchFor_issues {s : Session} {tokens : List Token} {h : List Command} :
    Issues h (s.searchFor server o tokens) fun cs result =>
      cs = (match Operation.criteria tokens with
        | .ok criteria => [.search criteria (Operation.charset tokens)]
        | .error _ => []) ∧
      ∀ found, result = .ok found → found = server.found (h ++ cs) := by
  cases written : Operation.criteria tokens with
  | ok criteria =>
    apply issues_weaken (searchFor_sends written)
    rintro cs result ⟨rfl, rfl⟩
    refine ⟨rfl, ?_⟩
    unfold answered
    split
    · rintro found ⟨⟩
      rfl
    · rintro found ⟨⟩
  | error e =>
    rw [searchFor_eq, written]
    apply issues_bind (M := fun cs result => cs = [] ∧ result = .error (.error e)) (issues_outcome ⟨rfl, rfl⟩)
    · rintro cs failure ⟨rfl, _⟩
      exact ⟨rfl, fun found failed => by cases failed⟩
    · rintro cs criteria ⟨_, ended⟩
      cases ended

/-! Each work -/

theorem connect_does (host : String) (flags : Flags) (credentials : Credentials) :
    Does server (.request (.connect host flags credentials)) (connect server o host flags credentials) st := by
  apply does_change (fun s st => { st with session := some s }) openSession_quietly
  · exact fun _ _ ended => ended.2
  · rintro cs s ⟨host_s, _⟩
    rw [host_s s rfl]
    exact .session
  · exact fun failure => ⟨failure, rfl⟩
  · exact fun _ _ _ => rfl

theorem newMailbox_does : Does server (.request .newMailbox) newMailbox st := by
  apply does_current (currentSession_apply st)
  · exact fun _ => ⟨⟨_, rfl⟩, rfl⟩
  · intro s connected
    exact ⟨[], st.log, _, by simp; rfl, .mailbox connected, rfl⟩

theorem newRule_does : Does server (.request .newRule) newRule st := by
  apply does_current (currentMailbox_apply st)
  · exact fun _ => ⟨⟨_, rfl⟩, rfl⟩
  · intro s selected
    exact ⟨[], st.log, _, by simp; rfl, .rule selected, rfl⟩

theorem append_does (t : Token) : Does server (.request (.append t)) (append t) st := by
  apply does_current (currentRule_apply st)
  · exact fun unbegun => ⟨unbegun, rfl⟩
  · intro r begun
    exact ⟨[], st.log, _, by simp; rfl, .token begun, rfl⟩

theorem append_apply (t : Token) (st : State) : append t st = match st.rule with
    | some r => (.ok (), { st with rule := some { r with tokens := r.tokens ++ [t] } })
    | none => (.error (.fault .notBegun), st) := by
  unfold append
  rw [bind_apply, currentRule_apply]
  cases st.rule <;> rfl

theorem compileInto_begun {r : OpenRule} (begun : st.rule = some r) (now : Moment) (p : Precondition) :
    compileInto (family server o) now p st = ((compile now p).outcome,
      { st with rule := some { r with tokens := r.tokens ++ (compile now p).tokens } }) := by
  have holds : (family server o).Holds fun tokens st' =>
      st' = { st with rule := some { r with tokens := tokens } } := by
    rintro t tokens st' rfl
    exact ⟨_, append_apply t _, rfl⟩
  have held : st = { st with rule := some { r with tokens := r.tokens } } := by rw [← begun]
  obtain ⟨st', taken, rfl⟩ := appendAll_holds holds (compile now p).tokens held
  rw [compileInto_emit append_takes, emit, bind_apply, taken]

/-- Without a rule the first token fails, and without tokens nothing is given. -/
theorem compileInto_unbegun (unbegun : st.rule = none) (now : Moment) (p : Precondition) :
    (compileInto (family server o) now p st).2 = st := by
  rw [compileInto_emit append_takes, emit, bind_apply]
  cases (compile now p).tokens with
  | nil => rfl
  | cons t tokens =>
    have first : (t :: tokens).forM (family server o).append st =
        (do (family server o).append t; tokens.forM (family server o).append) st := rfl
    have refused : (family server o).append t st = (.error (.fault .notBegun), st) :=
      (append_apply t st).trans (by rw [unbegun])
    rw [first, bind_apply, refused]

theorem compile_does (now : Moment) (p : Precondition) :
    Does server (.compile now p) (compileInto (family server o) now p) st := by
  cases begun : st.rule with
  | some r =>
    unfold Does
    rw [compileInto_begun begun]
    exact ⟨[], st.log, _, by simp, .precondition begun, rfl⟩
  | none => exact ⟨[], st.log, st, by simp [compileInto_unbegun begun], .none begun, rfl⟩

theorem search_does : Does server (.request .search) (search server o) st := by
  apply does_current (currentRule_apply st)
  · exact fun unbegun => ⟨⟨_, rfl⟩, by rw [unbegun]; rfl⟩
  · intro r begun
    apply does_change (fun found st => { st with rule := some { r with matched := found } }) searchFor_issues
    · rintro cs result ⟨rfl, _⟩
      rw [begun]
      simp only [Work.sends, Option.map_some, Option.elim_some, OpenRule.sheet]
      cases Operation.criteria r.tokens <;> rfl
    · rintro cs found ⟨_, answer⟩
      rw [answer found rfl]
      exact .found begun
    · exact fun failure => ⟨failure, rfl⟩
    · exact fun _ _ _ => rfl

theorem issues_only {op : Operation} {s : Session} {c : Command} {h : List Command}
    (planned : op.commands o = .ok [c]) :
    Issues h (op.step server o s) fun cs _ => cs = [c] := by
  apply issues_weaken (operation_concludes op)
  intro cs result ended
  cases ended with
  | done planned' =>
    cases planned.symm.trans planned'
    rfl
  | unwritten planned' => cases planned.symm.trans planned'
  | @reported front _ _ _ planned' | @escaped front _ _ _ planned' =>
    have whole := planned.symm.trans planned'
    cases front with
    | nil =>
      cases whole
      rfl
    | cons x front => simp at whole

theorem found_does (op : OpenRule → Operation) {c : OpenRule → Command}
    (planned : ∀ r, (op r).commands o = .ok [c r]) (about : ∀ r, (c r).touchesMessages = true)
    (idles : ∀ result, w.Idles st result)
    (sends : ∀ r : OpenRule, w.sends (some r.sheet) = if r.matched = [] then [] else [c r])
    (nothing : w.sends none = []) :
    Does server w (do
      let r ← currentRule
      if !r.matched.isEmpty then (op r).step server o r.session) st := by
  apply does_current (currentRule_apply st)
  · exact fun unbegun => ⟨idles _, by rw [unbegun]; exact nothing⟩
  · intro r begun
    apply does_issues
    rw [begun, Option.map_some, sends]
    by_cases empty : r.matched = []
    · rw [if_pos empty, if_neg (by simp [empty])]
      exact issues_outcome ⟨idles _, rfl⟩
    · rw [if_neg empty, if_pos (by simp [empty])]
      apply issues_weaken (issues_only (planned r))
      rintro cs result rfl
      exact ⟨idles _, by simp [about]⟩

theorem move_does (destination : String) :
    Does server (.request (.move destination)) (move server o destination) st :=
  found_does (fun r => .copy r.matched destination) (fun _ => rfl) (fun _ => rfl) (fun _ => trivial)
    (fun _ => rfl) rfl

theorem mark_does : Does server (.request .mark) (mark server o) st :=
  found_does (fun r => .store r.matched) (fun _ => rfl) (fun _ => rfl) (fun _ => trivial) (fun _ => rfl) rfl

theorem mailbox_does (op : Operation) {c : Command} (planned : op.commands o = .ok [c])
    (quiet : c.touchesMessages = false) (idles : ∀ result, w.Idles st result)
    (sends : w.sends (st.rule.map OpenRule.sheet) = []) :
    Does server w (currentMailbox >>= fun s => op.step server o s) st := by
  apply does_current (currentMailbox_apply st)
  · exact fun _ => ⟨idles _, sends⟩
  · intro s _
    apply does_issues
    apply issues_weaken (issues_only planned)
    rintro cs result rfl
    exact ⟨idles _, by simp [quiet, sends]⟩

theorem logout_does : Does server (.request .logout) (logout server o) st := by
  unfold Does logout
  rw [bind_apply, currentSession_apply]
  cases st.session with
  | none => exact ⟨[], st.log, { st with session := none }, by simp, .left, rfl⟩
  | some s =>
    have leaves : Issues st.commands (s.logout server o) fun cs result =>
        Concluded server o s .logout st.commands cs result ∧ cs.filter Command.touchesMessages = [] :=
      issues_quietly logout_concludes fun P quiet =>
        sessionLogout_keeps (fun h => quiet h _ rfl) (fun h => quiet h _ rfl) (fun h => quiet h _ rfl) s
    obtain ⟨cs, log, issued, _, quiet⟩ := leaves st rfl
    refine ⟨cs, log, { st with session := none }, ?_, .left, quiet⟩
    change { (s.logout server o st).2 with session := none } = _
    rw [issued]

theorem work_does (server : Server) (o : Options) (w : Work) (st : State) :
    Does server w (w.step (family server o)) st := by
  cases w with
  | compile now p => exact compile_does now p
  | request q =>
    cases q with
    | newAccount => exact ⟨[], st.log, _, by simp [Work.step]; rfl, .account, rfl⟩
    | connect host flags credentials => exact connect_does host flags credentials
    | newMailbox => exact newMailbox_does
    | select name => exact mailbox_does (.select name) rfl rfl (fun _ => trivial) rfl
    | newRule => exact newRule_does
    | append t => exact append_does t
    | search => exact search_does
    | move destination => exact move_does destination
    | mark => exact mark_does
    | close => exact mailbox_does (o := o) .close rfl rfl (fun _ => trivial) rfl
    | logout => exact logout_does

theorem search_succeeds {r : OpenRule} {criteria : List Criterion} (begun : st.rule = some r)
    (written : Operation.criteria r.tokens = .ok criteria)
    (accepted : server.refusal st.commands (.search criteria (Operation.charset r.tokens)) = none) :
    (search server o st).1 = .ok () := by
  have sends : Issues st.commands (r.session.searchFor server o r.tokens) fun _ result =>
      result = answered server r.session st.commands (.search criteria (Operation.charset r.tokens)) :=
    issues_weaken (searchFor_sends written) fun _ _ => And.right
  obtain ⟨cs, log, _, ended⟩ := sends st rfl
  rw [answered, accepted] at ended
  rw [search, bind_apply, currentRule_apply, begun]
  simp only [Option.elim_some, bind_apply]
  cases found : r.session.searchFor server o r.tokens st with
  | mk result st' =>
    rw [found] at ended
    cases ended
    rfl

theorem idle_rule (prompt : ∃ tokens, st.rule.map OpenRule.sheet = some ⟨tokens, []⟩) :
    ∃ r, st.rule = some r ∧ r.matched = [] := by
  obtain ⟨tokens, held⟩ := prompt
  obtain ⟨r, begun, same⟩ := Option.map_eq_some_iff.mp held
  exact ⟨r, begun, congrArg Sheet.matched same⟩

theorem work_succeeds (server : Server) (o : Options) (w : Work) (st : State)
    (prompt : w.Prompt server st.commands st.session.isSome st.mailbox.isSome (st.rule.map OpenRule.sheet)) :
    (w.step (family server o) st).1 = .ok () := by
  cases w with
  | compile now p =>
    obtain ⟨some, accepted⟩ := prompt
    rw [Option.isSome_map] at some
    obtain ⟨r, begun⟩ := Option.isSome_iff_exists.mp some
    change (compileInto (family server o) now p st).1 = _
    rw [compileInto_begun begun, accepted]
  | request q =>
    cases q with
    | newAccount => rfl
    | newMailbox =>
      obtain ⟨s, connected⟩ := Option.isSome_iff_exists.mp prompt
      change (newMailbox st).1 = _
      rw [newMailbox, bind_apply, currentSession_apply, connected]
      rfl
    | newRule =>
      obtain ⟨s, selected⟩ := Option.isSome_iff_exists.mp prompt
      change (newRule st).1 = _
      rw [newRule, bind_apply, currentMailbox_apply, selected]
      rfl
    | append t =>
      have some : st.rule.isSome = true := Option.isSome_map.symm.trans prompt
      obtain ⟨r, begun⟩ := Option.isSome_iff_exists.mp some
      change (append t st).1 = _
      rw [append_apply, begun]
    | search =>
      obtain ⟨_, criteria, held, written, accepted⟩ := prompt
      obtain ⟨r, begun, rfl⟩ := Option.map_eq_some_iff.mp held
      exact search_succeeds begun written accepted
    | move destination =>
      obtain ⟨r, begun, empty⟩ := idle_rule prompt
      change (move server o destination st).1 = _
      simp [move, bind_apply, currentRule_apply, begun, empty]
    | mark =>
      obtain ⟨r, begun, empty⟩ := idle_rule prompt
      change (mark server o st).1 = _
      simp [mark, bind_apply, currentRule_apply, begun, empty]
    | connect | select | close | logout => exact prompt.elim

end Steps

theorem Alters.unchanged_of_error {server : Server} {issued : List Command} {st st' : State} {w : Work}
    {failure : Failure} (whole : w.isPartial = false)
    (alters : Alters server issued st w (.error failure) st') : st' = st := by
  cases alters with
  | none => rfl
  | _ => cases whole

/-! The whole of what is done -/

theorem entered_recorded {server : Server} {o : Options} {entries : List Entry} {st : State} (w : Work)
    (told : Recorded server entries st) :
    Recorded server (entered server o (entries, st) w).1 (entered server o (entries, st) w).2 := by
  obtain ⟨cs, log, st', after, alters, _⟩ := work_does server o w st
  have rule := alters.tells_rule told.rule
  have mailbox := alters.tells_mailbox told.mailbox
  have session := alters.tells_session told.session
  unfold entered
  dsimp only
  rw [after]
  exact ⟨rule, mailbox, session⟩

theorem worked_recorded (server : Server) (o : Options) (works : List Work) :
    Recorded server (worked server o works).1 (worked server o works).2 := by
  induction works using List.reverseRecOn with
  | nil => exact ⟨rfl, rfl, rfl⟩
  | append_singleton works w ih =>
    unfold worked
    rw [List.foldl_concat]
    exact entered_recorded w ih

/-- Whatever is done in whatever order, the current rule holds the tokens that it was given, also by compilations
that failed, and what its last successful search found; the account has the session that was opened last, unless
there was a logout since. Whatever is done next sends what the rule holds. If it fails, all this stays as it is,
but for a logout and a compilation; and it does not fail if what it needs is there. -/
theorem entries_tell (server : Server) (o : Options) (works : List Work) :
    (worked server o works).2.rule.map OpenRule.sheet = sheetOf server (worked server o works).1 ∧
    (currentSession (worked server o works).2).1 =
      (sessionOf (worked server o works).1).elim (.error (.fault .notConnected)) .ok ∧
    ∀ next : Work, ∃ result cs log st',
      next.step (family server o) (worked server o works).2 =
        (result, { st' with commands := (worked server o works).2.commands ++ cs, log := log }) ∧
      cs.filter Command.touchesMessages = next.sends (sheetOf server (worked server o works).1) ∧
      (∀ failure, result = .error failure → next.isPartial = false → st' = (worked server o works).2) ∧
      (next.Prompt server (worked server o works).2.commands (sessionOf (worked server o works).1).isSome
          ((worked server o works).1.any Entry.beginsMailbox) (sheetOf server (worked server o works).1) →
        result = .ok ()) := by
  have told := worked_recorded server o works
  generalize (worked server o works).1 = entries, (worked server o works).2 = st at told ⊢
  refine ⟨told.rule, ?_, ?_⟩
  · rw [currentSession_apply, told.session]
  · intro next
    obtain ⟨cs, log, st', after, alters, sent⟩ := work_does server o next st
    refine ⟨_, cs, log, st', Prod.ext rfl after, told.rule ▸ sent, ?_, ?_⟩
    · intro failure failed whole
      have ended : Alters server (st.commands ++ cs) st next (.error failure) st' := failed ▸ alters
      exact ended.unchanged_of_error whole
    · rw [← told.rule, ← told.session, ← told.mailbox]
      exact work_succeeds server o next st

def searchesOnce : Server where
  refusal := fun h c =>
    if c.isSearch && h.any Command.isSearch then some ⟨.server, "IMAPClientError", "busy"⟩ else none
  hasCapability := fun _ _ => false
  found := fun _ => [7]

def searchedTwice : List Work :=
  [.request .newAccount, .request (.connect "h" {} {}), .request .newMailbox, .request .newRule,
    .request (.append (.text "SEEN")), .request .search, .request .search]

def twice : List Entry × State := worked searchesOnce plainOptions searchedTwice

theorem refused_search_leaves_first :
    twice.2.rule.map OpenRule.sheet = some ⟨[.text "SEEN"], [7]⟩ ∧
    (currentSession twice.2).1 = .ok ⟨"h"⟩ ∧
    (∃ cs, ((Work.request (.move "x")).step (family searchesOnce plainOptions) twice.2).2.commands =
        twice.2.commands ++ cs ∧ cs.filter Command.touchesMessages = [.copy [7] "x"]) ∧
    ∃ result cs log, (Work.request .search).step (family searchesOnce plainOptions) twice.2 =
      (result, { twice.2 with commands := twice.2.commands ++ cs, log := log }) := by
  obtain ⟨rule, session, after⟩ := entries_tell searchesOnce plainOptions searchedTwice
  change (currentSession twice.2).1 = (sessionOf twice.1).elim _ _ at session
  have sheet : sheetOf searchesOnce twice.1 = some ⟨[.text "SEEN"], [7]⟩ := by cbv
  have opened : sessionOf twice.1 = some ⟨"h"⟩ := by cbv
  refine ⟨rule.trans sheet, by rw [session, opened]; rfl, ?_, ?_⟩
  · obtain ⟨result, cs, log, st', moved, sent, _, _⟩ := after (.request (.move "x"))
    refine ⟨cs, congrArg (fun ended => ended.2.commands) moved, sent.trans ?_⟩
    change Work.sends (sheetOf searchesOnce twice.1) _ = _
    rw [sheet]
    rfl
  · have refused : ((Work.request .search).step (family searchesOnce plainOptions) twice.2).1 =
        .error (.error (.protocol "search" "h: busy")) := by cbv
    obtain ⟨result, cs, log, st', ended, _, kept, _⟩ := after (.request .search)
    have failed : result = .error (.error (.protocol "search" "h: busy")) :=
      (congrArg Prod.fst ended).symm.trans refused
    cases kept _ failed rfl
    exact ⟨result, cs, log, ended⟩

end MailRules.Live
