import MailRules.Proofs.Live.History
import MailRules.Proofs.Search.Criteria
import MailRules.Proofs.Sweep.Congruence
/-!
The search of a rule. A rule gathers what its preconditions emit and asks for it once, before any of its
actions; what it has gathered stays as it is. It asks for all messages if it has gathered nothing, which
happens also where there are preconditions, if none of them lists anything to look for.
-/
namespace MailRules.Live
open MailRules.Search MailRules.Sweep MailRules.Sweep.Step MailRules.Calendar

def Gathering (P : List Command → Prop) (start : OpenRule) (tokens : List Token) (st : State) : Prop :=
  OnCommands P st ∧ st.rule = some { start with tokens := tokens }

def Holding (P : List Command → Prop) (tokens : List Token) (st : State) : Prop :=
  OnCommands P st ∧ ∃ current, st.rule = some current ∧ current.tokens = tokens

def Searched (P : List Command → Prop) (tokens : List Token) (h : List Command) : Prop :=
  ∃ before criteria charset, P before ∧ Asks tokens criteria ∧ h = before ++ [.search criteria charset]

def SearchAccepted (server : Server) (P : List Command → Prop) (tokens : List Token)
    (h : List Command) : Prop :=
  ∃ before criteria charset, P before ∧ Asks tokens criteria ∧
    server.refusal before (.search criteria charset) = none ∧ h = before ++ [.search criteria charset]

section Steps
variable {P : List Command → Prop} {server : Server} {o : Options} {now : Moment} {r : Rule}
  {start : OpenRule}

theorem triple_currentRule {I : State → Prop} {E : Failure → State → Prop}
    (begun : ∀ st, I st → ∃ current, st.rule = some current) :
    Triple I currentRule (fun current st => I st ∧ st.rule = some current) E := by
  intro st holds
  obtain ⟨current, same⟩ := begun st holds
  simp only [currentRule, bind_apply, get_apply, same]
  exact ⟨holds, same⟩

/-! Tokens -/

theorem append_gathering (tokens : List Token) (t : Token) {E : Failure → State → Prop} :
    Triple (Gathering P start tokens) (append t) (fun _ => Gathering P start (tokens ++ [t])) E := by
  apply triple_bind (triple_currentRule fun st gathering => ⟨_, gathering.2⟩)
  intro current
  apply triple_modify
  rintro st ⟨⟨holds, same⟩, begun⟩
  cases same.symm.trans begun
  exact ⟨holds, rfl⟩

theorem appendAll_gathering (tokens more : List Token) {E : Failure → State → Prop} :
    Triple (Gathering P start tokens) (more.forM append)
      (fun _ => Gathering P start (tokens ++ more)) E := by
  induction more generalizing tokens with
  | nil => exact triple_pure fun st => by simp
  | cons t more ih =>
    apply triple_bind (append_gathering tokens t)
    intro _
    simpa using ih (tokens ++ [t])

theorem append_takes : (family server o).TakesTokens := by
  intro t st e st' refused
  have ended : append t st = (.error (.error e), st') := refused
  unfold append currentRule at ended
  simp only [bind_apply, get_apply] at ended
  cases begun : st.rule with
  | none =>
    rw [begun] at ended
    cases ended
  | some current =>
    rw [begun] at ended
    cases ended

theorem compileInto_gathering (server : Server) (o : Options) (tokens : List Token) {p : Precondition}
    (accepted : (compile now p).outcome = .ok ()) {E : Failure → State → Prop} :
    Triple (Gathering P start tokens) (compileInto (family server o) now p)
      (fun _ => Gathering P start (tokens ++ (compile now p).tokens)) E := by
  rw [compileInto_emit append_takes]
  apply triple_bind (appendAll_gathering tokens (compile now p).tokens)
  intro _ st gathering
  simpa only [accepted] using gathering

theorem preconditions_gathering (tokens : List Token)
    (compiles : ∀ p ∈ r.preconditions, (compile now p).outcome = .ok ()) {E : Failure → State → Prop} :
    Triple (Gathering P start tokens) (collectEach r.preconditions (compileInto (family server o) now))
      (fun errors st => errors = [] ∧
        Gathering P start (tokens ++ emitted now r.preconditions) st) E := by
  apply triple_weaken (R := fun st => ([] : List Error) = [] ∧
      Gathering P start (tokens ++ [].flatMap fun p => (compile now p).tokens) st)
    (triple_collectEach (fun done errors st => errors = [] ∧
      Gathering P start (tokens ++ done.flatMap fun p => (compile now p).tokens) st) _)
  · exact fun st gathering => ⟨rfl, by simpa using gathering⟩
  · exact fun _ _ => id
  · exact fun _ _ => id
  · rintro done p rest errors split st ⟨rfl, gathering⟩
    have ended := compileInto_gathering server o (E := fun _ _ => False) _
      (compiles p (by simp [split])) st gathering
    split at ended
    · exact ⟨rfl, by simpa using ended⟩
    · exact ended.elim

/-! The search -/

/-- A search asks for what the tokens write. It is not issued only if they write no criteria. -/
theorem searchFor_asks (server : Server) (o : Options) (session : Session) (tokens : List Token)
    (rule : Option OpenRule) :
    Triple (fun st => OnCommands P st ∧ st.rule = rule) (session.searchFor server o tokens)
      (fun found st => st.rule = rule ∧ SearchAccepted server P tokens st.commands ∧
        found = server.found st.commands)
      fun _ st => st.rule = rule ∧ (Searched P tokens st.commands ∨
        P st.commands ∧ ∃ e, nest tokens = .error e) := by
  unfold Session.searchFor
  extract_lets ascii rest
  have asked (criteria : List Criterion) (asks : Asks tokens criteria) :
      Triple (fun st => OnCommands P st ∧ st.rule = rule) (rest criteria)
        (fun found st => st.rule = rule ∧ SearchAccepted server P tokens st.commands ∧
          found = server.found st.commands)
        fun _ st => st.rule = rule ∧ (Searched P tokens st.commands ∨
          P st.commands ∧ ∃ e, nest tokens = .error e) := by
    apply triple_bind (M := fun _ st => st.rule = rule ∧ SearchAccepted server P tokens st.commands)
    · apply triple_perform
      · rintro st ⟨holds, same⟩ accepted
        exact ⟨same, st.commands, criteria, _, holds, asks, accepted, rfl⟩
      · rintro st failure ⟨holds, same⟩ _
        exact ⟨same, Or.inl ⟨st.commands, criteria, _, holds, asks, rfl⟩⟩
    · intro _
      apply triple_bind (M := fun seen st => (st.rule = rule ∧
        SearchAccepted server P tokens st.commands) ∧ seen.commands = st.commands)
      · exact triple_get fun st holds => ⟨holds, rfl⟩
      · intro seen
        apply triple_bind (M := fun _ st => (st.rule = rule ∧
          SearchAccepted server P tokens st.commands) ∧ seen.commands = st.commands)
        · exact triple_note fun st => id
        · intro _
          apply triple_pure
          rintro st ⟨⟨same, accepted⟩, seenIs⟩
          exact ⟨same, accepted, by rw [seenIs]⟩
  split
  · exact asked [.text "ALL"] rfl
  · rename_i some
    apply triple_bind (M := fun criteria st =>
      nest tokens = .ok criteria ∧ OnCommands P st ∧ st.rule = rule)
    · intro st holds
      cases nest tokens with
      | ok criteria => exact ⟨rfl, holds⟩
      | error e => exact ⟨holds.2, Or.inr ⟨holds.1, e, rfl⟩⟩
    · intro criteria st holds
      exact asked criteria (asks_of_nest some holds.1) st holds.2

/-! The rule -/

/-- There has been a search for what the tokens write, after `base` and nothing else, and none since. -/
def SearchedSince (base : List Command) (tokens : List Token) (h : List Command) : Prop :=
  ∃ criteria charset after, Asks tokens criteria ∧ h = base ++ .search criteria charset :: after ∧
    ∀ c ∈ after, c.isSearch = false

variable {base : List Command} {tokens : List Token}

theorem searchedSince_snoc {h : List Command} {c : Command} (other : c.isSearch = false)
    (searched : SearchedSince base tokens h) : SearchedSince base tokens (h ++ [c]) := by
  obtain ⟨criteria, charset, after, asks, rfl, none⟩ := searched
  refine ⟨criteria, charset, after ++ [c], asks, by simp, ?_⟩
  intro x member
  rcases List.mem_append.mp member with old | new
  · exact none x old
  · rw [List.mem_singleton.mp new]
    exact other

def AskedOnce (base : List Command) (tokens : List Token) (h : List Command) : Prop :=
  Balanced tokens → SearchedSince base tokens h

theorem search_holding :
    Triple (Gathering (· = base) start tokens) (search server o)
      (fun _ => Holding (AskedOnce base tokens) tokens)
      fun _ => Holding (AskedOnce base tokens) tokens := by
  apply triple_bind (triple_currentRule fun st gathering => ⟨_, gathering.2⟩)
  intro current
  apply triple_bind (M := fun _ st => OnCommands (AskedOnce base tokens) st ∧ current.tokens = tokens)
  · rintro st ⟨⟨rfl, same⟩, begun⟩
    cases same.symm.trans begun
    have asked := searchFor_asks (P := (· = st.commands)) server o start.session tokens
      (some { start with tokens := tokens })
    apply triple_weaken asked (fun _ => id) _ _ st ⟨rfl, same⟩
    · rintro found st' ⟨_, ⟨_, criteria, charset, rfl, asks, _, commands⟩, _⟩
      exact ⟨fun _ => ⟨criteria, charset, [], asks, commands, by simp⟩, rfl⟩
    · rintro failure st' ⟨begun, searched⟩
      refine ⟨?_, _, begun, rfl⟩
      intro balanced
      rcases searched with ⟨_, criteria, charset, rfl, asks, commands⟩ | ⟨_, e, failed⟩
      · exact ⟨criteria, charset, [], asks, commands, by simp⟩
      · obtain ⟨criteria, nested⟩ := nest_balanced balanced
        cases nested.symm.trans failed
  · intro found
    apply triple_modify
    rintro st ⟨searched, same⟩
    exact ⟨searched, _, rfl, same⟩

theorem perform_holding {session : Session} {operation : String} {c : Command}
    (other : c.isSearch = false) :
    Keeps (Holding (AskedOnce base tokens) tokens) (perform server session operation c) := by
  have issued : ∀ st, Holding (AskedOnce base tokens) tokens st →
      Holding (AskedOnce base tokens) tokens (st.issued c) :=
    fun st holds => ⟨fun balanced => searchedSince_snoc other (holds.1 balanced), holds.2⟩
  exact triple_perform (fun st holds _ => issued st holds) fun st _ holds _ => issued st holds

theorem currentRule_holding : Keeps (Holding P tokens) currentRule :=
  triple_weaken (triple_currentRule fun _ holds => ⟨_, holds.2.choose_spec.1⟩) (fun _ => id)
    (fun _ _ => And.left) fun _ _ => id

theorem move_holding (folder : String) :
    Keeps (Holding (AskedOnce base tokens) tokens) (move server o folder) := by
  apply keeps_bind currentRule_holding
  intro current
  split
  · exact keeps_bind (perform_holding rfl) fun _ => triple_note fun _ => id
  · exact keeps_pure _

theorem mark_holding : Keeps (Holding (AskedOnce base tokens) tokens) (mark server o) := by
  apply keeps_bind currentRule_holding
  intro current
  split
  · exact keeps_bind (perform_holding rfl) fun _ => triple_note fun _ => id
  · exact keeps_pure _

theorem rule_holding (server : Server) (o : Options) (base : List Command) (tokens : List Token)
    (compiles : ∀ p ∈ r.preconditions, (compile now p).outcome = .ok ()) :
    Triple (Gathering (· = base) start tokens) (rule (family server o) now r)
      (fun _ => Holding (AskedOnce base (tokens ++ emitted now r.preconditions))
        (tokens ++ emitted now r.preconditions))
      fun _ => Holding (AskedOnce base (tokens ++ emitted now r.preconditions))
        (tokens ++ emitted now r.preconditions) := by
  apply triple_bind (preconditions_gathering tokens compiles)
  intro errors
  apply triple_bind (M := fun _ => Gathering (· = base) start (tokens ++ emitted now r.preconditions))
  · rintro st ⟨rfl, gathering⟩
    exact gathering
  · intro _
    apply triple_bind search_holding
    intro _
    exact (keeping _).execute (f := family server o) (g := family server o) move_holding mark_holding
      r.actions

end Steps

/-- A rule that compiles is given what its preconditions emit, and asks for what it then has, once. They
emit nothing just if each of them is vacuous, and a new rule asks for all messages then. -/
theorem rule_asks_for_emitted (server : Server) (o : Options) {now : Moment} {r : Rule}
    (compiles : ∀ p ∈ r.preconditions, (compile now p).outcome = .ok ()) {st : State} {start : OpenRule}
    (begun : st.rule = some start) :
    (∃ current, (rule (family server o) now r st).2.rule = some current ∧
        current.tokens = start.tokens ++ emitted now r.preconditions) ∧
      (Balanced start.tokens → SearchedSince st.commands (start.tokens ++ emitted now r.preconditions)
        (rule (family server o) now r st).2.commands) ∧
      (emitted now r.preconditions = [] ↔ ∀ p ∈ r.preconditions, p.Vacuous) := by
  have ended := rule_holding server o st.commands start.tokens compiles st ⟨rfl, begun⟩
  have holds : Holding (AskedOnce st.commands (start.tokens ++ emitted now r.preconditions))
      (start.tokens ++ emitted now r.preconditions) (rule (family server o) now r st).2 := by
    split at ended
    · rename_i same
      rw [same]
      exact ended
    · rename_i same
      rw [same]
      exact ended
  refine ⟨holds.2, ?_, emitted_nil_iff compiles⟩
  intro balanced
  exact holds.1 (balanced.append (emitted_balanced compiles))

def findsOne : Server where
  refusal := fun _ _ => none
  hasCapability := fun _ _ => false
  found := fun _ => [7]

def refusesExternal : Server where
  refusal := fun _ c => match c with
    | .saslLogin _ _ => some ⟨.server, "LoginError", "no"⟩
    | _ => none
  hasCapability := fun _ _ => false
  found := fun _ => []

def plainOptions : Options := ⟨false, .zero false, "live"⟩

def asking (ps : List Precondition) : Rule := ⟨ps, [], ⟨"c", 5, 7⟩⟩

def begunRule : State := { rule := some ⟨⟨"h"⟩, [], []⟩ }

theorem seen_asked_for :
    SearchedSince [] [.text "SEEN"]
      (rule (family findsOne plainOptions) newYear (asking [oneOf [], fieldOf "SEEN" []])
        begunRule).2.commands := by
  have compiles : ∀ p ∈ [oneOf [], fieldOf "SEEN" []], (compile newYear p).outcome = .ok () := by
    intro p member
    rcases List.mem_cons.mp member with rfl | member
    · rfl
    · rw [List.mem_singleton.mp member]
      rfl
  have begun : begunRule.rule = some ⟨⟨"h"⟩, [], []⟩ := rfl
  exact (rule_asks_for_emitted findsOne plainOptions (r := asking [oneOf [], fieldOf "SEEN" []]) compiles
    begun).2.1 .nil

/-- A rule may have a precondition and yet ask for all messages. -/
theorem all_asked_for_by_no_alternatives : ¬ ∀ server o now r st session, r.preconditions ≠ [] →
    (∀ p ∈ r.preconditions, (compile now p).outcome = .ok ()) → st.rule = some ⟨session, [], []⟩ →
    ∃ current, (rule (family server o) now r st).2.rule = some current ∧ current.tokens ≠ [] := by
  intro always
  obtain ⟨current, ended, some⟩ := always findsOne plainOptions newYear (asking [oneOf []]) begunRule ⟨"h"⟩
    (by simp [asking]) (by simp [asking, oneOf]; rfl) rfl
  have nothing : (rule (family findsOne plainOptions) newYear (asking [oneOf []]) begunRule).2.rule =
      .some ⟨⟨"h"⟩, [], [7]⟩ := rfl
  cases nothing.symm.trans ended
  exact some rfl

end MailRules.Live
