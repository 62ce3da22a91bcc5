import MailRules.Sweep.Run
import MailRules.Proofs.Document.Reader
import MailRules.Proofs.Live.Search
/-!
What is flagged for deletion. A rule goes from its tokens to its search and from there destination by
destination; where it stands is known from the history, and every step of it is either taken or ends
the rule.
-/
namespace MailRules.Live
open MailRules.Search MailRules.Sweep MailRules.Sweep.Step MailRules.Calendar MailRules.Log

def Within (server : Server) (now : Moment) (d : Document) (m : Mailbox) : State → Prop :=
  OnCommands fun h => Lawful server now d h ∧ Selected server m.name h

def Collecting (server : Server) (now : Moment) (d : Document) (m : Mailbox) (tokens : List Token)
    (st : State) : Prop :=
  Within server now d m st ∧ ∃ session, st.rule = some ⟨session, tokens, []⟩

def Copying (server : Server) (now : Moment) (d : Document) (m : Mailbox) (r : Rule)
    (folders : List String) (st : State) : Prop :=
  Within server now d m st ∧ ∃ current, st.rule = some current ∧
    (current.matched ≠ [] → CopiedTo server now m r current.matched folders st.commands)

section Steps
variable {server : Server} {now : Moment} {d : Document} {m : Mailbox} {r : Rule} {o : Options}

theorem within_issued {st : State} {c : Command} (touches : c.touchesMessages = true)
    (within : Within server now d m st) (warranted : Warranted server now d st.commands c) :
    Within server now d m (st.issued c) :=
  ⟨lawful_snoc within.1 warranted, selected_snoc touches within.2⟩

/-! Tokens -/

theorem newRule_collecting :
    Triple (Within server now d m) newRule (fun _ => Collecting server now d m [])
      fun _ => Within server now d m := by
  apply triple_bind (M := fun _ => Within server now d m)
  · exact currentMailbox_keeps
  · intro session
    exact triple_modify fun st within => ⟨within, session, rfl⟩

theorem preconditions_collecting (compiles : ∀ p ∈ r.preconditions, (compile now p).outcome = .ok ())
    {E : Failure → State → Prop} :
    Triple (Collecting server now d m [])
      (collectEach r.preconditions (compileInto (family server o) now))
      (fun errors st => errors = [] ∧ Collecting server now d m (emitted now r.preconditions) st) E := by
  rintro st ⟨within, session, begun⟩
  have gathering : Gathering (fun h => Lawful server now d h ∧ Selected server m.name h)
      ⟨session, [], []⟩ [] st := ⟨within, begun⟩
  apply triple_weaken (preconditions_gathering [] compiles) (fun _ => id) _ (fun _ _ => id) st gathering
  rintro errors st' ⟨none, within, begun⟩
  exact ⟨none, within, session, by simpa using begun⟩

/-! The search and the copies -/

theorem searchFor_copied (session : Session) :
    Triple (Within server now d m) (session.searchFor server o (emitted now r.preconditions))
      (fun found st => Within server now d m st ∧ CopiedTo server now m r found [] st.commands)
      fun _ => Within server now d m := by
  have issued {before : List Command} {criteria : List Criterion} {charset : Option String}
      (holds : Lawful server now d before ∧ Selected server m.name before) :
      Lawful server now d (before ++ [.search criteria charset]) ∧
        Selected server m.name (before ++ [.search criteria charset]) :=
    ⟨lawful_snoc holds.1 trivial, selected_snoc rfl holds.2⟩
  intro st within
  apply triple_weaken (searchFor_asks server o session (emitted now r.preconditions) st.rule)
    (fun _ => id) _ _ st ⟨within, rfl⟩
  · rintro found st ⟨_, ⟨before, criteria, charset, holds, asks, accepted, commands⟩, rfl⟩
    rw [Within, OnCommands, commands]
    exact ⟨issued holds, copiedTo_search holds.2 asks accepted⟩
  · rintro failure st ⟨_, ⟨before, criteria, charset, holds, _, commands⟩ | ⟨within, _⟩⟩
    · rw [Within, OnCommands, commands]
      exact issued holds
    · exact within

theorem search_copying :
    Triple (Collecting server now d m (emitted now r.preconditions)) (search server o)
      (fun _ => Copying server now d m r []) fun _ => Within server now d m := by
  apply triple_bind (triple_currentRule fun st collecting => ⟨_, collecting.2.choose_spec⟩)
  intro current
  apply triple_bind (M := fun found st => Within server now d m st ∧
    CopiedTo server now m r found [] st.commands)
  · rintro st ⟨⟨within, session, same⟩, begun⟩
    cases same.symm.trans begun
    exact searchFor_copied session st within
  · intro found
    exact triple_modify fun st holds => ⟨holds.1, _, rfl, fun _ => holds.2⟩

theorem copied_of_copying {folders : List String} {st : State} {current : OpenRule}
    (copying : Copying server now d m r folders st) (begun : st.rule = some current) :
    Within server now d m st ∧
      (current.matched ≠ [] → CopiedTo server now m r current.matched folders st.commands) := by
  obtain ⟨within, other, same, copied⟩ := copying
  cases same.symm.trans begun
  exact ⟨within, copied⟩

theorem move_copying {a : Action} {front back : List String} {folder : String}
    (mover : MovesBy d m r a) (split : a.destinations = front ++ folder :: back) :
    Triple (Copying server now d m r front) (move server o folder)
      (fun _ => Copying server now d m r (front ++ [folder]))
      fun failure st => failure.Reported ∧ Within server now d m st := by
  apply triple_bind (triple_currentRule fun st copying => ⟨_, copying.2.choose_spec.1⟩)
  intro current
  by_cases found : current.matched = []
  · simp only [found, List.isEmpty_nil, Bool.not_true, Bool.false_eq_true, if_false]
    apply triple_pure
    rintro st ⟨⟨within, _⟩, begun⟩
    exact ⟨within, current, begun, fun some => (some found).elim⟩
  · simp only [List.isEmpty_eq_false_iff.mpr found, Bool.not_false, if_true]
    -- The copy is warranted whether or not the server goes on to accept it.
    have issued : ∀ st, Copying server now d m r front st ∧ st.rule = some current →
        Within server now d m (st.issued (.copy current.matched folder)) := by
      rintro st ⟨copying, begun⟩
      obtain ⟨within, copied⟩ := copied_of_copying copying begun
      exact within_issued rfl within (warranted_copy mover split found (copied found))
    apply triple_bind (M := fun _ => Copying server now d m r (front ++ [folder]))
    · apply triple_perform
      · intro st holds accepted
        have copied := (copied_of_copying holds.1 holds.2).2
        exact ⟨issued st holds, current, holds.2, fun _ => copiedTo_snoc (copied found) accepted⟩
      · exact fun st failure holds reported => ⟨reported, issued st holds⟩
    · intro _
      exact triple_note fun _ => id

theorem mark_within {a : Action} (mover : MovesBy d m r a) :
    Triple (Copying server now d m r a.destinations) (mark server o)
      (fun _ => Within server now d m) fun _ => Within server now d m := by
  apply triple_bind (triple_currentRule fun st copying => ⟨_, copying.2.choose_spec.1⟩)
  intro current
  by_cases found : current.matched = []
  · simp only [found, List.isEmpty_nil, Bool.not_true, Bool.false_eq_true, if_false]
    exact triple_pure fun st holds => holds.1.1
  · simp only [List.isEmpty_eq_false_iff.mpr found, Bool.not_false, if_true]
    have issued : ∀ st, Copying server now d m r a.destinations st ∧ st.rule = some current →
        Within server now d m (st.issued (.addFlags current.matched [deletedFlag] true)) := by
      rintro st ⟨copying, begun⟩
      obtain ⟨within, copied⟩ := copied_of_copying copying begun
      exact within_issued rfl within ⟨found, rfl, m, r, a, mover, copied found⟩
    apply triple_bind (M := fun _ => Within server now d m)
    · apply triple_perform
      · exact fun st holds _ => issued st holds
      · exact fun st _ holds _ => issued st holds
    · intro _
      exact triple_note fun _ => id

/-! The whole rule -/

def CopiesDone (server : Server) (now : Moment) (d : Document) (m : Mailbox) (r : Rule) (a : Action)
    (progress : Progress) (st : State) : Prop :=
  (progress = { moved := true } ∧ Copying server now d m r a.destinations st) ∨
    (progress.stopped = true ∧ Within server now d m st)

theorem copyEach_done {a : Action} {front : List String} {leaves : List Leaf}
    (mover : MovesBy d m r a) (split : a.destinations = front ++ leaves.map Leaf.text)
    (scalars : ∀ l ∈ leaves, l.isScalar = true) :
    Triple (Copying server now d m r front) (copyEach (family server o) [] leaves)
      (CopiesDone server now d m r a) fun _ => Within server now d m := by
  induction leaves generalizing front with
  | nil =>
    apply triple_pure
    intro st copying
    have all : a.destinations = front := by simpa using split
    exact Or.inl ⟨rfl, all ▸ copying⟩
  | cons l leaves ih =>
    have text := stringText_leaf moveKind l (scalars l List.mem_cons_self)
    have later : ∀ l' ∈ leaves, l'.isScalar = true := fun l' member =>
      scalars l' (List.mem_cons_of_mem l member)
    rw [copyEach, text]
    apply triple_bind (M := fun raised => raised.elim (Copying server now d m r (front ++ [l.text]))
      fun e st => e.Reported ∧ Within server now d m st)
    · apply triple_attempt
      apply triple_weaken (move_copying (o := o) mover split) (fun _ => id) (fun _ _ => id)
      intro failure st ended
      cases failure with
      | error e => exact ended
      | fault f => exact ended.2
    · intro raised
      cases raised with
      | none => exact ih (by simpa using split) later
      | some e =>
        apply triple_pure
        rintro st ⟨reported, within⟩
        -- An error that stands for none would not end the rule, so it matters that it is reported.
        refine Or.inr ⟨?_, within⟩
        simp [Error.flat_nonempty reported]

/-- As no two actions are of one kind and there is only one kind, a rule has at most one action. -/
theorem at_most_one_action (has : d.Has m r) (accepted : RuleAccepted now r)
    (distinct : DocumentReader.Distinct r.actions) :
    r.actions = [] ∨ ∃ a, MovesBy d m r a := by
  match same : r.actions with
  | [] => exact Or.inl rfl
  | [a] => exact Or.inr ⟨a, has, same, accepted.moves a (by simp [same])⟩
  | a :: b :: rest =>
    have first := (accepted.moves a (by simp [same])).1
    have second := (accepted.moves b (by simp [same])).1
    simp [DocumentReader.Distinct, same, first, second] at distinct

theorem perform_done {a : Action} (mover : MovesBy d m r a) :
    Triple (Copying server now d m r []) (Sweep.perform (family server o) {} [a])
      (CopiesDone server now d m r a) fun _ => Within server now d m := by
  rw [Sweep.perform, if_pos mover.moves.1]
  apply triple_bind (copyEach_done mover rfl mover.moves.2)
  intro progress
  split
  · exact triple_pure fun _ => id
  · exact triple_pure fun _ => id

theorem execute_within {a : Action} (mover : MovesBy d m r a) :
    Triple (Copying server now d m r []) (execute (family server o) [a])
      (fun _ => Within server now d m) fun _ => Within server now d m := by
  apply triple_bind (perform_done mover)
  intro progress
  extract_lets rest
  have raised (marking : List Error) : Keeps (Within server now d m) (rest marking) := keeps_raise _
  rintro st (⟨rfl, copying⟩ | ⟨stopped, within⟩)
  · exact triple_bind (triple_collected_alike (mark_within mover)) raised st copying
  · simpa [stopped] using raised [] st within

theorem rule_within (has : d.Has m r) (accepted : RuleAccepted now r)
    (distinct : DocumentReader.Distinct r.actions) :
    Keeps (Within server now d m) (do (family server o).newRule; rule (family server o) now r) := by
  apply triple_bind newRule_collecting
  intro _
  apply triple_bind (preconditions_collecting accepted.compiles)
  intro errors
  apply triple_bind (M := fun _ => Collecting server now d m (emitted now r.preconditions))
  · apply triple_raise
    · exact fun st holds _ => holds.2
    · exact fun st failure holds _ => holds.2.1
  · intro _
    apply triple_bind search_copying
    intro _
    rcases at_most_one_action has accepted distinct with none | ⟨a, mover⟩
    · rw [none]
      exact triple_weaken (keeps_raise []) (fun st copying => copying.1) (fun _ _ => id) fun _ _ => id
    · rw [mover.only]
      exact execute_within mover

theorem select_within :
    Triple (OnCommands (Lawful server now d)) ((family server o).select m.name)
      (fun _ => Within server now d m) fun _ => OnCommands (Lawful server now d) := by
  apply triple_bind currentMailbox_keeps
  intro session
  apply triple_bind (M := fun _ => Within server now d m)
  · apply triple_perform
    · intro st lawful accepted
      refine ⟨lawful_quiet rfl lawful, st.commands, [], rfl, accepted, ?_⟩
      simp
    · exact fun st _ lawful _ => lawful_quiet rfl lawful
  · intro _
    exact triple_note fun _ => id

/-- Every command of the live pass is warranted. -/
theorem pass_lawful (accepted : DocumentAccepted now d)
    (distinct : ∀ a ∈ d.accounts, ∀ m ∈ a.mailboxes, ∀ r ∈ m.rules,
      DocumentReader.Distinct r.actions) :
    Keeps (OnCommands (Lawful server now d)) (pass (family server o) now d) := by
  have quiet : ∀ h c, c.touchesMessages = false → Lawful server now d h →
      Lawful server now d (h ++ [c]) := fun _ _ => lawful_quiet
  apply pass_keeps
  · exact modify_keeps fun _ => rfl
  · exact fun a _ => connect_keeps quiet a.flags a.credentials
  · exact keeps_bind currentSession_keeps fun _ => modify_keeps fun _ => rfl
  · intro a inside m within
    apply mailbox_keeps (J := Within server now d m)
    · exact fun _ holds => holds.1
    · exact select_within
    · intro r member
      exact rule_within ⟨a, inside, within, member⟩ (accepted a inside m within r member)
        (distinct a inside m within r member)
    · exact keeps_bind currentMailbox_keeps fun session => closeFolder_keeps session fun h => quiet h _ rfl
  · exact logout_keeps (fun h => quiet h _ rfl) (fun h => quiet h _ rfl) fun h => quiet h _ rfl

end Steps

/-! Runs -/

def runCommands (server : Server) (o : Options) (component : String) (now : Moment) (d : Document) :
    List Command :=
  (run (family server o) (Family.idle Unit) component now d {} ()).live.commands

theorem runCommands_of_keeps {P : List Command → Prop} {server : Server} {o : Options} {component : String}
    {now : Moment} {d : Document} (start : P [])
    (keeps : ∀ st, pass (Family.idle Unit) now d () = (.ok [], st) →
      Keeps (OnCommands P) (pass (family server o) now d)) : P (runCommands server o component now d) := by
  unfold runCommands run
  dsimp only
  split
  · exact start
  · exact start
  · rename_i st passed
    have kept := keeps st passed {} start
    split <;> rename_i ended <;> rw [ended] at kept <;> exact kept

theorem run_lawful {text name : String} {d : Document} (parsed : Document.parse text name = .ok d)
    (server : Server) (o : Options) (component : String) (now : Moment) :
    Lawful server now d (runCommands server o component now d) :=
  runCommands_of_keeps lawful_nil fun _ passed =>
    pass_lawful (accepted_of_no_errors passed) (Document.parse_distinct parsed)

/-- Whatever a run flags is what the last search found. The search is that of one rule in the selected
mailbox, and the messages have been copied to every destination of its action and nothing else has
been done since. Where a copy is refused, nothing is copied or flagged before the next search. -/
theorem flagged_after_every_copy {text name : String} {d : Document}
    (parsed : Document.parse text name = .ok d) (server : Server) (o : Options)
    (component : String) (now : Moment) :
    (∀ before messages flags silent after,
      runCommands server o component now d = before ++ .addFlags messages flags silent :: after →
      messages ≠ [] ∧ flags = [deletedFlag] ∧ ∃ m r a, MovesBy d m r a ∧
        CopiedTo server now m r messages a.destinations before) ∧
    ∀ before messages folder between c after,
      runCommands server o component now d =
        before ++ .copy messages folder :: (between ++ c :: after) →
      server.refusal before (.copy messages folder) ≠ none →
      (∀ x ∈ between, x.isSearch = false) → c.touchesMessages = true → c.isSearch = true := by
  have lawful := run_lawful parsed server o component now
  constructor
  · intro before messages flags silent after split
    exact lawful before _ after split
  · intro before messages folder between c after split refused noSearch touches
    exact untouched_after_refused_copy lawful split refused noSearch touches

def noon : Moment := ⟨⟨2024, 3, 31⟩, 12, 0, 0, 0, some 0⟩

def copiesBoth : List Command :=
  [.dial "h" 993 true false, .saslLogin "EXTERNAL" [], .selectFolder "INBOX" false,
    .search [.text "ALL"] none, .copy [7] "A", .copy [7] "B"]

def searchesAgain : List Command :=
  copiesBoth ++ [.addFlags [7] [deletedFlag] true, .search [.text "ALL"] none]

def closing : List Command := [.closeFolder, .socket, .setTimeout (.zero false), .logout]

theorem twoRules_commands : runCommands findsOne plainOptions "live" noon twoRules =
    searchesAgain ++ .addFlags [7] [deletedFlag] true :: closing := by
  cbv

theorem twoRules_copied : ∃ m r a, MovesBy twoRules m r a ∧
    CopiedTo findsOne noon m r [7] a.destinations copiesBoth :=
  have flagged := (flagged_after_every_copy twoRules_parsed findsOne plainOptions "live" noon).1
  (flagged copiesBoth _ _ _ (.search [.text "ALL"] none :: .addFlags [7] [deletedFlag] true :: closing)
    (by simpa [searchesAgain] using twoRules_commands)).2.2

/-- Messages may be flagged without a copy: an action without destinations is as good as any other. -/
theorem flagged_without_copy : ¬ ∀ text name d, Document.parse text name = .ok d →
    ∀ server o component now before messages flags silent after,
      runCommands server o component now d = before ++ .addFlags messages flags silent :: after →
      CopiedSince server messages before := by
  intro always
  obtain ⟨before, criteria, charset, front, folder, back, whole, _, _, last⟩ :=
    always _ _ _ twoRules_parsed _ _ _ _ _ _ _ _ _ twoRules_commands
  have final : searchesAgain =
      (copiesBoth ++ [.addFlags [7] [deletedFlag] true]) ++ [.search [.text "ALL"] none] := by
    simp [searchesAgain]
  have same := last_search_unique (final.symm.trans whole) rfl rfl (by simp) last
  simp at same

/-- Flagged messages are those that the search of a rule found, and they have been copied since that
search exactly if the action of the rule has a destination. -/
theorem flagged_copied_iff_destination {text name : String} {d : Document}
    (parsed : Document.parse text name = .ok d) (server : Server) (o : Options)
    (component : String) (now : Moment) {before after : List Command} {messages : List Nat}
    {flags : List String} {silent : Bool}
    (split : runCommands server o component now d =
      before ++ .addFlags messages flags silent :: after) :
    ∃ m r a, MovesBy d m r a ∧ CopiedTo server now m r messages a.destinations before ∧
      (CopiedSince server messages before ↔ a.arguments ≠ []) := by
  obtain ⟨_, _, m, r, a, mover, copied⟩ := run_lawful parsed server o component now before _ after split
  refine ⟨m, r, a, mover, copied, ?_⟩
  rw [copiedSince_iff copied]
  simp [Action.destinations]

theorem twoRules_copied_iff : ∃ m r a, MovesBy twoRules m r a ∧
    CopiedTo findsOne noon m r [7] a.destinations searchesAgain ∧
    (CopiedSince findsOne [7] searchesAgain ↔ a.arguments ≠ []) :=
  flagged_copied_iff_destination twoRules_parsed findsOne plainOptions "live" noon twoRules_commands

end MailRules.Live
