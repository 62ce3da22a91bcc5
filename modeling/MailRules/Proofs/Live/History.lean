import MailRules.Proofs.Live.Session
import MailRules.Proofs.Sweep.Validation
/-!
Histories of commands in which every copy and every flag is warranted: it follows from the search of
one rule, in the mailbox of that rule, and from the copies after the search. What warrants a command
lies before it, so a history grows one command at a time.
-/
namespace MailRules

def Document.Has (d : Document) (m : Mailbox) (r : Rule) : Prop :=
  ∃ a ∈ d.accounts, m ∈ a.mailboxes ∧ r ∈ m.rules

def Action.destinations (a : Action) : List String := a.arguments.map Leaf.text

end MailRules
namespace MailRules.Live
open MailRules.Search MailRules.Sweep MailRules.Calendar

def Command.isSearch : Command → Bool
  | .search .. => true
  | _ => false

/-- The criteria ask for what the tokens write; no tokens ask for all messages. -/
def Asks (tokens : List Token) (criteria : List Criterion) : Prop :=
  match tokens with
  | [] => criteria = [.text "ALL"]
  | _ => nest tokens = .ok criteria

/-- The server accepts the commands, one after another, when they follow the history. -/
def Accepts (server : Server) (history : List Command) : List Command → Prop
  | [] => True
  | c :: rest => server.refusal history c = none ∧ Accepts server (history ++ [c]) rest

/-- The folder is the selected one: since it was, only messages have been touched. -/
def Selected (server : Server) (folder : String) (history : List Command) : Prop :=
  ∃ before since, history = before ++ .selectFolder folder false :: since ∧
    server.refusal before (.selectFolder folder false) = none ∧
    ∀ c ∈ since, c.touchesMessages = true

/-- The last search is the one of the rule, in its mailbox, and found the messages. Since then they
have been copied to each of the folders, in order, and no other command has been issued. -/
def CopiedTo (server : Server) (now : Moment) (m : Mailbox) (r : Rule) (messages : List Nat)
    (folders : List String) (history : List Command) : Prop :=
  ∃ before criteria charset,
    history = before ++ .search criteria charset :: folders.map (.copy messages) ∧
    Selected server m.name before ∧ Asks (emitted now r.preconditions) criteria ∧
    Accepts server before (.search criteria charset :: folders.map (.copy messages)) ∧
    messages = server.found (before ++ [.search criteria charset])

structure MovesBy (d : Document) (m : Mailbox) (r : Rule) (a : Action) : Prop where
  within : d.Has m r
  only : r.actions = [a]
  moves : Moves a

/-- What allows a command: messages are copied in the order of the destinations, and flagged when all
copies are made. -/
def Warranted (server : Server) (now : Moment) (d : Document) (history : List Command) :
    Command → Prop
  | .copy messages folder => messages ≠ [] ∧ ∃ m r a front back, MovesBy d m r a ∧
      a.destinations = front ++ folder :: back ∧ CopiedTo server now m r messages front history
  | .addFlags messages flags _ => messages ≠ [] ∧ flags = [deletedFlag] ∧
      ∃ m r a, MovesBy d m r a ∧ CopiedTo server now m r messages a.destinations history
  | _ => True

def Lawful (server : Server) (now : Moment) (d : Document) (history : List Command) : Prop :=
  ∀ before c after, history = before ++ c :: after → Warranted server now d before c

variable {server : Server} {now : Moment} {d : Document} {history : List Command} {c : Command}

theorem asks_of_nest {tokens : List Token} {criteria : List Criterion} (some : tokens ≠ [])
    (nested : nest tokens = .ok criteria) : Asks tokens criteria := by
  cases tokens with
  | nil => exact (some rfl).elim
  | cons t tokens => exact nested

theorem accepts_append (first second : List Command) :
    Accepts server history (first ++ second) ↔
      Accepts server history first ∧ Accepts server (history ++ first) second := by
  induction first generalizing history with
  | nil => simp [Accepts]
  | cons c first ih => simp [Accepts, ih, and_assoc]

theorem lawful_nil : Lawful server now d [] := by
  intro before c after split
  simp at split

theorem lawful_snoc (lawful : Lawful server now d history)
    (warranted : Warranted server now d history c) : Lawful server now d (history ++ [c]) := by
  intro before c' after split
  rcases List.eq_nil_or_concat after with rfl | ⟨after', last, rfl⟩
  · obtain ⟨rfl, same⟩ := List.append_inj' split rfl
    cases same
    exact warranted
  · have longer : history ++ [c] = (before ++ c' :: after') ++ [last] := by simpa using split
    exact lawful before c' after' (List.append_inj' longer rfl).1

theorem warranted_of_quiet (quiet : c.touchesMessages = false) :
    Warranted server now d history c := by
  cases c <;> trivial

theorem warranted_copy {m : Mailbox} {r : Rule} {a : Action} {messages : List Nat}
    {front back : List String} {folder : String} (mover : MovesBy d m r a)
    (split : a.destinations = front ++ folder :: back) (some : messages ≠ [])
    (copied : CopiedTo server now m r messages front history) :
    Warranted server now d history (.copy messages folder) :=
  ⟨some, m, r, a, front, back, mover, split, copied⟩

theorem lawful_quiet (quiet : c.touchesMessages = false) (lawful : Lawful server now d history) :
    Lawful server now d (history ++ [c]) := lawful_snoc lawful (warranted_of_quiet quiet)

theorem selected_snoc {folder : String} (touches : c.touchesMessages = true)
    (selected : Selected server folder history) : Selected server folder (history ++ [c]) := by
  obtain ⟨before, since, rfl, accepted, inside⟩ := selected
  refine ⟨before, since ++ [c], by simp, accepted, ?_⟩
  intro x member
  rcases List.mem_append.mp member with old | new
  · exact inside x old
  · rw [List.mem_singleton.mp new]
    exact touches

section Copies
variable {m : Mailbox} {r : Rule} {messages : List Nat} {folders : List String}

theorem copiedTo_search {criteria : List Criterion} {charset : Option String}
    (selected : Selected server m.name history) (asks : Asks (emitted now r.preconditions) criteria)
    (accepted : server.refusal history (.search criteria charset) = none) :
    CopiedTo server now m r (server.found (history ++ [.search criteria charset])) []
      (history ++ [.search criteria charset]) :=
  ⟨history, criteria, charset, rfl, selected, asks, ⟨accepted, trivial⟩, rfl⟩

theorem copiedTo_snoc {folder : String} (copied : CopiedTo server now m r messages folders history)
    (accepted : server.refusal history (.copy messages folder) = none) :
    CopiedTo server now m r messages (folders ++ [folder]) (history ++ [.copy messages folder]) := by
  obtain ⟨before, criteria, charset, rfl, selected, asks, sofar, found⟩ := copied
  refine ⟨before, criteria, charset, by simp, selected, asks, ?_, found⟩
  have more : Accepts server before
      ((.search criteria charset :: folders.map (.copy messages)) ++ [.copy messages folder]) :=
    (accepts_append _ _).mpr ⟨sofar, accepted, trivial⟩
  simpa using more

theorem accepted_since_search {after : List Command}
    (copied : CopiedTo server now m r messages folders (history ++ c :: after))
    (noSearch : ∀ x ∈ c :: after, x.isSearch = false) :
    server.refusal history c = none := by
  obtain ⟨before, criteria, charset, same, _, _, accepted, _⟩ := copied
  rcases List.append_eq_append_iff.mp same with ⟨as, _, inner⟩ | ⟨bs, outer, inner⟩
  · have member : Command.search criteria charset ∈ c :: after := by simp [inner]
    have clash := noSearch _ member
    cases clash
  · rw [inner, accepts_append] at accepted
    rw [outer]
    exact accepted.2.1

end Copies

/-- After a copy that the server refuses, no message is copied or flagged before the next search. -/
theorem untouched_after_refused_copy {commands before between after : List Command}
    {messages : List Nat} {folder : String} {c : Command} (lawful : Lawful server now d commands)
    (split : commands = before ++ .copy messages folder :: (between ++ c :: after))
    (refused : server.refusal before (.copy messages folder) ≠ none)
    (noSearch : ∀ x ∈ between, x.isSearch = false) (touches : c.touchesMessages = true) :
    c.isSearch = true := by
  have whole : commands = (before ++ .copy messages folder :: between) ++ c :: after := by
    simpa using split
  have warranted := lawful _ _ _ whole
  have noneSince : ∀ x ∈ Command.copy messages folder :: between, x.isSearch = false := by
    intro x member
    rcases List.mem_cons.mp member with rfl | inside
    · rfl
    · exact noSearch x inside
  cases c with
  | search criteria charset => rfl
  | copy others other =>
    obtain ⟨_, m, r, a, front, back, _, _, copied⟩ := warranted
    exact (refused (accepted_since_search copied noneSince)).elim
  | addFlags others flags silent =>
    obtain ⟨_, _, m, r, a, _, copied⟩ := warranted
    exact (refused (accepted_since_search copied noneSince)).elim
  | _ => cases touches

/-- Since the last search, the messages that it found have been copied at least once. -/
def CopiedSince (server : Server) (messages : List Nat) (history : List Command) : Prop :=
  ∃ before criteria charset front folder back,
    history = before ++ .search criteria charset :: (front ++ .copy messages folder :: back) ∧
    messages = server.found (before ++ [.search criteria charset]) ∧
    server.refusal (before ++ .search criteria charset :: front) (.copy messages folder) = none ∧
    ∀ c ∈ front ++ .copy messages folder :: back, c.isSearch = false

theorem copies_are_no_search (messages : List Nat) (folders : List String) :
    ∀ c ∈ folders.map (Command.copy messages), c.isSearch = false := by
  intro c member
  obtain ⟨folder, _, rfl⟩ := List.mem_map.mp member
  rfl

theorem last_search_unique {before before' since since' : List Command} {s s' : Command}
    (same : before ++ s :: since = before' ++ s' :: since') (search : s.isSearch = true)
    (search' : s'.isSearch = true) (last : ∀ c ∈ since, c.isSearch = false)
    (last' : ∀ c ∈ since', c.isSearch = false) : since = since' := by
  rcases List.append_eq_append_iff.mp same with ⟨more, _, rest⟩ | ⟨more, _, rest⟩
  · cases more with
    | nil =>
      cases rest
      rfl
    | cons x more =>
      have clash := last s' (by simp [(List.cons.inj rest).2])
      simp [search'] at clash
  · cases more with
    | nil =>
      cases rest
      rfl
    | cons x more =>
      have clash := last' s (by simp [(List.cons.inj rest).2])
      simp [search] at clash

theorem copiedSince_iff {m : Mailbox} {r : Rule} {messages : List Nat} {folders : List String}
    {history : List Command} (copied : CopiedTo server now m r messages folders history) :
    CopiedSince server messages history ↔ folders ≠ [] := by
  obtain ⟨before, criteria, charset, whole, _, _, accepted, found⟩ := copied
  constructor
  · rintro ⟨before', criteria', charset', front, folder, back, whole', _, _, last⟩ rfl
    have same := last_search_unique (whole.symm.trans whole') rfl rfl
      (copies_are_no_search messages []) last
    simp at same
  · intro some
    obtain ⟨folder, folders, rfl⟩ := List.exists_cons_of_ne_nil some
    refine ⟨before, criteria, charset, [], folder, folders.map (.copy messages), whole, found, ?_, ?_⟩
    · exact accepted.2.1
    · exact copies_are_no_search messages (folder :: folders)

end MailRules.Live
