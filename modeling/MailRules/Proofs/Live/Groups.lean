import MailRules.Proofs.Search.Groups
import MailRules.Proofs.Live.Operations
import MailRules.Proofs.Live.Search
/-!
The search of a rule that has lists of identifiers. What its preconditions leave can always be nested, so no
search fails before it is sent; it is sent in the groups of these lists, and no text opens or closes one.
-/
namespace MailRules.Sweep
open MailRules.Search MailRules.Calendar MailRules.Sweep.Step

variable {σ : Type} {f : Family σ} {now : Moment}

/-- By induction on the preconditions; only a fault keeps those after it from being compiled. -/
theorem collectEach_holds {Held : List Token → σ → Prop} (takes : f.TakesTokens) (holds : f.Holds Held)
    (ps : List Precondition) {tokens : List Token} {st : σ} (held : Held tokens st) :
    ∃ result st', collectEach ps (compileInto f now) st = (result, st') ∧
      Held (tokens ++ gathered now ps) st' := by
  induction ps generalizing tokens st with
  | nil => exact ⟨_, st, rfl, by simpa [gathered] using held⟩
  | cons p ps ih =>
    obtain ⟨next, taken, first⟩ := appendAll_holds holds (compile now p).tokens held
    have compiled : compileInto f now p st = ((compile now p).outcome, next) := by
      rw [compileInto_emit takes, emit, bind_apply, taken]
    have proceeds {errors : List Error}
        (gathers : gathered now (p :: ps) = (compile now p).tokens ++ gathered now ps)
        (ran : (compileInto f now p).collected st = (.ok errors, next)) :
        ∃ result st', collectEach (p :: ps) (compileInto f now) st = (result, st') ∧
          Held (tokens ++ gathered now (p :: ps)) st' := by
      obtain ⟨result, last, others, all⟩ := ih first
      refine ⟨result.map (errors ++ ·), last, ?_, by simpa [gathers] using all⟩
      rw [collectEach, bind_apply, ran]
      dsimp only
      rw [bind_apply, others]
      cases result <;> rfl
    rw [collected_apply, compiled] at proceeds
    cases outcome : (compile now p).outcome with
    | ok u => exact proceeds (gathered_cons (by simp [outcome]) ps) (by rw [outcome])
    | error failure =>
      cases failure with
      | error e => exact proceeds (gathered_cons (by simp [outcome]) ps) (by rw [outcome])
      | fault x =>
        refine ⟨.error (.fault x), next, ?_, by simpa [gathered, outcome] using first⟩
        rw [collectEach, bind_apply, collected_apply, compiled, outcome]

end MailRules.Sweep
namespace MailRules.Live
open MailRules.Search MailRules.Sweep MailRules.Sweep.Step MailRules.Calendar MailRules.Text

variable {server : Server} {o : Options} {s : Session} {h : List Command} {now : Moment}

theorem family_holds (P : List Command → Prop) (start : OpenRule) :
    (family server o).Holds (Gathering P start) := by
  intro t tokens st gathering
  have ended := append_gathering tokens t (E := fun _ _ => False) st gathering
  change ∃ st', append t st = _ ∧ _
  split at ended
  · rename_i u st' same
    exact ⟨st', same, ended⟩
  · exact ended.elim

def answered (server : Server) (s : Session) (h : List Command) (c : Command) : Except Failure (List Nat) :=
  match server.refusal h c with
  | none => .ok (server.found (h ++ [c]))
  | some r => .error (r.reported s "search")

theorem searchFor_sends {tokens : List Token} {criteria : List Criterion}
    (written : Operation.criteria tokens = .ok criteria) :
    Issues h (s.searchFor server o tokens) fun cs result =>
      cs = [.search criteria (Operation.charset tokens)] ∧
        result = answered server s h (.search criteria (Operation.charset tokens)) := by
  rw [searchFor_eq, written]
  apply issues_bind (M := fun cs r => cs = [] ∧ r = .ok criteria) (issues_outcome ⟨rfl, rfl⟩)
  · rintro cs failure ⟨_, ended⟩
    cases ended
  rintro cs sent ⟨rfl, ended⟩
  cases ended
  rw [List.append_nil]
  generalize Command.search criteria (Operation.charset tokens) = c
  cases answer : server.refusal h c with
  | none =>
    apply issues_bind (M := fun cs r => cs = [c] ∧ r = .ok ())
    · exact issues_perform (fun _ => ⟨rfl, rfl⟩) fun r refused => by cases answer.symm.trans refused
    · rintro cs failure ⟨_, ended⟩
      cases ended
    · rintro cs _ ⟨rfl, _⟩
      apply issues_get
      rintro st same
      refine issues_note (issues_outcome ⟨rfl, ?_⟩)
      simp [answered, answer, same]
  | some r =>
    apply issues_bind (M := fun cs ended => cs = [c] ∧ ended = .error (r.reported s "search"))
    · refine issues_perform (fun accepted => by cases answer.symm.trans accepted) fun r' refused => ?_
      cases answer.symm.trans refused
      exact ⟨rfl, rfl⟩
    · rintro cs failure ⟨rfl, ended⟩
      cases ended
      exact ⟨rfl, by simp [answered, answer]⟩
    · rintro cs _ ⟨_, ended⟩
      cases ended

/-- The criteria and the character set that a search for the tokens is sent with. -/
structure SentFor (tokens : List Token) (criteria : List Criterion) (charset : Option String) : Prop where
  all : tokens = [] → criteria = [.text "ALL"]
  written : tokens ≠ [] → nest tokens = .ok criteria ∧ Criterion.allWritten criteria = tokens
  unicode : charset = some "UTF-8" ↔ ∃ t ∈ tokens, ∃ c ∈ t.shown.toList, 0x80 ≤ c.toNat
  ascii : charset = none ↔ ∀ t ∈ tokens, ∀ c ∈ t.shown.toList, c.toNat < 0x80

theorem sentFor_of_written {tokens : List Token} {sent : List Criterion}
    (written : Operation.criteria tokens = .ok sent) : SentFor tokens sent (Operation.charset tokens) where
  all := by
    intro none
    rw [Operation.criteria, if_pos none] at written
    exact (Except.ok.inj written).symm
  written := by
    intro some
    rw [Operation.criteria, if_neg some] at written
    exact ⟨written, ((nest_ok_iff tokens sent).mp written).symm⟩
  unicode := by simp [Operation.charset, isAscii]
  ascii := by simp [Operation.charset, isAscii]

/-- What the preconditions of a rule leave in a collector is laid out in groups, each of them one of their lists
of identifiers, also where some of them fail. If none of them does, each list has its group, and the search for
these tokens is sent whatever its texts read like: it ends as its one command is answered. -/
theorem rule_searches_in_groups (now : Moment) (r : Rule) :
    ∃ lists criteria, Laid lists (gathered now r.preconditions) criteria ∧
      nest (gathered now r.preconditions) = .ok criteria ∧
      lists.Sublist (identifierLists (r.preconditions.flatMap Precondition.nodes)) ∧
      (∀ {σ : Type} (f : Family σ) (Held : List Token → σ → Prop), f.TakesTokens → f.Holds Held →
        ∀ tokens st, Held tokens st → ∃ result st',
          collectEach r.preconditions (compileInto f now) st = (result, st') ∧
            Held (tokens ++ gathered now r.preconditions) st') ∧
      ((∀ p ∈ r.preconditions, (compile now p).outcome = .ok ()) →
        lists = identifierLists (r.preconditions.flatMap Precondition.nodes) ∧
        ∃ sent charset, SentFor (gathered now r.preconditions) sent charset ∧
          ∀ (server : Server) (o : Options) (s : Session) (h : List Command),
            Issues h (s.searchFor server o (gathered now r.preconditions)) fun cs result =>
              cs = [.search sent charset] ∧ result = answered server s h (.search sent charset)) := by
  obtain ⟨lists, criteria, laid, among, all⟩ := gathered_laid now r.preconditions
  have nested : nest (gathered now r.preconditions) = .ok criteria := (nest_ok_iff _ _).mpr laid.written
  refine ⟨lists, criteria, laid, nested, among, ?_, ?_⟩
  · intro σ f Held takes holds tokens st held
    exact collectEach_holds takes holds r.preconditions held
  · intro accepted
    obtain ⟨sent, written⟩ : ∃ sent, Operation.criteria (gathered now r.preconditions) = .ok sent := by
      unfold Operation.criteria
      split
      · exact ⟨_, rfl⟩
      · exact ⟨criteria, nested⟩
    exact ⟨all accepted, sent, _, sentFor_of_written written, fun _ _ _ _ => searchFor_sends written⟩

def parentheses : Rule :=
  asking [oneOf [negated (fieldOf "UID" [")", "("]), fieldOf "SUBJECT" ["(é"]], fieldOf "UID" []]

def parenthesesTokens : List Token :=
  [.text "OR", .text "NOT", .opening, .text "UID", .text ")", .text "(", .closing, .text "SUBJECT", .text "(é",
    .opening, .text "UID", .closing]

theorem parentheses_searched_for :
    (∃ result st', collectEach parentheses.preconditions (compileInto (family findsOne plainOptions) newYear)
        begunRule = (result, st') ∧ st'.rule = some ⟨⟨"h"⟩, parenthesesTokens, []⟩) ∧
      Issues [] (Session.searchFor ⟨"h"⟩ findsOne plainOptions parenthesesTokens) fun cs result =>
        cs = [.search [.text "OR", .text "NOT", .group [.text "UID", .text ")", .text "("], .text "SUBJECT",
          .text "(é", .group [.text "UID"]] (some "UTF-8")] ∧ result = .ok [7] := by
  have tokens : gathered newYear parentheses.preconditions = parenthesesTokens := rfl
  have accepted : ∀ p ∈ parentheses.preconditions, (compile newYear p).outcome = .ok () := by
    intro p member
    rcases List.mem_cons.mp member with rfl | member
    · rfl
    · rw [List.mem_singleton.mp member]
      rfl
  have searches := rule_searches_in_groups newYear parentheses
  rw [tokens] at searches
  obtain ⟨lists, criteria, laid, nested, among, collects, sends⟩ := searches
  refine ⟨?_, ?_⟩
  · have held : Gathering (fun _ => True) ⟨⟨"h"⟩, [], []⟩ [] begunRule := ⟨trivial, rfl⟩
    obtain ⟨result, st', ended, holds⟩ := collects _ _ append_takes (family_holds _ _) [] begunRule held
    exact ⟨result, st', ended, holds.2⟩
  · obtain ⟨_, sent, charset, sentFor, issues⟩ := sends accepted
    apply issues_weaken (issues findsOne plainOptions ⟨"h"⟩ [])
    rintro cs result ⟨rfl, rfl⟩
    have written := (sentFor.written (by simp [parenthesesTokens])).1
    cases written
    have unicode : charset = some "UTF-8" := sentFor.unicode.mpr (by simp [parenthesesTokens, Token.shown])
    subst unicode
    exact ⟨rfl, rfl⟩

/-- A search without tokens is sent with a criterion that no token writes. -/
theorem all_sent_for_no_tokens : ¬ ∀ (now : Moment) (r : Rule),
    (∀ p ∈ r.preconditions, (compile now p).outcome = .ok ()) →
    ∀ (server : Server) (o : Options) (s : Session) (h : List Command),
      Issues h (s.searchFor server o (gathered now r.preconditions)) fun cs _ =>
        ∃ sent charset, cs = [.search sent charset] ∧
          Criterion.allWritten sent = gathered now r.preconditions := by
  intro always
  have accepted : ∀ p ∈ (asking []).preconditions, (compile newYear p).outcome = .ok () := by simp [asking]
  obtain ⟨cs, log, issued, sent, charset, rfl, written⟩ :=
    always newYear (asking []) accepted findsOne plainOptions ⟨"h"⟩ [] {} rfl
  have searched : (Session.searchFor ⟨"h"⟩ findsOne plainOptions [] {}).2.commands =
      [.search [.text "ALL"] none] := rfl
  have same := (congrArg State.commands issued).symm.trans searched
  cases same
  cases written

end MailRules.Live
