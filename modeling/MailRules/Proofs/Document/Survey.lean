import MailRules.Document.Reader
import MailRules.Proofs.Yaml.Parts
import Mathlib.Data.List.Basic
/-!
What can be followed through the reader of documents. A document is read by looking at nodes, by building
values and by refusing what is wrong; what holds of these, and is kept where one reading follows another,
holds of every part of a document.
-/
namespace MailRules.DocumentReader
open MailRules.Yaml

/-- Something that can be said of readings, together with what they give. It is said of looking at the
nodes that are known, and of whatever is read below the nodes that are clear. -/
structure Survey where
  Holds : ∀ {α : Type}, (α → Prop) → DocumentReader α → Prop
  known : NodeId → Prop
  clear : NodeId → Prop
  /-- What is known of a node that has been looked at. -/
  Seen : NodeId → Node → Prop
  known_of_clear : ∀ {i}, clear i → known i
  clear_below : ∀ {i n}, clear i → Seen i n → ∀ j ∈ n.body.parts, clear j
  pure : ∀ {α : Type} {P : α → Prop} {a : α}, P a → Holds P (pure a)
  bind : ∀ {α β : Type} {P : α → Prop} {Q : β → Prop} {m : DocumentReader α}
    {next : α → DocumentReader β}, Holds P m → (∀ a, P a → Holds Q (next a)) → Holds Q (m >>= next)
  error : ∀ {α : Type} {P : α → Prop} (flaw : Flaw) (location : Option Location),
    Holds P (throw (.error (.document flaw location)) : DocumentReader α)
  endless : ∀ {α : Type} {P : α → Prop}, Holds P (throw (.fault .endlessNesting) : DocumentReader α)
  nodeAt : ∀ {i}, known i → Holds (Seen i) (nodeAt i)
  locationOf : ∀ n, Holds (fun _ => True) (locationOf n)
  /-- Of the builder itself no more is looked at than how many nodes there are. -/
  size : ∀ {β : Type} {Q : β → Prop} {next : Builder → DocumentReader β},
    (∀ b b', b.graph.size = b'.graph.size → next b = next b') → (∀ b, Holds Q (next b)) →
      Holds Q (get >>= next)
  datum : ∀ {i}, clear i → Holds (fun _ => True) (datum i)
  leaf : ∀ {i}, clear i → Holds (fun _ => True) (leaf i)

namespace Survey

variable (S : Survey)

abbrev Plain {α : Type} (m : DocumentReader α) : Prop := S.Holds (fun _ => True) m

section Rules
variable {α β : Type} {P Q : α → Prop} {R : β → Prop}

theorem weaken {m : DocumentReader α} (strong : S.Holds P m) (weaker : ∀ a, P a → Q a) :
    S.Holds Q m := by
  rw [← bind_pure m]
  exact S.bind strong fun a holds => S.pure (weaker a holds)

theorem when {condition : Prop} [Decidable condition] {m : DocumentReader PUnit}
    {next : PUnit → DocumentReader β} (first : S.Plain m) (later : ∀ u, S.Holds R (next u)) :
    S.Holds R (if condition then m >>= next else next ⟨⟩) := by
  split
  · exact S.bind first fun u _ => later u
  · exact later ⟨⟩

theorem mapM {step : α → DocumentReader β} {as : List α} (each : ∀ a ∈ as, S.Holds R (step a)) :
    S.Holds (fun bs => bs.length = as.length) (as.mapM step) := by
  induction as with
  | nil => exact S.pure rfl
  | cons a as ih =>
    rw [List.mapM_cons]
    refine S.bind (each a List.mem_cons_self) fun b _ => ?_
    refine S.bind (ih fun a member => each a (List.mem_cons_of_mem _ member)) fun bs length => ?_
    exact S.pure (by simp [length])

theorem locate {i : NodeId} (known : S.known i) : S.Plain (locate i) :=
  S.bind (S.nodeAt known) fun n _ => S.locationOf n

theorem refuse {i : NodeId} (known : S.known i) (flaw : Flaw) :
    S.Holds P (refuse flaw i : DocumentReader α) :=
  S.bind (S.locate known) fun _ _ => S.error flaw _

end Rules

/-! Entries, items and texts -/

def FoundIn (es : List (NodeId × NodeId)) (f : String × NodeId) : Prop :=
  ∃ x n style, (x, f.2) ∈ es ∧ S.Seen x n ∧ n.body = .scalar f.1 style

theorem mem_of_lookup {found : List (String × NodeId)} {key : String} {j : NodeId}
    (there : found.lookup key = some j) : (key, j) ∈ found := by
  obtain ⟨before, after, rfl, -⟩ := List.lookup_eq_some_iff.mp there
  simp

theorem entriesFrom (part : String) (allowed : List String) {es : List (NodeId × NodeId)}
    (keys : ∀ e ∈ es, S.known e.1) : ∀ {done : List (String × NodeId)},
    S.Holds (fun found => ∀ f ∈ found, f ∈ done ∨ S.FoundIn es f)
      (entriesFrom part allowed done es) := by
  induction es with
  | nil => exact S.pure fun f member => .inl (List.mem_reverse.mp member)
  | cons e es ih =>
    intro done
    have known := keys e List.mem_cons_self
    refine S.bind (S.nodeAt known) fun n seen => ?_
    split
    · rename_i key style body
      refine S.when (S.refuse known _) fun _ => ?_
      refine S.when (S.refuse known _) fun _ => ?_
      refine S.weaken (ih fun e member => keys e (List.mem_cons_of_mem _ member)) ?_
      intro found each f member
      rcases each f member with before | ⟨x, n, style, entry, spelled⟩
      · rcases List.mem_cons.mp before with rfl | earlier
        · exact .inr ⟨e.1, n, style, List.mem_cons_self, seen, body⟩
        · exact .inl earlier
      · exact .inr ⟨x, n, style, List.mem_cons_of_mem _ entry, spelled⟩
    · exact S.refuse known _

theorem entries (part : String) (allowed : List String) {i : NodeId} (known : S.known i)
    (keys : ∀ n, S.Seen i n → ∀ e ∈ n.body.entries, S.known e.1) :
    S.Holds (fun found => ∃ n, S.Seen i n ∧ ∀ f ∈ found, S.FoundIn n.body.entries f)
      (entries part allowed i) := by
  refine S.bind (S.nodeAt known) fun n seen => ?_
  split
  · rename_i es inFlow body
    have keysKnown := keys n seen
    rw [body] at keysKnown
    refine S.weaken (S.entriesFrom part allowed keysKnown) fun found each => ⟨n, seen, ?_⟩
    intro f member
    rw [body]
    exact (each f member).resolve_left List.not_mem_nil
  · exact S.refuse known _

theorem entries_clear (part : String) (allowed : List String) {i : NodeId} (clear : S.clear i) :
    S.Holds (fun found => ∀ key j, found.lookup key = some j → S.clear j)
      (DocumentReader.entries part allowed i) := by
  have below : ∀ n, S.Seen i n → ∀ e ∈ n.body.entries, S.clear e.1 ∧ S.clear e.2 :=
    fun n seen e entry => ⟨S.clear_below clear seen _ (NodeBody.mem_parts_of_entry entry).1,
      S.clear_below clear seen _ (NodeBody.mem_parts_of_entry entry).2⟩
  have keys : ∀ n, S.Seen i n → ∀ e ∈ n.body.entries, S.known e.1 := fun n seen e entry =>
    S.known_of_clear (below n seen e entry).1
  refine S.weaken (S.entries part allowed (S.known_of_clear clear) keys) ?_
  rintro found ⟨n, seen, each⟩ key j there
  obtain ⟨x, _, _, entry, -⟩ := each _ (mem_of_lookup there)
  exact (below n seen _ entry).2

theorem items (part : String) {i? : Option NodeId} (known : ∀ i ∈ i?, S.known i) :
    S.Holds (fun is => is = [] ∨ ∃ i ∈ i?, ∃ n, S.Seen i n ∧ is = n.body.items) (items part i?) := by
  cases i? with
  | none => exact S.pure (.inl rfl)
  | some i =>
    have here := known i rfl
    refine S.bind (S.nodeAt here) fun n seen => ?_
    split
    · rename_i is inFlow body
      exact S.pure (.inr ⟨i, rfl, n, seen, by rw [body]; rfl⟩)
    · split
      · exact S.pure (.inl rfl)
      · exact S.refuse here _

theorem items_clear (part : String) {i? : Option NodeId} (clear : ∀ i ∈ i?, S.clear i) :
    S.Holds (fun is => ∀ j ∈ is, S.clear j) (DocumentReader.items part i?) := by
  refine S.weaken (S.items part fun i given => S.known_of_clear (clear i given)) ?_
  rintro is (rfl | ⟨i, given, n, seen, rfl⟩) j member
  · exact absurd member List.not_mem_nil
  · exact S.clear_below (clear i given) seen j (NodeBody.mem_parts_of_item member)

theorem text (part : String) {i? : Option NodeId} (known : ∀ i ∈ i?, S.known i) :
    S.Plain (text? part i?) := by
  cases i? with
  | none => exact S.pure trivial
  | some i =>
    have here := known i rfl
    refine S.bind (S.nodeAt here) fun n _ => ?_
    split
    · exact S.pure trivial
    · split
      · exact S.pure trivial
      · exact S.refuse here _

theorem requiredText (part : String) (flaw : Flaw) {i : NodeId} (known : S.known i)
    {i? : Option NodeId} (given : ∀ i ∈ i?, S.known i) : S.Plain (requiredText part flaw i i?) := by
  refine S.bind (S.text part given) fun found _ => ?_
  split
  · split
    · exact S.refuse known _
    · exact S.pure trivial
  · exact S.refuse known _

/-! Parts of a document -/

theorem precondition (fuel : Nat) : ∀ {i}, S.clear i → S.Plain (precondition i fuel) := by
  induction fuel with
  | zero => exact fun _ => S.endless
  | succ fuel ih =>
    intro i clear
    have known := S.known_of_clear clear
    refine S.bind (S.entries_clear _ _ clear) fun es below => ?_
    refine S.bind (S.requiredText _ _ known fun j given =>
      S.known_of_clear (below _ j given)) fun field _ => ?_
    refine S.bind (S.items_clear _ (below _)) fun values clearValues => ?_
    refine S.bind (S.mapM (R := fun _ => True) fun j member => ?_) fun operands _ => ?_
    · refine S.bind (S.nodeAt (S.known_of_clear (clearValues j member))) fun n _ => ?_
      split
      · exact S.bind (ih (clearValues j member)) fun _ _ => S.pure trivial
      · exact S.bind (S.leaf (clearValues j member)) fun _ _ => S.pure trivial
    · exact S.bind (S.locate known) fun _ _ => S.pure trivial

theorem action {entry : NodeId × NodeId} (key : S.clear entry.1) (value : S.clear entry.2) :
    S.Plain (action entry) := by
  have known := S.known_of_clear key
  refine S.bind (S.text _ (by simpa using known)) fun kind? _ => ?_
  split
  · exact S.refuse known _
  · refine S.bind (S.items_clear _ (by simpa using value)) fun nodes clearNodes => ?_
    refine S.bind (S.mapM fun j member => S.leaf (clearNodes j member)) fun arguments _ => ?_
    exact S.bind (S.locate known) fun _ _ => S.pure trivial

theorem actions {i? : Option NodeId} (clear : ∀ i ∈ i?, S.clear i) : S.Plain (actions i?) := by
  cases i? with
  | none => exact S.pure trivial
  | some i =>
    have here := S.known_of_clear (clear i rfl)
    refine S.bind (S.nodeAt here) fun n seen => ?_
    split
    · exact S.pure trivial
    · split
      · rename_i es inFlow body
        have below := S.clear_below (clear i rfl) seen
        have each : ∀ e ∈ es, S.Plain (DocumentReader.action e) := by
          intro e member
          have entry : e ∈ n.body.entries := by rwa [body]
          exact S.action (below _ (NodeBody.mem_parts_of_entry entry).1)
            (below _ (NodeBody.mem_parts_of_entry entry).2)
        refine S.bind (S.mapM each) fun actions _ => ?_
        split
        · exact S.error _ _
        · exact S.pure trivial
      · exact S.refuse here _

theorem rule {i : NodeId} (clear : S.clear i) : S.Plain (rule i) := by
  refine S.bind (S.entries_clear _ _ clear) fun es below => ?_
  refine S.size (fun _ _ same => by simp only [same]) fun b => ?_
  refine S.bind (S.items_clear _ (below _)) fun nodes clearNodes => ?_
  refine S.bind (S.mapM fun j member => S.precondition _ (clearNodes j member)) fun _ _ => ?_
  refine S.bind (S.actions (below _)) fun actions _ => ?_
  exact S.bind (S.locate (S.known_of_clear clear)) fun _ _ => S.pure trivial

theorem mailbox {i : NodeId} (clear : S.clear i) : S.Plain (mailbox i) := by
  have known := S.known_of_clear clear
  refine S.bind (S.entries_clear _ _ clear) fun es below => ?_
  refine S.bind (S.requiredText _ _ known fun j given =>
    S.known_of_clear (below _ j given)) fun name _ => ?_
  refine S.bind (S.items_clear _ (below _)) fun nodes clearNodes => ?_
  refine S.bind (S.mapM fun j member => S.rule (clearNodes j member)) fun rules _ => ?_
  exact S.bind (S.locate known) fun _ _ => S.pure trivial

theorem flagData {es : List (String × NodeId)} {flags : List Flag}
    (clear : ∀ flag ∈ flags, ∀ j, es.lookup flag.key = some j → S.clear j) :
    S.Plain (flagData es flags) := by
  induction flags with
  | nil => exact S.pure trivial
  | cons flag rest ih =>
    have later := ih fun flag member => clear flag (List.mem_cons_of_mem _ member)
    unfold DocumentReader.flagData
    split
    · exact later
    · rename_i j given
      have here := clear flag List.mem_cons_self j given
      refine S.bind (S.nodeAt (S.known_of_clear here)) fun n _ => ?_
      split
      · exact later
      · refine S.bind (S.datum here) fun d _ => ?_
        exact S.bind later fun _ _ => S.pure trivial

theorem account {i : NodeId} (clear : S.clear i) : S.Plain (account i) := by
  have known := S.known_of_clear clear
  refine S.bind (S.entries_clear _ _ clear) fun es below => ?_
  have given : ∀ key, ∀ j ∈ es.lookup key, S.known j := fun key j there =>
    S.known_of_clear (below key j there)
  refine S.bind (S.requiredText _ _ known (given _)) fun host _ => ?_
  refine S.bind (S.flagData fun flag _ => below flag.key) fun flags _ => ?_
  refine S.bind (S.text _ (given _)) fun username _ => ?_
  refine S.bind (S.text _ (given _)) fun password _ => ?_
  refine S.bind (S.text _ (given _)) fun identity _ => ?_
  refine S.bind (S.items_clear _ (below _)) fun nodes clearNodes => ?_
  refine S.bind (S.mapM fun j member => S.mailbox (clearNodes j member)) fun mailboxes _ => ?_
  split
  · exact S.refuse known _
  · exact S.bind (S.locate known) fun _ _ => S.pure trivial

end Survey
end MailRules.DocumentReader
