import MailRules.Proofs.Yaml.Nesting
import MailRules.Proofs.Document.Survey
/-!
The nodes that the reader of documents visits, in their order. A mapping is visited as a part of the
document and shows the entries that it has at that time; other nodes are visited for their values. Only
the visits for values change the graph, so what a mapping shows depends on the values visited before it.
-/
namespace MailRules
open MailRules.Yaml

namespace Yaml.Graph

def textOf? (g : Graph) (k : NodeId) : Option String :=
  match (g.node k).body with
  | .scalar text _ => some text
  | _ => none

def named (g : Graph) (shown : List (NodeId × NodeId)) : List (String × NodeId) :=
  shown.filterMap fun e => (g.textOf? e.1).map (·, e.2)

def Conforms (g : Graph) (keys : List String) (shown : List (NodeId × NodeId)) : Prop :=
  ∃ texts : List String, shown.map (fun e => g.textOf? e.1) = texts.map some ∧ texts ⊆ keys ∧ texts.Nodup

def itemsOf (g : Graph) (i? : Option NodeId) : List NodeId := i?.elim [] fun i => (g.node i).body.items

def given (g : Graph) (i? : Option NodeId) : List NodeId :=
  (i?.filter fun i => !DocumentReader.isNull (g.node i)).toList

theorem given_null {g : Graph} {i : NodeId} (null : DocumentReader.isNull (g.node i) = true) :
    g.given (some i) = [] := by
  simp [given, Option.filter, null]

theorem given_some {g : Graph} {i : NodeId} (there : ¬DocumentReader.isNull (g.node i) = true) :
    g.given (some i) = [i] := by
  simp [given, Option.filter, there]

theorem Conforms.sublist {g : Graph} {keys : List String} {few many : List (NodeId × NodeId)}
    (conforms : g.Conforms keys many) (sub : few.Sublist many) : g.Conforms keys few := by
  obtain ⟨texts, same, within, nodup⟩ := conforms
  have part := sub.map fun e => g.textOf? e.1
  rw [same] at part
  obtain ⟨fewTexts, fewer, equal⟩ := List.sublist_map_iff.mp part
  exact ⟨fewTexts, equal, fun _ member => within (fewer.subset member), nodup.sublist fewer⟩

def NestStep (g : Graph) (i j : NodeId) : Prop :=
  ∃ k v, g.EntryOf i (k, v) ∧ g.textOf? k = some "values" ∧ j ∈ (g.node v).body.items ∧
    Build.isMapping (g.node j) = true

/-- Preconditions hold themselves, or default values lead around in a circle. -/
def Endless (g : Graph) : Prop := (∃ i, Relation.TransGen g.NestStep i i) ∨ g.EndlessText

/-- The second node is a precondition among the values that the first has itself, beside no merge key. -/
def NestsIn (g : Graph) (i j : NodeId) : Prop :=
  ¬g.HasMerge i ∧ j ∈ g.itemsOf ((g.named (g.node i).body.entries).lookup "values") ∧
    Build.isMapping (g.node j) = true

theorem NestStep.inside {g : Graph} (i j : NodeId) (step : g.NestStep i j) : i < g.size := by
  obtain ⟨k, v, entry, -⟩ := step
  exact entry.inside

end Yaml.Graph

namespace DocumentReader

inductive Level
  | document
  | server
  | mailbox
  | rule
  | precondition
  | action
  deriving DecidableEq

/-- The keys that a mapping may have; those of an action are the kinds of actions, which may be any. -/
def Level.keys? : Level → Option (List String)
  | document => some ["servers"]
  | server => some accountKeys
  | mailbox => some ["name", "rules"]
  | rule => some ["preconditions", "action"]
  | precondition => some ["field", "values"]
  | action => none

inductive Subject
  | part (level : Level) (i : NodeId)
  | value (i : NodeId)

inductive Visit
  | part (level : Level) (i : NodeId) (shown : List (NodeId × NodeId))
  | value (i : NodeId)

def Visit.subject : Visit → Subject
  | part level i _ => .part level i
  | value i => .value i

def operand (g : Graph) (j : NodeId) : Subject :=
  if Build.isMapping (g.node j) then .part .precondition j else .value j

def below (g : Graph) (level : Level) (shown : List (NodeId × NodeId)) : List Subject :=
  let under (key : String) : Option NodeId := (g.named shown).lookup key
  match level with
  | .document => (g.itemsOf (under "servers")).map (.part .server)
  | .server => (Flag.all.flatMap fun flag => g.given (under flag.key)).map .value ++
      (g.itemsOf (under "mailboxes")).map (.part .mailbox)
  | .mailbox => (g.itemsOf (under "rules")).map (.part .rule)
  | .rule => (g.itemsOf (under "preconditions")).map (.part .precondition) ++
      (g.given (under "action")).map (.part .action)
  | .precondition => (g.itemsOf (under "values")).map (operand g)
  | .action => shown.flatMap fun e => (g.itemsOf (some e.2)).map .value

def Visit.below (g : Graph) : Visit → List Subject
  | part level _ shown => DocumentReader.below g level shown
  | value _ => []

def LedBy (g : Graph) (past : List Visit) (i : NodeId) : Prop :=
  ∃ v, .value v ∈ past ∧ Relation.ReflTransGen (fun i j => j ∈ g.below i) v i

/-- The mapping shows what is left of its entries after the visits before, and only keys that it may
have. -/
def Fits (g : Graph) (past : List Visit) : Visit → Prop
  | .part level i shown => (∃ n, g.Rework (LedBy g past) i n ∧ shown = n.body.entries) ∧
      ∀ keys, level.keys? = some keys → g.Conforms keys shown
  | .value _ => True

/-- Every visit is as it may be after those before it. -/
def Faithful (g : Graph) (past visits : List Visit) : Prop :=
  ∀ before visit after, visits = before ++ visit :: after → Fits g (past ++ before) visit

def Settles (g : Graph) (visit : Visit) : Prop :=
  ∀ i, visit.subject = .part .precondition i → Acc (fun j i => g.NestsIn i j) i

/-- The subjects are visited, and what is below each one visited, and nothing else. -/
structure Covers (g : Graph) (subjects : List Subject) (visits : List Visit) : Prop where
  visited : ∀ s ∈ subjects, ∃ v ∈ visits, v.subject = s
  closed : ∀ v ∈ visits, ∀ s ∈ v.below g, ∃ w ∈ visits, w.subject = s
  parent : ∀ v ∈ visits, v.subject ∈ subjects ∨ ∃ w ∈ visits, v.subject ∈ w.below g
  settled : ∀ v ∈ visits, Settles g v

section Lists
variable {g : Graph} {past visits visits' : List Visit} {subjects subjects' : List Subject}

theorem ledBy_mono {i : NodeId} (more : past ⊆ visits) (led : LedBy g past i) : LedBy g visits i := by
  obtain ⟨v, member, leads⟩ := led
  exact ⟨v, more member, leads⟩

theorem ledBy_closed (i : NodeId) (led : LedBy g past i) : ∀ j ∈ g.below i, LedBy g past j := by
  obtain ⟨v, member, leads⟩ := led
  exact fun j part => ⟨v, member, leads.tail part⟩

theorem faithful_nil (g : Graph) (past : List Visit) : Faithful g past [] := by
  intro before visit after split
  simp at split

theorem faithful_singleton {visit : Visit} (fits : Fits g past visit) : Faithful g past [visit] := by
  intro before other after split
  obtain ⟨rfl, rfl, -⟩ : before = [] ∧ other = visit ∧ after = [] := by
    cases before with
    | nil => simpa [eq_comm] using split
    | cons v before => simp at split
  simpa using fits

theorem faithful_append (first : Faithful g past visits) (second : Faithful g (past ++ visits) visits') :
    Faithful g past (visits ++ visits') := by
  intro before visit after split
  rcases List.append_eq_append_iff.mp split with ⟨rest, whole, found⟩ | ⟨rest, whole, found⟩
  · rw [whole, ← List.append_assoc]
    exact second rest visit after found
  · cases rest with
    | nil =>
      rw [List.append_nil] at whole
      rw [← whole, ← List.append_nil (past ++ visits)]
      exact second [] visit after (by simpa using found.symm)
    | cons v rest =>
      obtain ⟨rfl, -⟩ := List.cons.inj found
      exact first before visit rest whole

theorem covers_nil (g : Graph) : Covers g [] [] := ⟨by simp, by simp, by simp, by simp⟩

theorem covers_append (first : Covers g subjects visits) (second : Covers g subjects' visits') :
    Covers g (subjects ++ subjects') (visits ++ visits') := by
  refine ⟨fun s member => ?_, fun v member s part => ?_, fun v member => ?_, fun v member => ?_⟩
  · rcases List.mem_append.mp member with left | right
    · obtain ⟨v, among, same⟩ := first.visited s left
      exact ⟨v, List.mem_append_left _ among, same⟩
    · obtain ⟨v, among, same⟩ := second.visited s right
      exact ⟨v, List.mem_append_right _ among, same⟩
  · rcases List.mem_append.mp member with left | right
    · obtain ⟨w, among, same⟩ := first.closed v left s part
      exact ⟨w, List.mem_append_left _ among, same⟩
    · obtain ⟨w, among, same⟩ := second.closed v right s part
      exact ⟨w, List.mem_append_right _ among, same⟩
  · rcases List.mem_append.mp member with left | right
    · rcases first.parent v left with top | ⟨w, among, part⟩
      · exact .inl (List.mem_append_left _ top)
      · exact .inr ⟨w, List.mem_append_left _ among, part⟩
    · rcases second.parent v right with top | ⟨w, among, part⟩
      · exact .inl (List.mem_append_right _ top)
      · exact .inr ⟨w, List.mem_append_right _ among, part⟩
  · exact (List.mem_append.mp member).elim (first.settled v) (second.settled v)

theorem covers_cons {visit : Visit} (rest : Covers g (visit.below g) visits)
    (settles : Settles g visit) : Covers g [visit.subject] (visit :: visits) := by
  refine ⟨fun s member => ?_, fun v member s part => ?_, fun v member => ?_,
    List.forall_mem_cons.mpr ⟨settles, rest.settled⟩⟩
  · obtain rfl := List.mem_singleton.mp member
    exact ⟨visit, List.mem_cons_self, rfl⟩
  · have visited : ∃ w ∈ visits, w.subject = s := by
      rcases List.mem_cons.mp member with rfl | later
      · exact rest.visited s part
      · exact rest.closed v later s part
    obtain ⟨w, among, same⟩ := visited
    exact ⟨w, List.mem_cons_of_mem _ among, same⟩
  · rcases List.mem_cons.mp member with rfl | later
    · exact .inl (List.mem_singleton_self _)
    · rcases rest.parent v later with top | ⟨w, among, part⟩
      · exact .inr ⟨visit, List.mem_cons_self, top⟩
      · exact .inr ⟨w, List.mem_cons_of_mem _ among, part⟩

theorem covers_value (i : NodeId) : Covers g [.value i] [.value i] := by
  have nothing : Covers g ((Visit.value i).below g) [] := covers_nil g
  exact covers_cons nothing nofun

theorem covers_part (level : Level) (other : level ≠ .precondition) (i : NodeId)
    {shown : List (NodeId × NodeId)} (rest : Covers g (below g level shown) visits) :
    Covers g [.part level i] (.part level i shown :: visits) := by
  have below : Covers g ((Visit.part level i shown).below g) visits := rest
  exact covers_cons below fun j same => absurd (Subject.part.inj same).1 other

theorem settles_of_covers {i : NodeId} {n : Node} (rework : g.Rework (fun _ => True) i n)
    (rest : Covers g (below g .precondition n.body.entries) visits) :
    Settles g (.part .precondition i n.body.entries) := by
  intro j same
  obtain rfl := (Subject.part.inj same).2
  refine .intro i fun j nests => ?_
  obtain ⟨noMerge, item, isMapping⟩ := nests
  rw [← rework.body_of_untouched (.inl noMerge)] at item
  have listed : Subject.part .precondition j ∈ below g .precondition n.body.entries :=
    List.mem_map.mpr ⟨j, item, if_pos isMapping⟩
  obtain ⟨v, member, subject⟩ := rest.visited _ listed
  exact rest.settled v member j subject

end Lists

/-! Looking at nodes -/

/-- The reader changes nothing; it gives something with `P`, or it fails, and not for endless nesting. -/
def Looks {α : Type} (source : Source) (b : Builder) (m : DocumentReader α) (P : α → Prop) : Prop :=
  match m source b with
  | (.ok a, b') => b' = b ∧ P a
  | (.error failure, b') => b' = b ∧ failure ≠ .fault .endlessNesting

section Looking
variable {α β : Type} {source : Source} {b : Builder} {m : DocumentReader α}
  {next : α → DocumentReader β} {P P' : α → Prop} {R : β → Prop}

theorem looks_pure {a : α} (holds : P a) : Looks source b (pure a) P := ⟨rfl, holds⟩

theorem looks_bind (first : Looks source b m P) (later : ∀ a, P a → Looks source b (next a) R) :
    Looks source b (m >>= next) R := by
  unfold Looks at first ⊢
  rw [bind_apply]
  cases same : m source b with
  | mk r b' =>
    rw [same] at first
    cases r with
    | error failure => exact first
    | ok a =>
      obtain ⟨rfl, holds⟩ := first
      exact later a holds

theorem looks_weaken (strong : Looks source b m P') (weaker : ∀ a, P' a → P a) : Looks source b m P := by
  rw [← bind_pure m]
  exact looks_bind strong fun a holds => looks_pure (weaker a holds)

theorem looks_nodeAt {i : NodeId} {next : Node → DocumentReader β}
    (later : Looks source b (next (b.graph.node i)) R) : Looks source b (nodeAt i >>= next) R := later

theorem looks_refuse (flaw : Flaw) (i : NodeId) : Looks source b (refuse flaw i : DocumentReader α) P :=
  ⟨rfl, by simp⟩

theorem looks_when {condition : Prop} [Decidable condition] {flaw : Flaw} {i : NodeId}
    {next : PUnit → DocumentReader β} (no : ¬condition → Looks source b (next ⟨⟩) R) :
    Looks source b (if condition then refuse flaw i >>= next else next ⟨⟩) R := by
  split
  · exact looks_bind (P := fun _ => False) (looks_refuse flaw i) fun _ impossible => impossible.elim
  · rename_i fails
    exact no fails

theorem text_looks (part : String) (i? : Option NodeId) :
    Looks source b (text? part i?) fun _ => True := by
  cases i? with
  | none => exact looks_pure trivial
  | some i =>
    refine looks_nodeAt ?_
    split
    · exact looks_pure trivial
    · split
      · exact looks_pure trivial
      · exact looks_refuse _ i

theorem requiredText_looks (part : String) (flaw : Flaw) (i : NodeId) (i? : Option NodeId) :
    Looks source b (requiredText part flaw i i?) fun _ => True := by
  refine looks_bind (text_looks part i?) fun found _ => ?_
  split
  · split
    · exact looks_refuse _ i
    · exact looks_pure trivial
  · exact looks_refuse _ i

end Looking

section Parts
variable {g : Graph} {led : NodeId → Prop} {source : Source} {b : Builder}

theorem isNull_eq {i : NodeId} {n : Node} (rework : g.Rework led i n) :
    isNull n = isNull (g.node i) := by
  have scalars := rework.scalar_iff
  have tags : n.tag = Tag.null ↔ (g.node i).tag = Tag.null := rework.tag_iff (by decide) (by decide)
  cases body : n.body with
  | scalar text style => simp only [isNull, body, (scalars text style).mp body, tags]
  | _ =>
    cases own : (g.node i).body with
    | scalar text style => simpa [body] using (scalars text style).mpr own
    | _ => simp only [isNull, body, own]

variable (reworked : g.Reworked led b.graph)
include reworked

theorem items_looks (part : String) (i? : Option NodeId) :
    Looks source b (items part i?) fun is => is = g.itemsOf i? := by
  cases i? with
  | none => exact looks_pure rfl
  | some i =>
    refine looks_nodeAt ?_
    have same := (reworked.node i).items
    split
    · rename_i is inFlow body
      rw [body] at same
      exact looks_pure same
    · split
      · rename_i null
        refine looks_pure ?_
        rw [isNull_eq (reworked.node i)] at null
        cases body : (g.node i).body with
        | scalar text style => simp [Graph.itemsOf, body, NodeBody.items]
        | _ => simp [isNull, body] at null
      · exact looks_refuse _ i

theorem entriesFrom_looks (part : String) (keys : List String) (es : List (NodeId × NodeId)) :
    ∀ done : List (String × NodeId), Looks source b (entriesFrom part keys done es) fun found =>
      found = done.reverse ++ g.named es ∧ ∃ texts : List String,
        es.map (fun e => g.textOf? e.1) = texts.map some ∧ texts ⊆ keys ∧ texts.Nodup ∧
          ∀ text ∈ texts, done.lookup text = none := by
  induction es with
  | nil => exact fun done => looks_pure ⟨by simp [Graph.named], [], rfl, by simp, .nil, by simp⟩
  | cons e es ih =>
    intro done
    refine looks_nodeAt ?_
    split
    · rename_i key style body
      have text : g.textOf? e.1 = some key := by
        simp only [Graph.textOf?, ((reworked.node e.1).scalar_iff key style).mp body]
      refine looks_when fun fresh => looks_when fun allowed => ?_
      refine looks_weaken (ih ((key, e.2) :: done)) ?_
      rintro found ⟨rfl, texts, spelled, within, nodup, others⟩
      refine ⟨by simp [Graph.named, text], key :: texts, by simp [text, spelled], ?_, ?_, ?_⟩
      · exact List.cons_subset.mpr ⟨by simpa using allowed, within⟩
      · refine List.nodup_cons.mpr ⟨fun again => ?_, nodup⟩
        simpa using others key again
      · refine List.forall_mem_cons.mpr ⟨Option.not_isSome_iff_eq_none.mp fresh, fun t member => ?_⟩
        have none := others t member
        rw [List.lookup_cons] at none
        split at none
        · cases none
        · exact none
    · exact looks_refuse _ e.1

theorem entries_looks (part : String) (keys : List String) (i : NodeId) :
    Looks source b (entries part keys i) fun es =>
      es = g.named (b.graph.node i).body.entries ∧ g.Conforms keys (b.graph.node i).body.entries := by
  refine looks_nodeAt ?_
  split
  · rename_i es inFlow body
    rw [body]
    refine looks_weaken (entriesFrom_looks reworked part keys es []) ?_
    rintro found ⟨rfl, texts, spelled, within, nodup, -⟩
    exact ⟨rfl, texts, spelled, within, nodup⟩
  · exact looks_refuse _ i

end Parts

/-! Visiting -/

/-- From a builder that only the values visited so far have changed, the reader ends as `Q` says of what
it gives and visits, or it fails, for endless nesting only as `E` says. -/
def Visits {α : Type} (g : Graph) (E : Prop) (m : DocumentReader α) (Q : α → List Visit → Prop) : Prop :=
  ∀ source past b, g.Reworked (LedBy g past) b.graph → match m source b with
    | (.ok a, b') => ∃ visits, g.Reworked (LedBy g (past ++ visits)) b'.graph ∧
        Faithful g past visits ∧ Q a visits
    | (.error failure, _) => failure = .fault .endlessNesting → E

section Rules
variable {α β : Type} {g : Graph} {E E' : Prop} {m : DocumentReader α} {next : α → DocumentReader β}
  {Q Q' : α → List Visit → Prop} {R : β → List Visit → Prop}

theorem visits_bind (first : Visits g E m Q)
    (later : ∀ a visits, Q a visits → Visits g E (next a) fun c more => R c (visits ++ more)) :
    Visits g E (m >>= next) R := by
  intro source past b reworked
  have ended := first source past b reworked
  rw [bind_apply]
  cases same : m source b with
  | mk r b' =>
    rw [same] at ended
    cases r with
    | error failure => exact ended
    | ok a =>
      obtain ⟨visits, reworked', faithful, holds⟩ := ended
      have rest := later a visits holds source (past ++ visits) b' reworked'
      dsimp only
      cases same' : next a source b' with
      | mk r' b'' =>
        rw [same'] at rest
        cases r' with
        | error failure => exact rest
        | ok c =>
          obtain ⟨more, reworked'', faithful', holds'⟩ := rest
          exact ⟨visits ++ more, by rwa [← List.append_assoc], faithful_append faithful faithful', holds'⟩

theorem visits_weaken (strong : Visits g E' m Q') (after : ∀ a visits, Q' a visits → Q a visits)
    (endless : E' → E) : Visits g E m Q := by
  intro source past b reworked
  have ended := strong source past b reworked
  cases same : m source b with
  | mk r b' =>
    rw [same] at ended
    cases r with
    | error failure => exact fun is => endless (ended is)
    | ok a =>
      obtain ⟨visits, reworked', faithful, holds⟩ := ended
      exact ⟨visits, reworked', faithful, after a visits holds⟩

theorem visits_pure {a : α} (holds : Q a []) : Visits g E (pure a) Q :=
  fun _ past _ reworked => ⟨[], by rwa [List.append_nil], faithful_nil g past, holds⟩

theorem visits_throw {failure : Failure} (other : failure ≠ .fault .endlessNesting) :
    Visits g E (throw failure : DocumentReader α) Q := fun _ _ _ _ is => absurd is other

theorem visits_get {next : Builder → DocumentReader β}
    (later : ∀ b : Builder, b.graph.size = g.size → Visits g E (next b) R) :
    Visits g E (get >>= next) R :=
  fun source past b reworked => later b reworked.size source past b reworked

theorem visits_looks {P : α → Prop} (looks : ∀ source led (b : Builder), g.Reworked led b.graph →
    Looks source b m P) (later : ∀ a, P a → Visits g E (next a) R) : Visits g E (m >>= next) R := by
  refine visits_bind (Q := fun a visits => visits = [] ∧ P a) ?_ fun a visits both => ?_
  · intro source past b reworked
    have ended := looks source _ b reworked
    unfold Looks at ended
    cases same : m source b with
    | mk r b' =>
      rw [same] at ended
      cases r with
      | error failure => exact fun is => absurd is ended.2
      | ok a =>
        obtain ⟨rfl, holds⟩ := ended
        exact ⟨[], by rwa [List.append_nil], faithful_nil g past, rfl, holds⟩
  · obtain ⟨rfl, holds⟩ := both
    exact later a holds

theorem visits_refuse (flaw : Flaw) (i : NodeId) : Visits g E (refuse flaw i : DocumentReader α) Q := by
  rw [← bind_pure (refuse flaw i)]
  exact visits_looks (P := fun _ => False) (fun _ _ _ _ => looks_refuse flaw i)
    fun _ impossible => impossible.elim

theorem visits_nodeAt {i : NodeId} {next : Node → DocumentReader β}
    (later : ∀ n, g.Rework (fun _ => True) i n → Visits g E (next n) R) :
    Visits g E (nodeAt i >>= next) R :=
  visits_looks (fun _ _ _ reworked => ⟨rfl, (reworked.mono fun _ _ => trivial).node i⟩) later

theorem visits_locate {i : NodeId} {next : Location → DocumentReader β}
    (later : ∀ l, Visits g E (next l) R) : Visits g E (locate i >>= next) R :=
  visits_looks (P := fun _ => True) (fun _ _ _ _ => ⟨rfl, trivial⟩) fun l _ => later l

theorem visits_mapM {step : α → DocumentReader β} {subjects : α → List Subject} {as : List α}
    (each : ∀ a ∈ as, Visits g E (step a) fun _ visits => Covers g (subjects a) visits) :
    Visits g E (as.mapM step) fun _ visits => Covers g (as.flatMap subjects) visits := by
  induction as with
  | nil => exact visits_pure (covers_nil g)
  | cons a as ih =>
    rw [List.mapM_cons]
    refine visits_bind (each a List.mem_cons_self) fun c visits first => ?_
    refine visits_bind (ih fun x member => each x (List.mem_cons_of_mem a member)) fun cs more rest => ?_
    refine visits_pure ?_
    rw [List.append_nil, List.flatMap_cons]
    exact covers_append first rest

theorem visits_each {step : α → DocumentReader β} {subject : α → Subject} {as : List α}
    (each : ∀ a ∈ as, Visits g E (step a) fun _ visits => Covers g [subject a] visits) :
    Visits g E (as.mapM step) fun _ visits => Covers g (as.map subject) visits := by
  have same : as.map subject = as.flatMap fun a => [subject a] := by simp [List.map_eq_flatMap]
  rw [same]
  exact visits_mapM each

/-- A mapping that may have certain keys is visited where its entries are read. -/
theorem visits_entries {level : Level} {keys : List String} (may : level.keys? = some keys)
    (part : String) {i : NodeId} {next : List (String × NodeId) → DocumentReader β}
    (later : ∀ n, g.Rework (fun _ => True) i n → Visits g E (next (g.named n.body.entries))
      fun c more => R c (.part level i n.body.entries :: more)) :
    Visits g E (entries part keys i >>= next) R := by
  refine visits_bind (Q := fun es visits => ∃ n, g.Rework (fun _ => True) i n ∧
    es = g.named n.body.entries ∧ visits = [.part level i n.body.entries]) ?_ ?_
  · intro source past b reworked
    have ended : Looks source b (entries part keys i) _ := entries_looks reworked part keys i
    unfold Looks at ended
    cases same : entries part keys i source b with
    | mk r b' =>
      rw [same] at ended
      cases r with
      | error failure => exact fun is => absurd is ended.2
      | ok es =>
        obtain ⟨rfl, rfl, conforms⟩ := ended
        refine ⟨_, reworked.mono fun j => ledBy_mono (List.subset_append_left _ _), ?_,
          _, (reworked.mono fun _ _ => trivial).node i, rfl, rfl⟩
        refine faithful_singleton ⟨⟨_, reworked.node i, rfl⟩, fun others listed => ?_⟩
        cases may.symm.trans listed
        exact conforms
  · rintro es visits ⟨n, rework, rfl, rfl⟩
    exact later n rework

end Rules

/-! Parts of a document -/

section Document
variable {g : Graph}

/-- Building a value changes what it leads to at most, and is endless only for default values. -/
theorem value_ends {past : List Visit} {b : Builder} (reworked : g.Reworked (LedBy g past) b.graph)
    (i : NodeId) : g.Reworked (LedBy g (past ++ [.value i])) (Build.value i b).2.graph ∧
      ((Build.value i b).1 = .error (.fault .endlessNesting) → g.EndlessText) := by
  have led : LedBy g (past ++ [.value i]) i := ⟨i, by simp, .refl⟩
  have more := reworked.mono fun j => ledBy_mono (List.subset_append_left past [.value i])
  have built := Build.value_leads ledBy_closed more led
  unfold Build.Leads at built
  cases same : Build.value i b with
  | mk r b' =>
    rw [same] at built
    cases r with
    | ok d => exact ⟨built, nofun⟩
    | error failure => exact ⟨built.1, fun endless => built.2 (Except.error.inj endless)⟩

theorem visits_build {E : Prop} (texts : g.EndlessText → E) (i : NodeId) :
    Visits g E (build i) fun _ visits => Covers g [.value i] visits := by
  intro source past b reworked
  obtain ⟨after, endless⟩ := value_ends reworked i
  have faithful : Faithful g past [.value i] := faithful_singleton trivial
  rw [build_apply]
  cases same : Build.value i b with
  | mk r b' =>
    rw [same] at after endless
    cases r with
    | ok d => exact ⟨_, after, faithful, covers_value i⟩
    | error failure =>
      cases failure with
      | problem p => exact ⟨_, after, faithful, covers_value i⟩
      | refused reason => exact ⟨_, after, faithful, covers_value i⟩
      | fault f => exact fun is => texts (endless (by cases is; rfl))

theorem visits_datum {E : Prop} (texts : g.EndlessText → E) (i : NodeId) :
    Visits g E (datum i) fun _ visits => Covers g [.value i] visits := by
  refine visits_bind (visits_build texts i) fun result visits covers => ?_
  split
  · exact visits_pure (by rwa [List.append_nil])
  · exact visits_refuse _ i

theorem visits_leaf {E : Prop} (texts : g.EndlessText → E) (i : NodeId) :
    Visits g E (leaf i) fun _ visits => Covers g [.value i] visits := by
  refine visits_nodeAt fun n _ => ?_
  refine visits_looks (P := fun _ => True) (fun _ _ _ _ => ⟨rfl, trivial⟩) fun location _ => ?_
  split
  · refine visits_bind (visits_build texts i) fun result visits covers => ?_
    split <;> exact visits_pure (by rwa [List.append_nil])
  · refine visits_get fun b _ => ?_
    refine visits_bind (visits_datum texts i) fun d visits covers => ?_
    exact visits_pure (by rwa [List.append_nil])

theorem items_look {part : String} {i? : Option NodeId} (source : Source) (led : NodeId → Prop)
    (b : Builder) (reworked : g.Reworked led b.graph) :
    Looks source b (items part i?) fun is => is = g.itemsOf i? := items_looks reworked part i?

theorem text_look {part : String} {i? : Option NodeId} (source : Source) (led : NodeId → Prop)
    (b : Builder) (_ : g.Reworked led b.graph) : Looks source b (text? part i?) fun _ => True :=
  text_looks part i?

theorem requiredText_look {part : String} {flaw : Flaw} {i : NodeId} {i? : Option NodeId}
    (source : Source) (led : NodeId → Prop) (b : Builder) (_ : g.Reworked led b.graph) :
    Looks source b (requiredText part flaw i i?) fun _ => True := requiredText_looks part flaw i i?

theorem entry_of_item {shown : List (NodeId × NodeId)} {key : String} {j : NodeId}
    (item : j ∈ g.itemsOf ((g.named shown).lookup key)) :
    ∃ k v, (k, v) ∈ shown ∧ g.textOf? k = some key ∧ j ∈ (g.node v).body.items := by
  cases found : (g.named shown).lookup key with
  | none => simp [found, Graph.itemsOf] at item
  | some v =>
    obtain ⟨e, member, text⟩ := List.mem_filterMap.mp (Survey.mem_of_lookup found)
    obtain ⟨key', spelled, same⟩ := Option.map_eq_some_iff.mp text
    cases same
    rw [found] at item
    exact ⟨e.1, e.2, member, spelled, item⟩

theorem visits_operand {E : Prop} (texts : g.EndlessText → E) {fuel : Nat} {j : NodeId}
    (nested : Build.isMapping (g.node j) = true → Visits g E (precondition j fuel) fun _ visits =>
      Covers g [.part .precondition j] visits) :
    Visits g E (do
      match (← nodeAt j).body with
      | .mapping .. => return Operand.nested (← precondition j fuel)
      | _ => return Operand.leaf (← leaf j)) fun _ visits => Covers g [operand g j] visits := by
  refine visits_nodeAt fun n rework => ?_
  split
  · rename_i es inFlow body
    have isMapping : Build.isMapping (g.node j) = true := by
      rw [← rework.isMapping]
      simp only [Build.isMapping, body]
    rw [operand, if_pos isMapping]
    refine visits_bind (nested isMapping) fun _ visits covers => ?_
    exact visits_pure (by rwa [List.append_nil])
  · rename_i noMapping
    have isOther : ¬Build.isMapping (g.node j) = true := by
      rw [← rework.isMapping]
      cases body : n.body with
      | mapping es inFlow => exact absurd body (noMapping es inFlow)
      | _ => simp [Build.isMapping, body]
    rw [operand, if_neg isOther]
    refine visits_bind (visits_leaf texts j) fun _ visits covers => ?_
    exact visits_pure (by rwa [List.append_nil])

/-- By induction on the fuel, which runs out only after so many steps down. -/
theorem visits_precondition (fuel : Nat) : ∀ i, Visits g (Descends g.NestStep fuel i ∨ g.EndlessText)
    (precondition i fuel) fun _ visits => Covers g [.part .precondition i] visits := by
  induction fuel with
  | zero => exact fun i _ _ _ _ _ => .inl (.here i)
  | succ fuel ih =>
    intro i
    have may : Level.precondition.keys? = some ["field", "values"] := rfl
    refine visits_entries may _ fun own rework => ?_
    refine visits_looks requiredText_look fun field _ => ?_
    refine visits_looks items_look fun values same => ?_
    subst same
    have each : ∀ j ∈ g.itemsOf ((g.named own.body.entries).lookup "values"),
        Build.isMapping (g.node j) = true →
          Visits g (Descends g.NestStep (fuel + 1) i ∨ g.EndlessText) (precondition j fuel) fun _ visits =>
            Covers g [.part .precondition j] visits := by
      intro j member isMapping
      obtain ⟨k, v, entry, text, item⟩ := entry_of_item member
      have step : g.NestStep i j := ⟨k, v, rework.entryOf _ entry, text, item, isMapping⟩
      exact visits_weaken (ih j) (fun _ _ => id) (Or.imp_left (.down step))
    refine visits_bind (visits_each fun j member => visits_operand .inr (each j member))
      fun operands visits covers => ?_
    refine visits_locate fun _ => visits_pure ?_
    rw [List.append_nil]
    have below : Covers g ((Visit.part .precondition i own.body.entries).below g) visits := covers
    exact covers_cons below (settles_of_covers rework covers)

theorem visits_action (entry : NodeId × NodeId) : Visits g g.Endless (action entry) fun _ visits =>
    Covers g ((g.itemsOf (some entry.2)).map .value) visits := by
  refine visits_looks text_look fun kind? _ => ?_
  split
  · exact visits_refuse _ entry.1
  · refine visits_looks items_look fun nodes same => ?_
    subst same
    refine visits_bind (visits_each fun j _ => visits_leaf .inr j) fun arguments visits covers => ?_
    exact visits_locate fun _ => visits_pure (by rwa [List.append_nil])

theorem visits_actionsNode {E : Prop} {β : Type} {R : β → List Visit → Prop} {i : NodeId}
    {next : Node → DocumentReader β} (later : ∀ n, g.Rework (fun _ => True) i n →
      Visits g E (next n) fun c more => R c (.part .action i n.body.entries :: more)) :
    Visits g E (nodeAt i >>= next) R := by
  refine visits_bind (Q := fun n visits => visits = [.part .action i n.body.entries] ∧
    g.Rework (fun _ => True) i n) ?_ ?_
  · intro source past b reworked
    refine ⟨_, reworked.mono fun j => ledBy_mono (List.subset_append_left _ _), ?_, rfl,
      (reworked.mono fun _ _ => trivial).node i⟩
    exact faithful_singleton ⟨⟨_, reworked.node i, rfl⟩, fun _ may => nomatch may⟩
  · rintro n visits ⟨rfl, rework⟩
    exact later n rework

theorem visits_actions (i? : Option NodeId) : Visits g g.Endless (actions i?) fun _ visits =>
    Covers g ((g.given i?).map (.part .action)) visits := by
  cases i? with
  | none => exact visits_pure (covers_nil g)
  | some i =>
    by_cases null : isNull (g.node i) = true
    · refine visits_nodeAt fun n rework => ?_
      rw [isNull_eq rework, if_pos null]
      rw [Graph.given_null null]
      exact visits_pure (covers_nil g)
    · rw [Graph.given_some null]
      refine visits_actionsNode fun n rework => ?_
      rw [isNull_eq rework, if_neg null]
      split
      · rename_i es inFlow body
        have entries : n.body.entries = es := by rw [body]; rfl
        rw [entries]
        refine visits_bind (visits_mapM fun e _ => visits_action e) fun actions visits covers => ?_
        split
        · exact visits_throw (by simp)
        · exact visits_pure (by rw [List.append_nil]; exact covers_part .action (by decide) i covers)
      · exact visits_refuse _ i

theorem visits_rule (i : NodeId) : Visits g g.Endless (rule i) fun _ visits =>
    Covers g [.part .rule i] visits := by
  have may : Level.rule.keys? = some ["preconditions", "action"] := rfl
  refine visits_entries may _ fun n _ => ?_
  refine visits_get fun b size => ?_
  refine visits_looks items_look fun nodes same => ?_
  subst same
  have each : ∀ j ∈ g.itemsOf ((g.named n.body.entries).lookup "preconditions"), Visits g g.Endless
      (precondition j (b.graph.size + 1)) fun _ visits => Covers g [.part .precondition j] visits := by
    intro j _
    refine visits_weaken (visits_precondition _ j) (fun _ _ => id) (Or.imp_left fun descends => ?_)
    exact circle_of_descends Graph.NestStep.inside descends (by omega)
  refine visits_bind (visits_each each) fun preconditions visits first => ?_
  refine visits_bind (visits_actions _) fun actions more second => ?_
  refine visits_locate fun _ => visits_pure ?_
  rw [List.append_nil]
  exact covers_part .rule (by decide) i (covers_append first second)

theorem visits_mailbox (i : NodeId) : Visits g g.Endless (mailbox i) fun _ visits =>
    Covers g [.part .mailbox i] visits := by
  have may : Level.mailbox.keys? = some ["name", "rules"] := rfl
  refine visits_entries may _ fun n _ => ?_
  refine visits_looks requiredText_look fun name _ => ?_
  refine visits_looks items_look fun nodes same => ?_
  subst same
  refine visits_bind (visits_each fun j _ => visits_rule j) fun rules visits covers => ?_
  refine visits_locate fun _ => visits_pure ?_
  rw [List.append_nil]
  exact covers_part .mailbox (by decide) i covers

theorem visits_flagData {E : Prop} (texts : g.EndlessText → E) (es : List (String × NodeId))
    (flags : List Flag) : Visits g E (flagData es flags) fun _ visits =>
      Covers g ((flags.flatMap fun flag => g.given (es.lookup flag.key)).map .value) visits := by
  induction flags with
  | nil => exact visits_pure (covers_nil g)
  | cons flag rest ih =>
    rw [List.flatMap_cons, List.map_append]
    unfold flagData
    split
    · rename_i missing
      simpa [missing, Graph.given] using ih
    · rename_i i there
      refine visits_nodeAt fun n rework => ?_
      rw [isNull_eq rework, there]
      split
      · rename_i null
        rw [Graph.given_null null]
        exact ih
      · rename_i notNull
        refine visits_bind (visits_datum texts i) fun d visits first => ?_
        refine visits_bind ih fun found more second => visits_pure ?_
        rw [List.append_nil]
        rw [Graph.given_some notNull]
        exact covers_append first second

theorem visits_account (i : NodeId) : Visits g g.Endless (account i) fun _ visits =>
    Covers g [.part .server i] visits := by
  have may : Level.server.keys? = some accountKeys := rfl
  refine visits_entries may _ fun n _ => ?_
  refine visits_looks requiredText_look fun host _ => ?_
  refine visits_bind (visits_flagData .inr _ _) fun given visits first => ?_
  refine visits_looks text_look fun username _ => ?_
  refine visits_looks text_look fun password _ => ?_
  refine visits_looks text_look fun identity _ => ?_
  refine visits_looks items_look fun nodes same => ?_
  subst same
  refine visits_bind (visits_each fun j _ => visits_mailbox j) fun mailboxes more second => ?_
  split
  · exact visits_refuse _ i
  · refine visits_locate fun _ => visits_pure ?_
    rw [List.append_nil]
    exact covers_part .server (by decide) i (covers_append first second)

theorem visits_document (root : Option NodeId) : Visits g g.Endless (document root) fun _ visits =>
    ∃ i, root = some i ∧ Covers g [.part .document i] visits := by
  refine visits_looks (P := fun _ => True) (fun _ _ _ _ => ⟨rfl, trivial⟩) fun source _ => ?_
  split
  · exact visits_throw (by simp)
  · rename_i i
    refine visits_nodeAt fun n _ => ?_
    split
    · refine visits_bind (Q := fun _ _ => False) (visits_throw (by simp)) ?_
      exact fun _ _ impossible => impossible.elim
    · have may : Level.document.keys? = some ["servers"] := rfl
      refine visits_entries may _ fun n _ => ?_
      refine visits_looks items_look fun nodes same => ?_
      subst same
      refine visits_bind (visits_each fun j _ => visits_account j) fun accounts visits covers => ?_
      refine visits_pure ⟨i, rfl, ?_⟩
      rw [List.append_nil]
      exact covers_part .document (by decide) i covers

end Document

end DocumentReader

/-- A document is read by visits from the root of its text on, and reading one does not end only where
preconditions or default values lead around in a circle. -/
theorem Document.parse_visits (text name : String) {tree : Tree}
    (opened : Tree.ofText text.toList = .ok tree) :
    match Document.parse text name with
    | .ok _ => ∃ root visits, tree.root = some root ∧ DocumentReader.Faithful tree.graph [] visits ∧
        DocumentReader.Covers tree.graph [.part .document root] visits
    | .error failure => failure = .fault .endlessNesting → tree.graph.Endless := by
  have ended := DocumentReader.visits_document (g := tree.graph) tree.root ⟨name, text.toList⟩ []
    { graph := tree.graph } (Graph.reworked_self _ _)
  have same : Document.parse text name =
      (DocumentReader.document tree.root ⟨name, text.toList⟩ { graph := tree.graph }).1 := by
    simp only [Document.parse, opened]
    rfl
  rw [same]
  split at ended
  · rename_i d b' read
    obtain ⟨visits, -, faithful, i, root, covers⟩ := ended
    rw [read]
    exact ⟨i, visits, root, faithful, covers⟩
  · rename_i failure b' failed
    rw [failed]
    exact ended

end MailRules
