import MailRules.Proofs.Yaml.Composing
import MailRules.Proofs.Yaml.Parts
import MailRules.Proofs.Document.Reader
/-!
What steps of building lead to, and what they maintain. A builder changes in few ways: a merge replaces the
entries of a mapping, a default key becomes a text, a node is begun, and its value is remembered. What none of
these takes away holds of a builder through the building of any value.
-/
namespace MailRules.Yaml

namespace Build

def Leads {α : Type} (b : Builder) (s : Build α) (Q : α → Builder → Prop)
    (E : BuildFailure → Builder → Prop) : Prop :=
  match s b with
  | (.ok a, b') => Q a b'
  | (.error failure, b') => E failure b'

section Rules
variable {α β : Type} {b : Builder} {s : Build α} {next : α → Build β} {Q Q' : α → Builder → Prop}
  {R : β → Builder → Prop} {E E' : BuildFailure → Builder → Prop}

theorem leads_pure {a : α} (holds : Q a b) : Leads b (pure a) Q E := holds

theorem leads_throw {failure : BuildFailure} (fails : E failure b) : Leads b (throw failure) Q E := fails

theorem leads_bind (first : Leads b s (fun a b' => Leads b' (next a) R E) E) :
    Leads b (s >>= next) R E := by
  unfold Leads at first ⊢
  rw [bind_apply]
  cases same : s b with
  | mk r b' =>
    rw [same] at first
    cases r <;> exact first

theorem leads_weaken (strong : Leads b s Q' E') (after : ∀ a b', Q' a b' → Q a b')
    (failing : ∀ failure b', E' failure b' → E failure b') : Leads b s Q E := by
  unfold Leads at strong ⊢
  cases same : s b with
  | mk r b' =>
    rw [same] at strong
    cases r
    · exact failing _ _ strong
    · exact after _ _ strong

theorem leads_then (first : Leads b s Q E) (later : ∀ a b', Q a b' → Leads b' (next a) R E) :
    Leads b (s >>= next) R E := leads_bind (leads_weaken first later fun _ _ => id)

theorem leads_get {next : Builder → Build β} (later : Leads b (next b) R E) :
    Leads b (get >>= next) R E := leads_bind later

theorem leads_nodeAt {i : NodeId} {next : Node → Build β}
    (later : Leads b (next (b.graph.node i)) R E) : Leads b (nodeAt i >>= next) R E := leads_bind later

theorem leads_modify {f : Builder → Builder} {Q : PUnit → Builder → Prop} (holds : Q ⟨⟩ (f b)) :
    Leads b (modify f) Q E := holds

theorem leads_when {condition : Prop} [Decidable condition] {s : Build PUnit}
    {next : PUnit → Build β} (yes : condition → Leads b (s >>= next) R E)
    (no : ¬condition → Leads b (next ⟨⟩) R E) :
    Leads b (if condition then s >>= next else next ⟨⟩) R E := by
  split
  · rename_i holds
    exact yes holds
  · rename_i fails
    exact no fails

theorem leads_ite {condition : Prop} [Decidable condition] {s s' : Build α} (yes : Leads b s Q E)
    (no : Leads b s' Q E) : Leads b (if condition then s else s') Q E := by
  split
  · exact yes
  · exact no

theorem leads_any (b : Builder) (s : Build α) : Leads b s (fun _ _ => True) fun _ _ => True := by
  unfold Leads
  split <;> trivial

theorem leads_tag {n : Node} {tag : String} {s s' : Build α} (yes : n.tag = tag → Leads b s Q E)
    (no : Leads b s' Q E) : Leads b (if n.tag = tag then s else s') Q E := by
  split
  · rename_i same
    exact yes same
  · exact no

end Rules

/-! Invariants -/

inductive ScalarStep (i : NodeId) : String → Build Datum → Prop
  | str : ScalarStep i Tag.str (ofText i fun cs => .ok (.text (String.ofList cs)))
  | int : ScalarStep i Tag.int (ofText i ScalarValue.int)
  | null : ScalarStep i Tag.null (ofText i fun _ => .ok .null)
  | bool : ScalarStep i Tag.bool (ofText i ScalarValue.bool)
  | float : ScalarStep i Tag.float (ofText i ScalarValue.float)
  | timestamp : ScalarStep i Tag.timestamp (timestamp i)
  | binary : ScalarStep i Tag.binary (ofText i ScalarValue.binary)

/-- What holds of a builder whatever is built, with what may be made of a node and how building may fail. -/
structure Invariant where
  Holds : Builder → Prop
  Makes : NodeId → Datum → Prop
  Fails : BuildFailure → Prop
  problem : ∀ p, Fails (.problem p)
  endless : Fails (.fault .endlessNesting)
  setBody : ∀ {b i} body, Holds b → ¬(b.graph.node i).body.IsScalar →
    Holds { b with graph := b.graph.setBody i body }
  setText : ∀ {b i}, Holds b → (b.graph.node i).tag = Tag.value ∨ (b.graph.node i).tag = Tag.str →
    Holds { b with graph := b.graph.setTag i Tag.str }
  begins : ∀ {b} i, Holds b → Holds { b with begun := i :: b.begun }
  ends : ∀ {b i d}, Holds b → Makes i d →
    Holds { b with values := (i, d) :: b.values, begun := b.begun.filter (· ≠ i) }
  collection : ∀ {b i}, Holds b → ¬(b.graph.node i).body.IsScalar → ∀ d, Makes i d
  scalar : ∀ {b i s}, Holds b → ScalarStep i (b.graph.node i).tag s →
    Leads b s (fun d b' => Holds b' ∧ Makes i d) fun failure b' => Holds b' ∧ Fails failure

def Maintains (inv : Invariant) {α : Type} (P : α → Prop) (s : Build α) : Prop :=
  ∀ b, inv.Holds b → Leads b s (fun a b' => inv.Holds b' ∧ P a) fun failure b' =>
    inv.Holds b' ∧ inv.Fails failure

abbrev MaintainsOnly (inv : Invariant) {α : Type} (s : Build α) : Prop := Maintains inv (fun _ => True) s

variable {inv : Invariant} {i : NodeId}

section Rules
variable {α β : Type} {s : Build α} {next : α → Build β} {P Q : α → Prop} {R : β → Prop}

theorem maintains_pure {a : α} (holds : P a) : Maintains inv P (pure a) :=
  fun _ before => leads_pure ⟨before, holds⟩

theorem maintains_problem (p : NodeProblem) : Maintains inv P (throw (.problem p) : Build α) :=
  fun _ before => leads_throw ⟨before, inv.problem p⟩

theorem maintains_endless : Maintains inv P (throw (.fault .endlessNesting) : Build α) :=
  fun _ before => leads_throw ⟨before, inv.endless⟩

theorem maintains_bind (first : Maintains inv P s) (later : ∀ a, P a → Maintains inv R (next a)) :
    Maintains inv R (s >>= next) :=
  fun b before => leads_then (first b before) fun a b' after => later a after.2 b' after.1

theorem maintains_weaken (strong : Maintains inv Q s) (after : ∀ a, Q a → P a) : Maintains inv P s :=
  fun b before => leads_weaken (strong b before) (fun a _ given => ⟨given.1, after a given.2⟩)
    fun _ _ => id

theorem maintains_get {next : Builder → Build β} (later : ∀ b, Maintains inv R (next b)) :
    Maintains inv R (get >>= next) := fun b before => leads_get (later b b before)

theorem maintains_nodeAt {next : Node → Build β}
    (later : ∀ n, (¬n.body.IsScalar → ∀ d, inv.Makes i d) → Maintains inv R (next n)) :
    Maintains inv R (nodeAt i >>= next) :=
  fun b before => leads_nodeAt (later _ (inv.collection before) b before)

theorem maintains_when {condition : Prop} [Decidable condition] {s : Build PUnit}
    {next : PUnit → Build β} (first : MaintainsOnly inv s) (later : ∀ u, Maintains inv R (next u)) :
    Maintains inv R (if condition then s >>= next else next ⟨⟩) := by
  split
  · exact maintains_bind first fun u _ => later u
  · exact later ⟨⟩

theorem maintains_mapM {step : α → Build β} (each : ∀ a, MaintainsOnly inv (step a)) (as : List α) :
    MaintainsOnly inv (as.mapM step) := by
  induction as with
  | nil => exact maintains_pure trivial
  | cons a as ih =>
    rw [List.mapM_cons]
    exact maintains_bind (each a) fun _ _ => maintains_bind ih fun _ _ => maintains_pure trivial

end Rules

theorem scalarText_maintained (fuel : Nat) : ∀ i : NodeId, MaintainsOnly inv (scalarText i fuel) := by
  induction fuel with
  | zero => exact fun _ => maintains_endless
  | succ fuel ih =>
    intro i
    refine maintains_get fun b => ?_
    dsimp only
    split
    · exact maintains_pure trivial
    · split
      · exact ih _
      · exact maintains_problem _
    · exact maintains_problem _

/-! Merge keys -/

/-- The nodes are as they were, but some tags have been given up for that of texts. -/
def Retagged (g h : Graph) : Prop :=
  ∀ i, (h.node i).body = (g.node i).body ∧
    ((h.node i).tag = (g.node i).tag ∨ (h.node i).tag = Tag.str)

theorem Retagged.setText {g h : Graph} (retagged : Retagged g h) (i : NodeId) :
    Retagged g (h.setTag i Tag.str) := by
  intro j
  rw [Graph.setTag, Graph.node_modify]
  split
  · exact ⟨(retagged j).1, .inr rfl⟩
  · exact retagged j

theorem setTexts_maintained {g : Graph} (es : List (NodeId × NodeId))
    {E : BuildFailure → Builder → Prop} : ∀ {b}, inv.Holds b → Retagged g b.graph →
      Leads b (es.forM fun e => do
        if (g.node e.1).tag = Tag.value then
          modify fun b => { b with graph := b.graph.setTag e.1 Tag.str })
        (fun _ b' => inv.Holds b' ∧ Retagged g b'.graph) E := by
  induction es with
  | nil => exact fun before retagged => leads_pure ⟨before, retagged⟩
  | cons e es ih =>
    intro b before retagged
    refine leads_bind ?_
    dsimp only
    split
    · rename_i value
      have tag := (retagged e.1).2
      rw [value] at tag
      exact leads_modify (ih (inv.setText before tag) (retagged.setText e.1))
    · exact leads_pure (ih before retagged)

theorem takeMerge_maintained (i : NodeId) (place : Nat) : MaintainsOnly inv (takeMerge i place) := by
  intro b before
  refine leads_nodeAt ?_
  split
  · rename_i entries inFlow body
    have same : Retagged b.graph b.graph := fun _ => ⟨rfl, .inl rfl⟩
    refine leads_get (leads_then (setTexts_maintained _ before same) ?_)
    rintro u b' ⟨after, retagged⟩
    split
    · -- Since the node was looked at only tags have changed, so it still is a mapping.
      have noScalar : ¬(b'.graph.node i).body.IsScalar := by
        rw [(retagged i).1, body]
        rintro ⟨text, style, scalar⟩
        cases scalar
      exact leads_bind (leads_modify ⟨inv.setBody _ after noScalar, trivial⟩)
    · exact leads_pure ⟨after, trivial⟩
  · exact leads_pure ⟨before, trivial⟩

theorem entriesOf_maintained (i : NodeId) : MaintainsOnly inv (entriesOf i) := by
  refine maintains_nodeAt fun n _ => ?_
  split <;> exact maintains_pure trivial

theorem mergedItems_maintained {flatten : NodeId → Build Unit}
    (flattens : ∀ i, MaintainsOnly inv (flatten i)) (around : Mark) (items : List NodeId) :
    MaintainsOnly inv (mergedItems flatten around items) := by
  induction items with
  | nil => exact maintains_pure trivial
  | cons v rest ih =>
    refine maintains_nodeAt fun n _ => ?_
    refine maintains_when (maintains_problem _) fun _ => ?_
    refine maintains_bind (flattens v) fun _ _ => ?_
    refine maintains_bind (entriesOf_maintained v) fun own _ => ?_
    exact maintains_bind ih fun _ _ => maintains_pure trivial

/-- By induction on the fuel, both parts of a merge together. -/
theorem merge_maintained (inv : Invariant) (fuel : Nat) : (∀ i, MaintainsOnly inv (flatten i fuel)) ∧
    ∀ i place, MaintainsOnly inv (mergedFrom i place fuel) := by
  induction fuel with
  | zero => exact ⟨fun _ => maintains_endless, fun _ _ => maintains_endless⟩
  | succ fuel ih =>
    obtain ⟨flattens, merges⟩ := ih
    constructor
    · intro i
      unfold flatten
      refine maintains_bind (merges i 0) fun merged _ => ?_
      split
      · intro b before
        refine leads_nodeAt ?_
        split
        · rename_i entries inFlow body
          have noScalar : ¬(b.graph.node i).body.IsScalar := by
            rw [body]
            rintro ⟨text, style, scalar⟩
            cases scalar
          exact leads_modify ⟨inv.setBody _ before noScalar, trivial⟩
        · exact leads_pure ⟨before, trivial⟩
      · exact maintains_pure trivial
    · intro i place
      unfold mergedFrom
      refine maintains_bind (takeMerge_maintained i place) fun taken _ => ?_
      split
      · exact maintains_pure trivial
      · refine maintains_nodeAt fun n _ => maintains_nodeAt fun around _ => ?_
        extract_lets mark finish
        have finishes : ∀ own, MaintainsOnly inv (finish own) := fun own =>
          maintains_bind (merges i _) fun _ _ => maintains_pure trivial
        split
        · refine maintains_bind (flattens _) fun _ _ => ?_
          exact maintains_bind (entriesOf_maintained _) fun own _ => finishes own
        · refine maintains_bind (mergedItems_maintained flattens _ _) fun parts _ => ?_
          exact maintains_bind (P := fun _ => True) (maintains_pure trivial) fun own _ => finishes own
        · exact maintains_bind (P := fun _ => True) (maintains_problem _) fun own _ => finishes own

/-! Values -/

section Values
variable {build : NodeId → Build Datum}

theorem originOf_maintained (i : NodeId) (key : Datum) : MaintainsOnly inv (originOf i key) := by
  unfold originOf
  split
  · refine maintains_get fun b => ?_
    exact maintains_bind (scalarText_maintained _ i) fun _ _ => maintains_pure trivial
  · exact maintains_pure trivial

theorem entries_maintained (builds : ∀ i, MaintainsOnly inv (build i)) (around : Mark)
    (es : List (NodeId × NodeId)) : ∀ done, MaintainsOnly inv (entries build around done es) := by
  induction es with
  | nil => exact fun _ => maintains_pure trivial
  | cons e es ih =>
    intro done
    refine maintains_bind (builds e.1) fun key _ => ?_
    extract_lets rest
    have continues : ∀ u, MaintainsOnly inv (rest u) := by
      intro u
      refine maintains_bind (originOf_maintained _ _) fun origin _ => ?_
      exact maintains_bind (builds e.2) fun value _ => ih _
    split
    · refine maintains_nodeAt fun n _ => ?_
      exact maintains_bind (P := fun _ => True) (maintains_problem _) fun u _ => continues u
    · exact continues ()

theorem mapping_maintained (builds : ∀ i, MaintainsOnly inv (build i)) (i : NodeId) :
    Maintains inv (fun _ => ∀ d, inv.Makes i d) (mapping build i) := by
  refine maintains_nodeAt fun n makes => ?_
  split
  · rename_i isMap
    have made : ∀ d, inv.Makes i d := by
      refine makes ?_
      rintro ⟨text, style, scalar⟩
      simp [isMapping, scalar] at isMap
    refine maintains_get fun b => ?_
    refine maintains_bind ((merge_maintained inv _).1 i) fun _ _ => ?_
    refine maintains_bind (entriesOf_maintained i) fun es _ => ?_
    exact maintains_weaken (entries_maintained builds _ es []) fun _ _ => made
  · exact maintains_problem _

theorem pairItems_maintained (builds : ∀ i, MaintainsOnly inv (build i)) (context : String) (around : Mark)
    (items : List NodeId) : MaintainsOnly inv (pairItems build context around items) := by
  induction items with
  | nil => exact maintains_pure trivial
  | cons i rest ih =>
    refine maintains_nodeAt fun n _ => ?_
    split
    · refine maintains_bind (builds _) fun key _ => ?_
      refine maintains_bind (builds _) fun value _ => ?_
      exact maintains_bind ih fun _ _ => maintains_pure trivial
    · exact maintains_problem _
    · exact maintains_problem _

theorem pairs_maintained (builds : ∀ i, MaintainsOnly inv (build i)) (context : String) (i : NodeId) :
    Maintains inv (inv.Makes i) (pairs build context i) := by
  refine maintains_nodeAt fun n makes => ?_
  split
  · rename_i items inFlow body
    refine maintains_bind (pairItems_maintained builds _ _ _) fun _ _ => maintains_pure (makes ?_ _)
    rintro ⟨text, style, scalar⟩
    cases body.symm.trans scalar
  · exact maintains_problem _

theorem sequence_maintained (builds : ∀ i, MaintainsOnly inv (build i)) (i : NodeId) :
    Maintains inv (inv.Makes i) (sequence build i) := by
  refine maintains_nodeAt fun n makes => ?_
  split
  · rename_i items inFlow body
    refine maintains_bind (maintains_mapM builds _) fun _ _ => maintains_pure (makes ?_ _)
    rintro ⟨text, style, scalar⟩
    cases body.symm.trans scalar
  · exact maintains_problem _

theorem ofTag_maintained (builds : ∀ i, MaintainsOnly inv (build i)) (i : NodeId) :
    Maintains inv (inv.Makes i) (ofTag build i) := by
  intro b before
  have scalar {tag : String} {s : Build Datum} (step : ScalarStep i tag s)
      (same : (b.graph.node i).tag = tag) : Leads b s (fun d b' => inv.Holds b' ∧ inv.Makes i d)
        fun failure b' => inv.Holds b' ∧ inv.Fails failure := inv.scalar before (same ▸ step)
  have mapped (make : List Entry → Datum) : Maintains inv (inv.Makes i) (do
      return make (← mapping build i)) :=
    maintains_bind (mapping_maintained builds i) fun _ made => maintains_pure (made _)
  refine leads_nodeAt ?_
  apply leads_tag fun same => scalar .str same
  apply leads_tag fun same => scalar .int same
  apply leads_tag fun _ => sequence_maintained builds i b before
  apply leads_tag fun _ => mapped _ b before
  apply leads_tag fun same => scalar .null same
  apply leads_tag fun same => scalar .bool same
  apply leads_tag fun same => scalar .float same
  apply leads_tag fun same => scalar .timestamp same
  apply leads_tag fun same => scalar .binary same
  apply leads_tag fun _ => mapped _ b before
  apply leads_tag fun _ => pairs_maintained builds _ i b before
  apply leads_tag fun _ => pairs_maintained builds _ i b before
  exact maintains_problem _ b before

theorem datum_maintained (fuel : Nat) : ∀ i : NodeId, MaintainsOnly inv (datum i fuel) := by
  induction fuel with
  | zero => exact fun _ => maintains_endless
  | succ fuel ih =>
    intro i b before
    refine leads_get ?_
    dsimp only
    split
    · exact leads_pure ⟨before, trivial⟩
    · refine leads_when (fun _ => leads_bind (leads_throw ⟨before, inv.problem _⟩)) fun _ => ?_
      refine leads_bind (leads_modify ?_)
      refine leads_then (ofTag_maintained ih i _ (inv.begins i before)) ?_
      rintro d b' ⟨after, made⟩
      exact leads_bind (leads_modify ⟨inv.ends after made, trivial⟩)

theorem value_maintained (inv : Invariant) (i : NodeId) : MaintainsOnly inv (value i) :=
  maintains_get fun _ => datum_maintained _ i

end Values
end Build
end MailRules.Yaml
