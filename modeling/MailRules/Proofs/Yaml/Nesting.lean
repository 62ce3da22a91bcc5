import MailRules.Proofs.Yaml.Merging
import MailRules.Proofs.Yaml.Valuing
/-!
Nodes that hold themselves. A node whose value needs its own value is refused, since the nodes begun are
remembered, so there are as many steps down as there are nodes to begin. The text of a mapping is that of
its default value, and there nothing is remembered: it is looked for without end exactly where default
values lead around in a circle.
-/
namespace MailRules.Yaml

/-- There are so many steps to take from here, one after another. -/
inductive Descends (R : NodeId → NodeId → Prop) : Nat → NodeId → Prop
  | here (i : NodeId) : Descends R 0 i
  | down {n : Nat} {i j : NodeId} (step : R i j) (rest : Descends R n j) : Descends R (n + 1) i

section Circles
variable {R : NodeId → NodeId → Prop} {n : Nat} {i : NodeId}

theorem passed_of_descends {size : Nat} (inside : ∀ i j, R i j → i < size) (down : Descends R n i) :
    ∃ passed : List NodeId, passed.length = n ∧ (∀ x ∈ passed, x < size) ∧
      (∀ x ∈ passed, x = i ∨ Relation.TransGen R i x) ∧ passed.Pairwise (Relation.TransGen R) := by
  induction down with
  | here i => exact ⟨[], rfl, by simp, by simp, .nil⟩
  | @down n i j step rest ih =>
    obtain ⟨passed, length, within, below, pairwise⟩ := ih
    have leads : ∀ x ∈ passed, Relation.TransGen R i x := by
      intro x member
      rcases below x member with rfl | further
      · exact .single step
      · exact .head step further
    refine ⟨i :: passed, by simp [length], ?_, ?_, .cons leads pairwise⟩
    · exact List.forall_mem_cons.mpr ⟨inside i j step, within⟩
    · exact List.forall_mem_cons.mpr ⟨.inl rfl, fun x member => .inr (leads x member)⟩

/-- Among so few nodes, a way down that is longer comes to a node again. -/
theorem circle_of_descends {size : Nat} (inside : ∀ i j, R i j → i < size) (down : Descends R n i)
    (long : size < n) : ∃ c, Relation.TransGen R c c := by
  obtain ⟨passed, length, within, -, pairwise⟩ := passed_of_descends inside down
  by_contra none
  have nodup : passed.Nodup := by
    apply pairwise.imp
    rintro a b leads rfl
    exact none ⟨a, leads⟩
  have few : passed.length ≤ (List.range size).length :=
    (nodup.subperm fun x member => List.mem_range.mpr (within x member)).length_le
  rw [List.length_range] at few
  omega

end Circles

namespace Graph

def DefaultStep (g : Graph) (i j : NodeId) : Prop := ∃ k, g.EntryOf i (k, j) ∧ (g.node k).tag = Tag.value

/-- Default values lead around in a circle. -/
def EndlessText (g : Graph) : Prop := ∃ i, Relation.TransGen g.DefaultStep i i

theorem DefaultStep.inside {g : Graph} (i j : NodeId) (step : g.DefaultStep i j) : i < g.size :=
  step.choose_spec.1.inside

end Graph

namespace Build

/-- The builder has the nodes of the graph as merges left them, and is in the middle of these. -/
structure Kept (g : Graph) (led : NodeId → Prop) (begun : List NodeId) (b : Builder) : Prop where
  reworked : g.Reworked led b.graph
  begun : b.begun = begun

/-- A failure; it is endless nesting only where default values lead around in a circle. -/
def Stops (g : Graph) (led : NodeId → Prop) (failure : BuildFailure) (b : Builder) : Prop :=
  g.Reworked led b.graph ∧ (failure = .fault .endlessNesting → g.EndlessText)

def Builds (g : Graph) (led : NodeId → Prop) (begun : List NodeId)
    (build : NodeId → Build Datum) : Prop :=
  ∀ b j, Kept g led begun b → led j → Leads b (build j) (fun _ b' => Kept g led begun b') (Stops g led)

variable {g : Graph} {led : NodeId → Prop} {begun : List NodeId} {b : Builder} {i : NodeId}

theorem stops_of_refused {failure : BuildFailure} {b' : Builder} (refused : Refused g led failure b') :
    Stops g led failure b' := ⟨refused.1, fun endless => absurd endless refused.2⟩

section Texts
variable {Q : String → Builder → Prop}

theorem scalarText_leads (fuel : Nat) : ∀ {i : NodeId}, g.Reworked led b.graph → (∀ s, Q s b) →
    Leads b (scalarText i fuel) Q fun failure b' =>
      b' = b ∧ (failure = .fault .endlessNesting → Descends g.DefaultStep fuel i) := by
  induction fuel with
  | zero => exact fun _ _ => leads_throw ⟨rfl, fun _ => .here _⟩
  | succ fuel ih =>
    intro i reworked holds
    unfold scalarText
    refine leads_get ?_
    dsimp only
    cases body : (b.graph.node i).body with
    | scalar text style => exact holds text
    | sequence items inFlow => exact leads_throw ⟨rfl, by simp⟩
    | mapping entries inFlow =>
      dsimp only
      cases default : entries.find? fun e => (b.graph.node e.1).tag = Tag.value with
      | none => exact leads_throw ⟨rfl, by simp⟩
      | some e =>
        have value : (b.graph.node e.1).tag = Tag.value := by simpa using List.find?_some default
        have entry : e ∈ (b.graph.node i).body.entries := by
          rw [body]
          exact List.mem_of_find?_eq_some default
        have step : g.DefaultStep i e.2 :=
          ⟨e.1, (reworked.node i).entryOf e entry, (reworked.node e.1).value_of_tag value⟩
        refine leads_weaken (ih reworked holds) (fun _ _ => id) ?_
        rintro failure b' ⟨same, endless⟩
        exact ⟨same, fun is => .down step (endless is)⟩

theorem scalarText_stops (reworked : g.Reworked led b.graph) (holds : ∀ s, Q s b) :
    Leads b (scalarText i (b.graph.size + 1)) Q (Stops g led) := by
  refine leads_weaken (scalarText_leads (b.graph.size + 1) reworked holds) (fun _ _ => id) ?_
  rintro failure _ ⟨rfl, endless⟩
  refine ⟨reworked, fun is => ?_⟩
  apply circle_of_descends Graph.DefaultStep.inside (endless is)
  rw [reworked.size]
  omega

abbrev Finite (r : Except ScalarFailure Datum) : Prop :=
  Ends (ScalarFailure.FaultAs (· ≠ .endlessNesting)) (fun _ => True) r

theorem ofText_leads (kept : Kept g led begun b) {read : List Char → Except ScalarFailure Datum}
    (finite : ∀ cs, Finite (read cs)) :
    Leads b (ofText i read) (fun _ b' => Kept g led begun b') (Stops g led) := by
  unfold ofText
  refine leads_get (leads_bind (scalarText_stops kept.reworked fun text => ?_))
  have ended := finite text.toList
  split
  · exact leads_pure kept
  · exact leads_throw ⟨kept.reworked, by simp⟩
  · exact leads_nodeAt (leads_throw ⟨kept.reworked, by simp⟩)
  · rename_i f failed
    rw [failed] at ended
    exact leads_throw ⟨kept.reworked, fun endless => absurd (BuildFailure.fault.inj endless) ended⟩

theorem finite_of_ends {r : Except ScalarFailure Datum} {P : Fault → Prop}
    (ends : Ends (ScalarFailure.FaultAs P) (fun _ => True) r) (other : ∀ f, P f → f ≠ .endlessNesting) :
    Finite r :=
  ends_weaken ends (ScalarFailure.faultAs_weaken other) fun _ => id

theorem timestamp_finite (cs : List Char) : Finite (ScalarValue.timestamp cs) :=
  finite_of_ends (ScalarValue.timestamp_ends cs) fun f is => by simp [is.1]

theorem timestamp_leads (kept : Kept g led begun b) :
    Leads b (timestamp i) (fun _ b' => Kept g led begun b') (Stops g led) := by
  unfold timestamp
  refine leads_get (leads_bind ?_)
  change Leads b ((fun _ => ()) <$> scalarText i (b.graph.size + 1)) _ _
  rw [← bind_pure_comp]
  refine leads_bind (scalarText_stops kept.reworked fun text => leads_pure (leads_nodeAt ?_))
  split
  · exact ofText_leads kept timestamp_finite
  · exact leads_throw ⟨kept.reworked, by simp⟩

end Texts

section Values
variable {build : NodeId → Build Datum}

theorem originOf_leads (kept : Kept g led begun b) (key : Datum) :
    Leads b (originOf i key) (fun _ b' => Kept g led begun b') (Stops g led) := by
  unfold originOf
  split
  · refine leads_get (leads_bind (scalarText_stops kept.reworked fun text => ?_))
    exact leads_pure kept
  · exact leads_pure kept

def LedEntry (led : NodeId → Prop) (e : NodeId × NodeId) : Prop := led e.1 ∧ led e.2

theorem entries_leads (builds : Builds g led begun build) (around : Mark) {es : List (NodeId × NodeId)}
    (inside : ∀ e ∈ es, LedEntry led e) : ∀ {b : Builder} (done : List Entry), Kept g led begun b →
      Leads b (entries build around done es) (fun _ b' => Kept g led begun b') (Stops g led) := by
  induction es with
  | nil => exact fun _ kept => leads_pure kept
  | cons e es ih =>
    intro b done kept
    obtain ⟨keyLed, valueLed⟩ := inside e List.mem_cons_self
    refine leads_then (builds b e.1 kept keyLed) ?_
    intro key b₁ kept₁
    extract_lets rest
    refine leads_ite ?_ ?_
    · exact leads_nodeAt (leads_bind (leads_throw ⟨kept₁.reworked, by simp⟩))
    · refine leads_then (originOf_leads kept₁ key) ?_
      intro origin b₂ kept₂
      refine leads_then (builds b₂ e.2 kept₂ valueLed) ?_
      intro value b₃ kept₃
      exact ih (fun e member => inside e (List.mem_cons_of_mem _ member)) _ kept₃

theorem ledEntries (closed : ∀ i, led i → ∀ j ∈ g.below i, led j) (reworked : g.Reworked led b.graph)
    (here : led i) : ∀ e ∈ (b.graph.node i).body.entries, LedEntry led e :=
  fun e entry => ((reworked.node i).entryOf e entry).led_of_closed closed here

variable (closed : ∀ i, led i → ∀ j ∈ g.below i, led j) (here : led i)
  (builds : i < g.size → Builds g led begun build)
include closed here builds

/-- A node without a number in the graph has no parts, so nothing is built below it. -/
theorem mapping_leads (kept : Kept g led begun b) :
    Leads b (mapping build i) (fun _ b' => Kept g led begun b') (Stops g led) := by
  unfold mapping
  refine leads_nodeAt ?_
  split
  · refine leads_get (leads_bind (leads_weaken
      ((merges_lead closed _).flatten _ (Graph.merges_fuel g b.graph) b i kept.reworked here le_rfl) ?_
      fun _ _ => stops_of_refused))
    rintro _ b₁ ⟨flattened, -⟩
    have kept₁ : Kept g led begun b₁ := ⟨flattened.reworked, flattened.begun.trans kept.begun⟩
    refine leads_bind (entriesOf_leads ?_)
    cases entries : (b₁.graph.node i).body.entries with
    | nil => exact leads_pure kept₁
    | cons e es =>
      have entry : e ∈ (b₁.graph.node i).body.entries := entries ▸ List.mem_cons_self
      have inside := ((kept₁.reworked.node i).entryOf e entry).inside
      rw [← entries]
      exact entries_leads (builds inside) _ (ledEntries closed kept₁.reworked here) [] kept₁
  · exact leads_throw ⟨kept.reworked, by simp⟩

omit here builds in
theorem pairItems_leads (builds : Builds g led begun build) (context : String) (around : Mark)
    {items : List NodeId} (inside : ∀ j ∈ items, led j) : ∀ {b : Builder}, Kept g led begun b →
      Leads b (pairItems build context around items) (fun _ b' => Kept g led begun b') (Stops g led) := by
  induction items with
  | nil => exact fun kept => leads_pure kept
  | cons i rest ih =>
    intro b kept
    refine leads_nodeAt ?_
    split
    · rename_i k v inFlow body
      obtain ⟨keyLed, valueLed⟩ :=
        ledEntries closed kept.reworked (inside i List.mem_cons_self) (k, v) (body ▸ List.mem_cons_self)
      refine leads_then (builds b k kept keyLed) ?_
      intro key b₁ kept₁
      refine leads_then (builds b₁ v kept₁ valueLed) ?_
      intro value b₂ kept₂
      refine leads_then (ih (fun j member => inside j (List.mem_cons_of_mem _ member)) kept₂) ?_
      exact fun _ b₃ kept₃ => leads_pure kept₃
    · exact leads_throw ⟨kept.reworked, by simp⟩
    · exact leads_throw ⟨kept.reworked, by simp⟩

theorem items_leads (kept : Kept g led begun b) {α : Type} {step : List NodeId → Build α}
    {Q : α → Builder → Prop} {E : BuildFailure → Builder → Prop} {items : List NodeId} {inFlow : Bool}
    (body : (b.graph.node i).body = .sequence items inFlow) (none : Leads b (step []) Q E)
    (each : Builds g led begun build → (∀ j ∈ items, led j) → Leads b (step items) Q E) :
    Leads b (step items) Q E := by
  have same : items = (g.node i).body.items := by
    rw [← (kept.reworked.node i).items, body]
    rfl
  cases found : items with
  | nil => exact none
  | cons j rest =>
    have part : ∀ k ∈ items, k ∈ g.below i := fun k item => NodeBody.mem_parts_of_item (same ▸ item)
    rw [← found]
    exact each (builds (Graph.inside_of_part (part j (found ▸ List.mem_cons_self)))) fun k item =>
      closed i here k (part k item)

theorem pairs_leads (kept : Kept g led begun b) (context : String) :
    Leads b (pairs build context i) (fun _ b' => Kept g led begun b') (Stops g led) := by
  unfold pairs
  refine leads_nodeAt ?_
  split
  · rename_i items inFlow body
    refine leads_then (items_leads closed here builds kept body (leads_pure kept)
      fun builds inside => pairItems_leads closed builds context _ inside kept) ?_
    exact fun _ b₁ kept₁ => leads_pure kept₁
  · exact leads_throw ⟨kept.reworked, by simp⟩

omit closed here builds in
theorem mapM_leads (builds : Builds g led begun build) {items : List NodeId}
    (inside : ∀ j ∈ items, led j) :
    ∀ {b : Builder}, Kept g led begun b →
      Leads b (items.mapM build) (fun _ b' => Kept g led begun b') (Stops g led) := by
  induction items with
  | nil => exact fun kept => leads_pure kept
  | cons i rest ih =>
    intro b kept
    rw [List.mapM_cons]
    refine leads_then (builds b i kept (inside i List.mem_cons_self)) ?_
    intro d b₁ kept₁
    refine leads_then (ih (fun j member => inside j (List.mem_cons_of_mem _ member)) kept₁) ?_
    exact fun _ b₂ kept₂ => leads_pure kept₂

theorem sequence_leads (kept : Kept g led begun b) :
    Leads b (sequence build i) (fun _ b' => Kept g led begun b') (Stops g led) := by
  unfold sequence
  refine leads_nodeAt ?_
  split
  · rename_i items inFlow body
    refine leads_then (items_leads closed here builds kept body (leads_pure kept)
      fun builds inside => mapM_leads builds inside kept) ?_
    exact fun _ b₁ kept₁ => leads_pure kept₁
  · exact leads_throw ⟨kept.reworked, by simp⟩

theorem ofTag_leads (kept : Kept g led begun b) :
    Leads b (ofTag build i) (fun _ b' => Kept g led begun b') (Stops g led) := by
  have entries : ∀ f : List Entry → Datum,
      Leads b (mapping build i >>= fun es => pure (f es)) (fun _ b' => Kept g led begun b')
        (Stops g led) := fun f =>
    leads_then (mapping_leads closed here builds kept) fun _ _ kept₁ => leads_pure kept₁
  have scalar {read : List Char → Except ScalarFailure Datum} (finite : ∀ cs, Finite (read cs)) :
      Leads b (ofText i read) (fun _ b' => Kept g led begun b') (Stops g led) := ofText_leads kept finite
  unfold ofTag
  refine leads_nodeAt ?_
  apply leads_ite (scalar fun _ => by trivial)
  apply leads_ite (scalar fun cs => finite_of_ends (ScalarValue.int_ends cs) fun f is => by simp [is.1])
  apply leads_ite (sequence_leads closed here builds kept)
  apply leads_ite (entries _)
  apply leads_ite (scalar fun _ => by trivial)
  apply leads_ite (scalar fun cs => finite_of_ends (ScalarValue.bool_ends cs) fun f is => by simp [is.1])
  apply leads_ite
  · refine scalar fun cs => finite_of_ends (ScalarValue.float_ends cs) fun f is => ?_
    rcases is with is | is <;> simp [is.1]
  apply leads_ite (timestamp_leads kept)
  apply leads_ite (scalar fun cs => ScalarValue.binary_ends cs)
  apply leads_ite (entries _)
  apply leads_ite (pairs_leads closed here builds kept _)
  apply leads_ite (pairs_leads closed here builds kept _)
  exact leads_throw ⟨kept.reworked, by simp⟩

end Values

/-! The nodes that can still be begun -/

def free (g : Graph) (begun : List NodeId) : Nat := ((Finset.range g.size).filter (· ∉ begun)).card

theorem free_cons_lt {i : NodeId} (inside : i < g.size) (fresh : i ∉ begun) :
    free g (i :: begun) < free g begun := by
  apply Finset.card_lt_card
  refine Finset.ssubset_iff_of_subset ?_ |>.mpr ⟨i, by simp [inside, fresh], by simp⟩
  intro j
  simp +contextual

/-- By induction on the fuel, which is more than the nodes that can still be begun. -/
theorem datum_leads (closed : ∀ i, led i → ∀ j ∈ g.below i, led j) (fuel : Nat) :
    ∀ {begun}, free g begun < fuel → Builds g led begun (datum · fuel) := by
  induction fuel with
  | zero => exact fun few => absurd few (Nat.not_lt_zero _)
  | succ fuel ih =>
    intro begun few b i kept here
    unfold datum
    refine leads_get ?_
    dsimp only
    split
    · exact leads_pure kept
    · rename_i unbuilt
      rw [kept.begun]
      refine leads_when (fun _ => ?_) fun fresh => ?_
      · exact leads_bind (leads_throw ⟨kept.reworked, by simp⟩)
      · have notBegun : i ∉ begun := by simpa using fresh
        refine leads_bind (leads_modify ?_)
        have started : Kept g led (i :: begun) { b with begun := i :: b.begun } :=
          ⟨kept.reworked, congrArg (i :: ·) kept.begun⟩
        refine leads_then (ofTag_leads closed here (fun inside => ih ?_) started) ?_
        · have fewer := free_cons_lt inside notBegun
          omega
        · intro d b₁ kept₁
          refine leads_bind (leads_modify (leads_pure ⟨kept₁.reworked, ?_⟩))
          have others : ∀ j ∈ begun, decide (j ≠ i) = true := by
            intro j member
            simp only [ne_eq, decide_eq_true_eq]
            rintro rfl
            exact notBegun member
          dsimp only
          rw [kept₁.begun, List.filter_cons_of_neg (by simp), List.filter_eq_self.mpr others]

theorem value_leads (closed : ∀ i, led i → ∀ j ∈ g.below i, led j) (reworked : g.Reworked led b.graph)
    (here : led i) :
    Leads b (value i) (fun _ b' => g.Reworked led b'.graph) (Stops g led) := by
  unfold value
  refine leads_get ?_
  have few : free g b.begun < b.graph.size + 2 := by
    have most : free g b.begun ≤ (Finset.range g.size).card :=
      Finset.card_le_card (Finset.filter_subset _ _)
    rw [Finset.card_range] at most
    rw [reworked.size]
    omega
  exact leads_weaken (datum_leads closed _ few b i ⟨reworked, rfl⟩ here) (fun _ _ kept => kept.reworked)
    fun _ _ => id

end Build
end MailRules.Yaml
