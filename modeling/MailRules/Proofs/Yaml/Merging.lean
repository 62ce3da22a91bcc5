import Mathlib
import MailRules.Proofs.Yaml.Invariants
/-!
What merging makes of the nodes of a graph. The entries that a merge key stands for take its place in the
mapping itself, for whoever reads the mapping later. Of the graph as it was composed this much is left:
scalars and sequences are as they were, a mapping without a merge key is as it was, and a mapping with
one keeps its other entries and gains only entries of mappings that are merged into it. A merge ends
because every step down removes a merge key and none is ever added.
-/
namespace MailRules.Yaml

namespace Graph

def isMerge (g : Graph) (e : NodeId × NodeId) : Bool := (g.node e.1).tag = Tag.merge

def HasMerge (g : Graph) (i : NodeId) : Prop := ∃ e ∈ (g.node i).body.entries, g.isMerge e = true

def plainEntries (g : Graph) (body : NodeBody) : List (NodeId × NodeId) :=
  body.entries.filter (!g.isMerge ·)

def MergeFree (g : Graph) (body : NodeBody) : Prop := ∀ e ∈ body.entries, g.isMerge e = false

/-- The entry is one of the mapping, or of a mapping that is merged into it. -/
inductive EntryOf (g : Graph) : NodeId → NodeId × NodeId → Prop
  | own {i : NodeId} {e : NodeId × NodeId} (entry : e ∈ (g.node i).body.entries) : EntryOf g i e
  | merged {i k v : NodeId} {e : NodeId × NodeId} (key : EntryOf g i (k, v))
      (merge : g.isMerge (k, v) = true) (entry : EntryOf g v e) : EntryOf g i e
  | listed {i k v j : NodeId} {e : NodeId × NodeId} (key : EntryOf g i (k, v))
      (merge : g.isMerge (k, v) = true) (item : j ∈ (g.node v).body.items) (entry : EntryOf g j e) :
      EntryOf g i e

/-- The body of a mapping some of whose merge keys have been replaced. -/
structure Merged (g : Graph) (led : NodeId → Prop) (i : NodeId) (body : NodeBody) : Prop where
  led : led i
  hasMerge : g.HasMerge i
  isMapping : ∃ shown inFlow, body = .mapping shown inFlow
  kept : (g.plainEntries (g.node i).body).Sublist (g.plainEntries body)
  entries : ∀ e ∈ body.entries, g.EntryOf i e

/-- What may have become of a node, where merges reach only the nodes that are led to. -/
structure Rework (g : Graph) (led : NodeId → Prop) (i : NodeId) (n : Node) : Prop where
  mark : n.mark = (g.node i).mark
  tag : n.tag = (g.node i).tag ∨ (g.node i).tag = Tag.value ∧ n.tag = Tag.str
  body : n.body = (g.node i).body ∨ g.Merged led i n.body

structure Reworked (g : Graph) (led : NodeId → Prop) (h : Graph) : Prop where
  size : h.size = g.size
  node : ∀ i, g.Rework led i (h.node i)

variable {g h : Graph} {led led' : NodeId → Prop} {i j : NodeId} {n : Node}

theorem reworked_self (g : Graph) (led : NodeId → Prop) : g.Reworked led g :=
  ⟨rfl, fun _ => ⟨rfl, .inl rfl, .inl rfl⟩⟩

theorem Reworked.mono (reworked : g.Reworked led h) (more : ∀ i, led i → led' i) :
    g.Reworked led' h where
  size := reworked.size
  node := fun i => by
    obtain ⟨mark, tag, body⟩ := reworked.node i
    exact ⟨mark, tag, body.imp id fun merged => { merged with led := more i merged.led }⟩

theorem mapping_of_entry {body : NodeBody} {e : NodeId × NodeId} (entry : e ∈ body.entries) :
    ∃ entries inFlow, body = .mapping entries inFlow := by
  cases body with
  | mapping entries inFlow => exact ⟨entries, inFlow, rfl⟩
  | scalar text style => exact absurd entry List.not_mem_nil
  | sequence items inFlow => exact absurd entry List.not_mem_nil

theorem HasMerge.mapping (has : g.HasMerge i) : ∃ own inFlow, (g.node i).body = .mapping own inFlow :=
  mapping_of_entry has.choose_spec.1

theorem absent_of_outside (outside : ¬i < g.size) : g.node i = absent := by
  simpa [node, size] using Array.getElem?_eq_none (Nat.le_of_not_lt outside) ▸ rfl

theorem inside_of_part (part : j ∈ g.below i) : i < g.size := by
  by_contra outside
  rw [below, absent_of_outside outside] at part
  cases part

theorem EntryOf.inside {e : NodeId × NodeId} (entry : g.EntryOf i e) : i < g.size := by
  induction entry with
  | own entry => exact inside_of_part (NodeBody.mem_parts_of_entry entry).1
  | merged _ _ _ inside => exact inside
  | listed _ _ _ _ inside => exact inside

/-- Merges lead nowhere but down. -/
theorem EntryOf.led_of_closed (closed : ∀ i, led i → ∀ j ∈ g.below i, led j) {e : NodeId × NodeId}
    (entry : g.EntryOf i e) : led i → led e.1 ∧ led e.2 := by
  induction entry with
  | own entry =>
    intro here
    exact ⟨closed _ here _ (NodeBody.mem_parts_of_entry entry).1,
      closed _ here _ (NodeBody.mem_parts_of_entry entry).2⟩
  | merged key merge entry keyLed led => exact fun here => led (keyLed here).2
  | listed key merge item entry keyLed led =>
    exact fun here => led (closed _ (keyLed here).2 _ (NodeBody.mem_parts_of_item item))

/-! What is left of a node -/

section Left
variable (rework : g.Rework led i n)
include rework

theorem Rework.entryOf : ∀ e ∈ n.body.entries, g.EntryOf i e := by
  rcases rework.body with same | merged
  · rw [same]
    exact fun e entry => .own entry
  · exact merged.entries

theorem Rework.scalar_iff (text : String) (style : ScalarStyle) :
    n.body = .scalar text style ↔ (g.node i).body = .scalar text style := by
  rcases rework.body with same | merged
  · rw [same]
  · obtain ⟨shown, inFlow, body⟩ := merged.isMapping
    obtain ⟨own, ownFlow, before⟩ := merged.hasMerge.mapping
    simp [body, before]

theorem Rework.items : n.body.items = (g.node i).body.items := by
  rcases rework.body with same | merged
  · rw [same]
  · obtain ⟨shown, inFlow, body⟩ := merged.isMapping
    obtain ⟨own, ownFlow, before⟩ := merged.hasMerge.mapping
    rw [body, before]
    rfl

theorem Rework.isMapping : Build.isMapping n = Build.isMapping (g.node i) := by
  rcases rework.body with same | merged
  · simp only [Build.isMapping, same]
  · obtain ⟨shown, inFlow, body⟩ := merged.isMapping
    obtain ⟨own, ownFlow, before⟩ := merged.hasMerge.mapping
    simp only [Build.isMapping, body, before]

theorem Rework.tag_iff {tag : String} (noValue : tag ≠ Tag.value) (noText : tag ≠ Tag.str) :
    n.tag = tag ↔ (g.node i).tag = tag := by
  rcases rework.tag with same | ⟨before, after⟩
  · rw [same]
  · rw [before, after]
    exact iff_of_false (Ne.symm noText) (Ne.symm noValue)

theorem Rework.value_of_tag (value : n.tag = Tag.value) : (g.node i).tag = Tag.value := by
  rcases rework.tag with same | ⟨before, after⟩
  · rw [← same, value]
  · exact before

theorem Rework.hasMerge {e : NodeId × NodeId} (entry : e ∈ n.body.entries)
    (merge : g.isMerge e = true) : g.HasMerge i := by
  rcases rework.body with same | merged
  · exact ⟨e, same ▸ entry, merge⟩
  · exact merged.hasMerge

/-- Merges leave what has no merge key alone, and what they do not reach. -/
theorem Rework.body_of_untouched (untouched : ¬g.HasMerge i ∨ ¬led i) : n.body = (g.node i).body := by
  refine rework.body.resolve_right fun merged => ?_
  rcases untouched with noMerge | apart
  · exact noMerge merged.hasMerge
  · exact apart merged.led

theorem Rework.kept : (g.plainEntries (g.node i).body).Sublist (g.plainEntries n.body) := by
  rcases rework.body with same | merged
  · rw [same]
  · exact merged.kept

theorem Rework.merged {shown : List (NodeId × NodeId)} {inFlow : Bool} (here : led i) (has : g.HasMerge i)
    (kept : (g.plainEntries n.body).Sublist (g.plainEntries (.mapping shown inFlow)))
    (entries : ∀ e ∈ shown, g.EntryOf i e) : g.Merged led i (.mapping shown inFlow) :=
  ⟨here, has, ⟨shown, inFlow, rfl⟩, rework.kept.trans kept, entries⟩

end Left

theorem Reworked.isMerge_iff (reworked : g.Reworked led h) (e : NodeId × NodeId) :
    (h.node e.1).tag = Tag.merge ↔ g.isMerge e = true := by
  rw [isMerge, decide_eq_true_eq]
  exact (reworked.node e.1).tag_iff (by decide) (by decide)

theorem Reworked.setBody (reworked : g.Reworked led h) {body : NodeBody} (merged : g.Merged led i body) :
    g.Reworked led (h.setBody i body) where
  size := by simpa [Graph.setBody, Graph.size] using reworked.size
  node := fun j => by
    rw [Graph.setBody, node_modify]
    split
    · rename_i here
      obtain ⟨rfl, -⟩ := here
      exact ⟨(reworked.node i).mark, (reworked.node i).tag, .inr merged⟩
    · exact reworked.node j

theorem Reworked.take (reworked : g.Reworked led h) (here : led i) {e : NodeId × NodeId}
    {front back : List (NodeId × NodeId)} {inFlow : Bool}
    (body : (h.node i).body = .mapping (front ++ e :: back) inFlow) (merge : g.isMerge e = true) :
    g.Reworked led (h.setBody i (.mapping (front ++ back) inFlow)) := by
  have entry : e ∈ (h.node i).body.entries := by
    rw [body]
    simp [NodeBody.entries]
  refine reworked.setBody ((reworked.node i).merged here ((reworked.node i).hasMerge entry merge) ?_ ?_)
  · rw [body]
    simp [plainEntries, NodeBody.entries, merge]
  · intro f member
    apply (reworked.node i).entryOf
    rw [body]
    simp only [NodeBody.entries, List.mem_append, List.mem_cons] at member ⊢
    tauto

theorem Reworked.setTag (reworked : g.Reworked led h) (value : (g.node i).tag = Tag.value) :
    g.Reworked led (h.setTag i Tag.str) where
  size := by simpa [Graph.setTag, Graph.size] using reworked.size
  node := fun j => by
    rw [Graph.setTag, node_modify]
    split
    · rename_i here
      obtain ⟨rfl, -⟩ := here
      exact ⟨(reworked.node i).mark, .inr ⟨value, rfl⟩, (reworked.node i).body⟩
    · exact reworked.node j

/-! How many merge keys are left -/

def merges (g h : Graph) : Nat := ∑ i ∈ Finset.range h.size, (h.node i).body.entries.countP g.isMerge

/-- Every node is as it was, or it has no merge key left. -/
def Cleaner (g h h' : Graph) : Prop :=
  ∀ i, (h'.node i).body = (h.node i).body ∨ g.MergeFree (h'.node i).body

theorem cleaner_self (g h : Graph) : g.Cleaner h h := fun _ => .inl rfl

theorem Cleaner.trans {h' h'' : Graph} (first : g.Cleaner h h') (second : g.Cleaner h' h'') :
    g.Cleaner h h'' := by
  intro i
  rcases second i with same | free
  · rw [same]
    exact first i
  · exact .inr free

theorem Cleaner.mergeFree {h' : Graph} (cleaner : g.Cleaner h h') (free : g.MergeFree (h.node i).body) :
    g.MergeFree (h'.node i).body := by
  rcases cleaner i with same | free'
  · rwa [same]
  · exact free'

theorem Cleaner.merges_le {h' : Graph} (cleaner : g.Cleaner h h') (size : h'.size = h.size) :
    g.merges h' ≤ g.merges h := by
  rw [merges, merges, size]
  apply Finset.sum_le_sum
  intro i _
  rcases cleaner i with same | free
  · rw [same]
  · have none : (h'.node i).body.entries.countP g.isMerge = 0 :=
      List.countP_eq_zero.mpr fun e entry => by simp [free e entry]
    rw [none]
    exact Nat.zero_le _

theorem merges_lt_of_taken {h' : Graph} (size : h'.size = h.size) {e : NodeId × NodeId}
    {front back : List (NodeId × NodeId)} (merge : g.isMerge e = true)
    (before : (h.node i).body.entries = front ++ e :: back)
    (after : (h'.node i).body.entries = front ++ back)
    (others : ∀ j, j ≠ i → (h'.node j).body = (h.node j).body) : g.merges h' < g.merges h := by
  rw [merges, merges, size]
  have here : i < h.size := by
    apply inside_of_part (j := e.1)
    exact (NodeBody.mem_parts_of_entry (before ▸ by simp)).1
  apply Finset.sum_lt_sum
  · intro j _
    by_cases same : j = i
    · subst same
      simp [before, after, List.countP_append, List.countP_cons]
    · rw [others j same]
  · refine ⟨i, Finset.mem_range.mpr here, ?_⟩
    simp [before, after, List.countP_append, merge]

theorem sum_range_getD {α : Type} (a : Array α) (d : α) (f : α → Nat) :
    ∑ i ∈ Finset.range a.size, f (a.getD i d) = (a.toList.map f).sum := by
  have same : a.toList.map f = List.ofFn fun i : Fin a.size => f (a.getD i d) := by
    apply List.ext_getElem (by simp)
    intro i _ _
    simp
  rw [same, List.sum_ofFn, Finset.sum_range]

theorem flattenFuel_eq (h : Graph) : Build.flattenFuel h =
    8 + 4 * h.nodes.toList.foldl (fun n x => n + 1 + x.body.count) 0 := by
  rw [Build.flattenFuel, ← Array.foldl_toList]
  refine congrArg (fun step => 8 + 4 * h.nodes.toList.foldl step 0) ?_
  funext n x
  cases x.body <;> rfl

/-- The fuel of a merge is enough for two steps down for each merge key. -/
theorem merges_fuel (g h : Graph) : 2 * g.merges h + 2 ≤ Build.flattenFuel h := by
  have counted : ∀ (ns : List Node) (start : Nat), start + (ns.map (·.body.count)).sum ≤
      ns.foldl (fun n x => n + 1 + x.body.count) start := by
    intro ns
    induction ns with
    | nil => simp
    | cons n ns ih =>
      intro start
      have rest := ih (start + 1 + n.body.count)
      simp only [List.map_cons, List.sum_cons, List.foldl_cons]
      omega
  have entries : ∀ n : Node, n.body.entries.countP g.isMerge ≤ n.body.count := by
    intro n
    cases n.body <;> simp [NodeBody.entries, NodeBody.count, List.countP_le_length]
  have total : g.merges h ≤ (h.nodes.toList.map (·.body.count)).sum := by
    rw [← sum_range_getD h.nodes absent]
    exact Finset.sum_le_sum fun i _ => entries (h.node i)
  have fuel := counted h.nodes.toList 0
  rw [flattenFuel_eq]
  omega

end Graph

namespace Build

/-! Merging -/

structure Flattened (g : Graph) (led : NodeId → Prop) (b b' : Builder) : Prop where
  reworked : g.Reworked led b'.graph
  cleaner : g.Cleaner b.graph b'.graph
  begun : b'.begun = b.begun

/-- A merge may be refused, but it does not go on without end. -/
def Refused (g : Graph) (led : NodeId → Prop) (failure : BuildFailure) (b' : Builder) : Prop :=
  g.Reworked led b'.graph ∧ failure ≠ .fault .endlessNesting

def Taken (g : Graph) (i : NodeId) (place : Nat) (h h' : Graph) : Option (Nat × NodeId) → Prop
  | none => (∀ j, (h'.node j).body = (h.node j).body) ∧
      ∀ e ∈ (h.node i).body.entries.drop place, g.isMerge e = false
  | some (next, v) => (∀ j, j ≠ i → (h'.node j).body = (h.node j).body) ∧
      ∃ k front back, (h.node i).body.entries = front ++ (k, v) :: back ∧
        (h'.node i).body.entries = front ++ back ∧ front.length = next ∧
        g.isMerge (k, v) = true ∧ ∀ e ∈ front.drop place, g.isMerge e = false

variable {g : Graph} {led : NodeId → Prop} {b : Builder} {i : NodeId}

theorem Flattened.trans {b' b'' : Builder} (first : Flattened g led b b')
    (second : Flattened g led b' b'') : Flattened g led b b'' :=
  ⟨second.reworked, first.cleaner.trans second.cleaner, second.begun.trans first.begun⟩

theorem Flattened.merges_le {b' : Builder} (reworked : g.Reworked led b.graph)
    (flattened : Flattened g led b b') : g.merges b'.graph ≤ g.merges b.graph :=
  flattened.cleaner.merges_le (flattened.reworked.size.trans reworked.size.symm)

theorem setTexts_leads (h : Graph)
    (values : ∀ k, (h.node k).tag = Tag.value → (g.node k).tag = Tag.value)
    {E : BuildFailure → Builder → Prop} (es : List (NodeId × NodeId)) :
    ∀ {b : Builder}, g.Reworked led b.graph →
      Leads b (es.forM fun e => do
        if (h.node e.1).tag = Tag.value then
          modify fun b => { b with graph := b.graph.setTag e.1 Tag.str })
        (fun _ b' => g.Reworked led b'.graph ∧ b'.begun = b.begun ∧
          ∀ j, (b'.graph.node j).body = (b.graph.node j).body) E := by
  induction es with
  | nil => exact fun reworked => leads_pure ⟨reworked, rfl, fun _ => rfl⟩
  | cons e es ih =>
    intro b reworked
    refine leads_bind ?_
    dsimp only
    split
    · rename_i value
      have bodies : ∀ j, ((b.graph.setTag e.1 Tag.str).node j).body = (b.graph.node j).body := by
        intro j
        rw [Graph.setTag, Graph.node_modify]
        split <;> rfl
      refine leads_modify (leads_weaken (ih (reworked.setTag (values e.1 value))) ?_ fun _ _ => id)
      rintro _ b' ⟨after, begun, same⟩
      exact ⟨after, begun, fun j => (same j).trans (bodies j)⟩
    · exact leads_pure (ih reworked)

theorem split_first {α : Type} {p : α → Bool} {as rest : List α} {a : α} {place : Nat}
    (found : (as.drop place).drop ((as.drop place).takeWhile p).length = a :: rest) :
    ∃ front, as = front ++ a :: rest ∧ p a = false ∧ front.drop place = (as.drop place).takeWhile p ∧
      front.length = place + ((as.drop place).takeWhile p).length := by
  have split : (as.drop place).takeWhile p ++ a :: rest = as.drop place := by
    rw [← found]
    exact List.prefix_iff_eq_append.mp (List.takeWhile_prefix p)
  have first : (as.take place).length = place := by
    have reaches := congrArg List.length split
    simp only [List.length_drop, List.length_append, List.length_cons] at reaches
    rw [List.length_take]
    omega
  refine ⟨as.take place ++ (as.drop place).takeWhile p, ?_, ?_, ?_, ?_⟩
  · rw [List.append_assoc, split, List.take_append_drop]
  · have dropped : (as.drop place).dropWhile p = a :: rest := by
      refine (List.append_right_inj ((as.drop place).takeWhile p)).mp ?_
      rw [List.takeWhile_append_dropWhile, split]
    by_contra passes
    have again := List.dropWhile_idempotent p (as.drop place)
    rw [dropped, List.dropWhile_cons, if_pos (by simpa using passes)] at again
    have shorter := List.length_dropWhile_le p rest
    rw [again] at shorter
    simp at shorter
  · exact List.drop_left' first
  · rw [List.length_append, first]

theorem leads_setBody {body : NodeBody} {α : Type} {next : PUnit → Build α}
    {Q : α → Builder → Prop} {E : BuildFailure → Builder → Prop}
    (later : Leads { b with graph := b.graph.setBody i body } (next ⟨⟩) Q E) :
    Leads b (setBody i body >>= next) Q E := leads_bind later

theorem node_setBody_self {h : Graph} {body : NodeBody} {e : NodeId × NodeId}
    (entry : e ∈ (h.node i).body.entries) : ((h.setBody i body).node i).body = body := by
  have inside : i < h.size := Graph.inside_of_part (NodeBody.mem_parts_of_entry entry).1
  rw [Graph.setBody, Graph.node_modify, if_pos ⟨rfl, inside⟩]

theorem node_setBody_other {h : Graph} {body : NodeBody} {j : NodeId} (other : j ≠ i) :
    (h.setBody i body).node j = h.node j := by
  rw [Graph.setBody, Graph.node_modify, if_neg fun same => other same.1.symm]

theorem takeMerge_leads (reworked : g.Reworked led b.graph) (here : led i) (place : Nat)
    {E : BuildFailure → Builder → Prop} :
    Leads b (takeMerge i place)
      (fun taken b' => g.Reworked led b'.graph ∧ b'.begun = b.begun ∧
        Taken g i place b.graph b'.graph taken) E := by
  refine leads_nodeAt ?_
  split
  · rename_i entries inFlow body
    refine leads_get ?_
    dsimp only
    refine leads_then (setTexts_leads b.graph
      (fun k => (reworked.node k).value_of_tag) _ reworked) ?_
    rintro _ b' ⟨after, begun, same⟩
    have passed : ∀ e ∈ (entries.drop place).takeWhile
        (fun e => (b.graph.node e.1).tag ≠ Tag.merge), g.isMerge e = false := by
      intro e member
      have other : (b.graph.node e.1).tag ≠ Tag.merge := by
        simpa using List.mem_takeWhile_imp member
      exact Bool.eq_false_iff.mpr fun merge => other ((reworked.isMerge_iff e).mpr merge)
    split
    · rename_i k v rest found
      obtain ⟨front, whole, stops, between, length⟩ := split_first found
      have merge : g.isMerge (k, v) = true := (reworked.isMerge_iff (k, v)).mp (by simpa using stops)
      rw [← between] at passed
      rw [← length]
      have before : entries.take front.length = front := by rw [whole, List.take_left]
      have behind : entries.drop (front.length + 1) = rest := by
        rw [whole, ← List.drop_drop, List.drop_left, List.drop_one, List.tail_cons]
      rw [before, behind]
      have bodyAfter : (b'.graph.node i).body = .mapping (front ++ (k, v) :: rest) inFlow := by
        rw [same i, body, whole]
      have entry : (k, v) ∈ (b'.graph.node i).body.entries := by
        rw [bodyAfter]
        simp [NodeBody.entries]
      refine leads_setBody (leads_pure
        ⟨after.take here bodyAfter merge, begun, ?_, k, front, rest, ?_, ?_, rfl, merge, passed⟩)
      · exact fun j other => (congrArg Node.body (node_setBody_other other)).trans (same j)
      · rw [body]
        exact whole
      · exact congrArg NodeBody.entries (node_setBody_self entry)
    · rename_i none
      refine leads_pure ⟨after, begun, same, ?_⟩
      have all : (entries.drop place).takeWhile
          (fun e => (b.graph.node e.1).tag ≠ Tag.merge) = entries.drop place := by
        apply (List.takeWhile_prefix _).eq_of_length
        have short := List.drop_eq_nil_iff.mp none
        exact le_antisymm (List.takeWhile_prefix _).length_le short
      rw [body]
      exact fun e member => passed e (all.symm ▸ member)
  · rename_i noMapping
    refine leads_pure ⟨reworked, rfl, fun _ => rfl, ?_⟩
    cases body : (b.graph.node i).body with
    | mapping entries inFlow => exact absurd body (noMapping entries inFlow)
    | scalar text style => simp [NodeBody.entries]
    | sequence items inFlow => simp [NodeBody.entries]

def Gained (g : Graph) (i : NodeId) (own : List (NodeId × NodeId)) : Prop :=
  ∀ e ∈ own, g.EntryOf i e ∧ g.isMerge e = false

def Flattens (g : Graph) (led : NodeId → Prop) (m : Nat) (flatten : NodeId → Build Unit) : Prop :=
  ∀ b v, g.Reworked led b.graph → led v → g.merges b.graph ≤ m →
    Leads b (flatten v)
      (fun _ b' => Flattened g led b b' ∧ g.MergeFree (b'.graph.node v).body) (Refused g led)

theorem flattened_self (reworked : g.Reworked led b.graph) : Flattened g led b b :=
  ⟨reworked, g.cleaner_self _, rfl⟩

theorem entriesOf_leads {Q : List (NodeId × NodeId) → Builder → Prop}
    {E : BuildFailure → Builder → Prop} (holds : Q (b.graph.node i).body.entries b) :
    Leads b (entriesOf i) Q E := by
  refine leads_nodeAt ?_
  split
  · rename_i entries inFlow body
    rw [body] at holds
    exact holds
  · rename_i noMapping
    cases body : (b.graph.node i).body with
    | mapping entries inFlow => exact absurd body (noMapping entries inFlow)
    | scalar text style =>
      rw [body] at holds
      exact holds
    | sequence items inFlow =>
      rw [body] at holds
      exact holds

theorem gained_of_mergeFree (reworked : g.Reworked led b.graph)
    (free : g.MergeFree (b.graph.node i).body) : Gained g i (b.graph.node i).body.entries :=
  fun e entry => ⟨(reworked.node i).entryOf e entry, free e entry⟩

theorem mergedItems_leads {flatten : NodeId → Build Unit} {m : Nat} (flattens : Flattens g led m flatten)
    (around : Mark) {items : List NodeId} (inside : ∀ v ∈ items, led v) :
    ∀ {b : Builder}, g.Reworked led b.graph → g.merges b.graph ≤ m →
      Leads b (mergedItems flatten around items)
        (fun parts b' => Flattened g led b b' ∧ ∀ own ∈ parts, ∃ j ∈ items, Gained g j own)
        (Refused g led) := by
  induction items with
  | nil => exact fun reworked _ => leads_pure ⟨flattened_self reworked, by simp⟩
  | cons v rest ih =>
    intro b reworked few
    unfold mergedItems
    refine leads_nodeAt (leads_when (fun _ => ?_) fun _ => ?_)
    · exact leads_bind (leads_throw ⟨reworked, by simp⟩)
    · refine leads_then (flattens b v reworked (inside v List.mem_cons_self) few) ?_
      rintro _ b₁ ⟨first, free⟩
      refine leads_bind (entriesOf_leads ?_)
      have fewer := (first.merges_le reworked).trans few
      have others : ∀ w ∈ rest, led w := fun w member => inside w (List.mem_cons_of_mem v member)
      refine leads_then (ih others first.reworked fewer) ?_
      rintro parts b₂ ⟨second, gained⟩
      refine leads_pure ⟨first.trans second, fun own member => ?_⟩
      rcases List.mem_cons.mp member with rfl | later
      · exact ⟨v, List.mem_cons_self, gained_of_mergeFree first.reworked free⟩
      · obtain ⟨j, item, holds⟩ := gained own later
        exact ⟨j, List.mem_cons_of_mem v item, holds⟩

/-- What comes of a merge: entries to put in front, of a mapping that had merge keys and has none now. -/
structure Replaced (g : Graph) (led : NodeId → Prop) (i : NodeId) (b : Builder)
    (own : List (NodeId × NodeId)) (b' : Builder) : Prop where
  flattened : Flattened g led b b'
  free : g.MergeFree (b'.graph.node i).body
  gained : Gained g i own
  some : own = [] ∨ g.HasMerge i

structure Replaces (g : Graph) (led : NodeId → Prop) (fuel : Nat) : Prop where
  flatten : ∀ m, 2 * m + 2 ≤ fuel → Flattens g led m (flatten · fuel)
  mergedFrom : ∀ {b : Builder} {i : NodeId} (place : Nat), g.Reworked led b.graph → led i →
    2 * g.merges b.graph + 1 ≤ fuel →
    (∀ e ∈ (b.graph.node i).body.entries.take place, g.isMerge e = false) →
    Leads b (mergedFrom i place fuel) (Replaced g led i b) (Refused g led)

section Steps
variable {fuel : Nat} (closed : ∀ i, led i → ∀ j ∈ g.below i, led j) (below : Replaces g led fuel)
include below

theorem flatten_leads (m : Nat) (enough : 2 * m + 2 ≤ fuel + 1) :
    Flattens g led m (flatten · (fuel + 1)) := by
  intro b i reworked here few
  unfold flatten
  refine leads_then (below.mergedFrom 0 reworked here (by omega) (by simp)) ?_
  rintro merged b' ⟨flattened, free, gained, some⟩
  split
  · rename_i nonempty
    have has : g.HasMerge i := some.resolve_left (by simpa using nonempty)
    refine leads_nodeAt ?_
    split
    · rename_i entries inFlow body
      have plain : g.MergeFree (.mapping (merged ++ entries) inFlow) := by
        intro e entry
        rcases List.mem_append.mp entry with new | old
        · exact (gained e new).2
        · exact free e (by rwa [body])
      have result : g.Merged led i (.mapping (merged ++ entries) inFlow) := by
        refine (flattened.reworked.node i).merged here has ?_ ?_
        · rw [body]
          exact (List.sublist_append_right merged entries).filter _
        · intro e entry
          rcases List.mem_append.mp entry with new | old
          · exact (gained e new).1
          · exact (flattened.reworked.node i).entryOf e (by rwa [body])
      have now : ∀ j, ((b'.graph.setBody i (.mapping (merged ++ entries) inFlow)).node j).body =
            (b'.graph.node j).body ∨
          g.MergeFree ((b'.graph.setBody i (.mapping (merged ++ entries) inFlow)).node j).body := by
        intro j
        rw [Graph.setBody, Graph.node_modify]
        split
        · exact .inr plain
        · exact .inl rfl
      refine leads_modify ⟨flattened.trans ⟨flattened.reworked.setBody result, now, rfl⟩, ?_⟩
      exact Graph.Cleaner.mergeFree now free
    · exact leads_pure ⟨flattened, free⟩
  · exact leads_pure ⟨flattened, free⟩

/-- From a place on that only other keys come before, in a builder in which the mapping is as it was or
has no merge key any more. -/
theorem goesOn_leads {b₂ : Builder} {front back : List (NodeId × NodeId)}
    (reworked : g.Reworked led b.graph) (here : led i) (enough : 2 * g.merges b.graph + 1 ≤ fuel)
    (entries : (b.graph.node i).body.entries = front ++ back) (plain : ∀ e ∈ front, g.isMerge e = false)
    (flattened : Flattened g led b b₂) :
    Leads b₂ (mergedFrom i front.length fuel) (Replaced g led i b) (Refused g led) := by
  have passed : ∀ e ∈ (b₂.graph.node i).body.entries.take front.length, g.isMerge e = false := by
    intro e member
    rcases flattened.cleaner i with still | free
    · rw [still, entries, List.take_left] at member
      exact plain e member
    · exact free e (List.mem_of_mem_take member)
  have fewer := flattened.merges_le reworked
  refine leads_weaken (below.mergedFrom _ flattened.reworked here (by omega) passed) ?_ fun _ _ => id
  exact fun own b₃ last => { last with flattened := flattened.trans last.flattened }

include closed

theorem mergedFrom_leads (place : Nat) (reworked : g.Reworked led b.graph) (here : led i)
    (enough : 2 * g.merges b.graph + 1 ≤ fuel + 1)
    (before : ∀ e ∈ (b.graph.node i).body.entries.take place, g.isMerge e = false) :
    Leads b (mergedFrom i place (fuel + 1)) (Replaced g led i b) (Refused g led) := by
  unfold mergedFrom
  refine leads_then (takeMerge_leads reworked here place) ?_
  rintro taken b₁ ⟨reworked₁, begun₁, isTaken⟩
  split
  · obtain ⟨same, after⟩ := isTaken
    refine leads_pure ⟨⟨reworked₁, fun j => .inl (same j), begun₁⟩, ?_, by simp [Gained], .inl rfl⟩
    intro e entry
    rw [same i, ← List.take_append_drop place (b.graph.node i).body.entries] at entry
    exact (List.mem_append.mp entry).elim (before e) (after e)
  · rename_i next v
    obtain ⟨same, k, front, back, whole, left, rfl, merge, between⟩ := isTaken
    have entry : (k, v) ∈ (b.graph.node i).body.entries := whole ▸ by simp
    have key : g.EntryOf i (k, v) := (reworked.node i).entryOf _ entry
    have has : g.HasMerge i := (reworked.node i).hasMerge entry merge
    have below' : led v := (key.led_of_closed closed here).2
    have fewer : g.merges b₁.graph < g.merges b.graph :=
      Graph.merges_lt_of_taken (reworked₁.size.trans reworked.size.symm) merge whole left same
    have plain : ∀ e ∈ front, g.isMerge e = false := by
      intro e member
      rw [← List.take_append_drop place front] at member
      rcases List.mem_append.mp member with earlier | later
      · apply before e
        rw [whole, List.take_append]
        exact List.mem_append_left _ earlier
      · exact between e later
    refine leads_nodeAt (leads_nodeAt ?_)
    extract_lets around finish
    have finishes : ∀ own b₂, Flattened g led b₁ b₂ → Gained g i own →
        Leads b₂ (finish own) (Replaced g led i b) (Refused g led) := by
      intro own b₂ flattened gained
      refine leads_then (goesOn_leads below reworked₁ here (by omega) left plain flattened) ?_
      rintro rest b₃ ⟨last, free, more, -⟩
      refine leads_pure ⟨⟨last.reworked, fun j => ?_, last.begun.trans begun₁⟩, free, ?_, .inr has⟩
      · by_cases other : j = i
        · exact .inr (other ▸ free)
        · exact (last.cleaner j).imp (·.trans (same j other)) id
      · intro e member
        exact (List.mem_append.mp member).elim (gained e) (more e)
    split
    · refine leads_then (below.flatten _ (by omega) b₁ v reworked₁ below' le_rfl) ?_
      rintro _ b₂ ⟨flattened, free⟩
      refine leads_bind (entriesOf_leads (finishes _ b₂ flattened ?_))
      intro e member
      obtain ⟨entry, other⟩ := gained_of_mergeFree flattened.reworked free e member
      exact ⟨.merged key merge entry, other⟩
    · rename_i items inFlow body
      have items_eq : items = (g.node v).body.items := by
        rw [← (reworked₁.node v).items, body]
        rfl
      have inside : ∀ j ∈ items, led j := by
        intro j item
        exact closed v below' j (NodeBody.mem_parts_of_item (items_eq ▸ item))
      refine leads_then (mergedItems_leads (below.flatten (g.merges b₁.graph) (by omega))
        _ inside reworked₁ le_rfl) ?_
      rintro parts b₂ ⟨flattened, gained⟩
      refine leads_bind (leads_pure (finishes _ b₂ flattened ?_))
      intro e member
      obtain ⟨own, part, inOwn⟩ := List.mem_flatten.mp member
      obtain ⟨j, item, holds⟩ := gained own (List.mem_reverse.mp part)
      exact ⟨.listed key merge (items_eq ▸ item) (holds e inOwn).1, (holds e inOwn).2⟩
    · exact leads_bind (leads_throw ⟨reworked₁, by simp⟩)

end Steps

/-- By induction on the fuel, both parts of a merge together. -/
theorem merges_lead (closed : ∀ i, led i → ∀ j ∈ g.below i, led j) (fuel : Nat) :
    Replaces g led fuel := by
  induction fuel with
  | zero => exact ⟨fun m enough => by omega, fun _ _ _ enough _ => by omega⟩
  | succ fuel below =>
    exact ⟨fun m enough => flatten_leads below m enough, fun place reworked here enough before =>
      mergedFrom_leads closed below place reworked here enough before⟩

end Build
end MailRules.Yaml
