import MailRules.Proofs.Yaml.Secrecy
/-!
The text of a node is written from the nodes that it leads to: the writers of collections do as the
writers of their items do, so that a scalar that a node does not lead to leaves its text as it is.
-/
namespace MailRules.Yaml

namespace Print

theorem flowItems_congr {item item' : NodeId → Print Unit} {items : List NodeId}
    (same : ∀ j ∈ items, item j = item' j) :
    ∀ isFirst, flowItems item isFirst items = flowItems item' isFirst items := by
  induction items with
  | nil => exact fun _ => rfl
  | cons j items ih =>
    intro isFirst
    rw [flowItems, flowItems, same j List.mem_cons_self,
      ih (fun k member => same k (List.mem_cons_of_mem _ member)) false]

theorem blockItems_congr {item item' : NodeId → Print Unit} {items : List NodeId}
    (same : ∀ j ∈ items, item j = item' j) : blockItems item items = blockItems item' items := by
  induction items with
  | nil => rfl
  | cons j items ih =>
    rw [blockItems, blockItems, same j List.mem_cons_self,
      ih fun k member => same k (List.mem_cons_of_mem _ member)]

structure SameWriters (isSimple isSimple' : NodeId → Print Bool)
    (item item' : Place → NodeId → Print Unit)
    (e : NodeId × NodeId) : Prop where
  isSimple : isSimple e.1 = isSimple' e.1
  key : ∀ place, item place e.1 = item' place e.1
  value : ∀ place, item place e.2 = item' place e.2

variable {isSimple isSimple' : NodeId → Print Bool} {item item' : Place → NodeId → Print Unit}
  {entries : List (NodeId × NodeId)}

theorem flowEntries_congr (same : ∀ e ∈ entries, SameWriters isSimple isSimple' item item' e) :
    ∀ isFirst, flowEntries isSimple item isFirst entries =
      flowEntries isSimple' item' isFirst entries := by
  induction entries with
  | nil => exact fun _ => rfl
  | cons e entries ih =>
    intro isFirst
    obtain ⟨simple, key, value⟩ := same e List.mem_cons_self
    simp only [flowEntries, simple, key, value,
      ih fun e member => same e (List.mem_cons_of_mem _ member)]

theorem blockEntries_congr (same : ∀ e ∈ entries, SameWriters isSimple isSimple' item item' e) :
    blockEntries isSimple item entries = blockEntries isSimple' item' entries := by
  induction entries with
  | nil => rfl
  | cons e entries ih =>
    obtain ⟨simple, key, value⟩ := same e List.mem_cons_self
    simp only [blockEntries, simple, key, value,
      ih fun e member => same e (List.mem_cons_of_mem _ member)]

end Print

namespace Secret
open Print

variable {s : Secret} {b b' : Builder} (alike : s.Alike b b')
include alike

theorem visit_together (fuel : Nat) : ∀ {i}, s.away i → ∀ m : Meetings,
    m.visit b.graph i fuel = m.visit b'.graph i fuel := by
  induction fuel with
  | zero => exact fun _ _ => rfl
  | succ fuel ih =>
    intro i away m
    have inside := (alike.seen i).inside away
    unfold Meetings.visit
    rw [← alike.node away]
    dsimp only
    cases body : (b.graph.node i).body with
    | scalar text style => rfl
    | sequence items inFlow =>
      rw [body] at inside
      have walks : ∀ start : Meetings, items.foldl (fun m j => m.visit b.graph j fuel) start =
          items.foldl (fun m j => m.visit b'.graph j fuel) start := fun start =>
        List.foldl_ext _ _ start fun m j member => ih (inside j member) m
      dsimp only
      rw [walks]
    | mapping entries inFlow =>
      rw [body] at inside
      have walks : ∀ start : Meetings,
          entries.foldl (fun m e => (m.visit b.graph e.1 fuel).visit b.graph e.2 fuel) start =
            entries.foldl (fun m e => (m.visit b'.graph e.1 fuel).visit b'.graph e.2 fuel) start := by
        intro start
        apply List.foldl_ext
        intro m e member
        obtain ⟨key, value⟩ := awayEntries inside e member
        rw [ih key, ih value]
      dsimp only
      rw [walks]

theorem node_together (anchors : List NodeId) (fuel : Nat) : ∀ {i}, s.away i → ∀ place,
    Print.node b.graph anchors fuel place i = Print.node b'.graph anchors fuel place i := by
  induction fuel with
  | zero => exact fun _ _ => rfl
  | succ fuel ih =>
    intro i away place
    have inside := (alike.seen i).inside away
    unfold Print.node
    rw [← alike.node away]
    dsimp only
    cases body : (b.graph.node i).body with
    | scalar text style => rfl
    | sequence items inFlow =>
      rw [body] at inside
      have same : ∀ j ∈ items, Print.node b.graph anchors fuel {} j =
          Print.node b'.graph anchors fuel {} j := fun j member => ih (inside j member) {}
      simp only [flowItems_congr same, blockItems_congr same]
    | mapping entries inFlow =>
      rw [body] at inside
      have same : ∀ e ∈ entries, SameWriters
          (fun k => return isSimpleKey b.graph anchors (← get).written k)
          (fun k => return isSimpleKey b'.graph anchors (← get).written k)
          (Print.node b.graph anchors fuel) (Print.node b'.graph anchors fuel) e := by
        intro e member
        obtain ⟨key, value⟩ := awayEntries inside e member
        exact ⟨by simp only [isSimpleKey, alike.node key], ih key, ih value⟩
      simp only [flowEntries_congr same, blockEntries_congr same]

theorem render_together {i : NodeId} (away : s.away i) : b.graph.render i = b'.graph.render i := by
  have written : Print.document b.graph i = Print.document b'.graph i := by
    unfold Print.document anchorsBelow
    rw [← alike.size, visit_together alike _ away, node_together alike _ _ away]
  unfold Graph.render
  rw [written]

end Secret
end MailRules.Yaml
