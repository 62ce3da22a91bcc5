import MailRules.Yaml.Graph
/-!
What a node refers to: the items of a sequence, and the keys and the values of a mapping.
-/
namespace MailRules.Yaml

namespace NodeBody

def parts : NodeBody → List NodeId
  | .scalar .. => []
  | .sequence items _ => items
  | .mapping entries _ => entries.flatMap fun e => [e.1, e.2]

def entries : NodeBody → List (NodeId × NodeId)
  | .mapping entries _ => entries
  | _ => []

def items : NodeBody → List NodeId
  | .sequence items _ => items
  | _ => []

def count : NodeBody → Nat
  | .scalar .. => 0
  | .sequence items _ => items.length
  | .mapping entries _ => entries.length

def IsScalar (body : NodeBody) : Prop := ∃ text style, body = .scalar text style

theorem mem_parts {entries : List (NodeId × NodeId)} {inFlow : Bool} {j : NodeId} :
    j ∈ (mapping entries inFlow).parts ↔ ∃ e ∈ entries, j = e.1 ∨ j = e.2 := by
  simp [parts]

theorem mem_parts_of_entry {body : NodeBody} {e : NodeId × NodeId} (entry : e ∈ body.entries) :
    e.1 ∈ body.parts ∧ e.2 ∈ body.parts := by
  cases body with
  | mapping entries inFlow =>
    exact ⟨mem_parts.mpr ⟨e, entry, .inl rfl⟩, mem_parts.mpr ⟨e, entry, .inr rfl⟩⟩
  | scalar text style => exact absurd entry List.not_mem_nil
  | sequence items inFlow => exact absurd entry List.not_mem_nil

theorem mem_parts_of_item {body : NodeBody} {j : NodeId} (item : j ∈ body.items) :
    j ∈ body.parts := by
  cases body with
  | sequence items inFlow => exact item
  | scalar text style => exact absurd item List.not_mem_nil
  | mapping entries inFlow => exact absurd item List.not_mem_nil

end NodeBody

def Graph.below (g : Graph) (i : NodeId) : List NodeId := (g.node i).body.parts

end MailRules.Yaml
