import MailRules.Proofs.Sweep.Step
/-!
Collections within collections. What a collection raises is taken apart again where it is collected, so
nothing of the nesting is left: a collection holds the errors that were raised alone anywhere below it, in
the order in which they stand.
-/
namespace MailRules.Sweep
open MailRules.Sweep.Step

variable {σ : Type}

/-- An error that is raised alone, or parts whose errors are collected and raised together. -/
inductive Nest
  | leaf (e : Error) (proper : e.Proper)
  | group (parts : List Nest)

namespace Nest

def leaves : Nest → List Error
  | leaf e _ => [e]
  | group parts => parts.flatMap fun p => p.leaves

def raised : Nest → Step σ Unit
  | leaf e _ => throw (.error e)
  | group parts => do Step.raise (← collectEach parts.attach fun ⟨p, _⟩ => p.raised)

@[simp] theorem leaves_leaf (e : Error) (proper : e.Proper) : (leaf e proper).leaves = [e] := by
  rw [leaves]

@[simp] theorem leaves_group (parts : List Nest) : (group parts).leaves = parts.flatMap leaves := by
  rw [leaves]

theorem raised_leaf (e : Error) (proper : e.Proper) :
    (leaf e proper).raised = (throw (.error e) : Step σ Unit) := by
  rw [raised]

theorem raised_group (parts : List Nest) :
    (group parts).raised = (do Step.raise (← collectEach parts raised) : Step σ Unit) := by
  rw [raised, ← collectEach_map, List.attach_map_subtype_val]

theorem leaves_proper (t : Nest) : ∀ e ∈ t.leaves, e.Proper := by
  match t with
  | leaf e proper => simpa using proper
  | group parts =>
    intro e member
    rw [leaves_group] at member
    obtain ⟨p, part, within⟩ := List.mem_flatMap.mp member
    exact p.leaves_proper e within

theorem raisable_leaves (parts : List Nest) : Error.Raisable (parts.flatMap leaves) := by
  apply Error.raisable_of_proper
  rw [← leaves_group]
  exact (group parts).leaves_proper

/-- By induction on the nest: a part is collected as its leaves, so a group raises the leaves of all its
parts. -/
theorem raised_collected (t : Nest) : (t.raised : Step σ Unit).collected = pure t.leaves := by
  match t with
  | leaf e proper =>
    have alone := Error.flat_of_single (Error.single_of_proper proper)
    rw [raised_leaf, leaves_leaf, ← alone]
    rfl
  | group parts =>
    have each : ∀ p ∈ parts, (p.raised : Step σ Unit).collected = pure p.leaves :=
      fun p _ => p.raised_collected
    rw [raised_group, collectEach_pure each, pure_bind, leaves_group]
    exact collected_raise (raisable_leaves parts)

theorem collectEach_raised (parts : List Nest) (st : σ) :
    collectEach parts raised st = (.ok (parts.flatMap leaves), st) := by
  rw [collectEach_pure fun p _ => p.raised_collected]
  rfl

theorem raised_group_apply (parts : List Nest) (st : σ) :
    (group parts).raised st = (raiseErrors (parts.flatMap leaves), st) := by
  rw [raised_group, bind_apply, collectEach_raised]
  rfl

end Nest
open Nest

/-- However its parts are nested, a collection holds the leaves below it, each once and from left to right, and
no aggregate, and raises what it holds. Collections hold the same if and only if they have the same leaves in the
same order, however these are grouped. The text is that of the leaves, line by line, and nothing is held if and
only if there is no leaf. -/
theorem collection_holds_leaves (parts : List Nest) (st : σ) :
    ∃ members : List Error, collectEach parts raised st = (.ok members, st) ∧
      (group parts).raised st = (raiseErrors members, st) ∧
      members = parts.flatMap leaves ∧
      (∀ e ∈ members, e.Single) ∧
      (∀ others : List Nest, collectEach others raised st = (.ok members, st) ↔
        others.flatMap leaves = parts.flatMap leaves) ∧
      (Error.aggregate members).message = "\n".intercalate ((parts.flatMap leaves).map Error.message) ∧
      ((!members.isEmpty) = false ↔ parts.flatMap leaves = []) := by
  have single := (raisable_leaves parts).single
  refine ⟨_, collectEach_raised parts st, raised_group_apply parts st, rfl, single, ?_, ?_, ?_⟩
  · intro others
    rw [collectEach_raised]
    constructor
    · intro same
      exact Except.ok.inj (Prod.mk.inj same).1
    · intro same
      rw [same]
  · rw [Error.message, Error.messages_eq]
  · simp

example : collectEach [group [group [leaf (.plain "a") trivial]], group [], group [group [],
    leaf (.plain "b") trivial, leaf (.plain "c") trivial]] raised () =
      (.ok [.plain "a", .plain "b", .plain "c"], ()) := by
  cbv

end MailRules.Sweep
