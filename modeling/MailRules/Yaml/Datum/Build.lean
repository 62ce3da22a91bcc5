import MailRules.Yaml.Datum.Scalar
import MailRules.Yaml.Graph
import MailRules.Yaml.Problem
import MailRules.Text.Quoted
/-!
The values of the nodes of a graph. A builder remembers the value of each node that it has built, so
that a shared node is built once, and the nodes that it has begun and not finished: a node that holds
itself is refused, and so is, from then on, each node whose value could not be built. The merge keys
of a mapping are replaced for good by the entries that they stand for, in front of its own.
-/
namespace MailRules.Yaml
open MailRules.Text

structure Builder where
  graph : Graph
  values : List (NodeId × Datum) := []
  /-- The nodes begun and not finished. -/
  begun : List NodeId := []

inductive BuildFailure
  | problem (p : NodeProblem)
  /-- A scalar is refused by the reader of its kind of value. -/
  | refused (reason : String)
  | fault (f : Fault)

abbrev Build := ExceptT BuildFailure (StateM Builder)

namespace Build

def nodeAt (i : NodeId) : Build Node := return (← get).graph.node i

def setBody (i : NodeId) (body : NodeBody) : Build Unit :=
  modify fun b => { b with graph := b.graph.setBody i body }

def fail {α : Type} (text : String) (m : Mark) : Build α := throw (.problem ⟨none, text, m⟩)

def failIn {α : Type} (context : String) (around : Mark) (text : String) (m : Mark) : Build α :=
  throw (.problem ⟨some (context, around), text, m⟩)

/-- The text of a scalar. A mapping with a default value has the text of that. -/
def scalarText (i : NodeId) : Nat → Build String
  | 0 => throw (.fault .endlessNesting)
  | fuel + 1 => do
    let b ← get
    let n := b.graph.node i
    match n.body with
    | .scalar text _ => return text
    | .mapping entries _ =>
      match entries.find? fun e => (b.graph.node e.1).tag = Tag.value with
      | some e => scalarText e.2 fuel
      | none => fail ("expected a scalar node, but found " ++ n.body.label) n.mark
    | .sequence .. => fail ("expected a scalar node, but found " ++ n.body.label) n.mark

def ofText (i : NodeId) (read : List Char → Except ScalarFailure Datum) : Build Datum := do
  let text ← scalarText i ((← get).graph.size + 1)
  match read text.toList with
  | .ok d => return d
  | .error (.refused reason) => throw (.refused reason)
  | .error (.content reason) => fail reason (← nodeAt i).mark
  | .error (.fault f) => throw (.fault f)

/-- A timestamp is read from the node itself, not from a default value. -/
def timestamp (i : NodeId) : Build Datum := do
  discard (scalarText i ((← get).graph.size + 1))
  match (← nodeAt i).body with
  | .scalar .. => ofText i ScalarValue.timestamp
  | _ => throw (.fault .timestampOfMapping)

/-! Merge keys -/

/-- Splits off the first entry from position `place` on whose key has the merge tag, if there is
one; the keys passed that have the tag of a default value become texts. -/
def takeMerge (i : NodeId) (place : Nat) : Build (Option (Nat × NodeId)) := do
  match (← nodeAt i).body with
  | .mapping entries inFlow =>
    let passed := entries.drop place
    let g := (← get).graph
    let before := passed.takeWhile fun e => (g.node e.1).tag ≠ Tag.merge
    before.forM fun e => do
      if (g.node e.1).tag = Tag.value then
        modify fun b => { b with graph := b.graph.setTag e.1 Tag.str }
    match passed.drop before.length with
    | (_, v) :: _ =>
      let at_ := place + before.length
      setBody i (.mapping (entries.take at_ ++ entries.drop (at_ + 1)) inFlow)
      return some (at_, v)
    | [] => return none
  | _ => return none

def entriesOf (i : NodeId) : Build (List (NodeId × NodeId)) := do
  match (← nodeAt i).body with
  | .mapping entries _ => return entries
  | _ => return []

def isMapping (n : Node) : Bool :=
  match n.body with
  | .mapping .. => true
  | _ => false

def mergedItems (flatten : NodeId → Build Unit) (around : Mark) :
    List NodeId → Build (List (List (NodeId × NodeId)))
  | [] => return []
  | v :: rest => do
    let n ← nodeAt v
    if !isMapping n then
      failIn "while constructing a mapping" around
        ("expected a mapping for merging, but found " ++ n.body.label) n.mark
    flatten v
    let own ← entriesOf v
    return own :: (← mergedItems flatten around rest)

mutual

def flatten (i : NodeId) : Nat → Build Unit
  | 0 => throw (.fault .endlessNesting)
  | fuel + 1 => do
    let merged ← mergedFrom i 0 fuel
    if !merged.isEmpty then
      match (← nodeAt i).body with
      | .mapping entries inFlow => setBody i (.mapping (merged ++ entries) inFlow)
      | _ => return

/-- The entries that the merge keys from position `place` on stand for; the keys are removed. -/
def mergedFrom (i : NodeId) (place : Nat) : Nat → Build (List (NodeId × NodeId))
  | 0 => throw (.fault .endlessNesting)
  | fuel + 1 => do
    match ← takeMerge i place with
    | none => return []
    | some (next, v) =>
      let n ← nodeAt v
      let around := (← nodeAt i).mark
      let own ←
        match n.body with
        | .mapping .. => do
          flatten v fuel
          entriesOf v
        | .sequence items _ => do
          let parts ← mergedItems (flatten · fuel) around items
          pure parts.reverse.flatten
        | .scalar .. =>
          failIn "while constructing a mapping" around
            ("expected a mapping or list of mappings for merging, but found " ++ n.body.label)
            n.mark
      return own ++ (← mergedFrom i next fuel)

end

/-- Every step down removes a merge key. -/
def flattenFuel (g : Graph) : Nat :=
  8 + 4 * g.nodes.foldl (fun n x => n + 1 + match x.body with
    | .sequence items _ => items.length
    | .mapping entries _ => entries.length
    | .scalar .. => 0) 0

/-! Values -/

structure Entry where
  key : Datum
  /-- For a key that is no number: the node that made it, none for the one spelled as such. -/
  origin : Option NodeId
  value : Datum

/-- The node that a key which is no number comes from. -/
def originOf (i : NodeId) (key : Datum) : Build (Option NodeId) := do
  if key.isNan then
    let text ← scalarText i ((← get).graph.size + 1)
    let word := ScalarValue.floatWord text.toList
    return if (Number.splitSign word).2 = ScalarValue.nanWord then none else some i
  else return none

def put (entries : List Entry) (e : Entry) : List Entry :=
  let same (f : Entry) : Bool :=
    f.key.sameKey e.key || (f.key.isNan && e.key.isNan && f.origin = e.origin)
  if entries.any same then
    entries.map fun f => if same f then { f with value := e.value } else f
  else entries ++ [e]

def mappingContext : String := "while constructing a mapping"

def entries (build : NodeId → Build Datum) (around : Mark) (done : List Entry) :
    List (NodeId × NodeId) → Build (List Entry)
  | [] => return done
  | (k, v) :: rest => do
    let key ← build k
    if !key.isKey then
      failIn mappingContext around "found unhashable key" (← nodeAt k).mark
    let origin ← originOf k key
    let value ← build v
    entries build around (put done ⟨key, origin, value⟩) rest

def mapping (build : NodeId → Build Datum) (i : NodeId) : Build (List Entry) := do
  let n ← nodeAt i
  if isMapping n then
    flatten i (flattenFuel (← get).graph)
    entries build n.mark [] (← entriesOf i)
  else fail ("expected a mapping node, but found " ++ n.body.label) n.mark

def pairItems (build : NodeId → Build Datum) (context : String) (around : Mark) :
    List NodeId → Build (List Datum)
  | [] => return []
  | i :: rest => do
    let n ← nodeAt i
    match n.body with
    | .mapping [(k, v)] _ =>
      let key ← build k
      let value ← build v
      return .tuple [key, value] :: (← pairItems build context around rest)
    | .mapping entries _ =>
      failIn context around
        ("expected a single mapping item, but found " ++ decimal entries.length ++ " items") n.mark
    | _ =>
      failIn context around
        ("expected a mapping of length 1, but found " ++ n.body.label) n.mark

def pairs (build : NodeId → Build Datum) (context : String) (i : NodeId) : Build Datum := do
  let n ← nodeAt i
  match n.body with
  | .sequence items _ => return .list (← pairItems build context n.mark items)
  | _ => failIn context n.mark ("expected a sequence, but found " ++ n.body.label) n.mark

def sequence (build : NodeId → Build Datum) (i : NodeId) : Build Datum := do
  let n ← nodeAt i
  match n.body with
  | .sequence items _ => return .list (← items.mapM build)
  | _ => fail ("expected a sequence node, but found " ++ n.body.label) n.mark

def ofTag (build : NodeId → Build Datum) (i : NodeId) : Build Datum := do
  let n ← nodeAt i
  let t := n.tag
  if t = Tag.str then ofText i fun cs => .ok (.text (String.ofList cs))
  else if t = Tag.int then ofText i ScalarValue.int
  else if t = Tag.seq then sequence build i
  else if t = Tag.map then return .map ((← mapping build i).map fun e => (e.key, e.value))
  else if t = Tag.null then ofText i fun _ => .ok .null
  else if t = Tag.bool then ofText i ScalarValue.bool
  else if t = Tag.float then ofText i ScalarValue.float
  else if t = Tag.timestamp then timestamp i
  else if t = Tag.binary then ofText i ScalarValue.binary
  else if t = Tag.set then return .set ((← mapping build i).map (·.key))
  else if t = Tag.omap then pairs build "while constructing an ordered map" i
  else if t = Tag.pairs then pairs build "while constructing pairs" i
  else fail ("could not determine a constructor for the tag " ++ quoted t) n.mark

def datum (i : NodeId) : Nat → Build Datum
  | 0 => throw (.fault .endlessNesting)
  | fuel + 1 => do
    let b ← get
    match b.values.lookup i with
    | some d => return d
    | none =>
      if b.begun.contains i then
        fail "found unconstructable recursive node" (b.graph.node i).mark
      modify fun b => { b with begun := i :: b.begun }
      let d ← ofTag (fun j => datum j fuel) i
      modify fun b => { b with values := (i, d) :: b.values, begun := b.begun.filter (· ≠ i) }
      return d

/-- A node is begun at most once on the way down. -/
def value (i : NodeId) : Build Datum := do datum i ((← get).graph.size + 2)

end Build
end MailRules.Yaml
