import MailRules.Yaml.Tag
import MailRules.Yaml.Token
/-!
The node graph of a YAML document. Nodes are numbered; an alias is a second reference to the number
of the node that carries the anchor, so that a node may be shared and may even hold itself.
-/
namespace MailRules.Yaml

abbrev NodeId := Nat

inductive NodeBody
  | scalar (text : String) (style : ScalarStyle)
  | sequence (items : List NodeId) (inFlow : Bool)
  | mapping (entries : List (NodeId × NodeId)) (inFlow : Bool)
  deriving DecidableEq, Repr

structure Node where
  tag : String
  body : NodeBody
  mark : Mark
  deriving DecidableEq, Repr

def NodeBody.label : NodeBody → String
  | .scalar .. => "scalar"
  | .sequence .. => "sequence"
  | .mapping .. => "mapping"

structure Graph where
  nodes : Array Node
  deriving DecidableEq, Repr

namespace Graph

def empty : Graph := ⟨#[]⟩

def size (g : Graph) : Nat := g.nodes.size

/-- A number without a node stands for an empty scalar. -/
def absent : Node := ⟨Tag.null, .scalar "" .plain, .start⟩

def node (g : Graph) (i : NodeId) : Node := g.nodes.getD i absent

def push (g : Graph) (n : Node) : NodeId × Graph := (g.size, ⟨g.nodes.push n⟩)

def setBody (g : Graph) (i : NodeId) (body : NodeBody) : Graph :=
  ⟨g.nodes.modify i fun n => { n with body := body }⟩

def setTag (g : Graph) (i : NodeId) (tag : String) : Graph :=
  ⟨g.nodes.modify i fun n => { n with tag := tag }⟩

end Graph
end MailRules.Yaml
