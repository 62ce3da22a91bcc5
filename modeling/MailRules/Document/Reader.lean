import MailRules.Error
import MailRules.Yaml.Tree
import MailRules.Yaml.Datum.Build
import MailRules.Yaml.Graph.Printer
/-!
Reading a document of a run from a text. Every level has a fixed set of keys. Texts are taken as they
are written, whatever YAML would make of them; the values of switches and the arguments of
preconditions and actions are kept with what they stand for.
-/
namespace MailRules
open MailRules.Yaml

structure Source where
  name : String
  text : List Char

/-- Reading moves the builder of values, also where it fails. -/
abbrev DocumentReader := ReaderT Source (ExceptT Failure (StateM Builder))

namespace DocumentReader

def nodeAt (i : NodeId) : DocumentReader Node := return (← get).graph.node i

def locationOf (n : Node) : DocumentReader Location :=
  return ⟨(← read).name, n.mark.line + 1, n.mark.column + 1⟩

def locate (i : NodeId) : DocumentReader Location := do locationOf (← nodeAt i)

def refuse {α : Type} (flaw : Flaw) (i : NodeId) : DocumentReader α := do
  throw (.error (.document flaw (← locate i)))

def isNull (n : Node) : Bool :=
  match n.body with
  | .scalar .. => n.tag = Tag.null
  | _ => false

def entriesFrom (part : String) (allowed : List String) (done : List (String × NodeId)) :
    List (NodeId × NodeId) → DocumentReader (List (String × NodeId))
  | [] => return done.reverse
  | (k, v) :: rest => do
    match (← nodeAt k).body with
    | .scalar key _ =>
      if (done.lookup key).isSome then refuse (.duplicateKey key part) k
      if !allowed.contains key then refuse (.unsupportedKey key part) k
      entriesFrom part allowed ((key, v) :: done) rest
    | _ => refuse (.keyNotScalar part) k

def entries (part : String) (allowed : List String) (i : NodeId) :
    DocumentReader (List (String × NodeId)) := do
  match (← nodeAt i).body with
  | .mapping es _ => entriesFrom part allowed [] es
  | _ => refuse (.notMapping part) i

def items (part : String) (i? : Option NodeId) : DocumentReader (List NodeId) := do
  match i? with
  | none => return []
  | some i =>
    let n ← nodeAt i
    match n.body with
    | .sequence is _ => return is
    | _ => if isNull n then return [] else refuse (.notList part) i

def text? (part : String) (i? : Option NodeId) : DocumentReader (Option String) := do
  match i? with
  | none => return none
  | some i =>
    let n ← nodeAt i
    if isNull n then return none
    match n.body with
    | .scalar text _ => return some text
    | _ => refuse (.notScalar part) i

def requiredText (part : String) (flaw : Flaw) (i : NodeId) (i? : Option NodeId) :
    DocumentReader String := do
  match ← text? part i? with
  | some text => if text.isEmpty then refuse flaw i else return text
  | none => refuse flaw i

/-- What the builder makes of a node: its value, or why it has none. -/
def build (i : NodeId) : DocumentReader (Except String Datum) := do
  let (result, b) := ((Build.value i).run).run (← get)
  set b
  match result with
  | .ok d => return .ok d
  | .error (.problem p) => return .error (p.message (← read).text)
  | .error (.refused reason) => return .error reason
  | .error (.fault f) => throw (.fault f)

def datum (i : NodeId) : DocumentReader Datum := do
  match ← build i with
  | .ok d => return d
  | .error reason => refuse (.invalidValue reason) i

/-- An argument. A scalar without a value under its tag stands for its text, so that it is refused
where the field that it belongs to is known. -/
def leaf (i : NodeId) : DocumentReader Leaf := do
  let n ← nodeAt i
  let location ← locationOf n
  match n.body with
  | .scalar text _ =>
    match ← build i with
    | .ok d => return ⟨text, d, true, location⟩
    | .error _ => return ⟨text, .text text, true, location⟩
  | _ =>
    let text := (← get).graph.render i
    return ⟨text, ← datum i, false, location⟩

def precondition (i : NodeId) : Nat → DocumentReader Precondition
  | 0 => throw (.fault .endlessNesting)
  | fuel + 1 => do
    let es ← entries "precondition" ["field", "values"] i
    let field ← requiredText "field" .noField i (es.lookup "field")
    let values ← items "values" (es.lookup "values")
    let operands ← values.mapM fun j => do
      match (← nodeAt j).body with
      | .mapping .. => return Operand.nested (← precondition j fuel)
      | _ => return Operand.leaf (← leaf j)
    return .mk field operands (← locate i)

def action (entry : NodeId × NodeId) : DocumentReader Action := do
  match ← text? "action kind" (some entry.1) with
  | none => refuse .noActionKind entry.1
  | some kind =>
    let arguments ← (← items ("action " ++ kind) (some entry.2)).mapM leaf
    return ⟨kind, arguments, ← locate entry.1⟩

def repeated? (actions : List Action) : Option Action :=
  actions.find? fun a => 1 < actions.countP fun b => b.kind = a.kind

def actions (i? : Option NodeId) : DocumentReader (List Action) := do
  match i? with
  | none => return []
  | some i =>
    let n ← nodeAt i
    if isNull n then return []
    match n.body with
    | .mapping es _ =>
      let actions ← es.mapM action
      match repeated? actions with
      | some a => throw (.error (.document (.duplicateAction a.kind) a.location))
      | none => return actions
    | _ => refuse .actionsNotMapping i

def rule (i : NodeId) : DocumentReader Rule := do
  let es ← entries "rule" ["preconditions", "action"] i
  let size := (← get).graph.size
  let preconditions ←
    (← items "preconditions" (es.lookup "preconditions")).mapM (precondition · (size + 1))
  let actions ← actions (es.lookup "action")
  return ⟨preconditions, actions, ← locate i⟩

def mailbox (i : NodeId) : DocumentReader Mailbox := do
  let es ← entries "mailbox" ["name", "rules"] i
  let name ← requiredText "name" .noMailboxName i (es.lookup "name")
  let rules ← (← items "rules" (es.lookup "rules")).mapM rule
  return ⟨name, rules, ← locate i⟩

def flagData (es : List (String × NodeId)) : List Flag → DocumentReader (List (Flag × Datum))
  | [] => return []
  | flag :: rest => do
    match es.lookup flag.key with
    | none => flagData es rest
    | some i =>
      if isNull (← nodeAt i) then flagData es rest
      else
        let d ← datum i
        return (flag, d) :: (← flagData es rest)

def accountKeys : List String :=
  ["host", "notls", "nosimplelogin", "nosaslplain", "nosaslexternal", "username", "password",
   "identity", "mailboxes"]

def account (i : NodeId) : DocumentReader Account := do
  let es ← entries "server" accountKeys i
  let host ← requiredText "host" .noHost i (es.lookup "host")
  let given ← flagData es Flag.all
  let username ← text? "username" (es.lookup "username")
  let password ← text? "password" (es.lookup "password")
  let identity ← text? "identity" (es.lookup "identity")
  let mailboxes ← (← items "mailboxes" (es.lookup "mailboxes")).mapM mailbox
  match Flags.read given with
  | .error problems => refuse (.invalidFlags problems) i
  | .ok flags =>
    let credentials := ⟨username.getD "", password.getD "", identity.getD ""⟩
    return ⟨host, flags, credentials, mailboxes, ← locate i⟩

def document (root : Option NodeId) : DocumentReader Document := do
  let source ← read
  match root with
  | none => throw (.error (.document (.empty source.name) none))
  | some i =>
    if isNull (← nodeAt i) then throw (.error (.document (.empty source.name) none))
    let es ← entries "document" ["servers"] i
    let accounts ← (← items "servers" (es.lookup "servers")).mapM account
    return ⟨source.name, accounts⟩

end DocumentReader

def Document.parse (text name : String) : Except Failure Document :=
  let cs := text.toList
  match Tree.ofText cs with
  | .error (.badCharacter c position) =>
    .error (.error (.document (.badCharacter name c.toNat position) none))
  | .error (.stop (.fault f)) => .error (.fault f)
  | .error (.stop (.problem p)) =>
    let location : Location := ⟨name, p.mark.line + 1, p.mark.column + 1⟩
    .error (.error (.document (.notYaml p.text) location))
  | .ok tree =>
    (((DocumentReader.document tree.root).run ⟨name, cs⟩).run.run { graph := tree.graph }).1

end MailRules
