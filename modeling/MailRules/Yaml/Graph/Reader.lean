import MailRules.Yaml.Graph
import MailRules.Yaml.Token.Lexer
/-!
From tokens to the node graph of the one document of a text.
-/
namespace MailRules.Yaml
open MailRules.Text

structure Reading where
  tokens : List Token
  /-- What is met after the last token. -/
  stop : Option Stop
  graph : Graph := .empty
  anchors : List (String × NodeId) := []
  /-- What the tag handles of the document stand for. -/
  handles : List (String × String) := []

abbrev Read := StateT Reading (Except Stop)

namespace Read

def peek : Read Token := do
  let r ← get
  match r.tokens with
  | t :: _ => return t
  | [] => throw (r.stop.getD (.fault .endlessNesting))

def kind : Read TokenKind := return (← peek).kind

def advance : Read Unit := modify fun r => { r with tokens := r.tokens.drop 1 }

def take : Read Token := do
  let t ← peek
  advance
  return t

def fail {α : Type} (text : String) (m : Mark) : Read α := throw (.problem ⟨text, m⟩)

def failAtToken {α : Type} (text : String) : Read α := do
  let t ← peek
  fail (text ++ quoted t.kind.label) t.start

structure Properties where
  anchor : Option String := none
  tag : Option String := none
  start : Option Mark := none

def fullTag (handle : Option String) (suffix : String) (m : Mark) : Read String := do
  match handle with
  | none => return suffix
  | some h =>
    match (← get).handles.lookup h with
    | some text => return text ++ suffix
    | none => fail ("found undefined tag handle " ++ quoted h) m

def anchorHere? : Read (Option (String × Mark)) := do
  match ← peek with
  | ⟨.anchor name, start, _⟩ => advance; return some (name, start)
  | _ => return none

def tagHere? : Read (Option (Option String × String × Mark)) := do
  match ← peek with
  | ⟨.tag handle suffix, start, _⟩ => advance; return some (handle, suffix, start)
  | _ => return none

def properties : Read Properties := do
  match ← anchorHere? with
  | some (name, start) =>
    match ← tagHere? with
    | some (handle, suffix, m) =>
      return { anchor := some name, tag := some (← fullTag handle suffix m), start := some start }
    | none => return { anchor := some name, start := some start }
  | none =>
    match ← tagHere? with
    | some (handle, suffix, start) =>
      let anchor ← anchorHere?
      return { anchor := anchor.map (·.1), tag := some (← fullTag handle suffix start),
               start := some start }
    | none => return {}

/-- The lone exclamation mark leaves the tag to be found, from the text even of a quoted scalar. -/
def isOpenTag (tag : Option String) : Bool := tag.isNone || tag = some "!"

def scalarTag (tag : Option String) (text : String) (style : ScalarStyle) : String :=
  match tag with
  | none => if style = .plain then Tag.ofText text.toList else Tag.str
  | some t => if t = "!" then Tag.ofText text.toList else t

def collectionTag (tag : Option String) (default : String) : String :=
  if isOpenTag tag then default else tag.getD default

/-- Adds a node, under its anchor if it has one. An anchor names one node of a document. -/
def add (p : Properties) (n : Node) : Read NodeId := do
  let r ← get
  match p.anchor with
  | some name =>
    if (r.anchors.lookup name).isSome then fail "second occurrence" n.mark
    let (i, graph) := r.graph.push n
    set { r with graph := graph, anchors := (name, i) :: r.anchors }
    return i
  | none =>
    let (i, graph) := r.graph.push n
    set { r with graph := graph }
    return i

def emptyScalar (m : Mark) : Read NodeId := add {} ⟨Tag.ofText [], .scalar "" .plain, m⟩

def setBody (i : NodeId) (body : NodeBody) : Read Unit :=
  modify fun r => { r with graph := r.graph.setBody i body }

structure Allowed where
  /-- Block collections. -/
  block : Bool
  /-- A block sequence that is not indented deeper than the mapping around it. -/
  indentless : Bool

def inBlock : Allowed := ⟨true, false⟩
def inMapping : Allowed := ⟨true, true⟩
def inFlow : Allowed := ⟨false, false⟩

def isEntryEnd : TokenKind → Bool
  | .blockEntry | .blockEnd => true
  | _ => false

def isIndentlessEntryEnd : TokenKind → Bool
  | .blockEntry | .key | .value | .blockEnd => true
  | _ => false

def isBlockPairEnd : TokenKind → Bool
  | .key | .value | .blockEnd => true
  | _ => false

def isFlowKeyEnd (close : TokenKind) (k : TokenKind) : Bool :=
  k = .value || k = .flowEntry || k = close

def isFlowValueEnd (close : TokenKind) (k : TokenKind) : Bool := k = .flowEntry || k = close

mutual

def node (allowed : Allowed) : Nat → Read NodeId
  | 0 => throw (.fault .endlessNesting)
  | fuel + 1 => do
    match ← peek with
    | ⟨.reference name, start, _⟩ =>
      advance
      match (← get).anchors.lookup name with
      | some i => return i
      | none => fail ("found undefined alias " ++ quoted name) start
    | _ =>
      let p ← properties
      let t ← peek
      let start := p.start.getD t.start
      let sequence (inFlow : Bool) : Read NodeId :=
        add p ⟨collectionTag p.tag Tag.seq, .sequence [] inFlow, start⟩
      let mapping (inFlow : Bool) : Read NodeId :=
        add p ⟨collectionTag p.tag Tag.map, .mapping [] inFlow, start⟩
      match t.kind with
      | .scalar text style =>
        advance
        add p ⟨scalarTag p.tag text style, .scalar text style, start⟩
      | .flowSequenceStart =>
        let i ← sequence true
        advance
        setBody i (.sequence (← flowItems true fuel) true)
        return i
      | .flowMappingStart =>
        let i ← mapping true
        advance
        setBody i (.mapping (← flowEntries true fuel) true)
        return i
      | k =>
        if allowed.indentless && k = .blockEntry then
          let i ← sequence false
          setBody i (.sequence (← indentlessItems fuel) false)
          return i
        else if allowed.block && k = .blockSequenceStart then
          let i ← sequence false
          advance
          setBody i (.sequence (← blockItems fuel) false)
          return i
        else if allowed.block && k = .blockMappingStart then
          let i ← mapping false
          advance
          setBody i (.mapping (← blockEntries fuel) false)
          return i
        else if p.start.isSome then
          add p ⟨scalarTag p.tag "" .plain, .scalar "" .plain, start⟩
        else failAtToken "expected the node content, but found "

def blockItems : Nat → Read (List NodeId)
  | 0 => throw (.fault .endlessNesting)
  | fuel + 1 => do
    if (← kind) = .blockEntry then
      let t ← take
      let item ← if isEntryEnd (← kind) then emptyScalar t.stop else node inBlock fuel
      return item :: (← blockItems fuel)
    else if (← kind) = .blockEnd then
      advance
      return []
    else failAtToken "expected <block end>, but found "

def indentlessItems : Nat → Read (List NodeId)
  | 0 => throw (.fault .endlessNesting)
  | fuel + 1 => do
    if (← kind) = .blockEntry then
      let t ← take
      let item ← if isIndentlessEntryEnd (← kind) then emptyScalar t.stop else node inBlock fuel
      return item :: (← indentlessItems fuel)
    else return []

def blockEntries : Nat → Read (List (NodeId × NodeId))
  | 0 => throw (.fault .endlessNesting)
  | fuel + 1 => do
    if (← kind) = .key then
      let t ← take
      let key ← if isBlockPairEnd (← kind) then emptyScalar t.stop else node inMapping fuel
      let value ← blockValue fuel
      return (key, value) :: (← blockEntries fuel)
    else if (← kind) = .blockEnd then
      advance
      return []
    else failAtToken "expected <block end>, but found "

def blockValue : Nat → Read NodeId
  | 0 => throw (.fault .endlessNesting)
  | fuel + 1 => do
    let t ← peek
    if t.kind = .value then
      advance
      if isBlockPairEnd (← kind) then emptyScalar t.stop else node inMapping fuel
    else emptyScalar t.start

/-- The items of a flow sequence and its end. An item after a key indicator, or before a colon, is a
mapping of one entry. -/
def flowItems (isFirst : Bool) : Nat → Read (List NodeId)
  | 0 => throw (.fault .endlessNesting)
  | fuel + 1 => do
    if (← kind) = .flowSequenceEnd then
      advance
      return []
    else
      if !isFirst then
        if (← kind) = .flowEntry then advance
        else failAtToken "expected ',' or ']', but got "
      let t ← peek
      if t.kind = .key then
        let i ← add {} ⟨Tag.map, .mapping [] true, t.start⟩
        advance
        let key ←
          if isFlowKeyEnd .flowSequenceEnd (← kind) then emptyScalar t.stop else node inFlow fuel
        let value ← flowValue .flowSequenceEnd fuel
        setBody i (.mapping [(key, value)] true)
        return i :: (← flowItems false fuel)
      else if t.kind = .flowSequenceEnd then
        advance
        return []
      else
        let item ← node inFlow fuel
        return item :: (← flowItems false fuel)

def flowValue (close : TokenKind) : Nat → Read NodeId
  | 0 => throw (.fault .endlessNesting)
  | fuel + 1 => do
    let t ← peek
    if t.kind = .value then
      advance
      if isFlowValueEnd close (← kind) then emptyScalar t.stop else node inFlow fuel
    else emptyScalar t.start

def flowEntries (isFirst : Bool) : Nat → Read (List (NodeId × NodeId))
  | 0 => throw (.fault .endlessNesting)
  | fuel + 1 => do
    if (← kind) = .flowMappingEnd then
      advance
      return []
    else
      if !isFirst then
        if (← kind) = .flowEntry then advance
        else failAtToken "expected ',' or '\x7d', but got "
      let t ← peek
      if t.kind = .key then
        advance
        let key ←
          if isFlowKeyEnd .flowMappingEnd (← kind) then emptyScalar t.stop else node inFlow fuel
        let value ← flowValue .flowMappingEnd fuel
        return (key, value) :: (← flowEntries false fuel)
      else if t.kind = .flowMappingEnd then
        advance
        return []
      else
        let key ← node inFlow fuel
        let value ← emptyScalar (← peek).start
        return (key, value) :: (← flowEntries false fuel)

end

/-! Documents -/

def defaultHandles : List (String × String) := [("!", "!"), ("!!", Tag.repository)]

/-- The directives in front of a document: at most one version, of the first major number, and each
tag handle once. -/
def directives (hasVersion : Bool) (handles : List (String × String)) :
    Nat → Read (List (String × String))
  | 0 => throw (.fault .endlessNesting)
  | fuel + 1 => do
    match ← peek with
    | ⟨.directive d, start, _⟩ =>
      advance
      match d with
      | .version major =>
        if hasVersion then fail "found duplicate YAML directive" start
        if major ≠ 1 then fail "found incompatible YAML document (version 1.* is required)" start
        directives true handles fuel
      | .tag handle text =>
        if (handles.lookup handle).isSome then
          fail ("duplicate tag handle " ++ quoted handle) start
        directives hasVersion ((handle, text) :: handles) fuel
      | .other => directives hasVersion handles fuel
    | _ => return handles ++ defaultHandles

def skipDocumentEnds : Nat → Read Unit
  | 0 => return
  | fuel + 1 => do
    if (← kind) = .documentEnd then
      advance
      skipDocumentEnds fuel

def explicitStart (fuel : Nat) : Read Unit := do
  let handles ← directives false [] fuel
  modify fun r => { r with handles := handles }
  if (← kind) ≠ .documentStart then failAtToken "expected '<document start>', but found "
  advance

def isDocumentEdge : TokenKind → Bool
  | .directive _ | .documentStart | .documentEnd | .streamEnd => true
  | _ => false

def explicitRoot (fuel : Nat) : Read NodeId := do
  let t ← peek
  if isDocumentEdge t.kind then emptyScalar t.start else node inBlock fuel

def startsExplicitly : Read Bool := do
  match ← kind with
  | .directive _ | .documentStart => return true
  | _ => return false

def document (fuel : Nat) : Read (Option NodeId) := do
  if (← kind) = .streamEnd then return none
  let root ←
    if ← startsExplicitly then do
      explicitStart fuel
      explicitRoot fuel
    else do
      modify fun r => { r with handles := defaultHandles }
      node inBlock fuel
  if (← kind) = .documentEnd then advance
  skipDocumentEnds fuel
  let t ← peek
  if t.kind ≠ .streamEnd then
    explicitStart fuel
    fail "but found another document" t.start
  return some root

end Read

structure Tree where
  graph : Graph
  root : Option NodeId
  deriving DecidableEq, Repr

/-- Every step of the reader takes a token or goes down one level. -/
def readTokens (s : Scanned) : Except Stop Tree := do
  let (root, r) ← (Read.document (8 * s.tokens.length + 16)).run
    { tokens := s.tokens, stop := s.stop }
  return ⟨r.graph, root⟩

end MailRules.Yaml
