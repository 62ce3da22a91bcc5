import MailRules.Yaml.Graph.Scalar
import MailRules.Text.Quoted
import MailRules.Text.Encoding
/-!
The text of a node: a YAML document that has the node as its root. Collections keep the context they
were written in, long flow collections and scalars are broken after column 80, block collections are
indented by two, and characters outside ASCII are escaped. A node that is met again is shown as an
alias of an anchor.
-/
namespace MailRules.Yaml
open MailRules.Text

/-! Anchors -/

structure Meetings where
  met : List NodeId := []
  again : List NodeId := []

def Meetings.visit (g : Graph) (m : Meetings) (i : NodeId) : Nat → Meetings
  | 0 => m
  | fuel + 1 =>
    if m.met.contains i then
      if m.again.contains i then m else { m with again := m.again ++ [i] }
    else
      let m := { m with met := i :: m.met }
      match (g.node i).body with
      | .scalar .. => m
      | .sequence items _ => items.foldl (fun m j => m.visit g j fuel) m
      | .mapping entries _ =>
        entries.foldl (fun m e => (m.visit g e.1 fuel).visit g e.2 fuel) m

def anchorsBelow (g : Graph) (i : NodeId) : List NodeId :=
  (Meetings.visit g {} i (g.size + 1)).again

def anchorName (number : Nat) : List Char := ("id" ++ zeroPadded 3 number).toList

/-! Writing -/

structure Printer where
  /-- The text so far, last character first. -/
  reversed : List Char := []
  column : Nat := 0
  /-- A blank or the start of a line stands before this place. -/
  afterBlank : Bool := true
  /-- Only indentation and block indicators stand before this place on its line. -/
  inIndent : Bool := true
  /-- The document cannot end here without a mark. -/
  openEnded : Bool := false
  indent : Option Nat := none
  flowLevel : Nat := 0
  /-- The nodes already written. -/
  written : List NodeId := []

abbrev Print := StateM Printer

structure Place where
  isRoot : Bool := false
  inMapping : Bool := false
  /-- It is a key that needs no indicator in front. -/
  isSimpleKey : Bool := false

namespace Print

def width : Nat := 80

def write (cs : List Char) : Print Unit :=
  modify fun p => { p with reversed := cs.reverse ++ p.reversed, column := p.column + cs.length }

def lineBreak : Print Unit :=
  modify fun p =>
    { p with reversed := '\n' :: p.reversed, column := 0, afterBlank := true, inIndent := true }

def indicator (cs : List Char) (needsBlank : Bool) (givesBlank : Bool) (keepsIndent : Bool) :
    Print Unit := do
  let p ← get
  write (if p.afterBlank || !needsBlank then cs else ' ' :: cs)
  modify fun p =>
    { p with afterBlank := givesBlank, inIndent := p.inIndent && keepsIndent, openEnded := false }

def toIndent : Print Unit := do
  let p ← get
  let indent := p.indent.getD 0
  if !p.inIndent || indent < p.column || (p.column = indent && !p.afterBlank) then lineBreak
  let p ← get
  if p.column < indent then
    write (List.replicate (indent - p.column) ' ')
    modify fun p => { p with afterBlank := true }

def breakIfLong : Print Unit := do
  if width < (← get).column then toIndent

def indented {α : Type} (inFlow isIndentless : Bool) (body : Print α) : Print α := do
  let outer := (← get).indent
  let inner := match outer with
    | none => if inFlow then 2 else 0
    | some n => if isIndentless then n else n + 2
  modify fun p => { p with indent := some inner }
  let a ← body
  modify fun p => { p with indent := outer }
  return a

/-! Scalars -/

def runs (cls : Char → Nat) (cs : List Char) : List (List Char) :=
  cs.splitBy fun a b => cls a = cls b

def blankClass (c : Char) : Nat := if c = ' ' then 1 else if isTextBreak c then 2 else 0

def plainRuns (canSplit : Bool) : List (List Char) → Print Unit
  | [] => return
  | run :: rest => do
    if run = [' '] && canSplit && width < (← get).column then
      toIndent
      modify fun p => { p with afterBlank := false, inIndent := false }
    else write run
    plainRuns canSplit rest

def plain (isRoot canSplit : Bool) (cs : List Char) : Print Unit := do
  if isRoot then modify fun p => { p with openEnded := true }
  if cs.isEmpty then return
  if !(← get).afterBlank then write [' ']
  modify fun p => { p with afterBlank := false, inIndent := false }
  plainRuns canSplit (runs blankClass cs)

def writeBreaks (breaks : List Char) : Print Unit := breaks.forM fun _ => lineBreak

def singleQuotedRuns (isFirst canSplit : Bool) : List (List Char) → Print Unit
  | [] => return
  | run :: rest => do
    match run with
    | ' ' :: _ =>
      if run = [' '] && canSplit && !isFirst && !rest.isEmpty && width < (← get).column then toIndent
      else write run
    | '\n' :: _ =>
      lineBreak
      writeBreaks run
      toIndent
    | '\'' :: _ => write (run.flatMap fun c => [c, c])
    | _ => write run
    singleQuotedRuns false canSplit rest

def singleQuoted (canSplit : Bool) (cs : List Char) : Print Unit := do
  indicator ['\''] true false false
  singleQuotedRuns true canSplit (runs (fun c => if c = '\'' then 3 else blankClass c) cs)
  indicator ['\''] false false false

def upperHex (width n : Nat) : List Char := (hexPadded width n).map Char.toUpper

def doubleQuotedEscape? (c : Char) : Option (List Char) :=
  let letter? : Option Char := match c with
    | '\x00' => some '0'
    | '\x07' => some 'a'
    | '\x08' => some 'b'
    | '\t' => some 't'
    | '\n' => some 'n'
    | '\x0B' => some 'v'
    | '\x0C' => some 'f'
    | '\r' => some 'r'
    | '\x1B' => some 'e'
    | '"' => some '"'
    | '\\' => some '\\'
    | '\u0085' => some 'N'
    | '\u00A0' => some '_'
    | '\u2028' => some 'L'
    | '\u2029' => some 'P'
    | _ => none
  match letter? with
  | some l => some ['\\', l]
  | none =>
    if ' ' ≤ c ∧ c ≤ '~' then none
    else if c.toNat < 0x100 then some (['\\', 'x'] ++ upperHex 2 c.toNat)
    else if c.toNat < 0x10000 then some (['\\', 'u'] ++ upperHex 4 c.toNat)
    else some (['\\', 'U'] ++ upperHex 8 c.toNat)

def doubleQuotedBreak (next : Char) : Print Unit := do
  write ['\\']
  toIndent
  modify fun p => { p with afterBlank := false, inIndent := false }
  if next = ' ' then write ['\\']

/-- The characters of a double-quoted scalar. `pending`, last first, are not written yet. -/
def doubleQuotedChars (isFirst canSplit : Bool) (pending : List Char) : List Char → Print Unit
  | [] => write pending.reverse
  | c :: rest => do
    let mayBreak := !isFirst && canSplit && !rest.isEmpty
    match doubleQuotedEscape? c with
    | some e =>
      write pending.reverse
      write e
      if mayBreak && width + 1 < (← get).column then doubleQuotedBreak (rest.headD 'x')
      doubleQuotedChars false canSplit [] rest
    | none =>
      if mayBreak && (c = ' ' || pending.isEmpty) &&
          width < (← get).column + pending.length then
        write pending.reverse
        doubleQuotedBreak c
        doubleQuotedChars false canSplit [c] rest
      else doubleQuotedChars false canSplit (c :: pending) rest

def doubleQuoted (canSplit : Bool) (cs : List Char) : Print Unit := do
  indicator ['"'] true false false
  doubleQuotedChars true canSplit [] cs
  indicator ['"'] false false false

/-- The indicators after the sign of a block scalar: the indentation where the text starts with a
blank, and how it ends. -/
def blockHints (cs : List Char) : List Char :=
  let indentHint := if blankClass (cs.headD 'x') = 0 then [] else ['2']
  match cs.reverse with
  | [] => []
  | last :: before =>
    indentHint ++
      (if !isTextBreak last then ['-']
      else if before.isEmpty || isTextBreak (before.headD 'x') then ['+']
      else [])

def blockHeader (sign : Char) (cs : List Char) : Print Unit := do
  let hints := blockHints cs
  indicator (sign :: hints) true false false
  if hints.getLast? = some '+' then modify fun p => { p with openEnded := true }
  lineBreak

def startingWithBreaks (rs : List (List Char)) : List (List Char) :=
  if isTextBreak ((rs.headD []).headD 'x') then rs else [] :: rs

def nextChar? (rest : List (List Char)) : Option Char := rest.head?.bind List.head?

def literalRuns : List (List Char) → Print Unit
  | [] => return
  | run :: rest => do
    if run.isEmpty || isTextBreak (run.headD 'x') then
      writeBreaks run
      if !rest.isEmpty then toIndent
    else
      write run
      if rest.isEmpty then lineBreak
    literalRuns rest

def literal (cs : List Char) : Print Unit := do
  blockHeader '|' cs
  literalRuns (startingWithBreaks (runs (fun c => if isTextBreak c then 2 else 0) cs))

/-- `afterSpace` says that the last line began with a space, so that no break next to it folds. -/
def foldedRuns (afterSpace : Bool) : List (List Char) → Print Unit
  | [] => return
  | run :: rest => do
    let next? := nextChar? rest
    if run.isEmpty || isTextBreak (run.headD 'x') then
      if !afterSpace && next?.isSome && next? ≠ some ' ' && run.head? = some '\n' then lineBreak
      writeBreaks run
      if next?.isSome then toIndent
      foldedRuns (next? = some ' ') rest
    else if run.head? = some ' ' then
      if run = [' '] && width < (← get).column then toIndent else write run
      foldedRuns afterSpace rest
    else
      write run
      if rest.isEmpty then lineBreak
      foldedRuns afterSpace rest

def folded (cs : List Char) : Print Unit := do
  blockHeader '>' cs
  foldedRuns true (startingWithBreaks (runs blankClass cs))

/-- The style in which a scalar is shown. It keeps its own style where that is possible; quotes take
the place of a style that is not, and double quotes can show every text. -/
def chooseStyle (style : ScalarStyle) (shape : ScalarShape) (place : Place) (inFlow : Bool)
    (isImplicit : Bool) : ScalarStyle :=
  let key := place.isSimpleKey
  let quotable := shape.singleQuoted && !(key && shape.isMultiline)
  match style with
  | .doubleQuoted => .doubleQuoted
  | .plain =>
    if isImplicit && !(key && (shape.isEmpty || shape.isMultiline)) &&
        (if inFlow then shape.flowPlain else shape.blockPlain) then .plain
    else if quotable then .singleQuoted else .doubleQuoted
  | .singleQuoted => if quotable then .singleQuoted else .doubleQuoted
  | block => if !inFlow && !key && shape.block then block else .doubleQuoted

/-! Tags -/

def isTagChar (c : Char) : Bool :=
  c.isAlphanum || "-;/?:@&=+$,_.~*'()[]".toList.contains c

def percentEscape (c : Char) : List Char :=
  (String.utf8EncodeChar c).flatMap fun b => '%' :: upperHex 2 b.toNat

def tagText (tag : String) : List Char :=
  let cs := tag.toList
  let repository := Tag.repository.toList
  let escape (keepsMark : Bool) (cs : List Char) : List Char :=
    cs.flatMap fun c => if isTagChar c || (c = '!' && keepsMark) then [c] else percentEscape c
  if cs = ['!'] then cs
  else if repository.isPrefixOf cs && repository.length < cs.length then
    ['!', '!'] ++ escape true (cs.drop repository.length)
  else if cs.head? = some '!' then '!' :: escape false (cs.drop 1)
  else ['!', '<'] ++ escape true cs ++ ['>']

/-! Nodes -/

/-- Can the node stand as a key without an indicator in front? Its anchor, its tag, shown or not,
and its text together are short, and it fits on a line. -/
def isSimpleKey (g : Graph) (anchors : List NodeId) (written : List NodeId) (i : NodeId) : Bool :=
  let n := g.node i
  let anchorLength := match anchors.idxOf? i with
    | some k => (anchorName (k + 1)).length
    | none => 0
  if written.contains i then anchorLength < 128
  else
    let length := anchorLength + (tagText n.tag).length
    match n.body with
    | .scalar text _ =>
      let cs := text.toList
      length + cs.length < 128 && !cs.isEmpty && !cs.any isTextBreak
    | .sequence items _ => length < 128 && items.isEmpty
    | .mapping entries _ => length < 128 && entries.isEmpty

def anchorMark (sign : Char) (anchors : List NodeId) (i : NodeId) : Print Unit :=
  match anchors.idxOf? i with
  | some k => indicator (sign :: anchorName (k + 1)) true false false
  | none => return

def scalar (place : Place) (n : Node) (cs : List Char) (style : ScalarStyle) : Print Unit := do
  let isImplicit := n.tag = Tag.ofText cs
  let shown := chooseStyle style (.ofText cs) place ((← get).flowLevel ≠ 0) isImplicit
  let needsNoTag := if shown = .plain then isImplicit else n.tag = Tag.str
  if !needsNoTag then indicator (tagText n.tag) true false false
  indented true false do
    let canSplit := !place.isSimpleKey
    match shown with
    | .plain => plain place.isRoot canSplit cs
    | .singleQuoted => singleQuoted canSplit cs
    | .doubleQuoted => doubleQuoted canSplit cs
    | .literal => literal cs
    | .folded => folded cs

def inBrackets (opening closing : Char) (body : Print Unit) : Print Unit := do
  indicator [opening] true true false
  modify fun p => { p with flowLevel := p.flowLevel + 1 }
  indented true false body
  modify fun p => { p with flowLevel := p.flowLevel - 1 }
  indicator [closing] false false false

def flowSeparator (isFirst : Bool) : Print Unit := do
  if !isFirst then indicator [','] false false false
  breakIfLong

def flowItems (item : NodeId → Print Unit) (isFirst : Bool) : List NodeId → Print Unit
  | [] => return
  | i :: rest => do
    flowSeparator isFirst
    item i
    flowItems item false rest

def flowEntries (isSimple : NodeId → Print Bool) (item : Place → NodeId → Print Unit)
    (isFirst : Bool) : List (NodeId × NodeId) → Print Unit
  | [] => return
  | (key, value) :: rest => do
    flowSeparator isFirst
    if ← isSimple key then
      item { inMapping := true, isSimpleKey := true } key
      indicator [':'] false false false
    else
      indicator ['?'] true false false
      item { inMapping := true } key
      breakIfLong
      indicator [':'] true false false
    item { inMapping := true } value
    flowEntries isSimple item false rest

def blockItems (item : NodeId → Print Unit) : List NodeId → Print Unit
  | [] => return
  | i :: rest => do
    toIndent
    indicator ['-'] true false true
    item i
    blockItems item rest

def blockEntries (isSimple : NodeId → Print Bool) (item : Place → NodeId → Print Unit) :
    List (NodeId × NodeId) → Print Unit
  | [] => return
  | (key, value) :: rest => do
    toIndent
    if ← isSimple key then
      item { inMapping := true, isSimpleKey := true } key
      indicator [':'] false false false
    else
      indicator ['?'] true false true
      item { inMapping := true } key
      toIndent
      indicator [':'] true false true
    item { inMapping := true } value
    blockEntries isSimple item rest

def node (g : Graph) (anchors : List NodeId) : Nat → Place → NodeId → Print Unit
  | 0, _, _ => return
  | fuel + 1, place, i => do
    if (← get).written.contains i then anchorMark '*' anchors i
    else
      modify fun p => { p with written := i :: p.written }
      anchorMark '&' anchors i
      let n := g.node i
      let item := node g anchors fuel
      let isSimple (k : NodeId) : Print Bool :=
        return isSimpleKey g anchors (← get).written k
      match n.body with
      | .scalar text style => scalar place n text.toList style
      | .sequence items inFlow =>
        if n.tag ≠ Tag.seq then indicator (tagText n.tag) true false false
        if (← get).flowLevel ≠ 0 || inFlow || items.isEmpty then
          inBrackets '[' ']' (flowItems (item {}) true items)
        else
          let isIndentless := place.inMapping && !(← get).inIndent
          indented false isIndentless (blockItems (item {}) items)
      | .mapping entries inFlow =>
        if n.tag ≠ Tag.map then indicator (tagText n.tag) true false false
        if (← get).flowLevel ≠ 0 || inFlow || entries.isEmpty then
          inBrackets '\x7b' '\x7d' (flowEntries isSimple item true entries)
        else indented false false (blockEntries isSimple item entries)

def document (g : Graph) (i : NodeId) : Print Unit := do
  node g (anchorsBelow g i) (g.size + 1) { isRoot := true } i
  toIndent
  if (← get).openEnded then
    indicator ['.', '.', '.'] true false false
    toIndent

end Print

def Graph.render (g : Graph) (i : NodeId) : String :=
  let (_, p) := (Print.document g i).run {}
  String.ofList (trim p.reversed.reverse)

end MailRules.Yaml
