import Mathlib
import MailRules.Proofs.Yaml.Exchange
import MailRules.Proofs.Document.Pairing
/-!
What a password in a document is seen in. It is taken as it is written and looked at no further: of two
documents that differ in a password only, either both are read, or both fail alike. Only the excerpt of
the source text that a problem of a node comes with may show it.
-/
namespace MailRules
open MailRules.Yaml

/-! The place of a password -/

namespace Yaml

/-- The trees agree but for one scalar, which has another text or another tag. -/
structure Tree.AgreeBut (t : Tree) (scalar : NodeId) (t' : Tree) : Prop where
  root : t.root = t'.root
  size : t.graph.size = t'.graph.size
  nodes : ∀ i, i ≠ scalar → t.graph.node i = t'.graph.node i
  isScalar : (t'.graph.node scalar).body.IsScalar

/-- The trees of a text with a hole agree but for the scalar that the filling has changed. -/
theorem Hole.Trees.agreeBut {hole : Hole} {t t' : Tree} (trees : hole.Trees t t') {i : NodeId}
    (filled : t.graph.node i ≠ t'.graph.node i) : t.AgreeBut i t' := by
  rcases trees.graphs with same | ⟨j, graphs⟩
  · exact absurd (congrArg (·.node i) same) filled
  · have here : i = j := not_imp_comm.mp (graphs.others i) filled
    subst here
    obtain ⟨text, _, body⟩ := graphs.scalar
    exact ⟨trees.root, graphs.size, graphs.others, ⟨_, _, body⟩⟩

/-- The place of a password in a tree: a scalar in an account, the account in the list of the document,
the list in its root. Nothing else refers to any of them. -/
structure Tree.PasswordPlace (t : Tree) where
  root : NodeId
  list : NodeId
  account : NodeId
  scalar : NodeId
  before : List NodeId
  after : List NodeId
  isRoot : t.root = some root
  inRoot : ∃ key, (key, list) ∈ (t.graph.node root).body.entries
  inList : (t.graph.node list).body.items = before ++ account :: after
  inAccount : ∃ key, (key, scalar) ∈ (t.graph.node account).body.entries
  isScalar : (t.graph.node scalar).body.IsScalar
  underPassword : ∀ e ∈ (t.graph.node account).body.entries, e.1 ≠ scalar ∧
    (e.2 = scalar → ∃ style, (t.graph.node e.1).body = .scalar "password" style)
  rootAlone : ∀ i, root ∉ t.graph.below i
  listAlone : ∀ i, list ∈ t.graph.below i → i = root
  accountAlone : ∀ i, account ∈ t.graph.below i → i = list
  accountOnce : account ∉ before ∧ account ∉ after
  scalarAlone : ∀ i, scalar ∈ t.graph.below i → i = account

namespace Tree.PasswordPlace

variable {t t' : Tree} (place : t.PasswordPlace)

def number : Nat := place.before.length

def Away (i : NodeId) : Prop :=
  i ≠ place.root ∧ i ≠ place.list ∧ i ≠ place.account ∧ i ≠ place.scalar

theorem list_below : place.list ∈ t.graph.below place.root := by
  obtain ⟨key, entry⟩ := place.inRoot
  exact (NodeBody.mem_parts_of_entry entry).2

theorem account_below : place.account ∈ t.graph.below place.list := by
  apply NodeBody.mem_parts_of_item
  rw [place.inList]
  simp

theorem scalar_below : place.scalar ∈ t.graph.below place.account := by
  obtain ⟨key, entry⟩ := place.inAccount
  exact (NodeBody.mem_parts_of_entry entry).2

theorem root_ne_list : place.root ≠ place.list := by
  intro same
  have below := place.list_below
  rw [← same] at below
  exact place.rootAlone _ below

theorem root_ne_account : place.root ≠ place.account := fun same =>
  place.rootAlone _ (same ▸ place.account_below)

theorem ne_scalar {i j : NodeId} (below : j ∈ t.graph.below i) : i ≠ place.scalar := by
  rintro rfl
  obtain ⟨text, style, body⟩ := place.isScalar
  simp [Graph.below, body, NodeBody.parts] at below

theorem list_ne_account : place.list ≠ place.account := by
  intro same
  have items := place.inList
  obtain ⟨key, entry⟩ := place.inAccount
  rw [same] at items
  cases body : (t.graph.node place.account).body <;>
    simp [body, NodeBody.items, NodeBody.entries] at items entry

theorem of_root {j : NodeId} (below : j ∈ t.graph.below place.root) :
    j = place.list ∨ place.Away j := by
  refine or_iff_not_imp_left.mpr fun other => ⟨?_, other, ?_, ?_⟩
  · exact fun same => place.rootAlone _ (same ▸ below)
  · exact fun same => place.root_ne_list (place.accountAlone _ (same ▸ below))
  · exact fun same => place.root_ne_account (place.scalarAlone _ (same ▸ below))

theorem of_list {j : NodeId} (below : j ∈ t.graph.below place.list) :
    j = place.account ∨ place.Away j := by
  refine or_iff_not_imp_left.mpr fun other => ⟨?_, ?_, other, ?_⟩
  · exact fun same => place.rootAlone _ (same ▸ below)
  · exact fun same => place.root_ne_list (place.listAlone _ (same ▸ below)).symm
  · exact fun same => place.list_ne_account (place.scalarAlone _ (same ▸ below))

theorem of_account {j : NodeId} (below : j ∈ t.graph.below place.account) :
    j = place.scalar ∨ place.Away j := by
  refine or_iff_not_imp_left.mpr fun other => ⟨?_, ?_, ?_, other⟩
  · exact fun same => place.rootAlone _ (same ▸ below)
  · exact fun same => place.root_ne_account (place.listAlone _ (same ▸ below)).symm
  · exact fun same => place.list_ne_account (place.accountAlone _ (same ▸ below)).symm

theorem away_below {i j : NodeId} (away : place.Away i) (below : j ∈ t.graph.below i) :
    place.Away j := by
  refine ⟨?_, ?_, ?_, ?_⟩
  · exact fun same => place.rootAlone _ (same ▸ below)
  · exact fun same => away.1 (place.listAlone _ (same ▸ below))
  · exact fun same => away.2.1 (place.accountAlone _ (same ▸ below))
  · exact fun same => away.2.2.1 (place.scalarAlone _ (same ▸ below))

theorem before_away {j : NodeId} (member : j ∈ place.before) : place.Away j := by
  have below : j ∈ t.graph.below place.list :=
    NodeBody.mem_parts_of_item (place.inList ▸ List.mem_append_left _ member)
  exact (place.of_list below).resolve_left fun same => place.accountOnce.1 (same ▸ member)

theorem after_away {j : NodeId} (member : j ∈ place.after) : place.Away j := by
  have below : j ∈ t.graph.below place.list := NodeBody.mem_parts_of_item
    (place.inList ▸ List.mem_append_right _ (List.mem_cons_of_mem _ member))
  exact (place.of_list below).resolve_left fun same => place.accountOnce.2 (same ▸ member)

def secret (agree : t.AgreeBut place.scalar t') : Secret where
  graph := t.graph
  hole := place.scalar
  other := t'.graph.node place.scalar
  away := place.Away
  hidden := fun away => away.2.2.2 rfl
  scalar := place.isScalar
  otherScalar := agree.isScalar

theorem alike (agree : t.AgreeBut place.scalar t') :
    (place.secret agree).Alike { graph := t.graph } { graph := t'.graph } where
  size := agree.size
  nodes := agree.nodes
  other := rfl
  seen := fun _ => ⟨fun away _ => place.away_below away, fun _ => rfl, fun _ _ => id⟩
  values := rfl
  begun := rfl

theorem node_of_seen {agree : t.AgreeBut place.scalar t'} {i : NodeId} {n : Node}
    (seen : (place.secret agree).Seen i n) (stands : ¬place.Away i) : n = t.graph.node i :=
  seen.outside stands

end Tree.PasswordPlace
end Yaml

def Document.withoutPassword (d : Document) (number : Nat) : Document :=
  { d with accounts := d.accounts.modify number Account.withoutPassword }

namespace DocumentReader

section Documents
variable {s : Secret} {text text' : List Char}

theorem modify_middle {α : Type} (before : List α) (a : α) (after : List α) (f : α → α) :
    (before ++ a :: after).modify before.length f = before ++ f a :: after := by
  induction before with
  | nil => rfl
  | cons b before ih => exact congrArg (b :: ·) ih

theorem accounts_paired {before after : List NodeId} {i : NodeId} (known : i ≠ s.hole)
    (leads : ∀ n, s.Seen i n → ∀ e ∈ n.body.entries, e.1 ≠ s.hole ∧
      (s.away e.2 ∨ e.2 = s.hole ∧ ∃ style, (s.graph.node e.1).body = .scalar "password" style))
    (earlier : ∀ j ∈ before, s.away j) (later : ∀ j ∈ after, s.away j) :
    Paired s text text' (fun as as' => as.modify before.length Account.withoutPassword =
        as'.modify before.length Account.withoutPassword)
      ((before ++ i :: after).mapM account) ((before ++ i :: after).mapM account) := by
  simp only [List.mapM_append, List.mapM_cons, bind_assoc, pure_bind]
  refine paired_same ((apart s text text').mapM fun j member =>
    (apart s text text').account (earlier j member)) fun xs length => ?_
  refine paired_bind (account_paired known leads) fun a a' alike => ?_
  refine paired_same ((apart s text text').mapM fun j member =>
    (apart s text text').account (later j member)) fun zs _ => ?_
  apply paired_pure
  rw [← length, modify_middle, modify_middle, alike]

variable {t t' : Tree} (place : t.PasswordPlace) (agree : t.AgreeBut place.scalar t')

/-- The items of the list, or of whatever else stands in its place, are read alike but for the
password. -/
theorem listed_paired {j : NodeId} (stands : j = place.list ∨ place.Away j) {n : Node}
    (seen : (place.secret agree).Seen j n) :
    Paired (place.secret agree) text text'
      (fun as as' => as.modify place.number Account.withoutPassword =
        as'.modify place.number Account.withoutPassword)
      (n.body.items.mapM account) (n.body.items.mapM account) := by
  rcases stands with rfl | away
  · -- the list itself has not been touched, so its items are still those of the tree
    obtain rfl := place.node_of_seen seen fun away => away.2.1 rfl
    rw [place.inList]
    refine accounts_paired (place.ne_scalar place.scalar_below) ?_ (fun _ => place.before_away)
      fun _ => place.after_away
    intro n seen e entry
    obtain rfl := place.node_of_seen seen fun away => away.2.2.1 rfl
    obtain ⟨shown, password⟩ := place.underPassword e entry
    refine ⟨shown, ?_⟩
    rcases place.of_account (NodeBody.mem_parts_of_entry entry).2 with hidden | away
    · exact .inr ⟨hidden, password hidden⟩
    · exact .inl away
  · let elsewhere := apart (place.secret agree) text text'
    have each : ∀ k ∈ n.body.items, elsewhere.Plain (account k) := fun k member =>
      elsewhere.account (seen.inside away k (NodeBody.mem_parts_of_item member))
    exact paired_weaken (elsewhere.mapM each) fun as as' both => congrArg _ both.1

/-- Of all that is read only the password in its place may differ. -/
theorem document_paired : Paired (place.secret agree) text text'
    (fun d d' => d.withoutPassword place.number = d'.withoutPassword place.number)
    (document t.root) (document t'.root) := by
  have rootKnown : place.root ≠ place.scalar := place.ne_scalar place.list_below
  have known : ∀ j, j = place.list ∨ place.Away j → j ≠ place.scalar := by
    rintro j (rfl | away)
    · exact place.ne_scalar place.account_below
    · exact away.2.2.2
  rw [← agree.root, place.isRoot]
  refine paired_read fun name => ?_
  dsimp only
  refine paired_same (same_nodeAt rootKnown) fun n _ => ?_
  refine paired_when (same_throw _) fun _ => ?_
  let elsewhere := apart (place.secret agree) text text'
  refine paired_same (elsewhere.entries _ _ rootKnown fun n seen e entry => ?_) ?_
  · obtain rfl := place.node_of_seen seen fun away => away.1 rfl
    exact known _ (place.of_root (NodeBody.mem_parts_of_entry entry).1)
  rintro es ⟨n, seen, each⟩
  obtain rfl := place.node_of_seen seen fun away => away.1 rfl
  have found : ∀ j ∈ es.lookup "servers", j = place.list ∨ place.Away j := by
    intro j given
    obtain ⟨x, _, _, entry, -⟩ := each _ (Survey.mem_of_lookup given)
    exact place.of_root (NodeBody.mem_parts_of_entry entry).2
  refine paired_same (elsewhere.items _ fun j given => known j (found j given)) fun nodes listed => ?_
  refine paired_bind ?_ fun as as' alike => paired_pure (congrArg (Document.mk name) alike)
  rcases listed with rfl | ⟨j, given, n, seen, rfl⟩
  · exact paired_pure rfl
  · exact listed_paired place agree (found j given) seen

end Documents
end DocumentReader

theorem Document.parse_alike {text text' : String} {t t' : Tree}
    (opened : Tree.ofText text.toList = .ok t) (opened' : Tree.ofText text'.toList = .ok t')
    (place : t.PasswordPlace) (agree : t.AgreeBut place.scalar t') (name : String) :
    Secret.Matches (Failure.AlikeBut text.toList text'.toList)
      (fun d d' => d.withoutPassword place.number = d'.withoutPassword place.number)
      (parse text name) (parse text' name) := by
  have together : DocumentReader.Paired (place.secret agree) text.toList text'.toList _ _ _ :=
    DocumentReader.document_paired place agree
  have ends := (together name _ _ (place.alike agree)).1
  have parsed : parse text name =
      (DocumentReader.document t.root ⟨name, text.toList⟩ { graph := t.graph }).1 := by
    simp only [parse, opened]
    rfl
  have parsed' : parse text' name =
      (DocumentReader.document t'.root ⟨name, text'.toList⟩ { graph := t'.graph }).1 := by
    simp only [parse, opened']
    rfl
  rwa [← parsed, ← parsed'] at ends

/-- Of two texts whose trees agree but for a password, either both are read, and the documents agree but
for that password, or both fail alike; only where a problem of a node is told of do the messages differ,
by the excerpts that they have of the texts. -/
theorem Document.password_shows_only_in_excerpts {text text' : String} {t t' : Tree}
    (opened : Tree.ofText text.toList = .ok t) (opened' : Tree.ofText text'.toList = .ok t')
    (place : t.PasswordPlace) (agree : t.AgreeBut place.scalar t') (name : String) :
    (∃ d d', parse text name = .ok d ∧ parse text' name = .ok d' ∧
      d.withoutPassword place.number = d'.withoutPassword place.number) ∨
    (∃ failure, parse text name = .error failure ∧ parse text' name = .error failure) ∨
    ∃ (p : NodeProblem) (l : Option Location),
      parse text name = .error (.error (.document (.invalidValue (p.message text.toList)) l)) ∧
      parse text' name = .error (.error (.document (.invalidValue (p.message text'.toList)) l)) := by
  have ends := parse_alike opened opened' place agree name
  generalize parse text name = r, parse text' name = r' at ends
  cases ends with
  | ok alike => exact .inl ⟨_, _, rfl, rfl, alike⟩
  | error fails =>
    cases fails with
    | same => exact .inr (.inl ⟨_, rfl, rfl⟩)
    | excerpt p l => exact .inr (.inr ⟨p, l, rfl, rfl⟩)

/-- Two fillings of one hole: either neither text is YAML, and both fail alike, or both have trees; and
where the fillings show as a password, the documents agree but for it, or the failures but for the
excerpts. -/
theorem Document.filling_shows_only_in_excerpts {hole : Hole} {before : List Char}
    (comes : Lexer.Comes hole (Lexer.ofText (before ++ hole.rest))) (name : String) :
    let text := String.ofList (before ++ hole.rest)
    let text' := String.ofList (before ++ hole.twin)
    (∃ failure, parse text name = .error failure ∧ parse text' name = .error failure) ∨
    ∃ t t', Tree.ofText text.toList = .ok t ∧ Tree.ofText text'.toList = .ok t' ∧
      ∀ place : t.PasswordPlace, t.graph.node place.scalar ≠ t'.graph.node place.scalar →
        Secret.Matches (Failure.AlikeBut text.toList text'.toList)
          (fun d d' => d.withoutPassword place.number = d'.withoutPassword place.number)
          (parse text name) (parse text' name) := by
  intro text text'
  have letters : text.toList = before ++ hole.rest := String.toList_ofList
  have letters' : text'.toList = before ++ hole.twin := String.toList_ofList
  rcases Tree.ofText_filled comes with ⟨refusal, refused, refused'⟩ | ⟨t, t', opened, opened', trees⟩
  · rw [← letters] at refused
    rw [← letters'] at refused'
    refine .inl ?_
    unfold parse
    dsimp only
    rw [refused, refused']
    cases refusal with
    | badCharacter c position => exact ⟨_, rfl, rfl⟩
    | stop s => cases s <;> exact ⟨_, rfl, rfl⟩
  · rw [← letters] at opened
    rw [← letters'] at opened'
    exact .inr ⟨t, t', opened, opened', fun place filled =>
      parse_alike opened opened' place (trees.agreeBut filled) name⟩

/-! A password on the line of a switch with a tag of its own -/

def abcText : String := "servers:\n- \x7bhost: h, password: abc, notls: !a b\x7d\n"

def xyzText : String := "servers:\n- \x7bhost: h, password: xyz, notls: !a b\x7d\n"

/-- The password has three letters. -/
def taggedTokens (password : String) : List Token :=
  [token .blockMappingStart 0 0 0 0, token .key 0 0 0 0, plainToken "servers" 0 0 0, token .value 7 0 7 1,
    token .blockEntry 9 1 0 1, token .flowMappingStart 11 1 2 1,
    token .key 12 1 3 0, plainToken "host" 12 1 3, token .value 16 1 7 1, plainToken "h" 18 1 9,
    token .flowEntry 19 1 10 1, token .key 21 1 12 0, plainToken "password" 21 1 12, token .value 29 1 20 1,
    plainToken password 31 1 22, token .flowEntry 34 1 25 1,
    token .key 36 1 27 0, plainToken "notls" 36 1 27, token .value 41 1 32 1,
    token (.tag (some "!") "a") 43 1 34 2, plainToken "b" 46 1 37, token .flowMappingEnd 47 1 38 1] ++
  closingTokens 1 49 2

def taggedNodes (password : String) : List Node :=
  [mapping [(1, 2)] false 0 0 0,
    word "servers" 0 0 0, sequence [3] false 9 1 0,
    mapping [(4, 5), (6, 7), (8, 9)] true 11 1 2,
    word "host" 12 1 3, word "h" 18 1 9,
    word "password" 21 1 12, word password 31 1 22,
    word "notls" 36 1 27, ⟨"!a", .scalar "b" .plain, ⟨43, 1, 34⟩⟩]

def taggedTree (password : String) : Tree := ⟨⟨(taggedNodes password).toArray⟩, some 0⟩

theorem abc_scanned :
    (scan abcText.toList).tokens = taggedTokens "abc" ∧ (scan abcText.toList).stop = none := by
  decide +kernel

theorem xyz_scanned :
    (scan xyzText.toList).tokens = taggedTokens "xyz" ∧ (scan xyzText.toList).stop = none := by
  decide +kernel

theorem tagged_abc : Tree.ofText abcText.toList = .ok (taggedTree "abc") :=
  Tree.ofText_of_tokens (by decide +kernel) abc_scanned (by decide +kernel)

theorem tagged_xyz : Tree.ofText xyzText.toList = .ok (taggedTree "xyz") :=
  Tree.ofText_of_tokens (by decide +kernel) xyz_scanned (by decide +kernel)

theorem tagged_node (password : String) (i : NodeId) :
    (taggedTree password).graph.node i = (taggedNodes password).getD i Graph.absent := by
  simp [taggedTree, Graph.node]

theorem tagged_below (password : String) (i : NodeId) : (taggedTree password).graph.below i =
    match i with
    | 0 => [1, 2]
    | 2 => [3]
    | 3 => [4, 5, 6, 7, 8, 9]
    | _ => [] := by
  rw [Graph.below, tagged_node]
  rcases i with _ | _ | _ | _ | _ | _ | _ | _ | _ | _ | i <;> rfl

def taggedPlace : (taggedTree "abc").PasswordPlace where
  root := 0
  list := 2
  account := 3
  scalar := 7
  before := []
  after := []
  isRoot := rfl
  inRoot := ⟨1, List.mem_cons_self⟩
  inList := rfl
  inAccount := ⟨6, by decide⟩
  isScalar := ⟨_, _, rfl⟩
  underPassword := by
    intro e entry
    change e ∈ [(4, 5), (6, 7), (8, 9)] at entry
    simp only [List.mem_cons, List.not_mem_nil, or_false] at entry
    rcases entry with rfl | rfl | rfl
    · simp
    · exact ⟨by decide, fun _ => ⟨_, rfl⟩⟩
    · simp
  rootAlone := fun i => by
    rw [tagged_below]
    split <;> decide
  listAlone := fun i => by
    rw [tagged_below]
    split <;> simp
  accountAlone := fun i => by
    rw [tagged_below]
    split <;> simp
  accountOnce := by simp
  scalarAlone := fun i => by
    rw [tagged_below]
    split <;> simp

def taggedBefore : List Char := "servers:\n- \x7bhost: h, password: ".toList

def taggedHole : Hole where
  one := "abc".toList
  other := "xyz".toList
  after := ", notls: !a b\x7d\n".toList
  nonempty := by decide
  length := by decide
  ofOne := List.all_eq_true.mp rfl
  ofOther := List.all_eq_true.mp rfl

theorem tagged_comes : Lexer.Comes taggedHole (Lexer.ofText (taggedBefore ++ taggedHole.rest)) :=
  Lexer.comes_of_reaches 12 (by decide +kernel)

theorem tagged_agree : (taggedTree "abc").AgreeBut taggedPlace.scalar (taggedTree "xyz") := by
  have abc : abcText.toList = taggedBefore ++ taggedHole.rest := by decide +kernel
  have xyz : xyzText.toList = taggedBefore ++ taggedHole.twin := by decide +kernel
  rcases Tree.ofText_filled tagged_comes with ⟨refusal, refused, -⟩ | ⟨t, t', opened, opened', trees⟩
  · rw [← abc] at refused
    cases tagged_abc.symm.trans refused
  · rw [← abc] at opened
    rw [← xyz] at opened'
    cases tagged_abc.symm.trans opened
    cases tagged_xyz.symm.trans opened'
    exact trees.agreeBut (by decide +kernel)

def taggedProblem : NodeProblem :=
  ⟨none, "could not determine a constructor for the tag '!a'", ⟨43, 1, 34⟩⟩

open DocumentReader in
theorem tagged_parsed {text password : String}
    (tree : Tree.ofText text.toList = .ok (taggedTree password)) :
    Document.parse text "c" = .error (.error (.document
      (.invalidValue (taggedProblem.message text.toList)) (some ⟨"c", 2, 35⟩))) := by
  have value : Build.value 9 { graph := (taggedTree password).graph } =
      (.error (.problem taggedProblem), { graph := (taggedTree password).graph, begun := [9] }) := by
    cbv
  have built : build 9 ⟨"c", text.toList⟩ { graph := (taggedTree password).graph } =
      (.ok (.error (taggedProblem.message text.toList)),
        { graph := (taggedTree password).graph, begun := [9] }) := by
    rw [build_apply, value]
  have read : document (some 0) ⟨"c", text.toList⟩ { graph := (taggedTree password).graph } =
      (.error (.error (.document (.invalidValue (taggedProblem.message text.toList))
        (some ⟨"c", 2, 35⟩))), { graph := (taggedTree password).graph, begun := [9] }) := by
    simp [document, account, entries, entriesFrom, items, flagData, datum, built, requiredText,
      text?, isNull, accountKeys, Flag.all, Flag.key, List.lookup_cons, List.mapM_cons, tagged_node,
      taggedNodes, word, sequence, mapping, Tag.str, Tag.null]
  simp only [Document.parse, tree]
  exact congrArg Prod.fst read

theorem tagged_messages :
    taggedProblem.message abcText.toList ≠ taggedProblem.message xyzText.toList := by
  decide +kernel

theorem Document.tagged_excerpts :
    (Tree.ofText abcText.toList = .ok (taggedTree "abc") ∧
      Tree.ofText xyzText.toList = .ok (taggedTree "xyz") ∧
      (taggedTree "abc").AgreeBut taggedPlace.scalar (taggedTree "xyz")) ∧
    ∃ (p : NodeProblem) (l : Option Location),
      parse abcText "c" = .error (.error (.document (.invalidValue (p.message abcText.toList)) l)) ∧
      parse xyzText "c" = .error (.error (.document (.invalidValue (p.message xyzText.toList)) l)) := by
  refine ⟨⟨tagged_abc, tagged_xyz, tagged_agree⟩, ?_⟩
  have failed := tagged_parsed tagged_abc
  have failed' := tagged_parsed tagged_xyz
  rcases password_shows_only_in_excerpts tagged_abc tagged_xyz taggedPlace tagged_agree "c" with
    ⟨d, d', read, -, -⟩ | ⟨failure, same, same'⟩ | excerpts
  · cases failed.symm.trans read
  · cases failed.symm.trans same
    have messages := failed'.symm.trans same'
    simp only [Except.error.injEq, Failure.error.injEq, Error.document.injEq, Flaw.invalidValue.injEq]
      at messages
    exact absurd messages.1.symm tagged_messages
  · exact excerpts

/-- Messages may depend on a password. -/
theorem Document.password_shown :
    ¬∀ (text text' name : String) (t t' : Tree), text.length = text'.length →
      Tree.ofText text.toList = .ok t → Tree.ofText text'.toList = .ok t' →
      ∀ place : t.PasswordPlace, t.AgreeBut place.scalar t' →
        (∃ d d', parse text name = .ok d ∧ parse text' name = .ok d' ∧
          d.withoutPassword place.number = d'.withoutPassword place.number) ∨
        ∃ flaw flaw' l, parse text name = .error (.error (.document flaw l)) ∧
          parse text' name = .error (.error (.document flaw' l)) ∧ flaw.message = flaw'.message := by
  intro always
  have failed := tagged_parsed tagged_abc
  have failed' := tagged_parsed tagged_xyz
  have lengths : abcText.length = xyzText.length := by decide +kernel
  rcases always _ _ "c" _ _ lengths tagged_abc tagged_xyz taggedPlace tagged_agree with
    ⟨d, d', read, -, -⟩ | ⟨flaw, flaw', l, left, right, same⟩
  · cases failed.symm.trans read
  · cases failed.symm.trans left
    cases failed'.symm.trans right
    exact tagged_messages ((String.append_right_inj _).mp same)

end MailRules
