import MailRules.Proofs.Search.Dates
import MailRules.Proofs.Yaml.Sixties
/-!
Scalars without a tag, as arguments. Whatever the text of one is taken for, it is kept: the readers of the tags
that follow from a text refuse what has no value under them, and then the text stands for itself. There is one
exception, a number in base sixty of very many places, which no reader refuses and none reads.
-/
namespace MailRules.Yaml
open MailRules.Text

/-- A plain number in base sixty with a fraction, of so many places that one is beyond the doubles. -/
def Overlong (style : ScalarStyle) (text : String) : Prop :=
  style = .plain ∧ Tag.ofText text.toList = Tag.float ∧ 174 ≤ text.toList.count ':'

namespace ScalarValue
variable {cs : List Char} {tag : String}

/-- A text from which a tag follows has the form of the tag. -/
theorem form_of_ofText {p : List Char → Bool} (here : (tag, p) ∈ forms) (tagged : Tag.ofText cs = tag)
    (noFeed : cs.getLast? ≠ some '\n') : p cs = true := by
  have spelled : Spelled (List.replicate (cs.count ':') ':') tag cs := .inr ⟨tagged.symm, noFeed, by simp⟩
  exact (form_of_spelled here spelled).resolve_left (by simp)

/-- Under the tag that follows from a text, its reader is at fault for numbers in base sixty alone. -/
theorem reader_fault {read : List Char → Except ScalarFailure Datum} {f : Fault}
    (noFeed : cs.getLast? ≠ some '\n') (member : (Tag.ofText cs, read) ∈ readers)
    (fault : read cs = .error (.fault f)) :
    f = .placeBeyondDouble ∧ Tag.ofText cs = Tag.float ∧ 174 ≤ cs.count ':' := by
  simp only [readers, List.mem_cons, Prod.mk.injEq, List.not_mem_nil, or_false] at member
  rcases member with ⟨tagged, rfl⟩ | ⟨-, rfl⟩ | ⟨tagged, rfl⟩ | ⟨tagged, rfl⟩ | ⟨tagged, rfl⟩ | ⟨-, rfl⟩
  · have form := form_of_ofText (p := isIntText) (by simp [forms]) tagged noFeed
    have ends := int_ends cs
    rw [fault] at ends
    exact absurd ends.2 (splitSign_leads (isIntText_leads form))
  · cases fault
  · have form := form_of_ofText (p := isOneOf boolWords) (by simp [forms]) tagged noFeed
    have ends := bool_ends cs
    rw [fault] at ends
    obtain ⟨w, word, same⟩ := List.any_eq_true.mp form
    have written : w.toList = cs := by simpa using same
    exact absurd (written ▸ boolWords_lower w word) ends.2
  · have form := form_of_ofText (p := isFloatText) (by simp [forms]) tagged noFeed
    have ends := float_ends cs
    rw [fault] at ends
    rcases ends with ⟨-, empty⟩ | ⟨rfl, many⟩
    · exact absurd empty (floatWord_ne_nil form)
    · exact ⟨rfl, tagged, many⟩
  · have form := form_of_ofText (p := isTimestampText) (by simp [forms]) tagged noFeed
    have ends := timestamp_ends cs
    rw [fault, if_neg noFeed] at ends
    rw [isTimestampText, ends.2] at form
    cases form
  · have ends := binary_ends (P := fun _ => False) cs
    rw [fault] at ends
    exact ends.elim

end ScalarValue

namespace Build
variable {b : Builder} {i : NodeId} {text : String} {style : ScalarStyle}

theorem ofTag_float {build : NodeId → Build Datum} {f : Fault}
    (body : (b.graph.node i).body = .scalar text style) (tag : (b.graph.node i).tag = Tag.float)
    (fault : ScalarValue.float text.toList = .error (.fault f)) :
    ofTag build i b = (.error (.fault f), b) := by
  have read : ofText i ScalarValue.float b = (.error (.fault f), b) := by
    simp only [ofText, scalarText, bind_apply, get_apply, body, pure_apply, fault]
    rfl
  simp [ofTag, tag, read, Tag.float, Tag.str, Tag.int, Tag.seq, Tag.map, Tag.null, Tag.bool]

theorem value_float {f : Fault} (body : (b.graph.node i).body = .scalar text style)
    (tag : (b.graph.node i).tag = Tag.float) (fresh : b.values.lookup i = none) (idle : i ∉ b.begun)
    (fault : ScalarValue.float text.toList = .error (.fault f)) :
    ∃ b', Build.value i b = (.error (.fault f), b') := by
  have failed (build : NodeId → Build Datum) : ofTag build i { b with begun := i :: b.begun } =
      (.error (.fault f), { b with begun := i :: b.begun }) := ofTag_float body tag fault
  refine ⟨{ b with begun := i :: b.begun }, ?_⟩
  simp [value, datum, fresh, idle, failed]

end Build
end MailRules.Yaml

namespace MailRules.DocumentReader
open MailRules.Yaml MailRules.Search

theorem leaf_overlong {b : Builder} {i : NodeId} {text : String} {style : ScalarStyle}
    (body : (b.graph.node i).body = .scalar text style) (tag : (b.graph.node i).tag = Tag.float)
    (form : isFloatText text.toList = true) (many : 174 ≤ text.toList.count ':')
    (idle : i ∉ b.begun) (fresh : b.values.lookup i = none) (source : Source) :
    (leaf i source b).1 = .error (.fault .placeBeyondDouble) := by
  obtain ⟨b', failed⟩ := Build.value_float body tag fresh idle (ScalarValue.float_beyond form many)
  simp only [leaf, bind_apply, nodeAt_apply, locationOf, read_apply, pure_apply, body, build_apply, failed]

/-- An argument that is a scalar without a tag is kept with its text, so that it is the text as written where
a text is asked for, and in quotes it stands for nothing else. Only an overlong number in base sixty is at
fault, and the first time that it is read it always is. -/
theorem untagged_scalar_keeps_text {document : List Char} {tree : Tree} {b : Builder} {i : NodeId}
    {text : String} {style : ScalarStyle} (opened : Tree.ofText document = .ok tree)
    (reached : Reached tree.graph b) (body : (tree.graph.node i).body = .scalar text style)
    (untagged : (tree.graph.node i).tag = Read.scalarTag none text style) (source : Source) :
    ((∃ d place b', leaf i source b = (.ok ⟨text, d, true, place⟩, b') ∧ (style ≠ .plain → d = .text text) ∧
        ∀ field, stringText field (.leaf ⟨text, d, true, place⟩) = .ok text) ∨
      (leaf i source b).1 = .error (.fault .placeBeyondDouble) ∧ Overlong style text) ∧
    (Overlong style text → i ∉ b.begun → b.values.lookup i = none →
      (leaf i source b).1 = .error (.fault .placeBeyondDouble)) := by
  have remembers := Build.remembers_of_reached reached
  have kept := (remembers.fits i).scalar body
  have plain := Tree.ofText_known document
  rw [opened] at plain
  constructor
  · rcases leaf_scalar kept source with ⟨f, b', failed, ended⟩ | ⟨d, place, b', found, -⟩
    · right
      have built := Build.value_scalar remembers body
      unfold Build.Leads at built
      rw [failed] at built
      obtain ⟨read, member, fault⟩ := built f rfl
      by_cases style_eq : style = .plain
      · subst style_eq
        have noFeed := (plain.2 i text body).1
        rw [untagged] at member
        obtain ⟨rfl, tag, many⟩ := ScalarValue.reader_fault noFeed member fault
        exact ⟨by rw [ended], rfl, tag, many⟩
      · rw [untagged, Read.scalarTag, if_neg style_eq] at member
        exact absurd member not_reader
    · refine .inl ⟨d, place, b', found, ?_, fun field => rfl⟩
      intro quoted
      have stands := (leaf_stands ⟨_, b, b', i, style, source, reached, rfl, body, found⟩).2.2
      rw [untagged, Read.scalarTag, if_neg quoted] at stands
      exact stands_text stands
  · rintro ⟨rfl, tag, many⟩ idle fresh
    have noFeed := (plain.2 i text body).1
    have form := ScalarValue.form_of_ofText (p := isFloatText) (by simp [forms]) tag noFeed
    have float : (tree.graph.node i).tag = Tag.float := by rw [untagged, Read.scalarTag, if_pos rfl, tag]
    have tagged : (b.graph.node i).tag = Tag.float := by
      rcases (remembers.fits i).tag with same | ⟨default, -⟩
      · exact same.trans float
      · rw [float] at default
        exact absurd default (by decide)
    exact leaf_overlong kept tagged form many idle fresh source

/-! A day that no month has, and a number of a hundred and seventy-five places -/

def lateText : List Char := "2024-02-30".toList

def overlongText : List Char := '0' :: (List.replicate 174 [':', '0']).flatten ++ ['.', '0']

def plainGraph (cs : List Char) : Graph :=
  ⟨#[⟨Tag.ofText cs, .scalar (String.ofList cs) .plain, .start⟩]⟩

/-- The tokens of a text that is one plain scalar. -/
def scalarTokens (cs : List Char) : List Yaml.Token :=
  [token (.scalar (String.ofList cs) .plain) 0 0 0 cs.length, token .streamEnd cs.length 0 cs.length 0]

theorem scalar_composed (cs : List Char) :
    readTokens ⟨scalarTokens cs, none⟩ = .ok ⟨plainGraph cs, some 0⟩ := by
  have read : readTokens ⟨scalarTokens cs, none⟩ = .ok ⟨⟨#[⟨Read.scalarTag none (String.ofList cs) .plain,
      .scalar (String.ofList cs) .plain, .start⟩]⟩, some 0⟩ := rfl
  simpa [Read.scalarTag, plainGraph] using read

theorem late_tree : Tree.ofText lateText = .ok ⟨plainGraph lateText, some 0⟩ :=
  Tree.ofText_of_tokens (by decide +kernel) (by decide +kernel) (scalar_composed lateText)

theorem overlong_tree : Tree.ofText overlongText = .ok ⟨plainGraph overlongText, some 0⟩ :=
  Tree.ofText_of_tokens (by decide +kernel) (by decide +kernel) (scalar_composed overlongText)

theorem plainGraph_tag (cs : List Char) : ((plainGraph cs).node 0).tag = Tag.ofText cs := rfl

theorem plainGraph_untagged (cs : List Char) :
    ((plainGraph cs).node 0).tag = Read.scalarTag none (String.ofList cs) .plain := by
  simp [plainGraph_tag, Read.scalarTag]

theorem overlong_tag : Tag.ofText overlongText = Tag.float := by decide +kernel

theorem overlong_colons : overlongText.count ':' = 174 := by decide +kernel

theorem late_day_kept :
    (∃ d place b', leaf 0 ⟨"c", lateText⟩ { graph := plainGraph lateText } =
      (.ok ⟨String.ofList lateText, d, true, place⟩, b')) ∧
    (leaf 0 ⟨"c", overlongText⟩ { graph := plainGraph overlongText }).1 =
      .error (.fault .placeBeyondDouble) := by
  constructor
  · have kept := untagged_scalar_keeps_text late_tree .start rfl (plainGraph_untagged lateText) ⟨"c", lateText⟩
    rcases kept.1 with ⟨d, place, b', found, -⟩ | ⟨-, -, -, many⟩
    · exact ⟨d, place, b', found⟩
    · exact absurd many (by decide)
  · have kept := untagged_scalar_keeps_text overlong_tree .start rfl (plainGraph_untagged overlongText)
      ⟨"c", overlongText⟩
    refine kept.2 ⟨rfl, ?_, ?_⟩ List.not_mem_nil rfl
    · rw [String.toList_ofList, overlong_tag]
    · rw [String.toList_ofList, overlong_colons]

theorem overlong_unread :
    ¬∀ document tree b i text style source, Tree.ofText document = .ok tree → Reached tree.graph b →
      (tree.graph.node i).body = .scalar text style →
      (tree.graph.node i).tag = Read.scalarTag none text style →
      ∃ d place b', leaf i source b = (.ok ⟨text, d, true, place⟩, b') := by
  intro always
  obtain ⟨d, place, b', found⟩ := always _ _ _ 0 _ _ ⟨"c", overlongText⟩ overlong_tree .start rfl
    (plainGraph_untagged overlongText)
  have form : isFloatText overlongText = true :=
    ScalarValue.form_of_ofText (by simp [forms]) overlong_tag (by decide +kernel)
  have tag := (plainGraph_tag overlongText).trans overlong_tag
  have colons := overlong_colons.ge
  rw [← String.toList_ofList (l := overlongText)] at form colons
  have failed := leaf_overlong (b := { graph := plainGraph overlongText }) (i := 0) rfl tag form colons
    List.not_mem_nil rfl ⟨"c", overlongText⟩
  rw [found] at failed
  cases failed

end MailRules.DocumentReader
