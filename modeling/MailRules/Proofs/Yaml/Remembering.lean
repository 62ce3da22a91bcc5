import MailRules.Proofs.Yaml.Invariants
/-!
What a builder remembers of scalars. In whatever order the values of a graph are built, a scalar keeps its
text, and what is remembered of it is its text or what the reader of its tag makes of the text.
-/
namespace MailRules.Yaml

def ScalarValue.readers : List (String × (List Char → Except ScalarFailure Datum)) :=
  [(Tag.int, int), (Tag.null, fun _ => .ok .null), (Tag.bool, bool), (Tag.float, float),
   (Tag.timestamp, timestamp), (Tag.binary, binary)]

/-- What a scalar may stand for: its text, or the value that the text has under the tag. -/
def Stands (tag text : String) (d : Datum) : Prop :=
  d = .text text ∨ ∃ read, (tag, read) ∈ ScalarValue.readers ∧ read text.toList = .ok d

def FaultOf (tag text : String) (failure : BuildFailure) : Prop :=
  ∀ f, failure = .fault f →
    ∃ read, (tag, read) ∈ ScalarValue.readers ∧ read text.toList = .error (.fault f)

theorem faultOf_problem (tag text : String) (p : NodeProblem) : FaultOf tag text (.problem p) := by
  intro f same
  cases same

theorem not_reader {read : List Char → Except ScalarFailure Datum} :
    (Tag.str, read) ∉ ScalarValue.readers := by
  have others : ∀ tag ∈ ScalarValue.readers.map Prod.fst, tag ≠ Tag.str := by decide
  exact fun member => others _ (List.mem_map_of_mem member) rfl

theorem stands_text {text : String} {d : Datum} (stands : Stands Tag.str text d) : d = .text text := by
  refine stands.resolve_right ?_
  rintro ⟨read, member, -⟩
  exact not_reader member

/-- What may have become of a node: a scalar is as it was, but that the tag of a default value may have
been given up for that of a text. -/
structure Graph.Fits (g : Graph) (i : NodeId) (n : Node) : Prop where
  scalar : ∀ {text style}, (g.node i).body = .scalar text style → n.body = .scalar text style
  tag : n.tag = (g.node i).tag ∨ (g.node i).tag = Tag.value ∧ n.tag = Tag.str

section Fits
variable {g : Graph} {i : NodeId} {n : Node} {text : String}

theorem Graph.Fits.stands {d : Datum} (fits : g.Fits i n) (stands : Stands n.tag text d) :
    Stands (g.node i).tag text d := by
  rcases fits.tag with same | ⟨-, str⟩
  · rwa [same] at stands
  · rw [str] at stands
    exact .inl (stands_text stands)

theorem Graph.Fits.faultOf {failure : BuildFailure} (fits : g.Fits i n)
    (fault : FaultOf n.tag text failure) : FaultOf (g.node i).tag text failure := by
  rcases fits.tag with same | ⟨-, str⟩
  · rwa [same] at fault
  · intro f is
    rw [str] at fault
    obtain ⟨read, member, -⟩ := fault f is
    exact absurd member not_reader

end Fits

structure Remembers (g : Graph) (b : Builder) : Prop where
  fits : ∀ i, g.Fits i (b.graph.node i)
  value : ∀ {i text style d}, (g.node i).body = .scalar text style → b.values.lookup i = some d →
    Stands (g.node i).tag text d

/-- The states of a builder that builds values of one graph. -/
inductive Reached (g : Graph) : Builder → Prop
  | start : Reached g { graph := g }
  | value {b : Builder} (i : NodeId) (before : Reached g b) : Reached g (Build.value i b).2

namespace Build

variable {g : Graph} {b : Builder} {i : NodeId} {text : String} {style : ScalarStyle}

/-! Scalars -/

def Quiet {α : Type} (s : Build α) : Prop := ∀ b, (s b).2 = b

theorem quiet_bind {α β : Type} {s : Build α} {next : α → Build β} (first : Quiet s)
    (later : ∀ a, Quiet (next a)) : Quiet (s >>= next) := by
  intro b
  have stays := first b
  rw [bind_apply]
  cases ended : s b with
  | mk r b' =>
    rw [ended] at stays
    subst stays
    cases r with
    | ok a => exact later a _
    | error failure => rfl

theorem scalarText_quiet (fuel : Nat) : ∀ i : NodeId, Quiet (scalarText i fuel) := by
  induction fuel with
  | zero => exact fun _ _ => rfl
  | succ fuel ih =>
    intro i
    refine quiet_bind (fun _ => rfl) fun b => ?_
    dsimp only
    split
    · exact fun _ => rfl
    · split
      · exact ih _
      · exact fun _ => rfl
    · exact fun _ => rfl

theorem ofText_quiet (i : NodeId) (read : List Char → Except ScalarFailure Datum) :
    Quiet (ofText i read) := by
  refine quiet_bind (fun _ => rfl) fun b => quiet_bind (scalarText_quiet _ i) fun text => ?_
  split <;> exact fun _ => rfl

theorem timestamp_quiet (i : NodeId) : Quiet (timestamp i) := by
  refine quiet_bind (fun _ => rfl) fun b => quiet_bind ?_ fun _ => ?_
  · change Quiet ((fun _ => ()) <$> scalarText i (b.graph.size + 1))
    rw [← bind_pure_comp]
    exact quiet_bind (scalarText_quiet _ i) fun _ _ => rfl
  · refine quiet_bind (fun _ => rfl) fun n => ?_
    split
    · exact ofText_quiet i _
    · exact fun _ => rfl

theorem scalarStep_quiet {tag : String} {s : Build Datum} (step : ScalarStep i tag s) : Quiet s := by
  cases step with
  | timestamp => exact timestamp_quiet i
  | _ => exact ofText_quiet i _

theorem ofText_scalar (body : (b.graph.node i).body = .scalar text style)
    (read : List Char → Except ScalarFailure Datum) :
    Leads b (ofText i read) (fun d _ => read text.toList = .ok d) fun failure _ =>
      ∀ f, failure = .fault f → read text.toList = .error (.fault f) := by
  have found : scalarText i (b.graph.size + 1) b = (.ok text, b) := by simp [scalarText, body]
  refine leads_get ?_
  unfold Leads
  rw [bind_apply, found]
  dsimp only
  cases read text.toList with
  | ok d => exact rfl
  | error failure =>
    cases failure with
    | fault f => exact fun f' same => congrArg _ (congrArg _ (BuildFailure.fault.inj same))
    | refused reason =>
      intro f same
      cases same
    | content reason =>
      intro f same
      cases same

theorem timestamp_scalar (body : (b.graph.node i).body = .scalar text style) :
    timestamp i b = ofText i ScalarValue.timestamp b := by
  have found : scalarText i (b.graph.size + 1) b = (.ok text, b) := by simp [scalarText, body]
  have discarded : (discard (scalarText i (b.graph.size + 1)) : Build Unit) b = (.ok (), b) := by
    change ((fun _ => ()) <$> scalarText i (b.graph.size + 1) : Build Unit) b = _
    rw [map_apply, found]
  unfold timestamp
  rw [bind_apply, get_apply]
  dsimp only
  rw [bind_apply, discarded]
  dsimp only
  rw [bind_apply, nodeAt_apply]
  dsimp only
  rw [body]

theorem scalarStep_stands {tag : String} {s : Build Datum}
    (body : (b.graph.node i).body = .scalar text style) (step : ScalarStep i tag s) :
    Leads b s (fun d _ => Stands tag text d) fun failure _ => FaultOf tag text failure := by
  have read {reader : List Char → Except ScalarFailure Datum}
      (member : (tag, reader) ∈ ScalarValue.readers) :
      Leads b (ofText i reader) (fun d _ => Stands tag text d) fun failure _ => FaultOf tag text failure :=
    leads_weaken (ofText_scalar body reader) (fun d _ given => .inr ⟨reader, member, given⟩)
      fun failure _ fault f is => ⟨reader, member, fault f is⟩
  cases step with
  | str =>
    refine leads_weaken (ofText_scalar body _) ?_ ?_
    · intro d _ given
      cases given
      exact .inl (by simp)
    · intro failure _ fault f is
      cases fault f is
  | timestamp =>
    unfold Leads
    rw [timestamp_scalar body]
    exact read (by simp [ScalarValue.readers])
  | _ => exact read (by simp [ScalarValue.readers])

theorem ofTag_scalar {build : NodeId → Build Datum} (body : (b.graph.node i).body = .scalar text style) :
    Leads b (ofTag build i) (fun d _ => Stands (b.graph.node i).tag text d)
      fun failure _ => FaultOf (b.graph.node i).tag text failure := by
  have read {tag : String} {s : Build Datum} (step : ScalarStep i tag s)
      (same : (b.graph.node i).tag = tag) : Leads b s (fun d _ => Stands (b.graph.node i).tag text d)
        fun failure _ => FaultOf (b.graph.node i).tag text failure :=
    scalarStep_stands body (same ▸ step)
  have noMapping {Q : Datum → Builder → Prop} {next : List Entry → Build Datum} :
      Leads b (mapping build i >>= next) Q fun failure _ => FaultOf (b.graph.node i).tag text failure := by
    refine leads_bind (leads_nodeAt ?_)
    rw [isMapping, body]
    exact leads_throw (faultOf_problem _ _ _)
  have noPairs {Q : Datum → Builder → Prop} (context : String) :
      Leads b (pairs build context i) Q fun failure _ => FaultOf (b.graph.node i).tag text failure := by
    refine leads_nodeAt ?_
    rw [body]
    exact leads_throw (faultOf_problem _ _ _)
  have noSequence {Q : Datum → Builder → Prop} :
      Leads b (sequence build i) Q fun failure _ => FaultOf (b.graph.node i).tag text failure := by
    refine leads_nodeAt ?_
    rw [body]
    exact leads_throw (faultOf_problem _ _ _)
  refine leads_nodeAt ?_
  apply leads_tag fun same => read .str same
  apply leads_tag fun same => read .int same
  apply leads_tag fun _ => noSequence
  apply leads_tag fun _ => noMapping
  apply leads_tag fun same => read .null same
  apply leads_tag fun same => read .bool same
  apply leads_tag fun same => read .float same
  apply leads_tag fun same => read .timestamp same
  apply leads_tag fun same => read .binary same
  apply leads_tag fun _ => noMapping
  apply leads_tag fun _ => noPairs _
  apply leads_tag fun _ => noPairs _
  exact leads_throw (faultOf_problem _ _ _)

/-! What is remembered -/

theorem remembers_setBody (remembers : Remembers g b) (noScalar : ¬(b.graph.node i).body.IsScalar)
    (body : NodeBody) : Remembers g { b with graph := b.graph.setBody i body } := by
  refine ⟨fun j => ?_, remembers.value⟩
  have fits := remembers.fits j
  rw [Graph.setBody, Graph.node_modify]
  split
  · rename_i here
    obtain ⟨rfl, -⟩ := here
    exact ⟨fun body => absurd ⟨_, _, fits.scalar body⟩ noScalar, fits.tag⟩
  · exact fits

theorem remembers_setText (remembers : Remembers g b)
    (tag : (b.graph.node i).tag = Tag.value ∨ (b.graph.node i).tag = Tag.str) :
    Remembers g { b with graph := b.graph.setTag i Tag.str } := by
  refine ⟨fun j => ?_, remembers.value⟩
  have fits := remembers.fits j
  rw [Graph.setTag, Graph.node_modify]
  split
  · rename_i here
    obtain ⟨rfl, -⟩ := here
    refine ⟨fits.scalar, ?_⟩
    rcases fits.tag with same | ⟨default, -⟩
    · exact tag.symm.imp (fun str => str.symm.trans same) fun value => ⟨same.symm.trans value, rfl⟩
    · exact .inr ⟨default, rfl⟩
  · exact fits

def MadeOf (g : Graph) (i : NodeId) (d : Datum) : Prop :=
  ∀ text style, (g.node i).body = .scalar text style → Stands (g.node i).tag text d

theorem remembers_ends {d : Datum} {begun : List NodeId} (remembers : Remembers g b)
    (made : MadeOf g i d) : Remembers g { b with values := (i, d) :: b.values, begun := begun } := by
  refine ⟨remembers.fits, ?_⟩
  intro j text style e body found
  by_cases here : j = i
  · subst here
    simp only [List.lookup_cons_self, Option.some.injEq] at found
    subst found
    exact made _ _ body
  · refine remembers.value body ?_
    have other : (j == i) = false := by simpa using here
    rwa [List.lookup_cons, other] at found

theorem scalarStep_remembers {s : Build Datum} (remembers : Remembers g b)
    (step : ScalarStep i (b.graph.node i).tag s) :
    Leads b s (fun d b' => Remembers g b' ∧ MadeOf g i d) fun _ b' => Remembers g b' ∧ True := by
  have fits := remembers.fits i
  have stays := scalarStep_quiet step b
  have made : Leads b s (fun d _ => MadeOf g i d) fun _ _ => True := by
    cases body : (g.node i).body with
    | scalar text style =>
      refine leads_weaken (scalarStep_stands (fits.scalar body) step) ?_ fun _ _ _ => trivial
      intro d _ stands text' style' same
      cases body.symm.trans same
      exact fits.stands stands
    | mapping entries inFlow =>
      refine leads_weaken (leads_any b s) (fun d _ _ text' style' same => ?_) fun _ _ => id
      cases body.symm.trans same
    | sequence items inFlow =>
      refine leads_weaken (leads_any b s) (fun d _ _ text' style' same => ?_) fun _ _ => id
      cases body.symm.trans same
  unfold Leads at made ⊢
  cases ended : s b with
  | mk r b' =>
    rw [ended] at stays made
    subst stays
    cases r with
    | ok d => exact ⟨remembers, made⟩
    | error failure => exact ⟨remembers, trivial⟩

def remembering (g : Graph) : Invariant where
  Holds := Remembers g
  Makes := MadeOf g
  Fails := fun _ => True
  problem := fun _ => trivial
  endless := trivial
  setBody := fun body remembers noScalar => remembers_setBody remembers noScalar body
  setText := remembers_setText
  begins := fun _ remembers => ⟨remembers.fits, remembers.value⟩
  ends := remembers_ends
  collection := fun remembers noScalar _ _ _ body =>
    absurd ⟨_, _, (remembers.fits _).scalar body⟩ noScalar
  scalar := scalarStep_remembers

/-- By induction on the values built so far. -/
theorem remembers_of_reached (reached : Reached g b) : Remembers g b := by
  induction reached with
  | start => exact ⟨fun _ => ⟨id, .inl rfl⟩, fun _ found => nomatch found⟩
  | @value before i _ ih =>
    have kept := value_maintained (remembering g) i before ih
    unfold Leads at kept
    split at kept <;> rename_i ended <;> rw [ended] <;> exact kept.1

/-- Building the value of a scalar gives what the scalar stands for, or fails as the reader of its tag
does. -/
theorem value_scalar (remembers : Remembers g b) (body : (g.node i).body = .scalar text style) :
    Leads b (value i) (fun d _ => Stands (g.node i).tag text d)
      fun failure _ => FaultOf (g.node i).tag text failure := by
  have fits := remembers.fits i
  unfold value datum
  refine leads_get (leads_get ?_)
  dsimp only
  split
  · rename_i d found
    exact remembers.value body found
  · refine leads_when (fun _ => leads_bind (leads_throw (faultOf_problem _ _ _))) fun _ => ?_
    refine leads_bind (leads_modify ?_)
    refine leads_then (leads_weaken (ofTag_scalar (fits.scalar body)) (fun d _ => fits.stands)
      fun failure _ => fits.faultOf) ?_
    exact fun d b' stands => leads_bind (leads_modify stands)

end Build
end MailRules.Yaml
