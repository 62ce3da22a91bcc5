import MailRules.Proofs.TrustStore.Offering
/-!
Bundles of well-formed blocks, with text without hyphens around them. All blocks are found, the certificates
among them are offered in order, and what is held against each block is told under its number.
-/
namespace MailRules.TrustStore
open MailRules.Text

def Plain (cs : List Char) : Prop := ∀ c ∈ cs, c ≠ '-' ∧ isAscii c = true

instance (cs : List Char) : Decidable (Plain cs) :=
  decidable_of_iff (cs.all fun c => c ≠ '-' && isAscii c) (by simp [Plain])

abbrev PlainText := {cs : List Char // Plain cs}

/-- A well-formed block: its label, and what stands between its markers. -/
structure Armour where
  label : List Char
  body : PlainText
  proper : IsLabel label

def Armour.block (a : Armour) : Block := ⟨a.label, beginMarker a.label ++ a.body.1 ++ endMarker a.label⟩

/-- Well-formed blocks, with plain text in front of the first and after each. -/
structure Bundle where
  front : PlainText
  parts : List (Armour × PlainText)

def Bundle.text (b : Bundle) : List Char := b.front.1 ++ b.parts.flatMap fun p => p.1.block.text ++ p.2.1

def Bundle.blocks (b : Bundle) : List Block := b.parts.map (·.1.block)

def Block.unified (b : Block) : Block := ⟨b.label, unifyLineBreaks b.text⟩

section Finding
variable {cs : List Char}

theorem blocks_plain (plain : Plain cs) (rest : List Char) : blocks (cs ++ rest) = blocks rest := by
  induction cs with
  | nil => rfl
  | cons c cs ih =>
    have none : blockAt? (c :: (cs ++ rest)) = none := by
      simp [blockAt?, labelAt?_other (plain c List.mem_cons_self).1]
    have skipped : blocks (c :: (cs ++ rest)) = blocks (cs ++ rest) := by simp [blocks, blocksFrom, none]
    rw [List.cons_append, skipped]
    exact ih fun d member => plain d (List.mem_cons_of_mem c member)

theorem not_stands_plain {label : List Char} (plain : Plain cs) (rest : List Char) {i : Nat}
    (inside : i < cs.length) : ¬Stands (endMarker label) (cs ++ rest) i := by
  intro stands
  rw [Stands, List.drop_append_of_le_length inside.le, List.drop_eq_getElem_cons inside,
    endMarker_chars] at stands
  obtain ⟨after, whole⟩ := stands
  exact (plain _ (List.getElem_mem inside)).1 (List.cons.inj whole).1.symm

theorem blockAt?_armour (a : Armour) (rest : List Char) : blockAt? (a.block.text ++ rest) = some a.block := by
  refine blockAt?_eq_some_iff.mpr ⟨a.proper, a.body.1, rest, rfl, rfl, fun i inside => ?_⟩
  rw [List.append_assoc]
  exact not_stands_plain a.body.2 _ inside

theorem blocks_armour (a : Armour) (rest : List Char) :
    blocks (a.block.text ++ rest) = a.block :: blocks rest := by
  obtain ⟨c, more, whole⟩ : ∃ c more, a.block.text = c :: more :=
    ⟨_, _, by rw [Armour.block, beginMarker_chars]; rfl⟩
  have here := blockAt?_armour a rest
  rw [whole, List.cons_append] at here
  rw [whole, List.cons_append, blocks, blocksFrom]
  simp [here, blocksFrom_drop, whole]

theorem blocks_bundle (b : Bundle) : TrustStore.blocks b.text = b.blocks := by
  obtain ⟨front, parts⟩ := b
  rw [Bundle.text, blocks_plain front.2, Bundle.blocks]
  induction parts with
  | nil => rfl
  | cons p parts ih => simp [blocks_armour, blocks_plain p.2.2, ih]

end Finding

section LineBreaks
variable {xs ys : List Char}

theorem unifyLineBreaks_return (lone : xs.head? ≠ some '\n') :
    unifyLineBreaks ('\r' :: xs) = '\n' :: unifyLineBreaks xs := by
  cases xs with
  | nil => rfl
  | cons c xs =>
    rw [unifyLineBreaks]
    rintro rest ⟨⟩
    exact lone rfl

theorem unifyLineBreaks_other {c : Char} (other : c ≠ '\r') :
    unifyLineBreaks (c :: xs) = c :: unifyLineBreaks xs := by
  rw [unifyLineBreaks]
  · rintro rest ⟨⟩
    exact fun _ => other rfl
  · exact other

/-- Line breaks are unified part by part where no pair is taken apart. -/
theorem unifyLineBreaks_append (whole : xs.getLast? ≠ some '\r' ∨ ys.head? ≠ some '\n') :
    unifyLineBreaks (xs ++ ys) = unifyLineBreaks xs ++ unifyLineBreaks ys := by
  have rest_whole {x : Char} {xs : List Char} (whole : (x :: xs).getLast? ≠ some '\r' ∨ ys.head? ≠ some '\n') :
      xs.getLast? ≠ some '\r' ∨ ys.head? ≠ some '\n' := by
    cases xs with
    | nil => simp
    | cons y xs => simpa using whole
  fun_induction unifyLineBreaks xs with
  | case1 => rfl
  | case2 rest ih =>
    rw [List.cons_append, List.cons_append, unifyLineBreaks, ih (rest_whole (rest_whole whole)),
      List.cons_append]
  | case3 rest single ih =>
    have lone : (rest ++ ys).head? ≠ some '\n' := by
      cases rest with
      | nil => simpa using whole
      | cons c rest =>
        intro head
        obtain rfl : c = '\n' := by simpa using head
        exact single rest rfl
    rw [List.cons_append, unifyLineBreaks_return lone, ih (rest_whole whole), List.cons_append]
  | case4 c rest _ other ih =>
    rw [List.cons_append, unifyLineBreaks_other other, ih (rest_whole whole), List.cons_append]

theorem unifyLineBreaks_unbroken (unbroken : '\r' ∉ xs) : unifyLineBreaks xs = xs := by
  fun_induction unifyLineBreaks xs with
  | case1 => rfl
  | case2 rest ih => simp at unbroken
  | case3 rest single ih => simp at unbroken
  | case4 c rest _ _ ih => rw [ih fun member => unbroken (List.mem_cons_of_mem c member)]

theorem mem_unifyLineBreaks {c : Char} (member : c ∈ unifyLineBreaks xs) : c = '\n' ∨ c ∈ xs := by
  fun_induction unifyLineBreaks xs with
  | case1 => cases member
  | case2 rest ih =>
    rcases List.mem_cons.mp member with rfl | later
    · exact .inl rfl
    · exact (ih later).imp_right fun within => by simp [within]
  | case3 rest single ih =>
    rcases List.mem_cons.mp member with rfl | later
    · exact .inl rfl
    · exact (ih later).imp_right fun within => by simp [within]
  | case4 d rest _ _ ih =>
    rcases List.mem_cons.mp member with rfl | later
    · exact .inr List.mem_cons_self
    · exact (ih later).imp_right fun within => by simp [within]

theorem plain_unified (plain : Plain xs) : Plain (unifyLineBreaks xs) := by
  intro c member
  rcases mem_unifyLineBreaks member with rfl | within
  · decide
  · exact plain c within

end LineBreaks

def unifiedText (t : PlainText) : PlainText := ⟨unifyLineBreaks t.1, plain_unified t.2⟩

def Armour.unified (a : Armour) : Armour := { a with body := unifiedText a.body }

def Bundle.unified (b : Bundle) : Bundle :=
  ⟨unifiedText b.front, b.parts.map fun p => (p.1.unified, unifiedText p.2)⟩

section Reading

theorem label_unbroken {label : List Char} (proper : IsLabel label) : '\r' ∉ label := fun member => by
  have capital := proper.2 _ member
  revert capital
  decide

theorem beginMarker_getLast? (label : List Char) : (beginMarker label).getLast? = some '-' := by
  rw [beginMarker_chars, List.getLast?_append_of_ne_nil _ (by simp)]
  rfl

theorem endMarker_getLast? (label : List Char) : (endMarker label).getLast? = some '-' := by
  rw [endMarker_chars, List.getLast?_append_of_ne_nil _ (by simp)]
  rfl

theorem unifyLineBreaks_armour (a : Armour) (rest : List Char) :
    unifyLineBreaks (a.block.text ++ rest) = a.unified.block.text ++ unifyLineBreaks rest := by
  have opening : unifyLineBreaks (beginMarker a.label) = beginMarker a.label :=
    unifyLineBreaks_unbroken (by simp [beginMarker_chars, label_unbroken a.proper])
  have closing : unifyLineBreaks (endMarker a.label) = endMarker a.label :=
    unifyLineBreaks_unbroken (by simp [endMarker_chars, label_unbroken a.proper])
  have after : (endMarker a.label ++ rest).head? ≠ some '\n' := by simp [endMarker_chars]
  simp only [Armour.block, Armour.unified, unifiedText, List.append_assoc]
  rw [unifyLineBreaks_append (.inl (by simp [beginMarker_getLast?])), opening,
    unifyLineBreaks_append (.inr after), unifyLineBreaks_append (.inl (by simp [endMarker_getLast?])), closing]

theorem unifyLineBreaks_bundle (b : Bundle) : unifyLineBreaks b.text = b.unified.text := by
  obtain ⟨front, parts⟩ := b
  let rest (parts : List (Armour × PlainText)) := parts.flatMap fun p => p.1.block.text ++ p.2.1
  have marked (parts : List (Armour × PlainText)) : (rest parts).head? ≠ some '\n' := by
    cases parts with
    | nil => simp [rest]
    | cons p parts => simp [rest, Armour.block, beginMarker_chars]
  have unified (parts : List (Armour × PlainText)) : unifyLineBreaks (rest parts) =
      rest (parts.map fun p => (p.1.unified, unifiedText p.2)) := by
    induction parts with
    | nil => rfl
    | cons p parts ih =>
      have first : rest (p :: parts) = p.1.block.text ++ (p.2.1 ++ rest parts) := by simp [rest]
      rw [first, unifyLineBreaks_armour, unifyLineBreaks_append (.inr (marked parts)), ih]
      simp [rest, unifiedText]
  change unifyLineBreaks (front.1 ++ rest parts) = _
  rw [unifyLineBreaks_append (.inr (marked parts)), unified parts]
  rfl

theorem unified_blocks (b : Bundle) : b.unified.blocks = b.blocks.map Block.unified := by
  simp only [Bundle.blocks, Bundle.unified, List.map_map]
  refine List.map_congr_left fun p _ => ?_
  have read := unifyLineBreaks_armour p.1 []
  simp only [List.append_nil, unifyLineBreaks] at read
  simp [Block.unified, read]
  rfl

theorem label_ascii {label : List Char} (proper : IsLabel label) : ∀ c ∈ label, isAscii c = true := by
  intro c member
  have letter := proper.2 c member
  simp only [isLabelChar, Bool.or_eq_true, Bool.and_eq_true, decide_eq_true_eq] at letter
  have below : c.toNat ≤ 'Z'.toNat := by
    rcases letter with (capital | digit) | rfl
    · exact capital.2
    · exact le_trans (show c.toNat ≤ '9'.toNat from digit.2) (by decide)
    · decide
  exact decide_eq_true (lt_of_le_of_lt below (by decide))

theorem beginMarker_ascii {label : List Char} (proper : IsLabel label) :
    ∀ c ∈ beginMarker label, isAscii c = true := by
  simp only [beginMarker_chars, List.forall_mem_append]
  exact ⟨⟨List.all_eq_true.mp (by decide), label_ascii proper⟩, List.all_eq_true.mp (by decide)⟩

theorem endMarker_ascii {label : List Char} (proper : IsLabel label) :
    ∀ c ∈ endMarker label, isAscii c = true := by
  simp only [endMarker_chars, List.forall_mem_append]
  exact ⟨⟨List.all_eq_true.mp (by decide), label_ascii proper⟩, List.all_eq_true.mp (by decide)⟩

theorem bundle_ascii (b : Bundle) : ∀ c ∈ b.text, isAscii c = true := by
  intro c member
  rcases List.mem_append.mp member with front | later
  · exact (b.front.2 c front).2
  · obtain ⟨p, -, within⟩ := List.mem_flatMap.mp later
    simp only [Armour.block, List.mem_append] at within
    rcases within with ((opening | body) | closing) | after
    · exact beginMarker_ascii p.1.proper c opening
    · exact (p.1.body.2 c body).2
    · exact endMarker_ascii p.1.proper c closing
    · exact (p.2.2 c after).2

end Reading

/-- Of every bundle, and whatever is said to each certificate, exactly the certificates are offered, whole and
in order, each once. The bundle is refused exactly if something is held against some block, and the error has
one text for each such block, in order, with its number among all blocks. -/
theorem bundle_offered_and_told (judge : List String → String → Verdict) (p : Path) (bundle : Bundle)
    (settles : Settles judge) :
    let bs := bundle.blocks.map Block.unified
    let loading := loadInTurn judge p (.octets (bundle.text.map Char.toNat))
    loading.offered = certificates bs ∧
    ∃ objections : List (Nat × String), objections.Pairwise (fun o p => o.1 < p.1) ∧
      (∀ number reason, (number, reason) ∈ objections ↔ Objected judge [] bs number reason) ∧
      loading.outcome = if objections = [] then .ok () else
        .error (.error (.trustStore ("\n".intercalate (tellEach p.text objections)))) := by
  intro bs loading
  obtain ⟨objections, ordered, exact, offers⟩ :=
    offerEach_settles settles p.text [] [] bs
  have read : blocks (unifyLineBreaks bundle.text) = bs := by
    rw [unifyLineBreaks_bundle, blocks_bundle, unified_blocks]
  have loads : loading = ⟨certificates bs, concluded (tellEach p.text objections)⟩ := by
    rw [← List.nil_append (tellEach p.text objections), ← List.nil_append bs, ← offers, ← read]
    exact loadInTurn_octets p (bundle_ascii bundle)
  refine ⟨by rw [loads], objections, ordered, exact, ?_⟩
  simp [loads, concluded, tellEach]

def repeated : Bundle where
  front := ⟨['#', '\r', '\n'], by decide⟩
  parts :=
    [(⟨['K', 'E', 'Y'], ⟨['\n', 'k', '\n'], by decide⟩, by decide⟩, ⟨['\r', '\n'], by decide⟩),
     (⟨certificateLabel, ⟨['\n', 'A', '\n'], by decide⟩, by decide +kernel⟩, ⟨['\n'], by decide⟩),
     (⟨certificateLabel, ⟨['\r', 'A', '\r', '\n'], by decide⟩, by decide +kernel⟩, ⟨[], by decide⟩)]

def once (offered : List String) (text : String) : Verdict :=
  if text ∈ offered then .rejected "offered before" else .accepted

def repeatedText : String := "-----BEGIN CERTIFICATE-----\nA\n-----END CERTIFICATE-----"

theorem repeated_told : Settles once ∧
    let loading := loadInTurn once ⟨"", ["ca.pem"]⟩ (.octets (repeated.text.map Char.toNat))
    loading.offered = [repeatedText, repeatedText] ∧
    ∃ objections : List (Nat × String),
      (1, "pem type KEY not supported") ∈ objections ∧ (3, "offered before") ∈ objections ∧
      loading.outcome = .error (.error (.trustStore ("\n".intercalate (tellEach "ca.pem" objections)))) := by
  have settles : Settles once := by
    intro offered text f
    unfold once
    split <;> simp
  obtain ⟨offered, objections, -, exact, outcome⟩ :=
    bundle_offered_and_told once ⟨"", ["ca.pem"]⟩ repeated settles
  have key : (1, "pem type KEY not supported") ∈ objections :=
    (exact _ _).mpr ⟨[], _, _, rfl, rfl, .label (by decide +kernel)⟩
  have again : (3, "offered before") ∈ objections :=
    (exact _ _).mpr ⟨[_, _], _, [], rfl, rfl, .rejected rfl (if_pos (by decide +kernel))⟩
  refine ⟨settles, offered.trans (by decide +kernel), objections, key, again, ?_⟩
  rw [outcome, if_neg (List.ne_nil_of_mem key)]
  rfl

end MailRules.TrustStore
