import MailRules.Proofs.TrustStore.Offering
/-!
What becomes of the BEGIN markers of certificates. One that no END marker of certificates follows is passed
over, and so is one within a block that starts before it; every other one starts a block of its own. Nothing is
held against what is passed over.
-/
namespace MailRules.TrustStore
open MailRules.Text

def placesFrom (at_ skip : Nat) : List Char → List (Nat × Block)
  | [] => []
  | c :: rest =>
    match skip with
    | skip + 1 => placesFrom (at_ + 1) skip rest
    | 0 =>
      match blockAt? (c :: rest) with
      | some b => (at_, b) :: placesFrom (at_ + 1) (b.text.length - 1) rest
      | none => placesFrom (at_ + 1) 0 rest

def places (cs : List Char) : List (Nat × Block) := placesFrom 0 0 cs

def Begun (cs : List Char) (i : Nat) : Prop := Stands (beginMarker certificateLabel) cs i

def EndedAt (cs : List Char) (i j : Nat) : Prop :=
  i + (beginMarker certificateLabel).length ≤ j ∧ Stands (endMarker certificateLabel) cs j

/-- The certificate begun at the place is ended, and no other is begun up to there. -/
def Paired (cs : List Char) (i : Nat) : Prop :=
  ∃ j, EndedAt cs i j ∧ ∀ k, Begun cs k → k ≤ i ∨ j + (endMarker certificateLabel).length ≤ k

section Places
variable {cs : List Char} {at_ skip i : Nat} {b : Block}

theorem placesFrom_blocks (at_ skip : Nat) (cs : List Char) :
    (placesFrom at_ skip cs).map (·.2) = blocksFrom skip cs := by
  fun_induction placesFrom at_ skip cs with
  | case1 => rfl
  | case2 at_ c rest skip ih => simpa [blocksFrom] using ih
  | case3 at_ c rest b found ih => simp [blocksFrom, found, ih]
  | case4 at_ c rest none ih => simp [blocksFrom, none, ih]

theorem placesFrom_sound (member : (i, b) ∈ placesFrom at_ skip cs) :
    ∃ k, i = at_ + k ∧ skip ≤ k ∧ blockAt? (cs.drop k) = some b := by
  fun_induction placesFrom at_ skip cs with
  | case1 => cases member
  | case2 at_ c rest skip ih =>
    obtain ⟨k, rfl, after, found⟩ := ih member
    exact ⟨k + 1, by omega, by omega, found⟩
  | case3 at_ c rest d found ih =>
    rcases List.mem_cons.mp member with first | later
    · obtain ⟨rfl, rfl⟩ := Prod.mk.inj first
      exact ⟨0, rfl, le_rfl, found⟩
    · obtain ⟨k, rfl, -, found⟩ := ih later
      exact ⟨k + 1, by omega, by omega, found⟩
  | case4 at_ c rest none ih =>
    obtain ⟨k, rfl, -, found⟩ := ih member
    exact ⟨k + 1, by omega, by omega, found⟩

/-- Where a block could start, one does, unless the place is within a block that starts before it. -/
theorem placesFrom_complete (at_ : Nat) {k : Nat} (after : skip ≤ k) (found : blockAt? (cs.drop k) = some b) :
    (at_ + k, b) ∈ placesFrom at_ skip cs ∨
      ∃ q ∈ placesFrom at_ skip cs, q.1 < at_ + k ∧ at_ + k < q.1 + q.2.text.length := by
  fun_induction placesFrom at_ skip cs generalizing k with
  | case1 => simp [blockAt?, labelAt?] at found
  | case2 at_ c rest skip ih =>
    obtain ⟨k, rfl⟩ : ∃ m, k = m + 1 := Nat.exists_eq_add_of_le' (by omega : 1 ≤ k)
    have later := ih (by omega : skip ≤ k) found
    rwa [Nat.add_assoc, Nat.add_comm 1 k] at later
  | case3 at_ c rest d first ih =>
    cases k with
    | zero =>
      obtain rfl : d = b := Option.some.inj (first.symm.trans found)
      exact .inl List.mem_cons_self
    | succ k =>
      by_cases within : k + 1 < d.text.length
      · exact .inr ⟨_, List.mem_cons_self, by simp, by simpa using within⟩
      · have later := ih (by omega : d.text.length - 1 ≤ k) found
        rw [Nat.add_assoc, Nat.add_comm 1 k] at later
        rcases later with here | ⟨q, member, covers⟩
        · exact .inl (List.mem_cons_of_mem _ here)
        · exact .inr ⟨q, List.mem_cons_of_mem _ member, covers⟩
  | case4 at_ c rest none ih =>
    cases k with
    | zero => cases none.symm.trans found
    | succ k =>
      have later := ih (Nat.zero_le k) found
      rwa [Nat.add_assoc, Nat.add_comm 1 k] at later

theorem placesFrom_disjoint (at_ skip : Nat) (cs : List Char) :
    (placesFrom at_ skip cs).Pairwise fun p q => p.1 + p.2.text.length ≤ q.1 := by
  fun_induction placesFrom at_ skip cs with
  | case1 => exact .nil
  | case2 at_ c rest skip ih => exact ih
  | case3 at_ c rest b found ih =>
    refine List.pairwise_cons.mpr ⟨fun q member => ?_, ih⟩
    obtain ⟨k, place, after, -⟩ := placesFrom_sound member
    change at_ + b.text.length ≤ q.1
    omega
  | case4 at_ c rest none ih => exact ih

end Places

section Certificates
variable {cs : List Char} {i : Nat} {b : Block} {q : Nat × Block}

theorem blockAt_places (member : (i, b) ∈ places cs) : blockAt? (cs.drop i) = some b := by
  obtain ⟨k, rfl, -, found⟩ := placesFrom_sound member
  rwa [Nat.zero_add]

theorem places_apart (member : (i, b) ∈ places cs) (other : q ∈ places cs) (before : q.1 < i) :
    q.1 + q.2.text.length ≤ i := by
  let Apart (p q : Nat × Block) : Prop := p.1 + p.2.text.length ≤ q.1 ∨ q.1 + q.2.text.length ≤ p.1
  have apart : (places cs).Pairwise Apart := (placesFrom_disjoint 0 0 cs).imp Or.inl
  have symmetric : Std.Symm Apart := ⟨fun _ _ => Or.symm⟩
  have different : q ≠ (i, b) := by
    rintro rfl
    exact lt_irrefl i before
  rcases apart.forall other member different with first | second
  · exact first
  · change i + b.text.length ≤ q.1 at second
    omega

theorem certificateLabel_proper : IsLabel certificateLabel := by
  decide +kernel

theorem begun_iff_label : Begun cs i ↔ labelAt? (cs.drop i) = some certificateLabel :=
  ⟨fun begun => labelAt?_eq_some_iff.mpr ⟨certificateLabel_proper, begun⟩,
    fun found => (labelAt?_eq_some_iff.mp found).2⟩

theorem label_blockAt (found : blockAt? cs = some b) : labelAt? cs = some b.label := by
  obtain ⟨proper, body, rest, text, whole, -⟩ := blockAt?_eq_some_iff.mp found
  refine labelAt?_eq_some_iff.mpr ⟨proper, ?_⟩
  rw [whole, text, List.append_assoc, List.append_assoc]
  exact List.prefix_append _ _

theorem blockAt_begun_iff (begun : Begun cs i) :
    (∃ b, blockAt? (cs.drop i) = some b) ↔ ∃ j, EndedAt cs i j := by
  have here := begun_iff_label.mp begun
  have ended : endMarker certificateLabel ≠ [] := by simp [endMarker_chars]
  have some_iff : (∃ b, blockAt? (cs.drop i) = some b) ↔
      (before? (endMarker certificateLabel) ((cs.drop i).drop (beginMarker certificateLabel).length)).isSome := by
    rw [← Option.isSome_iff_exists, blockAt?, here]
    simp only [Option.bind_eq_bind, Option.bind_some, Option.pure_def]
    rw [Option.isSome_bind]
    simp
  rw [some_iff, before?_isSome_iff ended]
  constructor
  · rintro ⟨k, stands⟩
    rw [stands_drop, stands_drop, ← Nat.add_assoc] at stands
    exact ⟨i + (beginMarker certificateLabel).length + k, Nat.le_add_right _ k, stands⟩
  · rintro ⟨j, after, stands⟩
    obtain ⟨k, rfl⟩ := Nat.exists_eq_add_of_le after
    exact ⟨k, by rwa [stands_drop, stands_drop, ← Nat.add_assoc]⟩

/-- A block of the certificate begun at its place is ended by the first END marker. -/
theorem ended_places (member : (i, b) ∈ places cs) (certificate : b.label = certificateLabel) :
    ∃ j, EndedAt cs i j ∧ i + b.text.length = j + (endMarker certificateLabel).length ∧
      ∀ k, EndedAt cs i k → j ≤ k := by
  obtain ⟨-, body, rest, text, whole, first⟩ := blockAt?_eq_some_iff.mp (blockAt_places member)
  rw [certificate] at text first
  have after : (cs.drop i).drop (beginMarker certificateLabel).length =
      body ++ endMarker certificateLabel ++ rest := by
    rw [whole, text, List.append_assoc, List.append_assoc, List.drop_left, List.append_assoc]
  have shift (k : Nat) : Stands (endMarker certificateLabel) (body ++ endMarker certificateLabel ++ rest) k ↔
      Stands (endMarker certificateLabel) cs (i + (beginMarker certificateLabel).length + k) := by
    rw [← after, stands_drop, stands_drop, Nat.add_assoc]
  have ended : Stands (endMarker certificateLabel) (body ++ endMarker certificateLabel ++ rest) body.length := by
    rw [Stands, List.append_assoc, List.drop_left]
    exact List.prefix_append _ _
  refine ⟨_, ⟨Nat.le_add_right _ body.length, (shift _).mp ended⟩, ?_, ?_⟩
  · simp only [text, List.length_append]
    omega
  · rintro k ⟨beyond, stands⟩
    obtain ⟨k, rfl⟩ := Nat.exists_eq_add_of_le beyond
    by_contra short
    exact first k (by omega) ((shift k).mpr stands)

/-- A certificate that is begun starts a block of its own exactly if it is ended and is not within another
block. -/
theorem own_block_iff (begun : Begun cs i) : (∃ b, (i, b) ∈ places cs) ↔
    (∃ j, EndedAt cs i j) ∧ ∀ q ∈ places cs, q.1 < i → q.1 + q.2.text.length ≤ i := by
  constructor
  · rintro ⟨b, member⟩
    exact ⟨(blockAt_begun_iff begun).mp ⟨b, blockAt_places member⟩, fun q other => places_apart member other⟩
  · rintro ⟨ended, outside⟩
    obtain ⟨b, found⟩ := (blockAt_begun_iff begun).mpr ended
    have somewhere := placesFrom_complete 0 (Nat.zero_le i) found
    rw [Nat.zero_add] at somewhere
    rcases somewhere with here | ⟨q, member, before, within⟩
    · exact ⟨b, here⟩
    · exact absurd within (not_lt.mpr (outside q member before))

/-- Where all blocks are certificates, each one that is begun starts a block of its own exactly if each is
ended before the next one. -/
theorem own_blocks_iff (all : ∀ q ∈ places cs, q.2.label = certificateLabel) :
    (∀ i, Begun cs i → ∃ b, (i, b) ∈ places cs) ↔ ∀ i, Begun cs i → Paired cs i := by
  constructor
  · intro own i begun
    obtain ⟨b, member⟩ := own i begun
    obtain ⟨j, ended, whole, -⟩ := ended_places member (all _ member)
    refine ⟨j, ended, fun k next => ?_⟩
    obtain ⟨d, other⟩ := own k next
    by_contra within
    have apart := places_apart other member (by simp only; omega)
    simp only at apart
    omega
  · intro paired i begun
    obtain ⟨j, ended, -⟩ := paired i begun
    refine (own_block_iff begun).mpr ⟨⟨j, ended⟩, fun q member before => ?_⟩
    -- The marker would be between the one of that block and the first END marker after it.
    obtain ⟨first, -, whole, least⟩ := ended_places (i := q.1) (b := q.2) member (all q member)
    have opened : Begun cs q.1 := by
      rw [begun_iff_label, ← all q member]
      exact label_blockAt (blockAt_places (i := q.1) (b := q.2) member)
    obtain ⟨k, later, alone⟩ := paired q.1 opened
    have reached := least k later
    rcases alone i begun with at_or_before | beyond <;> omega

end Certificates

/-- Of every ASCII file. Loading ends well exactly if all blocks load. A certificate that is begun starts a
block of its own exactly if it is ended and is not within a block that starts before. Where loading ends well,
the blocks are what has been offered, and each certificate that is begun is one of them exactly if each is
ended before the next one is begun. -/
theorem begun_certificates_loaded_iff_paired (judge : List String → String → Verdict) (p : Path) (cs : List Char)
    (ascii : ∀ c ∈ cs, isAscii c = true) :
    let text := unifyLineBreaks cs
    let loading := loadInTurn judge p (.octets (cs.map Char.toNat))
    (loading.outcome = .ok () ↔ AllLoad judge [] ((places text).map (·.2))) ∧
    (∀ i, Begun text i → ((∃ b, (i, b) ∈ places text) ↔
      (∃ j, EndedAt text i j) ∧ ∀ q ∈ places text, q.1 < i → q.1 + q.2.text.length ≤ i)) ∧
    (loading.outcome = .ok () →
      loading.offered = (places text).map (fun q => String.ofList q.2.text) ∧
      ((∀ i, Begun text i → ∃ b, (i, b) ∈ places text) ↔ ∀ i, Begun text i → Paired text i)) := by
  intro text loading
  have listed : (places text).map (·.2) = blocks text := placesFrom_blocks 0 0 text
  have offers : loading = offerEach judge p.text 1 [] [] (blocks text) :=
    loadInTurn_octets p ascii
  have fine : loading.outcome = .ok () ↔ AllLoad judge [] (blocks text) := by
    rw [offers]
    exact (offerEach_fine_iff judge p.text [] [] (blocks text)).trans (and_iff_right rfl)
  refine ⟨by rw [fine, listed], fun i => own_block_iff, fun ok => ?_⟩
  have all := fine.mp ok
  have certificate : ∀ b ∈ blocks text, b.label = certificateLabel := fun b member => by
    obtain ⟨before, after, split⟩ := List.append_of_mem member
    exact (all before b after split).1
  constructor
  · have whole : certificates (blocks text) = (blocks text).map fun b => String.ofList b.text := by
      rw [certificates, List.filter_eq_self.mpr]
      simpa using certificate
    have offered : loading = ⟨certificates (blocks text), concluded []⟩ :=
      offers.trans (offerEach_allLoad all)
    rw [offered, whole, ← listed, List.map_map]
    rfl
  · refine own_blocks_iff fun q member => certificate q.2 ?_
    rw [← listed]
    exact List.mem_map_of_mem member

def cutOff : List Char :=
  beginMarker certificateLabel ++ ['A'] ++ endMarker certificateLabel ++ ['\n'] ++
    beginMarker certificateLabel ++ ['B']

theorem cutOff_ascii : ∀ c ∈ cutOff, isAscii c = true := by
  refine List.all_eq_true.mp ?_
  decide +kernel

theorem cutOff_fine (p : Path) :
    (loadInTurn (fun _ _ => .accepted) p (.octets (cutOff.map Char.toNat))).outcome = .ok () := by
  rfl

theorem cutOff_begun : Begun (unifyLineBreaks cutOff) 54 :=
  List.isPrefixOf_iff_prefix.mp (by decide +kernel)

theorem cutOff_passed_over : (∀ c ∈ cutOff, isAscii c = true) ∧
    (loadInTurn (fun _ _ => .accepted) ⟨"", ["ca.pem"]⟩ (.octets (cutOff.map Char.toNat))).outcome = .ok () ∧
    Begun (unifyLineBreaks cutOff) 54 ∧ ¬∃ b, (54, b) ∈ places (unifyLineBreaks cutOff) := by
  obtain ⟨-, own, -⟩ :=
    begun_certificates_loaded_iff_paired (fun _ _ => .accepted) ⟨"", ["ca.pem"]⟩ cutOff cutOff_ascii
  refine ⟨cutOff_ascii, cutOff_fine _, cutOff_begun, ?_⟩
  rw [own 54 cutOff_begun]
  rintro ⟨⟨j, after, stands⟩, -⟩
  have room := stands.length_le
  have lengths : (beginMarker certificateLabel).length = 27 ∧ (endMarker certificateLabel).length = 25 ∧
      (unifyLineBreaks cutOff).length = 82 := by decide +kernel
  rw [List.length_drop] at room
  omega

/-- A certificate without its END marker is not told. -/
theorem cut_off_untold : ¬∀ (judge : List String → String → Verdict) (p : Path) (cs : List Char),
    (∀ c ∈ cs, isAscii c = true) → (loadInTurn judge p (.octets (cs.map Char.toNat))).outcome = .ok () →
    ∀ i, Begun (unifyLineBreaks cs) i → ∃ b, (i, b) ∈ places (unifyLineBreaks cs) := by
  intro told
  obtain ⟨b, member⟩ := told _ ⟨"", ["ca.pem"]⟩ cutOff cutOff_ascii (cutOff_fine _) 54 cutOff_begun
  have starts : (places (unifyLineBreaks cutOff)).map (·.1) = [0] := by decide +kernel
  have listed : 54 ∈ (places (unifyLineBreaks cutOff)).map (·.1) := List.mem_map_of_mem member
  rw [starts] at listed
  simp at listed

end MailRules.TrustStore
