import MailRules.Proofs.TrustStore.Blocks
/-!
What is offered of the blocks of a file, and what is held against them. Every certificate is offered after
those before it, whatever was said to them; a block of another label, or one that is rejected, is told under
its number.
-/
namespace MailRules.TrustStore
open MailRules.Text

def certificates (bs : List Block) : List String :=
  (bs.filter (·.label = certificateLabel)).map fun b => String.ofList b.text

variable {judge : List String → String → Verdict}

def Settles (judge : List String → String → Verdict) : Prop :=
  ∀ offered text f, judge offered text ≠ .failed f

inductive Objection (judge : List String → String → Verdict) (before : List Block) (b : Block) : String → Prop
  | label (other : b.label ≠ certificateLabel) :
      Objection judge before b ("pem type " ++ String.ofList b.label ++ " not supported")
  | rejected {reason : String} (certificate : b.label = certificateLabel)
      (verdict : judge (certificates before) (String.ofList b.text) = .rejected reason) :
      Objection judge before b reason

/-- The reason is held against the block of that number among the blocks `bs` that come after the others. The
first of all blocks has number one. -/
def Objected (judge : List String → String → Verdict) (before bs : List Block) (number : Nat)
    (reason : String) : Prop :=
  ∃ between b after, bs = between ++ b :: after ∧ number = (before ++ between).length + 1 ∧
    Objection judge (before ++ between) b reason

def tellEach (file : String) (objections : List (Nat × String)) : List String :=
  objections.map fun o => file ++ ": block " ++ decimal o.1 ++ ": " ++ o.2

def concluded (problems : List String) : Except Failure Unit :=
  if problems = [] then .ok () else .error (.error (.trustStore ("\n".intercalate problems)))

def Block.LoadsAfter (judge : List String → String → Verdict) (before : List Block) (b : Block) : Prop :=
  b.label = certificateLabel ∧ judge (certificates before) (String.ofList b.text) = .accepted

/-- All of the blocks `bs` that come after the others load. -/
def AllLoad (judge : List String → String → Verdict) (before bs : List Block) : Prop :=
  ∀ between b after, bs = between ++ b :: after → b.LoadsAfter judge (before ++ between)

section Each
variable {file : String} {problems : List String} {before after bs : List Block} {b : Block}

theorem certificates_certificate (certificate : b.label = certificateLabel) :
    certificates (before ++ [b]) = certificates before ++ [String.ofList b.text] := by
  simp [certificates, certificate]

theorem certificates_other (other : b.label ≠ certificateLabel) :
    certificates (before ++ [b]) = certificates before := by
  simp [certificates, other]

theorem objection_unique {r s : String} (one : Objection judge before b r) (two : Objection judge before b s) :
    r = s := by
  cases one with
  | label other =>
    cases two with
    | label => rfl
    | rejected certificate => exact absurd certificate other
  | rejected certificate verdict =>
    cases two with
    | label other => exact absurd certificate other
    | rejected _ again => exact Verdict.rejected.inj (verdict.symm.trans again)

theorem objection_or_loads (settles : Settles judge) (before : List Block) (b : Block) :
    (∃ reason, Objection judge before b reason) ∨ b.LoadsAfter judge before := by
  by_cases certificate : b.label = certificateLabel
  · cases verdict : judge (certificates before) (String.ofList b.text) with
    | accepted => exact .inr ⟨certificate, verdict⟩
    | rejected reason => exact .inl ⟨reason, .rejected certificate verdict⟩
    | failed f => exact absurd verdict (settles _ _ f)
  · exact .inl ⟨_, .label certificate⟩

theorem Block.LoadsAfter.unobjected {reason : String} (loads : b.LoadsAfter judge before) :
    ¬Objection judge before b reason := by
  rintro (⟨other⟩ | ⟨-, verdict⟩)
  · exact other loads.1
  · cases loads.2.symm.trans verdict

theorem offerEach_objection {reason : String} (objection : Objection judge before b reason) :
    offerEach judge file (before.length + 1) (certificates before) problems (b :: after) =
      offerEach judge file ((before ++ [b]).length + 1) (certificates (before ++ [b]))
        (problems ++ tellEach file [(before.length + 1, reason)]) after := by
  cases objection with
  | label other =>
    simp only [offerEach, other, certificates_other other, tellEach, String.append_assoc, ↓reduceIte,
      List.length_append, List.length_singleton, List.map_singleton]
  | rejected certificate verdict =>
    simp [offerEach, certificate, verdict, certificates_certificate, tellEach, String.append_assoc]

theorem offerEach_loads (loads : b.LoadsAfter judge before) :
    offerEach judge file (before.length + 1) (certificates before) problems (b :: after) =
      offerEach judge file ((before ++ [b]).length + 1) (certificates (before ++ [b])) problems after := by
  simp [offerEach, loads.1, loads.2, certificates_certificate]

theorem objected_cons {number : Nat} {reason : String} : Objected judge before (b :: bs) number reason ↔
    (number = before.length + 1 ∧ Objection judge before b reason) ∨
      Objected judge (before ++ [b]) bs number reason := by
  constructor
  · rintro ⟨between, d, after, split, rfl, objection⟩
    cases between with
    | nil =>
      obtain ⟨rfl, rfl⟩ := List.cons.inj split
      exact .inl (by simpa using objection)
    | cons c between =>
      obtain ⟨rfl, rfl⟩ := List.cons.inj split
      exact .inr ⟨between, d, after, rfl, by simp, by simpa using objection⟩
  · rintro (⟨rfl, objection⟩ | ⟨between, d, after, rfl, rfl, objection⟩)
    · exact ⟨[], b, bs, rfl, by simp, by simpa using objection⟩
    · exact ⟨b :: between, d, after, rfl, by simp, by simpa using objection⟩

theorem allLoad_cons : AllLoad judge before (b :: bs) ↔
    b.LoadsAfter judge before ∧ AllLoad judge (before ++ [b]) bs := by
  constructor
  · intro all
    refine ⟨by simpa using all [] b bs rfl, ?_⟩
    rintro between d after rfl
    simpa using all (b :: between) d after rfl
  · rintro ⟨first, others⟩ between d after split
    cases between with
    | nil =>
      obtain ⟨rfl, rfl⟩ := List.cons.inj split
      simpa using first
    | cons c between =>
      obtain ⟨rfl, rfl⟩ := List.cons.inj split
      simpa using others between d after rfl

/-- Where every certificate is judged, all are offered, and all that is held against blocks is told in order. -/
theorem offerEach_settles (settles : Settles judge) (file : String) (problems : List String)
    (before bs : List Block) :
    ∃ objections : List (Nat × String), objections.Pairwise (fun o p => o.1 < p.1) ∧
      (∀ number reason, (number, reason) ∈ objections ↔ Objected judge before bs number reason) ∧
      offerEach judge file (before.length + 1) (certificates before) problems bs =
        ⟨certificates (before ++ bs), concluded (problems ++ tellEach file objections)⟩ := by
  induction bs generalizing before problems with
  | nil =>
    refine ⟨[], .nil, by simp [Objected], ?_⟩
    simp [offerEach, concluded, tellEach, apply_ite]
  | cons b bs ih =>
    rcases objection_or_loads settles before b with ⟨reason, objection⟩ | loads
    · obtain ⟨objections, ordered, exact, offers⟩ :=
        ih (problems ++ tellEach file [(before.length + 1, reason)]) (before ++ [b])
      refine ⟨(before.length + 1, reason) :: objections, ?_, ?_, ?_⟩
      · refine List.pairwise_cons.mpr ⟨fun o member => ?_, ordered⟩
        obtain ⟨between, d, after, -, number, -⟩ := (exact o.1 o.2).mp member
        simp only [number, List.length_append, List.length_singleton]
        omega
      · intro number other
        rw [List.mem_cons, exact, objected_cons, Prod.mk.injEq]
        refine or_congr_left ⟨?_, ?_⟩
        · rintro ⟨rfl, rfl⟩
          exact ⟨rfl, objection⟩
        · rintro ⟨rfl, again⟩
          exact ⟨rfl, objection_unique again objection⟩
      · rw [offerEach_objection objection, offers]
        simp [tellEach]
    · obtain ⟨objections, ordered, exact, offers⟩ := ih problems (before ++ [b])
      refine ⟨objections, ordered, fun number reason => ?_, ?_⟩
      · rw [exact, objected_cons, or_iff_right]
        rintro ⟨-, objection⟩
        exact loads.unobjected objection
      · rw [offerEach_loads loads, offers]
        simp

theorem offerEach_allLoad (all : AllLoad judge before bs) :
    offerEach judge file (before.length + 1) (certificates before) problems bs =
      ⟨certificates (before ++ bs), concluded problems⟩ := by
  induction bs generalizing before with
  | nil => simp [offerEach, concluded, apply_ite]
  | cons b bs ih =>
    obtain ⟨first, others⟩ := allLoad_cons.mp all
    rw [offerEach_loads first, ih others, List.append_assoc, List.singleton_append]

theorem offerEach_fine_iff (judge : List String → String → Verdict) (file : String) (problems : List String)
    (before bs : List Block) :
    (offerEach judge file (before.length + 1) (certificates before) problems bs).outcome = .ok () ↔
      problems = [] ∧ AllLoad judge before bs := by
  refine ⟨fun fine => ?_, fun ⟨empty, all⟩ => by simp [offerEach_allLoad all, concluded, empty]⟩
  induction bs generalizing before problems with
  | nil =>
    refine ⟨?_, by simp [AllLoad]⟩
    by_contra some
    simp [offerEach, some] at fine
  | cons b bs ih =>
    by_cases certificate : b.label = certificateLabel
    · cases verdict : judge (certificates before) (String.ofList b.text) with
      | accepted =>
        have loads : b.LoadsAfter judge before := ⟨certificate, verdict⟩
        rw [offerEach_loads loads] at fine
        exact (ih _ _ fine).imp_right fun others => allLoad_cons.mpr ⟨loads, others⟩
      | rejected reason =>
        rw [offerEach_objection (.rejected certificate verdict)] at fine
        simpa [tellEach] using (ih _ _ fine).1
      | failed f => simp [offerEach, certificate, verdict] at fine
    · rw [offerEach_objection (.label certificate)] at fine
      simpa [tellEach] using (ih _ _ fine).1

end Each

section Files

theorem asciiChars_octets {cs : List Char} (ascii : ∀ c ∈ cs, isAscii c = true) :
    asciiChars (cs.map Char.toNat) = .ok cs := by
  suffices ∀ at_, asciiCharsFrom at_ (cs.map Char.toNat) = .ok cs from this 0
  induction cs with
  | nil => intro at_; rfl
  | cons c cs ih =>
    intro at_
    have small : c.toNat < 0x80 := by simpa [isAscii] using ascii c List.mem_cons_self
    rw [List.map_cons, asciiCharsFrom, if_pos small, Char.ofNat_toNat,
      ih (fun d member => ascii d (List.mem_cons_of_mem c member))]
    rfl

theorem loadInTurn_octets {cs : List Char} (p : Path) (ascii : ∀ c ∈ cs, isAscii c = true) :
    loadInTurn judge p (.octets (cs.map Char.toNat)) =
      offerEach judge p.text 1 [] [] (blocks (unifyLineBreaks cs)) := by
  simp only [loadInTurn, asciiChars_octets ascii]

end Files
end MailRules.TrustStore
