import MailRules.Program
import MailRules.Proofs.Sweep.Run
import MailRules.Proofs.Live.Connections
import MailRules.Proofs.Document.Faults
/-!
What the program raises and what it reports. Its stages come one after another, and the first that raises
something ends it: the settings, the certificates, the document, the validation pass, the live pass. Only
the last of them touches the live family, so a server is dialled by a program that is through with the
others, and the report is about the one stage that raised.
-/
namespace MailRules.Text

/-- The lines of a text. Each ends at a boundary, where a carriage return takes the line feed after it along;
the last need not end at one, unless it is empty. -/
inductive Lined : List Char → List (List Char) → Prop
  | none : Lined [] []
  | unfinished {line : List Char} (some : line ≠ []) (within : ∀ c ∈ line, isLineBoundary c = false) :
      Lined line [line]
  | pair {line rest : List Char} {more : List (List Char)}
      (within : ∀ c ∈ line, isLineBoundary c = false) (others : Lined rest more) :
      Lined (line ++ '\r' :: '\n' :: rest) (line :: more)
  | boundary {line rest : List Char} {c : Char} {more : List (List Char)}
      (within : ∀ c ∈ line, isLineBoundary c = false) (ends : isLineBoundary c = true)
      (alone : ¬ (c = '\r' ∧ rest.head? = some '\n')) (others : Lined rest more) :
      Lined (line ++ c :: rest) (line :: more)

theorem linesFrom_lined (current cs : List Char) (within : ∀ c ∈ current, isLineBoundary c = false) :
    Lined (current.reverse ++ cs) (linesFrom current cs) := by
  have inside : ∀ c ∈ current.reverse, isLineBoundary c = false := by simpa using within
  fun_induction linesFrom current cs with
  | case1 current empty =>
    obtain rfl := List.isEmpty_iff.mp empty
    exact .none
  | case2 current unfinished =>
    rw [List.append_nil]
    exact .unfinished (by simpa using unfinished) inside
  | case3 current rest ih => exact .pair inside (ih (by simp) (by simp))
  | case4 current c rest single ends ih =>
    refine .boundary inside ends ?_ (ih (by simp) (by simp))
    rintro ⟨rfl, next⟩
    cases rest with
    | nil => cases next
    | cons d rest =>
      obtain rfl : d = '\n' := by simpa using next
      exact single rest rfl rfl
  | case5 current c rest single holds ih =>
    have kept : ∀ d ∈ c :: current, isLineBoundary d = false :=
      List.forall_mem_cons.mpr ⟨Bool.eq_false_iff.mpr holds, within⟩
    have reversed : ∀ d ∈ (c :: current).reverse, isLineBoundary d = false := fun d member =>
      kept d (List.mem_reverse.mp member)
    simpa using ih kept reversed

/-- No character of a text but its boundaries is lost, and none is in two lines. -/
theorem lines_lined (s : String) : Lined s.toList ((lines s).map String.toList) := by
  simpa [lines, Function.comp_def] using linesFrom_lined [] s.toList (by simp)

end MailRules.Text

namespace MailRules.TrustStore
open MailRules.Text

def Block.Loads (judge : String → Verdict) (b : Block) : Prop :=
  b.label = certificateLabel ∧ judge (String.ofList b.text) = .accepted

def Usable (judge : String → Verdict) (content : Content) : Prop :=
  content = .missing ∨ ∃ bs cs, content = .octets bs ∧ asciiChars bs = .ok cs ∧
    ∀ b ∈ blocks (unifyLineBreaks cs), b.Loads judge

variable {judge : String → Verdict}

theorem offerEach_ok_iff (file : String) (number : Nat) (offered problems : List String)
    (bs : List Block) : (offerEach (fun _ => judge) file number offered problems bs).outcome = .ok () ↔
      problems = [] ∧ ∀ b ∈ bs, b.Loads judge := by
  induction bs generalizing number offered problems with
  | nil => cases problems <;> simp [offerEach]
  | cons b bs ih =>
    unfold offerEach
    by_cases certificate : b.label = certificateLabel
    · cases verdict : judge (String.ofList b.text) <;>
        simp [certificate, verdict, ih, Block.Loads]
    · simp [certificate, ih, Block.Loads]

def Foreseen : Failure → Prop
  | .error (.trustStore _) => True
  | .error _ => False
  | .fault _ => True

theorem offerEach_foreseen {file : String} {number : Nat} {offered problems : List String}
    {bs : List Block} {failure : Failure}
    (failed : (offerEach (fun _ => judge) file number offered problems bs).outcome = .error failure) :
    Foreseen failure := by
  induction bs generalizing number offered problems with
  | nil =>
    unfold offerEach at failed
    split at failed <;> cases failed
    trivial
  | cons b bs ih =>
    unfold offerEach at failed
    dsimp only at failed
    split at failed
    · split at failed
      · exact ih failed
      · exact ih failed
      · cases failed
        trivial
    · exact ih failed

theorem load_ok_iff (p : Path) (content : Content) :
    (load judge p content).outcome = .ok () ↔ Usable judge content := by
  cases content with
  | octets bs =>
    cases decoded : asciiChars bs with
    | error bad => simp [load, loadInTurn, Usable, decoded]
    | ok cs => simp [load, loadInTurn, Usable, decoded, offerEach_ok_iff]
  | _ => simp [load, loadInTurn, Usable]

theorem load_foreseen {p : Path} {content : Content} {failure : Failure}
    (failed : (load judge p content).outcome = .error failure) : Foreseen failure := by
  cases content with
  | octets bs =>
    unfold load loadInTurn at failed
    dsimp only at failed
    split at failed
    · cases failed
      trivial
    · exact offerEach_foreseen failed
  | _ =>
    cases failed
    try trivial

end MailRules.TrustStore

namespace MailRules.Program
open MailRules.Sweep MailRules.Sweep.Step MailRules.Search MailRules.Yaml MailRules.Text

variable {σ : Type}

/-- What the stages of the program raise, each working on what those before it gave. -/
def raised (s : Surroundings σ) (start : σ) : Except Failure Unit := do
  let settings ← (Settings.resolve s.environment s.homes).mapError .fault
  (TrustStore.load s.judge settings.trustFile (s.content settings.trustFile)).outcome
  let d ← Document.load settings.documentFile (s.content settings.documentFile)
  (run (s.live settings) (Family.idle Unit) component s.now d start ()).outcome

structure Ready (s : Surroundings σ) (settings : Settings) (d : Document) : Prop where
  settled : Settings.resolve s.environment s.homes = .ok settings
  trusted : TrustStore.Usable s.judge (s.content settings.trustFile)
  read : Document.load settings.documentFile (s.content settings.documentFile) = .ok d

structure Cleared (s : Surroundings σ) (settings : Settings) (d : Document) : Prop extends
    Ready s settings d where
  valid : (pass (Family.idle Unit) s.now d ()).1 = .ok []

/-- The errors that make up a raised error, and what stands in front of their lines. -/
inductive Contributes (s : Surroundings σ) (start : σ) : Error → String → List Error → Prop
  | certificates {settings : Settings} {text : String}
      (settled : Settings.resolve s.environment s.homes = .ok settings)
      (refused : (TrustStore.load s.judge settings.trustFile (s.content settings.trustFile)).outcome =
        .error (.error (.trustStore text))) :
      Contributes s start (.trustStore text) "" [.trustStore text]
  | document {settings : Settings} {flaw : Flaw} {location : Option Location}
      (settled : Settings.resolve s.environment s.homes = .ok settings)
      (trusted : TrustStore.Usable s.judge (s.content settings.trustFile))
      (refused : Document.load settings.documentFile (s.content settings.documentFile) =
        .error (.error (.document flaw location))) :
      Contributes s start (.document flaw location) "" [.document flaw location]
  | validation {settings : Settings} {d : Document} {errors : List Error}
      (ready : Ready s settings d) (some : errors ≠ [])
      (found : (pass (Family.idle Unit) s.now d ()).1 = .ok errors) :
      Contributes s start (.validationFailed errors) "[dry run] " errors
  | live {settings : Settings} {d : Document} {errors : List Error}
      (cleared : Cleared s settings d) (some : errors ≠ [])
      (found : (pass (s.live settings) s.now d start).1 = .ok errors) :
      Contributes s start (.runFailed errors) "" errors

def Tells (s : Surroundings σ) (start : σ) (report : Report σ) : Except Failure Unit → Prop
  | .ok () => report.ending = .done ∧ report.lines = []
  | .error (.fault f) => report.ending = .fault f ∧ report.lines = []
  | .error (.error e) => report.ending = .failed ∧ ∃ mark errors, Contributes s start e mark errors ∧
      report.lines = errors.flatMap fun x => (Text.lines x.message).map (mark ++ ·)

section Stages
variable {s : Surroundings σ} {start : σ} {settings : Settings} {d : Document}

theorem sweep_ready (ready : Ready s settings d) :
    sweep s start = finished s.liveLog
        (run (s.live settings) (Family.idle Unit) component s.now d start ()) ∧
      raised s start = (run (s.live settings) (Family.idle Unit) component s.now d start ()).outcome := by
  have trusted := (TrustStore.load_ok_iff settings.trustFile _).mpr ready.trusted
  simp [sweep, raised, ready.settled, trusted, ready.read, Except.mapError, bind, Except.bind]

theorem sweep_unready (unready : ¬ ∃ settings d, Ready s settings d) :
    (sweep s start).live = start ∧ Tells s start (sweep s start) (raised s start) := by
  cases settled : Settings.resolve s.environment s.homes with
  | error f => simp [sweep, raised, settled, notStarted, Except.mapError, bind, Except.bind, Tells]
  | ok settings =>
    cases certified :
        (TrustStore.load s.judge settings.trustFile (s.content settings.trustFile)).outcome with
    | error failure =>
      simp only [sweep, raised, settled, certified, Except.mapError, bind, Except.bind]
      match failure, TrustStore.load_foreseen certified with
      | .fault f, _ => exact ⟨rfl, rfl, rfl⟩
      | .error (.trustStore text), _ =>
        exact ⟨rfl, rfl, _, _, .certificates settled certified, rfl⟩
    | ok u =>
      have trusted := (TrustStore.load_ok_iff settings.trustFile _).mp certified
      cases read : Document.load settings.documentFile (s.content settings.documentFile) with
      | ok d => exact (unready ⟨settings, d, settled, trusted, read⟩).elim
      | error failure =>
        simp only [sweep, raised, settled, certified, read, Except.mapError, bind, Except.bind]
        rcases Document.load_reported read with ⟨flaw, location, rfl⟩ | ⟨f, rfl, _⟩
        · exact ⟨rfl, rfl, _, _, .document settled trusted read, rfl⟩
        · exact ⟨rfl, rfl, rfl⟩

theorem finished_live (liveLog : σ → List Log.Record) (r : Run σ Unit) :
    (finished liveLog r).live = r.live := by
  unfold finished
  dsimp only
  split <;> rfl

theorem run_tells (ready : Ready s settings d) :
    Tells s start (finished s.liveLog
        (run (s.live settings) (Family.idle Unit) component s.now d start ()))
      (run (s.live settings) (Family.idle Unit) component s.now d start ()).outcome := by
  unfold finished
  by_cases passed : (pass (Family.idle Unit) s.now d ()).1 = .ok []
  · rw [(run_passed (s.live settings) (Family.idle Unit) component s.now d start () passed).2]
    cases found : (pass (s.live settings) s.now d start).1 with
    | error failure =>
      obtain ⟨f, rfl⟩ := pass_fails_by_fault _ _ _ _ found
      exact ⟨rfl, rfl⟩
    | ok errors =>
      cases errors with
      | nil => exact ⟨rfl, rfl⟩
      | cons e es => exact ⟨rfl, _, _, .live ⟨ready, passed⟩ (by simp) found, rfl⟩
  · rw [(run_refused (s.live settings) (Family.idle Unit) component s.now d start () passed).2]
    cases found : (pass (Family.idle Unit) s.now d ()).1 with
    | error failure =>
      obtain ⟨f, rfl⟩ := pass_fails_by_fault _ _ _ _ found
      exact ⟨rfl, rfl⟩
    | ok errors =>
      cases errors with
      | nil => exact (passed found).elim
      | cons e es => exact ⟨rfl, _, _, .validation ready (by simp) found, rfl⟩

theorem sweep_tells (s : Surroundings σ) (start : σ) :
    Tells s start (sweep s start) (raised s start) := by
  by_cases ready : ∃ settings d, Ready s settings d
  · obtain ⟨settings, d, ready⟩ := ready
    rw [(sweep_ready ready).1, (sweep_ready ready).2]
    exact run_tells ready
  · exact (sweep_unready ready).2

theorem sweep_live (s : Surroundings σ) (start : σ) :
    ((¬ ∃ settings d, Cleared s settings d) → (sweep s start).live = start) ∧
      ∀ settings d, Cleared s settings d →
        (sweep s start).live = (pass (s.live settings) s.now d start).2 := by
  constructor
  · intro uncleared
    by_cases ready : ∃ settings d, Ready s settings d
    · obtain ⟨settings, d, ready⟩ := ready
      rw [(sweep_ready ready).1, finished_live]
      apply (run_refused _ _ _ _ _ _ _ _).1
      exact fun valid => uncleared ⟨settings, d, ready, valid⟩
    · exact (sweep_unready ready).1
  · intro settings d cleared
    rw [(sweep_ready cleared.toReady).1, finished_live]
    exact (run_passed _ _ _ _ _ _ _ cleared.valid).1

end Stages

theorem exitCode_eq_zero_iff (ending : Ending) : ending.exitCode = 0 ↔ ending = .done := by
  cases ending <;> simp [Ending.exitCode]

def Surroundings.on (s : Surroundings Live.State) (server : Live.Server)
    (options : Settings → Live.Options) : Surroundings Live.State :=
  { s with live := fun settings => Live.family server (options settings) }

/-- A server is dialled only once the certificates, the document and the validation pass are found to be in
order, and then the commands issued are those of the live pass. Whatever was raised is reported to the last
line, no character of it being lost but those that end lines, and the exit code tells whether something was. -/
theorem sweep_dials_cleared_and_tells_raised (s : Surroundings Live.State) (server : Live.Server)
    (options : Settings → Live.Options) :
    let t := s.on server options
    let report := sweep t {}
    (∀ c ∈ report.live.commands, c.isDial = true → ∃ settings d, Cleared t settings d) ∧
    (∀ settings d, Cleared t settings d → report.live.commands =
      (pass (Live.family server (options settings)) s.now d {}).2.commands) ∧
    (∀ e, raised t {} = .error (.error e) → report.ending.exitCode = 1 ∧
      ∃ mark errors, Contributes t {} e mark errors ∧
        report.lines = errors.flatMap (fun x => (Text.lines x.message).map (mark ++ ·)) ∧
        ∀ x ∈ errors, Text.Lined x.message.toList ((Text.lines x.message).map String.toList)) ∧
    (∀ f, raised t {} = .error (.fault f) → report.ending.exitCode = 1 ∧ report.lines = []) ∧
    (report.ending.exitCode = 0 ↔ raised t {} = .ok ()) ∧
    (report.ending.exitCode = 0 → report.lines = []) := by
  intro t report
  have tells : Tells t {} report (raised t {}) := sweep_tells t {}
  refine ⟨?_, ?_, ?_, ?_, ?_, ?_⟩
  · intro c member _
    by_contra uncleared
    have untouched : report.live = {} := (sweep_live t {}).1 uncleared
    simp [untouched] at member
  · intro settings d cleared
    exact congrArg Live.State.commands ((sweep_live t {}).2 settings d cleared)
  · intro e failed
    rw [failed] at tells
    obtain ⟨ended, mark, errors, contributes, told⟩ := tells
    exact ⟨by rw [ended]; rfl, mark, errors, contributes, told, fun x _ => lines_lined x.message⟩
  · intro f failed
    rw [failed] at tells
    exact ⟨by rw [tells.1]; rfl, tells.2⟩
  · rw [exitCode_eq_zero_iff]
    match outcome : raised t {} with
    | .ok () => simp [(outcome ▸ tells : Tells t {} report (.ok ())).1]
    | .error (.fault f) => simp [(outcome ▸ tells : Tells t {} report (.error (.fault f))).1]
    | .error (.error e) => simp [(outcome ▸ tells : Tells t {} report (.error (.error e))).1]
  · rw [exitCode_eq_zero_iff]
    intro done
    match outcome : raised t {} with
    | .ok () => exact (outcome ▸ tells : Tells t {} report (.ok ())).2
    | .error (.fault f) => exact (outcome ▸ tells : Tells t {} report (.error (.fault f))).2
    | .error (.error e) =>
      have failed := (outcome ▸ tells : Tells t {} report (.error (.error e))).1
      rw [done] at failed
      cases failed

/-! A document of one account, whose server is not there -/

def hostText : String := "servers:\n- host: h\n"

def hostNodes : List Node :=
  [mapping [(1, 2)] false 0 0 0,
    word "servers" 0 0 0, sequence [3] false 9 1 0,
    mapping [(4, 5)] false 11 1 2,
    word "host" 11 1 2, word "h" 17 1 8]

def hostGraph : Graph := ⟨hostNodes.toArray⟩

def hostFile : Path := ⟨"/", ["c", "imapsweep", "config.yaml"]⟩

def hostDocument : Document :=
  ⟨hostFile.text, [⟨"h", {}, {}, [], ⟨hostFile.text, 2, 3⟩⟩]⟩

def hostSettings : Settings := ⟨hostFile, ⟨"/", ["c", "ca.pem"]⟩, Settings.defaultLogoutTimeout⟩

def down : Live.Server := .unreachable "down"

def unreached : Surroundings Live.State where
  environment := fun name => if name = "IMAPSWEEP_CONFIG_HOME" then some "/c" else none
  homes := fun _ => none
  content := fun p => if p = hostFile then .octets (hostText.toList.map Char.toNat) else .missing
  judge := fun _ => .accepted
  live := fun _ => Live.family down Live.plainOptions
  liveLog := Live.State.log
  now := newYear

theorem host_scanned : (scan hostText.toList).tokens = hostTokens ++ closingTokens 2 19 2 ∧
    (scan hostText.toList).stop = none := by
  decide +kernel

theorem host_tree : Tree.ofText hostText.toList = .ok ⟨hostGraph, some 0⟩ :=
  Tree.ofText_of_tokens (by decide +kernel) host_scanned (by decide +kernel)

theorem host_node (i : NodeId) : hostGraph.node i = hostNodes.getD i Graph.absent := by
  simp [hostGraph, Graph.node]

open DocumentReader in
theorem host_loaded : Document.load hostFile (.octets (hostText.toList.map Char.toNat)) =
    .ok hostDocument := by
  have decoded : utf8Chars (hostText.toList.map Char.toNat) = .ok hostText.toList := by
    rfl
  have unified : unifyLineBreaks hostText.toList = hostText.toList := by
    rfl
  have read : document (some 0) ⟨hostFile.text, hostText.toList⟩ { graph := hostGraph } =
      (.ok hostDocument, { graph := hostGraph }) := by
    simp [document, DocumentReader.account, entries, entriesFrom, items, flagData, requiredText, text?, isNull,
      accountKeys, Flag.all, Flag.key, Flags.read, Flags.problems, List.lookup_cons, List.mapM_cons,
      host_node, hostNodes, word, sequence, mapping, Tag.str, Tag.null, hostDocument]
  simp only [Document.load, decoded, unified, String.ofList_toList, Document.parse, host_tree]
  exact congrArg Prod.fst read

theorem host_cleared :
    Cleared (unreached.on down fun _ => Live.plainOptions) hostSettings hostDocument where
  settled := rfl
  trusted := Or.inl (by simp [Surroundings.on, unreached, hostSettings, hostFile])
  read := by
    have content : (unreached.on down fun _ => Live.plainOptions).content hostFile =
        .octets (hostText.toList.map Char.toNat) := by simp [Surroundings.on, unreached]
    exact (congrArg (Document.load hostFile) content).trans host_loaded
  valid := by cbv

theorem host_pass : pass (Live.family down Live.plainOptions) newYear hostDocument {} =
    (.ok [.protocol "dial" "h: down"], { commands := [.dial "h" 993 true false] }) := by
  cbv

theorem host_down_reported :
    let t := unreached.on down fun _ => Live.plainOptions
    raised t {} = .error (.error (.runFailed [.protocol "dial" "h: down"])) ∧
      Cleared t hostSettings hostDocument ∧
      (sweep t {}).live.commands.map Live.Command.isDial = [true] ∧
      (sweep t {}).ending.exitCode = 1 ∧ (sweep t {}).lines = ["dial: h: down"] := by
  intro t
  have cleared : Cleared t hostSettings hostDocument := host_cleared
  have raises : raised t {} = .error (.error (.runFailed [.protocol "dial" "h: down"])) := by
    rw [(sweep_ready cleared.toReady).2, (run_passed _ _ _ _ _ _ _ cleared.valid).2]
    exact congrArg (ending .runFailed ·.1) host_pass
  obtain ⟨_, issued, reported, _⟩ :=
    sweep_dials_cleared_and_tells_raised unreached down fun _ => Live.plainOptions
  obtain ⟨exits, mark, errors, contributes, told, _⟩ := reported _ raises
  refine ⟨raises, cleared, ?_, exits, ?_⟩
  · rw [issued _ _ cleared, show unreached.now = newYear from rfl, host_pass]
    rfl
  · cases contributes
    rw [told]
    cbv

end MailRules.Program
