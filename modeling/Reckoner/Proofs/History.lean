import Reckoner.Proofs.Interleaving

/-! # The history of a workspace

A workspace is made empty, and then filled and emptied by operations in any
number and order: updates and removals by hand, scans of single files, and
scans of all sources under any schedule.  The disk may be another one each
time.  Its store stays sound, and what it holds of a path is what the history
wrote there last (`Runs.get?_eq_some`). -/
set_option autoImplicit false
namespace Reckoner

/-- What an event of a history wrote, and no later one has overwritten or
cleared. -/
def Latest {α β : Type} (writes : α → β → Prop) (clears : α → Prop) (events : List α) (b : β) :
    Prop :=
  ∃ before e behind, events = before ++ e :: behind ∧ writes e b ∧
    ∀ later ∈ behind, ¬ clears later ∧ ∀ c, ¬ writes later c

section Latest
variable {α β : Type} {writes : α → β → Prop} {clears : α → Prop} {events : List α} {e : α} {b : β}

theorem not_latest_nil : ¬ Latest writes clears [] b := by
  rintro ⟨before, e, behind, split, _⟩
  simp at split

theorem latest_concat : Latest writes clears (events ++ [e]) b ↔
    writes e b ∨ ¬ clears e ∧ (∀ c, ¬ writes e c) ∧ Latest writes clears events b := by
  constructor
  · rintro ⟨before, x, behind, split, wrote, kept⟩
    rcases List.eq_nil_or_concat behind with rfl | ⟨others, last, rfl⟩
    · obtain ⟨_, same⟩ := List.append_inj' split rfl
      cases same
      exact Or.inl wrote
    · rw [List.concat_eq_append, ← List.cons_append, ← List.append_assoc] at split
      obtain ⟨first, same⟩ := List.append_inj' split rfl
      cases same
      obtain ⟨uncleared, unwritten⟩ := kept e (by simp)
      refine Or.inr ⟨uncleared, unwritten, before, x, others, first, wrote, ?_⟩
      intro later member
      exact kept later (by simp [member])
  · rintro (wrote | ⟨uncleared, unwritten, before, x, behind, rfl, wrote, kept⟩)
    · exact ⟨events, e, [], rfl, wrote, by simp⟩
    · refine ⟨before, x, behind ++ [e], by simp, wrote, ?_⟩
      intro later member
      rcases List.mem_append.mp member with inside | last
      · exact kept later inside
      · rw [List.mem_singleton.mp last]
        exact ⟨uncleared, unwritten⟩

/-- Something was written last if anything was since the last clearing. -/
theorem exists_latest : (∃ b, Latest writes clears events b) ↔
    ∃ before e behind, events = before ++ e :: behind ∧ (∃ b, writes e b) ∧
      ∀ later ∈ behind, ¬ clears later := by
  constructor
  · rintro ⟨b, before, e, behind, split, wrote, kept⟩
    exact ⟨before, e, behind, split, ⟨b, wrote⟩, fun later member => (kept later member).1⟩
  · rintro ⟨before, e, behind, rfl, ⟨b, wrote⟩, uncleared⟩
    induction behind using List.reverseRecOn with
    | nil => exact ⟨b, latest_concat.mpr (Or.inl wrote)⟩
    | append_singleton others last ih =>
      obtain ⟨c, latest⟩ := ih fun later member => uncleared later (by simp [member])
      rw [← List.cons_append, ← List.append_assoc]
      by_cases again : ∃ d, writes last d
      · obtain ⟨d, writing⟩ := again
        exact ⟨d, latest_concat.mpr (Or.inl writing)⟩
      · exact ⟨c, latest_concat.mpr
          (Or.inr ⟨uncleared last (by simp), not_exists.mp again, latest⟩)⟩

/-- A cell that shows what was written last still does so after one more event,
if the event writes it, clears it or leaves it alone. -/
theorem latest_view {γ : Type} {value : β → γ} {cell next : Option γ}
    (shows : ∀ f, cell = some f ↔ ∃ b, f = value b ∧ Latest writes clears events b)
    (written : ∀ b, writes e b → next = some (value b))
    (cleared : clears e → (∀ b, ¬ writes e b) → next = none)
    (kept : ¬ clears e → (∀ b, ¬ writes e b) → next = cell) (f : γ) :
    next = some f ↔ ∃ b, f = value b ∧ Latest writes clears (events ++ [e]) b := by
  simp only [latest_concat]
  by_cases wrote : ∃ b, writes e b
  · obtain ⟨b, writing⟩ := wrote
    rw [written b writing]
    constructor
    · intro found
      cases found
      exact ⟨b, rfl, Or.inl writing⟩
    · rintro ⟨c, rfl, again | ⟨_, unwritten, _⟩⟩
      · rw [← written b writing, written c again]
      · exact absurd writing (unwritten b)
  · have unwritten := not_exists.mp wrote
    by_cases clearing : clears e
    · rw [cleared clearing unwritten]
      simp [unwritten, clearing]
    · rw [kept clearing unwritten, shows]
      simp [unwritten, clearing]

theorem view_eq_none {γ : Type} {value : β → γ} {cell : Option γ}
    (shows : ∀ f, cell = some f ↔ ∃ b, f = value b ∧ Latest writes clears events b) :
    cell = none ↔ ¬ ∃ b, Latest writes clears events b := by
  constructor
  · rintro empty ⟨b, latest⟩
    cases empty.symm.trans ((shows _).mpr ⟨b, rfl, latest⟩)
  · intro never
    cases full : cell with
    | none => rfl
    | some f =>
      obtain ⟨b, _, latest⟩ := (shows f).mp full
      exact absurd ⟨b, latest⟩ never

end Latest

/-- The errors that are about single files. -/
def ScanFailure.errors : ScanFailure → List ScanError
  | .root _ _ => []
  | .files errors => errors

theorem Sweep.mem_failure {s : Sweep} {e : ScanError} :
    (∃ f ∈ s.failure, e ∈ f.errors) ↔ e ∈ s.errors := by
  unfold Sweep.failure
  cases errors : s.errors with
  | nil => simp
  | cons first others => simp [ScanFailure.errors]

namespace Workspace

/-- An operation, and how it ended. -/
inductive Event where
  | updated (path content : Text)
  | removed (path : Text)
  | scanned (disk : Disk) (path : Text) (failure : Option ScanError)
  | scannedAll (disk : Disk) (failure : Option ScanFailure)

namespace Event

/-- The path that an operation is on, if it is on one. -/
def path? : Event → Option Text
  | .updated path _ => some path
  | .removed path => some path
  | .scanned _ path _ => some path
  | .scannedAll _ _ => none

/-- An operation has succeeded in bringing content to a path. -/
inductive Writes (root : Text) : Event → Text → Text → Prop
  | update (path content : Text) : Writes root (.updated path content) path content
  | scan {disk : Disk} {path content : Text} (read : disk.read path = .ok content) :
    Writes root (.scanned disk path none) path content
  | scanAll {disk : Disk} {failure : Option ScanFailure} {paths : List Text} {path content : Text}
    (found : sources disk root = .ok paths) (member : path ∈ paths)
    (read : disk.read path = .ok content)
    (unblamed : ∀ f ∈ failure, ∀ e ∈ f.errors, e.path ≠ path) :
    Writes root (.scannedAll disk failure) path content

end Event

/-- What an operation does, with any disk and in any context. -/
inductive Step : Workspace → Event → Workspace → Prop
  | update (w : Workspace) (path content : Text) :
    Step w (.updated path content) (w.update path content)
  | remove (w : Workspace) (path : Text) : Step w (.removed path) (w.remove path)
  | scan {w next : Workspace} {disk : Disk} {context : Option Interruption} {path : Text}
    (scanned : scanFile disk context w path = .ok next) : Step w (.scanned disk path none) next
  | scanFails {w : Workspace} {disk : Disk} {context : Option Interruption} {path : Text}
    {e : ScanError} (fails : scanFile disk context w path = .error e) :
    Step w (.scanned disk path (some e)) w
  | scanAll {w : Workspace} {disk : Disk} {crew : Crew} {context : Option Interruption}
    {paths : List Text} {s : Sweep} (proper : disk.Proper)
    (found : sources disk w.root = .ok paths)
    (ends : Sweep.Ends disk crew (.start w context paths) s) :
    Step w (.scannedAll disk s.failure) s.workspace
  | scanAllFails {w : Workspace} {disk : Disk} {cause : FileError}
    (lost : sources disk w.root = .error cause) :
    Step w (.scannedAll disk (some (.root w.root cause))) w

/-- The histories of a new workspace, and what it comes to. -/
inductive Runs (root : Text) : List Event → Workspace → Prop
  | new : Runs root [] { root := root }
  | step {events : List Event} {w next : Workspace} {event : Event} (run : Runs root events w)
    (step : Step w event next) : Runs root (events ++ [event]) next

section Steps
variable {w next : Workspace} {event : Event} {disk : Disk} {context : Option Interruption}
  {p content : Text}

theorem scanFile_ok (scanned : scanFile disk context w p = .ok next) :
    ∃ content, disk.read p = .ok content ∧ next = w.update p content := by
  unfold scanFile at scanned
  split at scanned
  · cases scanned
  · split at scanned
    next content read =>
      cases scanned
      exact ⟨content, read, rfl⟩
    · cases scanned

/-- The running scan is one of the ways in which a scan of all sources goes. -/
theorem step_scanAll (proper : disk.Proper) (context : Option Interruption) (w : Workspace) :
    Step w (.scannedAll disk (scanAll disk context w).2) (scanAll disk context w).1 := by
  cases found : sources disk w.root with
  | error cause =>
    rw [scanAll_lost context found]
    exact .scanAllFails found
  | ok paths =>
    obtain ⟨s, ends, result⟩ := @Sweep.scanAll_ends disk {} w paths context found
    rw [result]
    exact .scanAll proper found ends

theorem Step.root (step : Step w event next) : next.root = w.root := by
  cases step with
  | update => rfl
  | remove => rfl
  | scan scanned =>
    obtain ⟨content, _, rfl⟩ := scanFile_ok scanned
    rfl
  | scanFails => rfl
  | scanAll _ _ ends =>
    obtain ⟨tasks, _, workspace, _⟩ := ends.tasks
    rw [workspace, root_runTasks]
  | scanAllFails => rfl

theorem Step.sound (step : Step w event next) (sound : w.Sound) : next.Sound := by
  cases step with
  | update => exact sound.update _ _
  | remove => exact sound.remove _
  | scan scanned =>
    obtain ⟨content, _, rfl⟩ := scanFile_ok scanned
    exact sound.update _ _
  | scanFails => exact sound
  | scanAll _ _ ends =>
    obtain ⟨tasks, _, workspace, _⟩ := ends.tasks
    rw [workspace]
    exact sound.runTasks tasks
  | scanAllFails => exact sound

theorem Step.written (step : Step w event next) (writes : event.Writes w.root p content) :
    next.get? p = some (.ofContent p content) := by
  cases step with
  | update =>
    cases writes
    simp
  | remove => cases writes
  | scan scanned =>
    cases writes with
    | scan read =>
      obtain ⟨other, found, rfl⟩ := scanFile_ok scanned
      cases read.symm.trans found
      simp
  | scanFails => cases writes
  | @scanAll _ _ _ _ s proper found ends =>
    cases writes with
    | scanAll again member read unblamed =>
      cases again.symm.trans found
      -- Without an error about it, a file of a scan that is over was replaced.
      rcases ends.outcome (nodup_sources proper found) member with
        ⟨other, same, stored, _⟩ | ⟨_, e, only, _⟩
      · cases read.symm.trans same
        exact stored
      · have listed : e ∈ s.errors.filter fun e => e.path = p := by simp [only]
        obtain ⟨reported, about⟩ := List.mem_filter.mp listed
        obtain ⟨f, failed, inside⟩ := Sweep.mem_failure.mpr reported
        exact absurd (of_decide_eq_true about) (unblamed f failed e inside)
  | scanAllFails lost =>
    cases writes with
    | scanAll found => cases found.symm.trans lost

theorem Step.kept (step : Step w event next) (remains : event ≠ .removed p)
    (unwritten : ∀ content, ¬ event.Writes w.root p content) : next.get? p = w.get? p := by
  cases step with
  | update path content =>
    have other : path ≠ p := by
      rintro rfl
      exact unwritten content (.update path content)
    simp [other]
  | remove path =>
    have other : path ≠ p := by
      rintro rfl
      exact remains rfl
    simp [other]
  | @scan _ _ _ path scanned =>
    obtain ⟨content, read, rfl⟩ := scanFile_ok scanned
    have other : path ≠ p := by
      rintro rfl
      exact unwritten content (.scan read)
    simp [other]
  | scanFails => rfl
  | @scanAll _ _ _ paths s proper found ends =>
    by_cases member : p ∈ paths
    · rcases ends.outcome (nodup_sources proper found) member with
        ⟨content, read, _, unblamed⟩ | ⟨kept, _⟩
      · refine absurd (.scanAll found member read ?_) (unwritten content)
        intro f failed e inside
        exact unblamed e (Sweep.mem_failure.mp ⟨f, failed, inside⟩)
      · exact kept
    · exact ends.untouched member
  | scanAllFails => rfl

theorem Step.removed (step : Step w (.removed p) next) : next.get? p = none := by
  cases step
  simp

/-- An operation on one path leaves the others alone. -/
theorem Step.elsewhere (step : Step w event next) (here : event.path? = some p) {q : Text}
    (other : q ≠ p) : next.get? q = w.get? q := by
  apply step.kept
  · rintro rfl
    exact other (Option.some.inj here)
  · intro content writes
    cases writes with
    | update => exact other (Option.some.inj here)
    | scan => exact other (Option.some.inj here)
    | scanAll => cases here

theorem Step.unscanned {e : ScanError} (step : Step w (.scanned disk p (some e)) next) :
    next = w := by
  cases step
  rfl

end Steps

namespace Runs
variable {root : Text} {events : List Event} {w : Workspace}

theorem root_eq (run : Runs root events w) : w.root = root := by
  induction run with
  | new => rfl
  | step _ step ih => rw [step.root, ih]

theorem sound (run : Runs root events w) : w.Sound := by
  induction run with
  | new => exact sound_empty root
  | step _ step ih => exact step.sound ih

/-- The store holds of a path what the history wrote there last. -/
theorem get?_eq_some (run : Runs root events w) {p : Text} (f : SourceFile) :
    w.get? p = some f ↔ ∃ content, f = .ofContent p content ∧
      Latest (fun event => event.Writes root p) (· = .removed p) events content := by
  induction run generalizing f with
  | new => simp [get?, not_latest_nil]
  | @step events w next event run step ih =>
    obtain rfl := run.root_eq
    apply latest_view ih
    · intro content writes
      exact step.written writes
    · rintro rfl _
      exact step.removed
    · intro remains unwritten
      exact step.kept remains unwritten

end Runs

/-- Whatever was done to a workspace, its entries are compiled from their
contents and listed once, in order; each is the last thing that the history
wrote to its path; and the next operation touches no path but its own, and none
if it is a scan that fails. -/
theorem runs_invariant {root : Text} {events : List Event} {w : Workspace}
    (run : Runs root events w) :
    (∀ p f, w.get? p = some f →
      f.path = p ∧ f.report = compileFile (Path.base p) f.content) ∧
    (∀ f, f ∈ w.files ↔ w.get? f.path = some f) ∧
    w.files.Nodup ∧ (w.files.Pairwise fun f g => f.path < g.path) ∧
    (∀ p f, w.get? p = some f ↔ ∃ content, f = .ofContent p content ∧
      Latest (fun event => event.Writes root p) (· = .removed p) events content) ∧
    (∀ p, w.get? p = none ↔ ¬ ∃ content,
      Latest (fun event => event.Writes root p) (· = .removed p) events content) ∧
    ∀ event next, Step w event next →
      (∀ p, event.path? = some p → ∀ q ≠ p, next.get? q = w.get? q) ∧
      ∀ disk p e, event = .scanned disk p (some e) → next = w := by
  have sound := run.sound
  refine ⟨?_, ?_, sound.nodup, sound.ordered, fun p => run.get?_eq_some,
    fun p => view_eq_none run.get?_eq_some, ?_⟩
  · intro p f found
    obtain ⟨content, rfl, _⟩ := (run.get?_eq_some f).mp found
    exact ⟨rfl, rfl⟩
  · intro f
    rw [sound.get?_eq_some]
    simp
  · intro event next step
    refine ⟨fun p here q other => step.elsewhere here other, ?_⟩
    rintro disk p e rfl
    exact step.unscanned

/-- Nothing is read through the link. -/
def pairError : ScanError :=
  .unreadable (utf8 "/w/b.arith") ⟨"open", utf8 "/w/b.arith", .notFound⟩

theorem scanFile_pair (w : Workspace) :
    scanFile .pair none w (utf8 "/w/b.arith") = .error pairError := by
  have read : Disk.pair.read (utf8 "/w/b.arith") =
      .error ⟨"open", utf8 "/w/b.arith", .notFound⟩ := by cbv
  simp [scanFile, read, pairError]

theorem scanAll_pair {w : Workspace} (root : w.root = utf8 "/w") :
    (scanAll .pair none w).2 = some (.files [pairError]) := by
  have errors : [(utf8 "/w/a.arith", none), (utf8 "/w/b.arith", none)].filterMap (failure? .pair) =
      [pairError] := by cbv
  simp only [scanAll, root, sources_pair, runTasks_eq, List.map_cons, List.map_nil, errors]

/-- A file that was opened keeps its content while scans fail to read it. -/
theorem runs_invariant_pair :
    ∃ w, Runs (utf8 "/w") [.updated (utf8 "/w/b.arith") (utf8 "1/0"),
        .scanned .pair (utf8 "/w/b.arith") (some pairError),
        .scannedAll .pair (some (.files [pairError]))] w ∧
      w.get? (utf8 "/w/b.arith") = some (.ofContent (utf8 "/w/b.arith") (utf8 "1/0")) := by
  have opened := (@Runs.new (utf8 "/w")).step (.update _ (utf8 "/w/b.arith") (utf8 "1/0"))
  have scanned := opened.step (.scanFails (scanFile_pair _))
  have all := step_scanAll Disk.native_pair.proper none
    (({ root := utf8 "/w" } : Workspace).update (utf8 "/w/b.arith") (utf8 "1/0"))
  rw [scanAll_pair rfl] at all
  have run := scanned.step all
  refine ⟨_, run, ((runs_invariant run).2.2.2.2.1 (utf8 "/w/b.arith") _).mpr
    ⟨_, rfl, [], _, [_, _], rfl, .update _ _, ?_⟩⟩
  simp only [List.forall_mem_cons, List.not_mem_nil]
  refine ⟨⟨by simp, ?_⟩, ⟨by simp, ?_⟩, by simp⟩
  · intro content writes
    cases writes
  · intro content writes
    cases writes with
    | scanAll _ _ _ unblamed => exact unblamed _ rfl pairError (by simp [ScanFailure.errors]) rfl

end Workspace
end Reckoner
