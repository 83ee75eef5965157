import Reckoner.Command.Execution
import Reckoner.Proofs.Agreement
import Reckoner.Proofs.Interleaving
import Reckoner.Proofs.Truncation

/-! # The verdict of a check

A check reports on what a scan left in the workspace, and the scan may take its
files in any order (`Checks`).  However it went, the workspace lists the
readable sources once each in order of their paths, and the scan failed exactly
if its root or one of the sources could not be read (`Scanned`).  From there on
nothing depends on the order but that of the errors: into a sink that never
fails every report is written (`output_reportScan`), and a failed scan weighs
more than a report without value (`verdict_eq_done`, `verdict_eq_notOk`). -/
set_option autoImplicit false
namespace Reckoner

/-! ## Open sinks -/

section Sinks
variable {s : Sink}

theorem Sink.pour_open (unfailing : s.failAt = none) (chunks : List Text) :
    s.pour chunks = (s.writeAll chunks).2 := by
  induction chunks generalizing s with
  | nil => rfl
  | cons c rest ih =>
    rw [pour, List.foldl_cons, writeAll, write_open unfailing]
    exact ih unfailing

theorem Sink.output_pour (unfailing : s.failAt = none) (chunks : List Text) :
    (s.pour chunks).output = s.output ++ chunks.flatten := by
  rw [pour_open unfailing, output_writeAll unfailing]

namespace Command

theorem output_encodeEach {α : Type} (report : α → Report) (e : Encoder)
    (unfailing : s.failAt = none) (items : List α) :
    (encodeEach report e s items).2.failAt = none ∧
      (encodeEach report e s items).2.output =
        s.output ++ items.flatMap fun a => ((report a).pieces e.format e.colored).flatten := by
  induction items generalizing e s with
  | nil => exact ⟨unfailing, by simp [encodeEach]⟩
  | cons a rest ih =>
    have still := (s.writeAll_open unfailing (e.chunks (report a))).2
    rw [encodeEach, e.encode_open unfailing]
    obtain ⟨behind, output⟩ := ih { e with last := some (report a) } still
    refine ⟨behind, output.trans ?_⟩
    rw [Sink.output_writeAll unfailing, e.chunks_eq, List.flatMap_cons, List.append_assoc]

/-! ## From a scan to its verdict -/

/-- What stands at the end of a check: a check in JSON counts nothing. -/
def closing (format : Format) (files failed : Nat) : Text :=
  match format with
  | .text => utf8 "\n=== CHECK COMPLETE ===\nFiles: " ++ Text.ofNat files ++
      utf8 "\nFailed: " ++ Text.ofNat failed ++ [10]
  | .json => []

theorem flatten_summary (files failed : Nat) :
    (summary files failed).flatten = closing .text files failed := by
  have heading : utf8 "\n=== CHECK COMPLETE ===\nFiles: " =
      utf8 "\n=== CHECK COMPLETE ===\n" ++ utf8 "Files: " := by decide
  have count : utf8 "\nFailed: " = [10] ++ utf8 "Failed: " := by decide
  simp [summary, closing, heading, count]

theorem output_reportScan (format : Format) (colored : Bool) (path : Text)
    (unfailing : s.failAt = none) (w : Workspace) (failure : Option ScanFailure) :
    (reportScan format colored path s w failure).1 =
        verdict path failure (w.files.countP fun f => !f.report.ok) ∧
      (reportScan format colored path s w failure).2.output =
        s.output ++ (w.files.flatMap fun f => (f.report.pieces format colored).flatten) ++
          closing format w.files.length (w.files.countP fun f => !f.report.ok) := by
  have written := encodeEach_open SourceFile.report { format := format, colored := colored }
    unfailing w.files
  obtain ⟨still, output⟩ := output_encodeEach SourceFile.report
    { format := format, colored := colored } unfailing w.files
  unfold reportScan
  generalize encodeEach SourceFile.report { format := format, colored := colored } s w.files =
    result at written still output
  obtain ⟨_, s'⟩ := result
  subst written
  refine ⟨rfl, ?_⟩
  cases format with
  | text => simp [Sink.output_pour still, output, flatten_summary]
  | json => simp [output, closing]

end Command
end Sinks

namespace Command

theorem verdict_eq_done {path : Text} {failure : Option ScanFailure} {failed : Nat} :
    verdict path failure failed = .done ↔ failure = none ∧ failed = 0 := by
  cases failure with
  | none => by_cases zero : failed = 0 <;> simp [verdict, zero]
  | some f => simp [verdict]

theorem verdict_eq_notOk {path : Text} {failure : Option ScanFailure} {failed : Nat} :
    verdict path failure failed = .failed .notOk ↔ failure = none ∧ failed ≠ 0 := by
  cases failure with
  | none => by_cases zero : failed = 0 <;> simp [verdict, zero]
  | some f => simp [verdict]

end Command

/-! ## What a scan leaves -/

def Disk.Readable (disk : Disk) (path : Text) : Prop := ∃ content, disk.read path = .ok content

theorem Disk.scanned?_eq_some {disk : Disk} {path : Text} {f : SourceFile} :
    disk.scanned? path = some f ↔
      ∃ content, disk.read path = .ok content ∧ f = .ofContent path content := by
  cases read : disk.read path with
  | ok content => simp [Disk.scanned?_of_ok read, eq_comm]
  | error cause => simp [Disk.scanned?_of_error read]

theorem Sweep.failure_of_ne_none {s : Sweep} (fails : s.failure ≠ none) :
    s.failure = some (.files s.errors) := by
  unfold failure at fails ⊢
  cases errors : s.errors with
  | nil => simp [errors] at fails
  | cons e rest => rfl

/-- The files of the paths that can be read, each once and in byte order. -/
structure Listed (disk : Disk) (paths : List Text) (files : List SourceFile) : Prop where
  ordered : files.Pairwise fun f g => f.path < g.path
  mem_iff : ∀ f, f ∈ files ↔
    ∃ p ∈ paths, ∃ content, disk.read p = .ok content ∧ f = .ofContent p content

theorem Listed.unique {disk : Disk} {paths : List Text} {files others : List SourceFile}
    (one : Listed disk paths files) (other : Listed disk paths others) : files = others :=
  Workspace.eq_of_ordered one.ordered other.ordered fun f =>
    (one.mem_iff f).trans (other.mem_iff f).symm

namespace Workspace
variable {disk : Disk} {root path : Text} {paths : List Text}

/-- The sources that a scan visits; none below a root that is not there. -/
def found (disk : Disk) (root : Text) : List Text := (sources disk root).toOption.getD []

theorem found_eq (listed : sources disk root = .ok paths) : found disk root = paths := by
  simp [found, listed, Except.toOption]

theorem sources_eq_error {cause : FileError} :
    sources disk root = .error cause ↔ disk.stat root = .error cause := by
  unfold sources
  split
  next other lost => simp [lost]
  next entries dir => simp [dir]
  next n _ file => simp [file]

theorem stat_of_sources (listed : sources disk root = .ok paths) :
    ∃ n, disk.stat root = .ok n := by
  cases stat : disk.stat root with
  | ok n => exact ⟨n, rfl⟩
  | error cause =>
    rw [sources_eq_error.mpr stat] at listed
    cases listed

/-- Only below a root that is there something is listed. -/
theorem stat_of_listed {files : List SourceFile} {f : SourceFile}
    (listed : Listed disk (found disk root) files) (member : f ∈ files) :
    ∃ n, disk.stat root = .ok n := by
  obtain ⟨p, visited, _⟩ := (listed.mem_iff f).mp member
  cases sought : sources disk root with
  | ok paths => exact stat_of_sources sought
  | error cause => simp [found, sought, Except.toOption] at visited

/-- How a scan of the sources below a path can have gone. -/
structure Scanned (disk : Disk) (path : Text) (w : Workspace) (failure : Option ScanFailure) :
    Prop where
  listed : Listed disk (found disk path) w.files
  complete : failure = none ↔
    (∃ n, disk.stat path = .ok n) ∧ ∀ p ∈ found disk path, disk.Readable p
  lost : ∀ cause, disk.stat path = .error cause → failure = some (.root path cause)
  skipped : ∀ p ∈ found disk path, ¬ disk.Readable p →
    ∃ errors, errors.Perm ((found disk path).filterMap fun p => failure? disk (p, none)) ∧
      failure = some (.files errors)

theorem scanned_lost {cause : FileError} (lost : sources disk path = .error cause) :
    Scanned disk path { root := path } (some (.root path cause)) := by
  have nothing : found disk path = [] := by simp [found, lost, Except.toOption]
  have stat := sources_eq_error.mp lost
  refine ⟨⟨.nil, by simp [nothing]⟩, by simp [stat], ?_, by simp [nothing]⟩
  intro other fails
  rw [stat, Except.error.injEq] at fails
  rw [fails]

theorem failure?_eq_none : failure? disk (path, none) = none ↔ disk.Readable path := by
  cases read : disk.read path <;> simp [failure?, Disk.Readable, read]

theorem listed_runTasks (root : Text) (paths : List Text) :
    Listed disk paths (runTasks disk { root := root } (paths.map fun p => (p, none))).1.files := by
  have sound : (runTasks disk { root := root } (paths.map fun p => (p, none))).1.Sound :=
    (sound_empty root).runTasks _
  refine ⟨sound.ordered, fun f => ?_⟩
  have nothing : get? { root := root } f.path = none := rfl
  have member : f ∈ (runTasks disk { root := root } (paths.map fun p => (p, none))).1.files ↔
      f.path ∈ paths ∧ disk.scanned? f.path = some f := by
    rw [← and_iff_left (a := f ∈ _) rfl, ← sound.get?_eq_some, get?_runTasks, nothing, Option.or_none]
    simp
  rw [member]
  constructor
  · rintro ⟨listed, scanned⟩
    obtain ⟨content, read, same⟩ := Disk.scanned?_eq_some.mp scanned
    exact ⟨f.path, listed, content, read, same⟩
  · rintro ⟨p, listed, content, read, rfl⟩
    exact ⟨listed, Disk.scanned?_of_ok read⟩

theorem scanned_swept {crew : Crew} {s : Sweep} (listed : sources disk path = .ok paths)
    (ends : Sweep.Ends disk crew (.start { root := path } none paths) s)
    (uninterrupted : s.context = none) : Scanned disk path s.workspace s.failure := by
  obtain ⟨workspace, errors⟩ := ends.steady (sound_empty path) (ends.never uninterrupted)
  have failures : (runTasks disk { root := path } (paths.map fun p => (p, none))).2 =
      paths.filterMap fun p => failure? disk (p, none) := by
    rw [runTasks_eq, List.filterMap_map]
    rfl
  rw [failures] at errors
  have stat := stat_of_sources listed
  have complete : s.failure = none ↔ ∀ p ∈ paths, disk.Readable p := by
    rw [Sweep.failure_eq_none, ← List.perm_nil, errors.congr_left, List.perm_nil,
      List.filterMap_eq_nil_iff]
    simp only [failure?_eq_none]
  refine ⟨?_, ?_, ?_, ?_⟩
  · rw [found_eq listed, workspace]
    exact listed_runTasks path paths
  · rw [found_eq listed, complete]
    exact (and_iff_right stat).symm
  · intro cause fails
    rw [sources_eq_error.mpr fails] at listed
    cases listed
  · intro p member unread
    rw [found_eq listed] at member ⊢
    refine ⟨s.errors, errors, Sweep.failure_of_ne_none fun fine => unread ?_⟩
    exact complete.mp fine p member

end Workspace

/-! ## Checks in any order -/

namespace Command

/-- How a check can end that nothing interrupts. -/
inductive Checks (disk : Disk) (crew : Crew) (o : Options) (s : Sink) (path : Text) :
    Ending × Sink → Prop
  | unknown (unknown : Format.ofName? o.format = none) :
    Checks disk crew o s path (.failed (.unknownFormat o.format), s)
  | lost {format cause} (known : Format.ofName? o.format = some format)
    (lost : Workspace.sources disk path = .error cause) :
    Checks disk crew o s path
      (reportScan format o.colored path s { root := path } (some (.root path cause)))
  | swept {format paths sweep} (known : Format.ofName? o.format = some format)
    (found : Workspace.sources disk path = .ok paths)
    (ends : Sweep.Ends disk crew (.start { root := path } none paths) sweep)
    (uninterrupted : sweep.context = none) :
    Checks disk crew o s path (reportScan format o.colored path s sweep.workspace sweep.failure)

section Checks
variable {disk : Disk} {crew : Crew} {o : Options} {s : Sink} {path : Text} {format : Format}
  {r : Ending × Sink}

theorem checks_unknown (unknown : Format.ofName? o.format = none) :
    Checks disk crew o s path r ↔ r = (.failed (.unknownFormat o.format), s) := by
  constructor
  · intro checks
    cases checks with
    | unknown => rfl
    | lost known => simp [unknown] at known
    | swept known => simp [unknown] at known
  · rintro rfl
    exact .unknown unknown

theorem Checks.scanned (checks : Checks disk crew o s path r)
    (known : Format.ofName? o.format = some format) :
    ∃ w failure, Workspace.Scanned disk path w failure ∧
      r = reportScan format o.colored path s w failure := by
  cases checks with
  | unknown unknown => simp [unknown] at known
  | lost same lost =>
    cases Option.some.inj (same.symm.trans known)
    exact ⟨_, _, Workspace.scanned_lost lost, rfl⟩
  | swept same found ends uninterrupted =>
    cases Option.some.inj (same.symm.trans known)
    exact ⟨_, _, Workspace.scanned_swept found ends uninterrupted, rfl⟩

theorem checks_scanAll (known : Format.ofName? o.format = some format) :
    Checks disk crew o s path (reportScan format o.colored path s
      (Workspace.scanAll disk none { root := path }).1
      (Workspace.scanAll disk none { root := path }).2) := by
  cases found : Workspace.sources disk path with
  | error cause =>
    rw [Workspace.scanAll_lost (w := { root := path }) none found]
    exact .lost known found
  | ok paths =>
    obtain ⟨sweep, ends, uninterrupted, result⟩ :=
      @Sweep.scanAll_steady disk crew { root := path } paths none found
    rw [result]
    exact .swept known found ends uninterrupted

/-- A check with enough time ends as one of its schedules does. -/
theorem checks_checkPath {delay : Int} (patient : delay ≤ o.timeout) :
    Checks disk crew o s path (checkPath delay disk o s path) := by
  unfold checkPath
  split
  next unknown => exact .unknown unknown
  next format known =>
    rw [if_neg (not_lt.mpr patient)]
    exact checks_scanAll known

end Checks

/-- A check of any tree, its files scanned in any order: what is written and how
it ends, for a format that is known and one that is not. -/
theorem check_verdict (delay : Int) (disk : Disk) (crew : Crew) (o : Options) (s : Sink)
    (path : Text) :
    (Format.ofName? o.format = none →
      checkPath delay disk o s path = (.failed (.unknownFormat o.format), s) ∧
      ∀ r, Checks disk crew o s path r ↔ r = (.failed (.unknownFormat o.format), s)) ∧
    ∀ format, Format.ofName? o.format = some format → s.failAt = none →
      (∃ r, Checks disk crew o s path r) ∧
      (delay ≤ o.timeout → Checks disk crew o s path (checkPath delay disk o s path)) ∧
      ∃ files, Listed disk (Workspace.found disk path) files ∧ ∀ r, Checks disk crew o s path r →
        r.2.output = s.output ++ (files.flatMap fun f =>
          (f.report.pieces format o.colored).flatten) ++
          closing format files.length (files.countP fun f => !f.report.ok) ∧
        (r.1 = .done ↔ (∃ n, disk.stat path = .ok n) ∧
          (∀ p ∈ Workspace.found disk path, disk.Readable p) ∧ ∀ f ∈ files, f.report.ok = true) ∧
        (r.1 = .failed .notOk ↔ (∀ p ∈ Workspace.found disk path, disk.Readable p) ∧
          ∃ f ∈ files, f.report.ok = false) ∧
        (∀ cause, disk.stat path = .error cause → r.1 = .failed (.scan path (.root path cause))) ∧
        ∀ p ∈ Workspace.found disk path, ¬ disk.Readable p →
          ∃ errors, errors.Perm ((Workspace.found disk path).filterMap fun p =>
            Workspace.failure? disk (p, none)) ∧ r.1 = .failed (.scan path (.files errors)) := by
  refine ⟨fun unknown => ⟨by rw [checkPath, unknown], fun r => checks_unknown unknown⟩, ?_⟩
  intro format known unfailing
  have direct := @checks_scanAll disk crew o s path format known
  obtain ⟨w, _, first, _⟩ := direct.scanned known
  refine ⟨⟨_, direct⟩, checks_checkPath, w.files, first.listed, ?_⟩
  intro r checks
  obtain ⟨v, failure, scanned, rfl⟩ := checks.scanned known
  obtain ⟨ending, output⟩ := output_reportScan format o.colored path unfailing v failure
  rw [first.listed.unique scanned.listed, ending]
  refine ⟨output, ?_, ?_, ?_, ?_⟩
  · rw [verdict_eq_done, scanned.complete, List.countP_eq_zero, and_assoc]
    simp
  · rw [verdict_eq_notOk, scanned.complete, ← Nat.pos_iff_ne_zero, List.countP_pos_iff]
    simp only [Bool.not_eq_true']
    constructor
    · rintro ⟨⟨_, readable⟩, failed⟩
      exact ⟨readable, failed⟩
    · rintro ⟨readable, f, member, failed⟩
      exact ⟨⟨Workspace.stat_of_listed scanned.listed member, readable⟩, f, member, failed⟩
  · intro cause lost
    rw [scanned.lost cause lost, verdict]
  · intro p member unread
    obtain ⟨errors, perm, failed⟩ := scanned.skipped p member unread
    exact ⟨errors, perm, by rw [failed, verdict]⟩

theorem check_verdict_pair :
    checkPath 0 Disk.pair { format := utf8 "xml" } {} (utf8 "/w") =
      (.failed (.unknownFormat (utf8 "xml")), {}) ∧
    (∃ r, Checks Disk.pair {} {} {} (utf8 "/w") r) ∧
    ∀ r, Checks Disk.pair {} {} {} (utf8 "/w") r →
      r.1 = .failed (.scan (utf8 "/w")
        (.files [.unreadable (utf8 "/w/b.arith") ⟨"open", utf8 "/w/b.arith", .notFound⟩])) := by
  have unread : Disk.pair.read (utf8 "/w/b.arith") =
      .error ⟨"open", utf8 "/w/b.arith", .notFound⟩ := by cbv
  have failures : (Workspace.found Disk.pair (utf8 "/w")).filterMap
      (fun p => Workspace.failure? Disk.pair (p, none)) =
        [.unreadable (utf8 "/w/b.arith") ⟨"open", utf8 "/w/b.arith", .notFound⟩] := by cbv
  have member : utf8 "/w/b.arith" ∈ Workspace.found Disk.pair (utf8 "/w") := by
    simp [Workspace.found_eq Workspace.sources_pair]
  obtain ⟨exists_check, _, _, _, all⟩ :=
    (check_verdict 0 Disk.pair {} {} {} (utf8 "/w")).2 .text (by decide) rfl
  refine ⟨((check_verdict 0 Disk.pair {} _ {} (utf8 "/w")).1 (by decide)).1, exists_check, ?_⟩
  intro r checks
  obtain ⟨_, _, _, _, skipped⟩ := all r checks
  obtain ⟨errors, perm, ending⟩ := skipped _ member (by simp [Disk.Readable, unread])
  rw [failures, List.perm_singleton] at perm
  rw [ending, perm]

end Command
end Reckoner
