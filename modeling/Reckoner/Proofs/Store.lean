import Mathlib.Data.List.Nodup
import Reckoner.Workspace

/-! # The store of a workspace

`get?` is the view of a store: updating, removing and scanning say what they do
to it.  A sound store is in order of the paths and holds nothing but compiled
contents; then the view determines it (`Sound.ext`).  A scan of several files
comes to what each task does by itself, against the disk alone
(`runTasks_eq`, `get?_runTasks`). -/
set_option autoImplicit false
namespace Reckoner

namespace Workspace

/-! ## Entries by their paths -/

theorem find?_store (f : SourceFile) (files : List SourceFile) (path : Text) :
    (store f files).find? (fun g => g.path == path) =
      if f.path = path then some f else files.find? fun g => g.path == path := by
  induction files with
  | nil =>
    by_cases here : f.path = path
    · simp [store, here]
    · simp [store, here]
  | cons g rest ih =>
    simp only [store]
    split
    next same => by_cases here : g.path = path <;> simp [same, here]
    next different =>
      split
      · by_cases here : f.path = path <;> simp [here]
      · rw [List.find?_cons, List.find?_cons, ih]
        by_cases there : g.path = path
        · have elsewhere : f.path ≠ path := fun here => different (here.trans there.symm)
          simp [there, elsewhere]
        · have passed : (g.path == path) = false := by simpa using there
          simp only [passed]

@[simp] theorem get?_update (w : Workspace) (path content q : Text) :
    (w.update path content).get? q =
      if path = q then some (.ofContent path content) else w.get? q :=
  find?_store (.ofContent path content) w.files q

@[simp] theorem get?_remove (w : Workspace) (path q : Text) :
    (w.remove path).get? q = if path = q then none else w.get? q := by
  unfold remove get?
  rw [List.find?_filter]
  by_cases same : path = q
  · simp [same]
  · have keeps : ∀ f : SourceFile,
        decide ((f.path != path) = true ∧ (f.path == q) = true) = (f.path == q) := by
      intro f
      by_cases found : f.path = q
      · simp [found, Ne.symm same]
      · simp [found]
    simp only [keeps, if_neg same]

/-! ## Sound stores -/

/-- In order of the paths, each entry compiled from its content. -/
structure Sound (w : Workspace) : Prop where
  ordered : w.files.Pairwise fun f g => f.path < g.path
  compiled : ∀ f ∈ w.files, f = .ofContent f.path f.content

theorem sound_empty (root : Text) : Sound { root := root } :=
  ⟨List.Pairwise.nil, by simp⟩

theorem mem_store {f g : SourceFile} {files : List SourceFile} (member : g ∈ store f files) :
    g = f ∨ g ∈ files := by
  induction files with
  | nil => exact Or.inl (List.mem_singleton.mp member)
  | cons h rest ih =>
    simp only [store] at member
    split at member
    · exact (List.mem_cons.mp member).imp_right (List.mem_cons_of_mem h)
    · split at member
      · exact List.mem_cons.mp member
      · rcases List.mem_cons.mp member with rfl | behind
        · exact Or.inr List.mem_cons_self
        · exact (ih behind).imp_right (List.mem_cons_of_mem h)

theorem ordered_store (f : SourceFile) {files : List SourceFile}
    (ordered : files.Pairwise fun g h => g.path < h.path) :
    (store f files).Pairwise fun g h => g.path < h.path := by
  induction files with
  | nil => exact List.pairwise_singleton _ _
  | cons g rest ih =>
    obtain ⟨first, others⟩ := List.pairwise_cons.mp ordered
    simp only [store]
    split
    next same =>
      apply List.pairwise_cons.mpr
      exact ⟨fun h member => same ▸ first h member, others⟩
    next different =>
      split
      next before =>
        have earlier : f.path < g.path := of_decide_eq_true before
        apply List.pairwise_cons.mpr
        refine ⟨?_, ordered⟩
        intro h member
        rcases List.mem_cons.mp member with rfl | behind
        · exact earlier
        · exact List.lt_trans earlier (first h behind)
      next behind =>
        have later : g.path < f.path := by
          have notBefore : ¬ f.path < g.path := fun less => behind (decide_eq_true less)
          exact Std.lt_of_le_of_ne (List.not_lt.mp notBefore) (Ne.symm different)
        apply List.pairwise_cons.mpr
        refine ⟨?_, ih others⟩
        intro h member
        rcases mem_store member with rfl | inside
        · exact later
        · exact first h inside

section Ordered
variable {files others : List SourceFile} (ordered : files.Pairwise fun f g => f.path < g.path)
include ordered

theorem nodup_of_ordered : files.Nodup := by
  apply ordered.imp
  intro f g less same
  exact List.lt_irrefl g.path (same ▸ less)

/-- Files in order of their paths are determined by which ones they are. -/
theorem eq_of_ordered (likewise : others.Pairwise fun f g => f.path < g.path)
    (members : ∀ f, f ∈ files ↔ f ∈ others) : files = others := by
  have perm := (List.perm_ext_iff_of_nodup (nodup_of_ordered ordered)
    (nodup_of_ordered likewise)).mpr members
  apply perm.eq_of_pairwise _ ordered likewise
  intro f g _ _ less greater
  exact absurd greater (List.lt_asymm less)

end Ordered

namespace Sound
variable {v w : Workspace}

theorem update (sound : w.Sound) (path content : Text) : (w.update path content).Sound := by
  refine ⟨ordered_store _ sound.ordered, ?_⟩
  intro f member
  rcases mem_store member with rfl | inside
  · rfl
  · exact sound.compiled f inside

theorem remove (sound : w.Sound) (path : Text) : (w.remove path).Sound :=
  ⟨sound.ordered.filter _, fun f member => sound.compiled f (List.mem_filter.mp member).1⟩

theorem get?_eq_some (sound : w.Sound) {path : Text} {f : SourceFile} :
    w.get? path = some f ↔ f ∈ w.files ∧ f.path = path := by
  constructor
  · intro found
    exact ⟨List.mem_of_find?_eq_some found, by simpa using List.find?_some found⟩
  · rintro ⟨member, rfl⟩
    obtain ⟨before, behind, split⟩ := List.append_of_mem member
    have ordered := sound.ordered
    rw [split] at ordered
    apply List.find?_eq_some_iff_append.mpr
    refine ⟨by simp, before, behind, split, ?_⟩
    intro g earlier
    have less : g.path < f.path :=
      (List.pairwise_append.mp ordered).2.2 g earlier f List.mem_cons_self
    have different : g.path ≠ f.path := fun same => List.lt_irrefl _ (same ▸ less)
    simp [different]

theorem nodup (sound : w.Sound) : w.files.Nodup := nodup_of_ordered sound.ordered

/-- Two sound stores with the same view are the same. -/
theorem ext (left : v.Sound) (right : w.Sound) (root : v.root = w.root)
    (view : ∀ path, v.get? path = w.get? path) : v = w := by
  have members : ∀ f, f ∈ v.files ↔ f ∈ w.files := by
    intro f
    have found : v.get? f.path = some f ↔ w.get? f.path = some f := by rw [view]
    rw [left.get?_eq_some, right.get?_eq_some] at found
    simpa using found
  have files : v.files = w.files := eq_of_ordered left.ordered right.ordered members
  cases v
  cases w
  cases root
  cases files
  rfl

end Sound

/-! ## Tasks -/

end Workspace

/-- The file that a scan error is about. -/
def ScanError.path : ScanError → Text
  | .interrupted path _ => path
  | .unreadable path _ => path

/-- What scanning a file from disk would store. -/
def Disk.scanned? (disk : Disk) (path : Text) : Option SourceFile :=
  (disk.read path).toOption.map (.ofContent path)

section Scanned
variable {disk : Disk} {path : Text}

theorem Disk.scanned?_of_ok {content : Text} (read : disk.read path = .ok content) :
    disk.scanned? path = some (.ofContent path content) := by
  simp [scanned?, read, Except.toOption]

theorem Disk.scanned?_of_error {cause : FileError} (read : disk.read path = .error cause) :
    disk.scanned? path = none := by
  simp [scanned?, read, Except.toOption]

end Scanned

namespace Workspace

/-- The error of a task, if it has one: nothing but the disk decides about it. -/
def failure? (disk : Disk) : Task → Option ScanError
  | (path, some cause) => some (.interrupted path cause)
  | (path, none) =>
    match disk.read path with
    | .ok _ => none
    | .error cause => some (.unreadable path cause)

/-- The workspace after one task, whatever became of it. -/
def perform (disk : Disk) (w : Workspace) (t : Task) : Workspace :=
  match scanFile disk t.2 w t.1 with
  | .ok w => w
  | .error _ => w

section Tasks
variable {disk : Disk}

theorem path_of_failure? {t : Task} {e : ScanError} (fails : failure? disk t = some e) :
    e.path = t.1 := by
  obtain ⟨path, _ | cause⟩ := t
  · simp only [failure?] at fails
    split at fails
    · cases fails
    · cases fails
      rfl
  · cases fails
    rfl

theorem runTasks_eq (w : Workspace) (tasks : List Task) :
    runTasks disk w tasks = (tasks.foldl (perform disk) w, tasks.filterMap (failure? disk)) := by
  induction tasks generalizing w with
  | nil => rfl
  | cons t rest ih =>
    obtain ⟨path, _ | cause⟩ := t
    · cases read : disk.read path with
      | ok content => simp [runTasks, scanFile, perform, failure?, read, ih]
      | error cause => simp [runTasks, scanFile, perform, failure?, read, ih]
    · simp [runTasks, scanFile, perform, failure?, ih]

@[simp] theorem root_perform (w : Workspace) (t : Task) : (perform disk w t).root = w.root := by
  obtain ⟨path, _ | cause⟩ := t
  · cases read : disk.read path <;> simp [perform, scanFile, read, update]
  · rfl

theorem Sound.perform {w : Workspace} (sound : w.Sound) (t : Task) :
    (perform disk w t).Sound := by
  obtain ⟨path, _ | cause⟩ := t
  · cases read : disk.read path with
    | ok content => simpa [Workspace.perform, scanFile, read] using sound.update path content
    | error cause => simpa [Workspace.perform, scanFile, read] using sound
  · exact sound

theorem get?_perform (w : Workspace) (t : Task) (q : Text) :
    (perform disk w t).get? q =
      if t = (q, none) then (disk.scanned? q).or (w.get? q) else w.get? q := by
  obtain ⟨path, _ | cause⟩ := t
  · by_cases here : path = q
    · subst here
      cases read : disk.read path <;>
        simp [perform, scanFile, Disk.scanned?, read, Except.toOption]
    · cases read : disk.read path <;> simp [perform, scanFile, read, here]
  · simp [perform, scanFile]

theorem root_runTasks (w : Workspace) (tasks : List Task) :
    (runTasks disk w tasks).1.root = w.root := by
  rw [runTasks_eq]
  induction tasks generalizing w with
  | nil => rfl
  | cons t rest ih => simpa using ih (perform disk w t)

theorem Sound.runTasks {w : Workspace} (sound : w.Sound) (tasks : List Task) :
    (runTasks disk w tasks).1.Sound := by
  rw [runTasks_eq]
  induction tasks generalizing w with
  | nil => exact sound
  | cons t rest ih => exact ih (sound.perform t)

/-- A path is written if a task reads it; otherwise it keeps what it had. -/
theorem get?_runTasks (w : Workspace) (tasks : List Task) (q : Text) :
    (runTasks disk w tasks).1.get? q =
      if (q, none) ∈ tasks then (disk.scanned? q).or (w.get? q) else w.get? q := by
  rw [runTasks_eq]
  induction tasks generalizing w with
  | nil => rfl
  | cons t rest ih =>
    have step := ih (perform disk w t)
    simp only [get?_perform] at step
    simp only [List.foldl_cons, step, List.mem_cons, eq_comm (a := (q, none)) (b := t)]
    by_cases this : t = (q, none)
    · cases disk.scanned? q <;> simp [this]
    · simp [this]

section ScanAll
variable {w : Workspace} {paths : List Text} (context : Option Interruption)

theorem scanAll_lost {cause : FileError} (lost : sources disk w.root = .error cause) :
    scanAll disk context w = (w, some (.root w.root cause)) := by
  simp [scanAll, lost]

theorem scanAll_found (found : sources disk w.root = .ok paths) :
    (scanAll disk context w).1 = (runTasks disk w (paths.map fun p => (p, context))).1 := by
  simp only [scanAll, found]
  split
  next run => simp [run]
  next run => simp [run]

theorem root_scanAll : (scanAll disk context w).1.root = w.root := by
  cases found : sources disk w.root with
  | error cause => rw [scanAll_lost context found]
  | ok paths => rw [scanAll_found context found, root_runTasks]

theorem Sound.scanAll (sound : w.Sound) : (scanAll disk context w).1.Sound := by
  cases found : sources disk w.root with
  | error cause =>
    rw [scanAll_lost context found]
    exact sound
  | ok paths =>
    rw [scanAll_found context found]
    exact sound.runTasks _

theorem get?_scanAll (found : sources disk w.root = .ok paths) (q : Text) :
    (scanAll disk none w).1.get? q =
      if q ∈ paths then (disk.scanned? q).or (w.get? q) else w.get? q := by
  rw [scanAll_found none found, get?_runTasks]
  simp

end ScanAll

end Tasks

end Workspace
end Reckoner
