import Mathlib
import Reckoner.Proofs.Discovery
import Reckoner.Proofs.Store

/-! # Scanning many files at once

The files of a scan are tasks that run at the same time.  A task waits for one
of the slots or gives up when it sees the scan interrupted; with a slot it looks
at the context again, reads its file, stores it, hands the slot back and reports
its error.  Each of these is a step of its own, and the steps of all tasks may
come in any order, an interruption anywhere between them.

Whatever the order, tasks take effect one after the other: where a task stores
its file or gets its error (`Sweep.reaches_follows`).  So a scan that is over has
done what `runTasks` does in the order of these moments, and that hardly depends
on the order.  No scan runs forever, and none gets stuck before it is over. -/
set_option autoImplicit false
namespace Reckoner

/-- How many files are scanned at once. -/
structure Crew where
  size : Nat := 4
  positive : 0 < size := by decide

/-- How far a task has come. -/
inductive Sweep.Phase where
  | waiting
  -- From here on it has a slot.
  | admitted
  -- It saw the scan uninterrupted.
  | reading
  | loaded (content : Text)
  -- It is decided, and still has its slot.
  | leaving (failure : Option ScanError)
  -- It has no slot any more, and has not yet reported its error.
  | returned (failure : Option ScanError)
  | ended

namespace Sweep.Phase

def slots : Phase → Nat
  | .admitted | .reading | .loaded _ | .leaving _ => 1
  | _ => 0

/-- How many steps a task has before it at most. -/
def remaining : Phase → Nat
  | .waiting => 6
  | .admitted => 5
  | .reading => 4
  | .loaded _ => 3
  | .leaving _ => 2
  | .returned _ => 1
  | .ended => 0

/-- The error that a task is going to report. -/
def pending : Phase → Multiset ScanError
  | .leaving failure | .returned failure => failure.toList
  | _ => 0

/-- The path of a task, if it has neither stored nor failed yet. -/
def undecided (p : Text) : Phase → Multiset Text
  | .waiting | .admitted | .reading | .loaded _ => {p}
  | _ => 0

end Sweep.Phase

structure Sweep where
  workspace : Workspace
  context : Option Interruption
  tasks : Multiset (Text × Sweep.Phase)
  -- How many slots are taken.
  held : Nat := 0
  -- What was reported so far.
  errors : List ScanError := []

namespace Sweep

def start (w : Workspace) (context : Option Interruption) (paths : List Text) : Sweep :=
  { workspace := w, context := context, tasks := ↑(paths.map fun p => (p, Phase.waiting)) }

theorem tasks_start_cons (w : Workspace) (context : Option Interruption) (p : Text)
    (paths : List Text) : (start w context (p :: paths)).tasks =
      (p, .waiting) ::ₘ (start w context paths).tasks := rfl

def Finished (s : Sweep) : Prop := ∀ t ∈ s.tasks, t.2 = .ended

def failure (s : Sweep) : Option ScanFailure :=
  match s.errors with
  | [] => none
  | errors => some (.files errors)

/-- One step of one task, or an interruption from outside. -/
inductive Step (disk : Disk) (crew : Crew) : Sweep → Sweep → Prop
  | interrupt {w tasks held errors} (cause : Interruption) :
    Step disk crew ⟨w, none, tasks, held, errors⟩ ⟨w, some cause, tasks, held, errors⟩
  -- A task that waits can take a free slot and can see an interruption; where
  -- both are there, either may happen.
  | enter {w context p tasks held errors} (free : held < crew.size) :
    Step disk crew ⟨w, context, (p, .waiting) ::ₘ tasks, held, errors⟩
      ⟨w, context, (p, .admitted) ::ₘ tasks, held + 1, errors⟩
  | giveUp {w cause p tasks held errors} :
    Step disk crew ⟨w, some cause, (p, .waiting) ::ₘ tasks, held, errors⟩
      ⟨w, some cause, (p, .returned (some (.interrupted p cause))) ::ₘ tasks, held, errors⟩
  | stop {w cause p tasks held errors} :
    Step disk crew ⟨w, some cause, (p, .admitted) ::ₘ tasks, held, errors⟩
      ⟨w, some cause, (p, .leaving (some (.interrupted p cause))) ::ₘ tasks, held, errors⟩
  | go {w p tasks held errors} :
    Step disk crew ⟨w, none, (p, .admitted) ::ₘ tasks, held, errors⟩
      ⟨w, none, (p, .reading) ::ₘ tasks, held, errors⟩
  | load {w context p content tasks held errors} (read : disk.read p = .ok content) :
    Step disk crew ⟨w, context, (p, .reading) ::ₘ tasks, held, errors⟩
      ⟨w, context, (p, .loaded content) ::ₘ tasks, held, errors⟩
  | fail {w context p cause tasks held errors} (read : disk.read p = .error cause) :
    Step disk crew ⟨w, context, (p, .reading) ::ₘ tasks, held, errors⟩
      ⟨w, context, (p, .leaving (some (.unreadable p cause))) ::ₘ tasks, held, errors⟩
  | store {w context p content tasks held errors} :
    Step disk crew ⟨w, context, (p, .loaded content) ::ₘ tasks, held, errors⟩
      ⟨w.update p content, context, (p, .leaving none) ::ₘ tasks, held, errors⟩
  | release {w context p failure tasks held errors} :
    Step disk crew ⟨w, context, (p, .leaving failure) ::ₘ tasks, held + 1, errors⟩
      ⟨w, context, (p, .returned failure) ::ₘ tasks, held, errors⟩
  | report {w context p failure tasks held errors} :
    Step disk crew ⟨w, context, (p, .returned failure) ::ₘ tasks, held, errors⟩
      ⟨w, context, (p, .ended) ::ₘ tasks, held, errors ++ failure.toList⟩

abbrev Reaches (disk : Disk) (crew : Crew) : Sweep → Sweep → Prop :=
  Relation.ReflTransGen (Step disk crew)

/-- A whole schedule, up to the end of the scan. -/
def Ends (disk : Disk) (crew : Crew) (s t : Sweep) : Prop := Reaches disk crew s t ∧ t.Finished

section Schedules
variable {disk : Disk} {crew : Crew}

/-! ## Every schedule ends -/

def steps (s : Sweep) : Nat :=
  (s.tasks.map fun t => t.2.remaining).sum + if s.context = none then 1 else 0

theorem steps_lt_of_step {s t : Sweep} (step : Step disk crew s t) : t.steps < s.steps := by
  cases step <;> simp [steps, Phase.remaining]

theorem wellFounded_step : WellFounded fun t s => Step disk crew s t :=
  Subrelation.wf steps_lt_of_step (measure steps).wf

/-! ## No schedule gets stuck -/

/-- The slots taken are those that tasks hold, and no more than there are. -/
structure Slotted (crew : Crew) (s : Sweep) : Prop where
  counted : s.held = (s.tasks.map fun t => t.2.slots).sum
  bounded : s.held ≤ crew.size

theorem slotted_start (w : Workspace) (context : Option Interruption) (paths : List Text) :
    Slotted crew (start w context paths) := by
  refine ⟨?_, Nat.zero_le crew.size⟩
  change 0 = _
  induction paths with
  | nil => rfl
  | cons p rest ih =>
    rw [tasks_start_cons, Multiset.map_cons, Multiset.sum_cons, ← ih]
    rfl

theorem Slotted.step {s t : Sweep} (slotted : Slotted crew s) (step : Step disk crew s t) :
    Slotted crew t := by
  obtain ⟨counted, bounded⟩ := slotted
  cases step <;> constructor <;>
    simp only [Multiset.map_cons, Multiset.sum_cons, Phase.slots] at * <;> omega

theorem Slotted.reaches {s t : Sweep} (slotted : Slotted crew s) (reached : Reaches disk crew s t) :
    Slotted crew t := by
  induction reached with
  | refl => exact slotted
  | tail _ step ih => exact ih.step step

/-- A task that has a slot, or had one, can always go on. -/
theorem exists_step_of_mem {s : Sweep} {t : Text × Phase} (slotted : Slotted crew s)
    (member : t ∈ s.tasks) (waits : t.2 ≠ .waiting) (unfinished : t.2 ≠ .ended) :
    ∃ next, Step disk crew s next := by
  obtain ⟨w, context, tasks, held, errors⟩ := s
  obtain ⟨others, rfl⟩ := Multiset.exists_cons_of_mem member
  obtain ⟨p, phase⟩ := t
  cases phase with
  | waiting => exact absurd rfl waits
  | admitted =>
    cases context with
    | none => exact ⟨_, .go⟩
    | some cause => exact ⟨_, .stop⟩
  | reading =>
    cases read : disk.read p with
    | ok content => exact ⟨_, .load read⟩
    | error cause => exact ⟨_, .fail read⟩
  | loaded content => exact ⟨_, .store⟩
  | leaving failure =>
    have counted := slotted.counted
    simp only [Multiset.map_cons, Multiset.sum_cons] at counted
    rw [Phase.slots, Nat.add_comm] at counted
    subst counted
    exact ⟨_, .release⟩
  | returned failure => exact ⟨_, .report⟩
  | ended => exact absurd rfl unfinished

theorem exists_step {s : Sweep} (slotted : Slotted crew s) (unfinished : ¬ s.Finished) :
    ∃ next, Step disk crew s next := by
  obtain ⟨t, member, phase⟩ : ∃ t ∈ s.tasks, t.2 ≠ .ended := by
    simpa [Finished] using unfinished
  by_cases waits : t.2 = .waiting
  · by_cases free : s.held < crew.size
    · obtain ⟨w, context, tasks, held, errors⟩ := s
      obtain ⟨others, rfl⟩ := Multiset.exists_cons_of_mem member
      obtain ⟨p, _⟩ := t
      cases waits
      exact ⟨_, .enter free⟩
    · -- All slots are taken, so one of those that took them can go on.
      obtain ⟨u, inside, holds⟩ : ∃ u ∈ s.tasks, u.2.slots ≠ 0 := by
        by_contra unheld
        have empty : (s.tasks.map fun t => t.2.slots).sum = 0 := by
          apply Multiset.sum_eq_zero
          intro n member
          obtain ⟨u, inside, rfl⟩ := Multiset.mem_map.mp member
          by_contra holds
          exact unheld ⟨u, inside, holds⟩
        have positive := crew.positive
        have counted := slotted.counted
        omega
      apply exists_step_of_mem slotted inside
      · intro waiting
        simp [waiting, Phase.slots] at holds
      · intro ended
        simp [ended, Phase.slots] at holds
  · exact exists_step_of_mem slotted member waits phase

/-! ## Tasks take effect one after the other -/

open Workspace (Task runTasks)

/-- The errors of a scan, those included that are still to be reported. -/
def allErrors (s : Sweep) : Multiset ScanError := s.errors + s.tasks.bind fun t => t.2.pending

/-- The paths of the tasks that are not decided yet. -/
def ahead (s : Sweep) : Multiset Text := s.tasks.bind fun t => t.2.undecided t.1

/-- Whether a task was right to come this far, in a scan that began in this
context. -/
def Phase.Earned (disk : Disk) (context : Option Interruption) (p : Text) : Phase → Prop
  | .reading => context = none
  | .loaded content => context = none ∧ disk.read p = .ok content
  | _ => True

/-- A scan has come as far as tasks that were run in this order: all but the
undecided ones.  An interruption is what the tasks saw, and a scan that was
interrupted from the beginning has let none of them read. -/
structure Follows (disk : Disk) (w : Workspace) (context : Option Interruption)
    (paths : List Text) (s : Sweep) (done : List Task) : Prop where
  workspace : s.workspace = (runTasks disk w done).1
  errors : s.allErrors = ((runTasks disk w done).2 : Multiset ScanError)
  paths : (done.map Prod.fst : Multiset Text) + s.ahead = (paths : Multiset Text)
  saw : ∀ t ∈ done, ∀ cause, t.2 = some cause → s.context = some cause
  unseen : ∀ t ∈ done, t.2 = none → context = none
  lasting : ∀ cause, context = some cause → s.context = some cause
  earned : ∀ t ∈ s.tasks, t.2.Earned disk context t.1

theorem follows_start (w : Workspace) (context : Option Interruption) (paths : List Text) :
    Follows disk w context paths (start w context paths) [] := by
  have views : (start w context paths).allErrors = 0 ∧ (start w context paths).ahead = paths ∧
      ∀ t ∈ (start w context paths).tasks, t.2.Earned disk context t.1 := by
    unfold allErrors ahead
    induction paths with
    | nil => exact ⟨rfl, rfl, by simp [start]⟩
    | cons p rest ih =>
      obtain ⟨errors, ahead, earned⟩ := ih
      rw [tasks_start_cons, Multiset.cons_bind, Multiset.cons_bind, ahead, Multiset.forall_mem_cons]
      refine ⟨?_, rfl, trivial, earned⟩
      change _ + (0 + _) = _
      rw [zero_add]
      exact errors
  obtain ⟨errors, ahead, earned⟩ := views
  refine ⟨rfl, errors, ?_, by simp, by simp, fun _ same => same, earned⟩
  simpa using ahead

theorem runTasks_concat (w : Workspace) (done : List Task) (t : Task) :
    runTasks disk w (done ++ [t]) =
      (Workspace.perform disk (runTasks disk w done).1 t,
        (runTasks disk w done).2 ++ (Workspace.failure? disk t).toList) := by
  simp only [Workspace.runTasks_eq, List.foldl_append, List.filterMap_append]
  cases fails : Workspace.failure? disk t <;> simp [fails]

section Follows
variable {w v : Workspace} {context seen : Option Interruption} {paths : List Text}
  {done : List Task} {tasks : Multiset (Text × Phase)} {a b : Phase} {held held' : Nat}
  {errors errors' : List ScanError}

/-- A task that goes on without being decided. -/
theorem Follows.move {p : Text}
    (follows : Follows disk w context paths ⟨v, seen, (p, a) ::ₘ tasks, held, errors⟩ done)
    (pending : (errors' : Multiset ScanError) + b.pending = errors + a.pending)
    (undecided : b.undecided p = a.undecided p) (earned : b.Earned disk context p) :
    Follows disk w context paths ⟨v, seen, (p, b) ::ₘ tasks, held', errors'⟩ done := by
  refine ⟨follows.workspace, ?_, ?_, follows.saw, follows.unseen, follows.lasting, ?_⟩
  · rw [← follows.errors]
    simp only [allErrors, Multiset.cons_bind, ← add_assoc, pending]
  · rw [← follows.paths]
    simp only [ahead, Multiset.cons_bind, undecided]
  · exact Multiset.forall_mem_cons.mpr ⟨earned, (Multiset.forall_mem_cons.mp follows.earned).2⟩

/-- A task that takes effect now. -/
theorem Follows.decide {t : Task} {v' : Workspace}
    (follows : Follows disk w context paths ⟨v, seen, (t.1, a) ::ₘ tasks, held, errors⟩ done)
    (undecided : a.undecided t.1 = {t.1}) (quiet : a.pending = 0) (decided : b.undecided t.1 = 0)
    (pending : b.pending = (Workspace.failure? disk t).toList)
    (earned : b.Earned disk context t.1) (saw : ∀ cause, t.2 = some cause → seen = some cause)
    (unseen : t.2 = none → context = none) (stored : v' = Workspace.perform disk v t) :
    Follows disk w context paths ⟨v', seen, (t.1, b) ::ₘ tasks, held', errors⟩ (done ++ [t]) := by
  refine ⟨?_, ?_, ?_, ?_, ?_, follows.lasting, ?_⟩
  · rw [runTasks_concat, ← follows.workspace]
    exact stored
  · have before := follows.errors
    rw [runTasks_concat, ← Multiset.coe_add, ← before, ← pending]
    simp only [allErrors, Multiset.cons_bind, quiet]
    rw [zero_add, add_assoc, add_comm b.pending]
  · rw [← follows.paths, List.map_append, ← Multiset.coe_add]
    simp only [ahead, Multiset.cons_bind, undecided, decided]
    rw [zero_add, add_assoc]
    rfl
  · intro u member
    rcases List.mem_append.mp member with before | now
    · exact follows.saw u before
    · rw [List.mem_singleton.mp now]
      exact saw
  · intro u member
    rcases List.mem_append.mp member with before | now
    · exact follows.unseen u before
    · rw [List.mem_singleton.mp now]
      exact unseen
  · exact Multiset.forall_mem_cons.mpr ⟨earned, (Multiset.forall_mem_cons.mp follows.earned).2⟩

theorem Follows.step {s t : Sweep} (follows : Follows disk w context paths s done)
    (step : Step disk crew s t) : ∃ done, Follows disk w context paths t done := by
  cases step with
  | interrupt cause =>
    have uninterrupted : ∀ cause, context = some cause → False := fun cause began =>
      absurd (follows.lasting cause began) (by simp)
    refine ⟨done, follows.workspace, follows.errors, follows.paths, ?_, follows.unseen, ?_,
      follows.earned⟩
    · intro t member cause saw
      exact absurd (follows.saw t member cause saw) (by simp)
    · intro cause began
      exact (uninterrupted cause began).elim
  | enter free => exact ⟨done, follows.move rfl rfl trivial⟩
  | @giveUp _ cause p =>
    exact ⟨_, follows.decide (t := (p, some cause)) rfl rfl rfl rfl trivial (by simp) (by simp) rfl⟩
  | @stop _ cause p =>
    exact ⟨_, follows.decide (t := (p, some cause)) rfl rfl rfl rfl trivial (by simp) (by simp) rfl⟩
  | go =>
    have began : context = none := by
      cases began : context with
      | none => rfl
      | some cause => exact absurd (follows.lasting cause began) (by simp)
    exact ⟨done, follows.move rfl rfl began⟩
  | load read =>
    have began := (Multiset.forall_mem_cons.mp follows.earned).1
    exact ⟨done, follows.move rfl rfl ⟨began, read⟩⟩
  | @fail _ _ p _ _ _ _ read =>
    have began := (Multiset.forall_mem_cons.mp follows.earned).1
    refine ⟨_, follows.decide (t := (p, none)) rfl rfl rfl ?_ trivial (by simp) (fun _ => began) ?_⟩
    · simp [Workspace.failure?, read, Phase.pending]
    · simp [Workspace.perform, Workspace.scanFile, read]
  | @store _ _ p =>
    obtain ⟨began, read⟩ := (Multiset.forall_mem_cons.mp follows.earned).1
    refine ⟨_, follows.decide (t := (p, none)) rfl rfl rfl ?_ trivial (by simp) (fun _ => began) ?_⟩
    · simp [Workspace.failure?, read, Phase.pending]
    · simp [Workspace.perform, Workspace.scanFile, read]
  | release => exact ⟨done, follows.move rfl rfl trivial⟩
  | report =>
    refine ⟨done, follows.move ?_ rfl trivial⟩
    simp [Phase.pending]

theorem reaches_follows {s : Sweep} (reached : Reaches disk crew (start w context paths) s) :
    ∃ done, Follows disk w context paths s done := by
  induction reached with
  | refl => exact ⟨[], follows_start w context paths⟩
  | tail _ step ih =>
    obtain ⟨done, follows⟩ := ih
    exact follows.step step

end Follows

/-- A scan that is over has run its tasks, one for each path, in some order. -/
theorem Ends.tasks {w : Workspace} {context : Option Interruption} {paths : List Text} {s : Sweep}
    (ends : Ends disk crew (start w context paths) s) :
    ∃ tasks : List Task, (tasks.map Prod.fst).Perm paths ∧
      s.workspace = (runTasks disk w tasks).1 ∧
      s.errors.Perm (tasks.filterMap (Workspace.failure? disk)) ∧
      (∀ t ∈ tasks, t.2 = none ∨ t.2 = s.context) ∧
      (∀ t ∈ tasks, t.2 = none → context = none) ∧
      ∀ cause, context = some cause → s.context = some cause := by
  obtain ⟨reached, finished⟩ := ends
  obtain ⟨tasks, follows⟩ := reaches_follows reached
  have quiet : s.allErrors = s.errors := by
    rw [allErrors, Multiset.bind_congr fun t member => by rw [finished t member]]
    simp [Phase.pending]
  have decided : s.ahead = 0 := by
    rw [ahead, Multiset.bind_congr fun t member => by rw [finished t member]]
    simp [Phase.undecided]
  refine ⟨tasks, ?_, follows.workspace, ?_, ?_, follows.unseen, follows.lasting⟩
  · have covered := follows.paths
    rw [decided, add_zero] at covered
    exact Multiset.coe_eq_coe.mp covered
  · have same := follows.errors
    rw [quiet, Workspace.runTasks_eq] at same
    exact Multiset.coe_eq_coe.mp same
  · intro t member
    cases saw : t.2 with
    | none => exact Or.inl rfl
    | some cause => exact Or.inr (follows.saw t member cause saw).symm

/-! ## One task after the other is a schedule -/

theorem reaches_ended (w : Workspace) (context : Option Interruption) (p : Text)
    (tasks : Multiset (Text × Phase)) (errors : List ScanError) :
    Reaches disk crew ⟨w, context, (p, .waiting) ::ₘ tasks, 0, errors⟩
      ⟨Workspace.perform disk w (p, context), context, (p, .ended) ::ₘ tasks, 0,
        errors ++ (Workspace.failure? disk (p, context)).toList⟩ := by
  cases context with
  | some cause => exact (Relation.ReflTransGen.single .giveUp).tail .report
  | none =>
    have begun : Reaches disk crew ⟨w, none, (p, .waiting) ::ₘ tasks, 0, errors⟩
        ⟨w, none, (p, .reading) ::ₘ tasks, 0 + 1, errors⟩ :=
      (Relation.ReflTransGen.single (.enter crew.positive)).tail .go
    cases read : disk.read p with
    | ok content =>
      have stored : Workspace.perform disk w (p, none) = w.update p content := by
        simp [Workspace.perform, Workspace.scanFile, read]
      have fine : Workspace.failure? disk (p, none) = none := by simp [Workspace.failure?, read]
      rw [stored, fine]
      exact (((begun.tail (.load read)).tail .store).tail .release).tail .report
    | error cause =>
      have kept : Workspace.perform disk w (p, none) = w := by
        simp [Workspace.perform, Workspace.scanFile, read]
      have fails : Workspace.failure? disk (p, none) = some (.unreadable p cause) := by
        simp [Workspace.failure?, read]
      rw [kept, fails]
      exact ((begun.tail (.fail read)).tail .release).tail .report

theorem reaches_each (w : Workspace) (context : Option Interruption) (paths : List Text)
    (past : Multiset (Text × Phase)) (errors : List ScanError) :
    Reaches disk crew ⟨w, context, (paths.map fun p => (p, Phase.waiting) : List _) + past, 0, errors⟩
      ⟨(paths.map fun p => (p, context)).foldl (Workspace.perform disk) w, context,
        (paths.map fun p => (p, Phase.ended) : List _) + past, 0,
        errors ++ (paths.map fun p => (p, context)).filterMap (Workspace.failure? disk)⟩ := by
  induction paths generalizing w past errors with
  | nil => simpa using Relation.ReflTransGen.refl
  | cons p rest ih =>
    have first := @reaches_ended disk crew w context p
      ((rest.map fun p => (p, Phase.waiting) : List _) + past) errors
    have others := ih (Workspace.perform disk w (p, context)) ((p, .ended) ::ₘ past)
      (errors ++ (Workspace.failure? disk (p, context)).toList)
    rw [Multiset.add_cons, Multiset.add_cons] at others
    have collected : ((p :: rest).map fun p => (p, context)).filterMap (Workspace.failure? disk) =
        (Workspace.failure? disk (p, context)).toList ++
          (rest.map fun p => (p, context)).filterMap (Workspace.failure? disk) := by
      cases fails : Workspace.failure? disk (p, context) <;> simp [fails]
    rw [collected, ← List.append_assoc]
    simp only [List.map_cons, List.foldl_cons, ← Multiset.cons_coe, Multiset.cons_add]
    exact first.trans others

/-- What `scanAll` computes is the end of a schedule that nothing interrupts. -/
theorem scanAll_steady {w : Workspace} {paths : List Text} (context : Option Interruption)
    (found : Workspace.sources disk w.root = .ok paths) :
    ∃ s, Ends disk crew (start w context paths) s ∧ s.context = context ∧
      Workspace.scanAll disk context w = (s.workspace, s.failure) := by
  have reached := @reaches_each disk crew w context paths 0 []
  rw [add_zero, add_zero, List.nil_append] at reached
  refine ⟨_, ⟨reached, ?_⟩, rfl, ?_⟩
  · simp [Finished]
  · simp only [Workspace.scanAll, found, Workspace.runTasks_eq, failure]
    cases (paths.map fun p => (p, context)).filterMap (Workspace.failure? disk) <;> rfl

theorem scanAll_ends {w : Workspace} {paths : List Text} (context : Option Interruption)
    (found : Workspace.sources disk w.root = .ok paths) :
    ∃ s, Ends disk crew (start w context paths) s ∧
      Workspace.scanAll disk context w = (s.workspace, s.failure) := by
  obtain ⟨s, ends, _, result⟩ := @scanAll_steady disk crew w paths context found
  exact ⟨s, ends, result⟩

/-! ## What becomes of each file -/

theorem filter_failures (tasks : List Task) (p : Text) :
    (tasks.filterMap (Workspace.failure? disk)).filter (fun e => e.path = p) =
      (tasks.filter fun t => t.1 = p).filterMap (Workspace.failure? disk) := by
  rw [List.filter_filterMap, List.filterMap_filter]
  apply List.filterMap_congr
  intro t _
  cases fails : Workspace.failure? disk t with
  | none => simp
  | some e =>
    by_cases here : t.1 = p
    · simp [Option.filter, Workspace.path_of_failure? fails, here]
    · simp [Option.filter, Workspace.path_of_failure? fails, here]

theorem filter_path {tasks : List Task} {t : Task} (distinct : (tasks.map Prod.fst).Nodup)
    (member : t ∈ tasks) : tasks.filter (fun u => u.1 = t.1) = [t] := by
  induction tasks with
  | nil => cases member
  | cons u rest ih =>
    obtain ⟨fresh, others⟩ := List.nodup_cons.mp distinct
    rcases List.mem_cons.mp member with rfl | behind
    · have unlike : rest.filter (fun u => u.1 = t.1) = [] := by
        apply List.filter_eq_nil_iff.mpr
        intro v inside same
        exact fresh (of_decide_eq_true same ▸ List.mem_map_of_mem inside)
      simp [unlike]
    · have different : u.1 ≠ t.1 := fun same => fresh (same ▸ List.mem_map_of_mem behind)
      simpa [different] using ih others behind

end Schedules

/-- A file was read and stored, and no error is about it. -/
def Replaced (disk : Disk) (s : Sweep) (p : Text) : Prop :=
  ∃ content, disk.read p = .ok content ∧ s.workspace.get? p = some (.ofContent p content) ∧
    ∀ e ∈ s.errors, e.path ≠ p

/-- A file was left as it was, and one error says why. -/
def Kept (disk : Disk) (w : Workspace) (s : Sweep) (p : Text) : Prop :=
  s.workspace.get? p = w.get? p ∧ ∃ e, s.errors.filter (fun e => e.path = p) = [e] ∧
    ((∃ cause, disk.read p = .error cause ∧ e = .unreadable p cause) ∨
      ∃ cause, s.context = some cause ∧ e = .interrupted p cause)

section Outcomes
variable {disk : Disk} {crew : Crew} {w : Workspace} {context : Option Interruption}
  {paths : List Text} {s : Sweep}

theorem Replaced.not_kept {p : Text} (replaced : s.Replaced disk p) : ¬ s.Kept disk w p := by
  rintro ⟨_, e, only, _⟩
  obtain ⟨_, _, _, unblamed⟩ := replaced
  have member : e ∈ s.errors.filter fun e => e.path = p := by simp [only]
  obtain ⟨reported, about⟩ := List.mem_filter.mp member
  exact unblamed e reported (of_decide_eq_true about)

theorem Ends.outcome (ends : Ends disk crew (start w context paths) s) (distinct : paths.Nodup)
    {p : Text} (member : p ∈ paths) : s.Replaced disk p ∨ s.Kept disk w p := by
  obtain ⟨tasks, covered, workspace, errors, saw, _⟩ := ends.tasks
  have different : (tasks.map Prod.fst).Nodup := covered.nodup_iff.mpr distinct
  obtain ⟨⟨q, interruption⟩, inside, rfl⟩ := List.mem_map.mp (covered.mem_iff.mpr member)
  have alone := filter_path different inside
  have about := errors.filter fun e => e.path = q
  rw [filter_failures, alone] at about
  have view := @Workspace.get?_runTasks disk w tasks q
  rw [← workspace] at view
  cases interruption with
  | some cause =>
    -- The one task for this path is another than one that would read it.
    have unread : (q, none) ∉ tasks := by
      intro reads
      have listed : (q, none) ∈ tasks.filter fun u => u.1 = q := by simp [reads]
      rw [alone] at listed
      simp at listed
    refine Or.inr ⟨by simpa [unread] using view, _, List.perm_singleton.mp about, Or.inr ⟨cause, ?_⟩⟩
    rcases saw _ inside with calm | seen
    · cases calm
    · exact ⟨seen.symm, rfl⟩
  | none =>
    rw [if_pos inside] at view
    cases read : disk.read q with
    | ok content =>
      have unblamed : s.errors.filter (fun e => e.path = q) = [] := by
        simpa [Workspace.failure?, read] using about
      refine Or.inl ⟨content, read, by simpa [Disk.scanned?_of_ok read] using view, ?_⟩
      intro e reported same
      exact List.filter_eq_nil_iff.mp unblamed e reported (decide_eq_true same)
    | error cause =>
      have unscanned := Disk.scanned?_of_error read
      have fails : [(q, none)].filterMap (Workspace.failure? disk) = [.unreadable q cause] := by
        simp [Workspace.failure?, read]
      rw [fails] at about
      exact Or.inr ⟨by simpa [unscanned] using view, _, List.perm_singleton.mp about,
        Or.inl ⟨cause, read, rfl⟩⟩

theorem Ends.untouched (ends : Ends disk crew (start w context paths) s) {p : Text}
    (other : p ∉ paths) : s.workspace.get? p = w.get? p := by
  obtain ⟨tasks, covered, workspace, _⟩ := ends.tasks
  have unread : (p, none) ∉ tasks := fun reads =>
    other (covered.mem_iff.mp (List.mem_map_of_mem reads))
  rw [workspace, Workspace.get?_runTasks, if_neg unread]

theorem Ends.mem_paths (ends : Ends disk crew (start w context paths) s) {e : ScanError}
    (reported : e ∈ s.errors) : e.path ∈ paths := by
  obtain ⟨tasks, covered, _, errors, _⟩ := ends.tasks
  obtain ⟨t, member, fails⟩ := List.mem_filterMap.mp (errors.mem_iff.mp reported)
  rw [Workspace.path_of_failure? fails]
  exact covered.mem_iff.mp (List.mem_map_of_mem member)

theorem failure_eq_none : s.failure = none ↔ s.errors = [] := by
  unfold failure
  cases s.errors <;> simp

/-- Nothing fails exactly if every file is replaced. -/
theorem Ends.failure_iff (ends : Ends disk crew (start w context paths) s)
    (distinct : paths.Nodup) : s.failure = none ↔ ∀ p ∈ paths, s.Replaced disk p := by
  rw [failure_eq_none]
  constructor
  · intro fine p member
    rcases ends.outcome distinct member with replaced | ⟨_, e, only, _⟩
    · exact replaced
    · simp [fine] at only
  · intro all
    apply List.eq_nil_iff_forall_not_mem.mpr
    intro e reported
    obtain ⟨_, _, _, unblamed⟩ := all e.path (ends.mem_paths reported)
    exact unblamed e reported rfl

/-- A scan whose context stays as it was does what its tasks do in any order. -/
theorem Ends.steady (ends : Ends disk crew (start w context paths) s) (sound : w.Sound)
    (steady : s.context = context) :
    s.workspace = (Workspace.runTasks disk w (paths.map fun p => (p, context))).1 ∧
      s.errors.Perm (Workspace.runTasks disk w (paths.map fun p => (p, context))).2 := by
  obtain ⟨tasks, covered, workspace, errors, saw, unseen, _⟩ := ends.tasks
  have same : tasks = (tasks.map Prod.fst).map fun p => (p, context) := by
    rw [List.map_map, List.map_congr_left (g := id), List.map_id]
    rintro ⟨p, interruption⟩ member
    refine congrArg (Prod.mk p) ?_
    rcases saw _ member with calm | seen
    · exact (unseen _ member calm).trans calm.symm
    · exact (seen.trans steady).symm
  have perm : tasks.Perm (paths.map fun p => (p, context)) := by
    rw [same]
    exact covered.map _
  constructor
  · rw [workspace]
    apply (sound.runTasks tasks).ext (sound.runTasks _)
    · rw [Workspace.root_runTasks, Workspace.root_runTasks]
    · intro p
      simp only [Workspace.get?_runTasks, perm.mem_iff]
  · rw [Workspace.runTasks_eq]
    exact errors.trans (perm.filterMap _)

theorem Ends.lasting (ends : Ends disk crew (start w context paths) s) {cause : Interruption}
    (began : context = some cause) : s.context = some cause := by
  obtain ⟨_, _, _, _, _, _, lasting⟩ := ends.tasks
  exact lasting cause began

theorem Ends.never (ends : Ends disk crew (start w context paths) s) (never : s.context = none) :
    s.context = context := by
  cases began : context with
  | none => exact never
  | some cause => exact ends.lasting began

theorem runTasks_interrupted (cause : Interruption) (paths : List Text) :
    Workspace.runTasks disk w (paths.map fun p => (p, some cause)) =
      (w, paths.map fun p => .interrupted p cause) := by
  induction paths with
  | nil => rfl
  | cons p rest ih => simp [Workspace.runTasks, Workspace.scanFile, ih]

end Outcomes
end Sweep

theorem ScanError.message_canceled (p : Text) :
    (ScanError.interrupted p .canceled).message =
      utf8 "scan " ++ p ++ utf8 ": context canceled" := by
  have joined : utf8 ": " ++ utf8 Interruption.canceled.message = utf8 ": context canceled" := by
    decide
  rw [ScanError.message, List.append_assoc, joined]

/-- Scanning the sources of a proper disk in any order, with an interruption at
any point: every schedule ends, and what it has done to each file does not
depend on it but for the interruption. -/
theorem Workspace.scan_interleaved (disk : Disk) (proper : disk.Proper) (crew : Crew)
    (w : Workspace) (sound : w.Sound) (context : Option Interruption) (paths : List Text)
    (found : sources disk w.root = .ok paths) :
    paths.Nodup ∧
    (WellFounded fun t s => Sweep.Step disk crew s t) ∧
    (∀ s, Sweep.Reaches disk crew (.start w context paths) s →
      (∀ t, ¬ Sweep.Step disk crew s t) → s.Finished) ∧
    (∃ s, Sweep.Ends disk crew (.start w context paths) s ∧
      scanAll disk context w = (s.workspace, s.failure)) ∧
    (∀ s, Sweep.Ends disk crew (.start w context paths) s →
      (∀ p ∈ paths, Xor (s.Replaced disk p) (s.Kept disk w p)) ∧
      (∀ p ∉ paths, s.workspace.get? p = w.get? p ∧ ∀ e ∈ s.errors, e.path ≠ p) ∧
      (s.failure = none ↔ ∀ p ∈ paths, s.Replaced disk p)) ∧
    (∀ (others : Crew) (s t : Sweep), Sweep.Ends disk crew (.start w context paths) s →
      Sweep.Ends disk others (.start w context paths) t → s.context = none → t.context = none →
      s.workspace = t.workspace ∧ s.errors.Perm t.errors) ∧
    (∀ s, Sweep.Ends disk crew (.start w context paths) s → context = some .canceled →
      s.workspace = w ∧ (s.errors.map ScanError.message).Perm
        (paths.map fun p => utf8 "scan " ++ p ++ utf8 ": context canceled")) := by
  have distinct := nodup_sources proper found
  refine ⟨distinct, Sweep.wellFounded_step, ?_, Sweep.scanAll_ends context found, ?_, ?_, ?_⟩
  · intro s reached stuck
    by_contra unfinished
    have slotted := (Sweep.slotted_start w context paths).reaches reached
    obtain ⟨t, step⟩ := Sweep.exists_step slotted unfinished
    exact stuck t step
  · intro s ends
    refine ⟨?_, ?_, ends.failure_iff distinct⟩
    · intro p member
      rcases ends.outcome distinct member with replaced | kept
      · exact Or.inl ⟨replaced, replaced.not_kept⟩
      · exact Or.inr ⟨kept, fun replaced => replaced.not_kept kept⟩
    · intro p other
      refine ⟨ends.untouched other, ?_⟩
      intro e reported same
      exact other (same ▸ ends.mem_paths reported)
  · intro others s t one another quiet silent
    obtain ⟨left, reported⟩ := one.steady sound (one.never quiet)
    obtain ⟨right, likewise⟩ := another.steady sound (another.never silent)
    exact ⟨left.trans right.symm, reported.trans likewise.symm⟩
  · intro s ends canceled
    subst canceled
    obtain ⟨workspace, errors⟩ := ends.steady sound (ends.lasting rfl)
    rw [Sweep.runTasks_interrupted] at workspace errors
    refine ⟨workspace, (errors.map _).trans (List.Perm.of_eq ?_)⟩
    rw [List.map_map]
    exact List.map_congr_left fun p _ => ScanError.message_canceled p

/-- A source, and a link by the name of a source that leads nowhere. -/
def Disk.pair : Disk where
  entries := [(utf8 "w", .dir [(utf8 "a.arith", .file (utf8 "1+2")),
    (utf8 "b.arith", .link (utf8 "/gone"))])]

theorem Disk.native_pair : Disk.pair.Native := by decide

theorem Workspace.sources_pair :
    sources Disk.pair (utf8 "/w") = .ok [utf8 "/w/a.arith", utf8 "/w/b.arith"] := by cbv

theorem Workspace.scan_interleaved_pair :
    sources Disk.pair (utf8 "/w") = .ok [utf8 "/w/a.arith", utf8 "/w/b.arith"] ∧
    (∃ s, Sweep.Ends Disk.pair {} (.start { root := utf8 "/w" } none
      [utf8 "/w/a.arith", utf8 "/w/b.arith"]) s) ∧
    ∀ s, Sweep.Ends Disk.pair {} (.start { root := utf8 "/w" } none
      [utf8 "/w/a.arith", utf8 "/w/b.arith"]) s →
      Xor (s.Replaced Disk.pair (utf8 "/w/b.arith"))
        (s.Kept Disk.pair { root := utf8 "/w" } (utf8 "/w/b.arith")) := by
  obtain ⟨_, _, _, ⟨s, ends, _⟩, outcomes, _⟩ := scan_interleaved Disk.pair Disk.native_pair.proper
    {} { root := utf8 "/w" } (sound_empty (utf8 "/w")) none _ sources_pair
  refine ⟨sources_pair, ⟨s, ends⟩, ?_⟩
  intro s ends
  exact (outcomes s ends).1 _ (by simp)

end Reckoner
