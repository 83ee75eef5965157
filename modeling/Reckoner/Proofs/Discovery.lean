import Mathlib.Data.List.Nodup
import Reckoner.Workspace
import Reckoner.Proofs.Cleaning

/-! # The sources below a root

In a proper disk the entries of a directory have names, each a different one; so
it is in every disk that a file system keeps (`Disk.Native.proper`).  Then a walk
never comes to the same path twice (`Disk.nodup_walk`): what it finds below an
entry has the name of that entry among its elements. -/
set_option autoImplicit false
namespace Reckoner

/-! ## Disks of a file system -/

/-- A name that a file system takes for an entry. -/
structure Path.IsFileName (e : Text) : Prop extends Path.IsName e where
  noNul : 0 ∉ e
  short : e.length ≤ Disk.nameLimit

instance (e : Text) : Decidable (Path.IsFileName e) :=
  decidable_of_iff (Path.IsName e ∧ 0 ∉ e ∧ e.length ≤ Disk.nameLimit)
    ⟨fun ⟨name, noNul, short⟩ => ⟨name, noNul, short⟩,
      fun name => ⟨name.toIsName, name.noNul, name.short⟩⟩

namespace Node

/-- Every directory, this one and those below, holds entries under different
names that a file system takes. -/
def wellNamed : Node → Bool
  | .file _ => true
  | .link _ => true
  | .dir entries => decide (entries.map Prod.fst).Nodup && each entries
where
  /-- Each name is taken, and each node well named. -/
  each : List (Text × Node) → Bool
    | [] => true
    | (name, n) :: rest => decide (Path.IsFileName name) && n.wellNamed && each rest

theorem each_iff {entries : List (Text × Node)} : wellNamed.each entries = true ↔
    ∀ entry ∈ entries, Path.IsFileName entry.1 ∧ entry.2.wellNamed = true := by
  induction entries with
  | nil => simp [wellNamed.each]
  | cons entry rest ih =>
    rw [wellNamed.each, Bool.and_eq_true, Bool.and_eq_true, decide_eq_true_eq, ih,
      List.forall_mem_cons]

theorem wellNamed_dir {entries : List (Text × Node)} : (dir entries).wellNamed = true ↔
    (entries.map Prod.fst).Nodup ∧
      ∀ entry ∈ entries, Path.IsFileName entry.1 ∧ entry.2.wellNamed = true := by
  rw [wellNamed, Bool.and_eq_true, decide_eq_true_eq, each_iff]

theorem mem_of_lookup {entries : List (Text × Node)} {name : Text} {n : Node}
    (found : entries.lookup name = some n) : (name, n) ∈ entries := by
  obtain ⟨before, behind, rfl, _⟩ := List.lookup_eq_some_iff.mp found
  simp

theorem lookup_of_mem {entries : List (Text × Node)} (distinct : (entries.map Prod.fst).Nodup)
    {name : Text} {n : Node} (member : (name, n) ∈ entries) : entries.lookup name = some n := by
  obtain ⟨before, behind, rfl⟩ := List.append_of_mem member
  refine List.lookup_eq_some_iff.mpr ⟨before, behind, rfl, fun entry earlier => bne_iff_ne.mpr ?_⟩
  intro same
  rw [List.map_append, List.map_cons] at distinct
  exact (List.nodup_middle.mp distinct).notMem
    (List.mem_append_left _ (List.mem_map.mpr ⟨entry, earlier, same.symm⟩))

theorem at?_cons {entries : List (Text × Node)} {name : Text} {rest : List Text} {n : Node} :
    (dir entries).at? (name :: rest) = some n ↔
      ∃ child, entries.lookup name = some child ∧ child.at? rest = some n := by
  rw [at?]
  cases entries.lookup name <;> simp

theorem at?_leaf {m n : Node} {names : List Text} (leaf : m.isDir = false) :
    m.at? names = some n ↔ names = [] ∧ n = m := by
  cases names with
  | nil => simp [at?, eq_comm]
  | cons name rest =>
    cases m with
    | dir entries => cases leaf
    | file content => simp [at?]
    | link target => simp [at?]

theorem exists_dir {n : Node} (solid : ¬ n.isDir = false) : ∃ entries, n = .dir entries := by
  cases n with
  | dir entries => exact ⟨entries, rfl⟩
  | file content => exact absurd rfl solid
  | link target => exact absurd rfl solid

/-- What names lead to is well named, and so are they. -/
theorem wellNamed_of_at? {n m : Node} (wellNamed : n.wellNamed = true) {names : List Text}
    (found : n.at? names = some m) :
    m.wellNamed = true ∧ ∀ name ∈ names, Path.IsFileName name := by
  induction names generalizing n with
  | nil =>
    cases found
    exact ⟨wellNamed, by simp⟩
  | cons name rest ih =>
    cases n with
    | file content => cases found
    | link target => cases found
    | dir entries =>
      obtain ⟨child, entry, below⟩ := at?_cons.mp found
      obtain ⟨taken, inside⟩ := (wellNamed_dir.mp wellNamed).2 _ (mem_of_lookup entry)
      obtain ⟨reached, others⟩ := ih inside below
      exact ⟨reached, List.forall_mem_cons.mpr ⟨taken, others⟩⟩

end Node

/-- Every directory holds entries with names, and no two of the same name. -/
def Disk.Proper (disk : Disk) : Prop :=
  ∀ place entries, disk.nodeAt? place = some (.dir entries) →
    (entries.map Prod.fst).Nodup ∧ ∀ entry ∈ entries, Path.IsName entry.1

namespace Disk
variable {disk : Disk}

/-- A disk as a file system keeps it. -/
def Native (disk : Disk) : Prop := disk.root.wellNamed = true

instance : Decidable disk.Native := inferInstanceAs (Decidable (_ = true))

theorem Native.wellNamed (native : disk.Native) {place : Place} {n : Node}
    (here : disk.nodeAt? place = some n) : n.wellNamed = true :=
  (Node.wellNamed_of_at? native here).1

theorem Native.named (native : disk.Native) {place : Place} {n m : Node} {names : List Text}
    (here : disk.nodeAt? place = some n) (found : n.at? names = some m) :
    ∀ name ∈ names, Path.IsFileName name :=
  (Node.wellNamed_of_at? (native.wellNamed here) found).2

theorem Native.proper (native : disk.Native) : disk.Proper := by
  intro place entries dir
  obtain ⟨distinct, each⟩ := Node.wellNamed_dir.mp (native.wellNamed dir)
  exact ⟨distinct, fun entry member => (each entry member).1.toIsName⟩

/-! ## Walks -/

theorem nodeAt?_of_node {followLast : Bool} {path : Text} {n : Node}
    (found : disk.node followLast path = .ok n) : ∃ place, disk.nodeAt? place = some n := by
  unfold node at found
  split at found
  · cases found
  next place _ =>
    split at found
    next here =>
      cases found
      exact ⟨place, here⟩
    · cases found

theorem Proper.lstat (proper : disk.Proper) {path : Text} {entries : List (Text × Node)}
    (dir : disk.lstat path = .ok (.dir entries)) :
    (entries.map Prod.fst).Nodup ∧ ∀ entry ∈ entries, Path.IsName entry.1 := by
  have found : disk.node false path = .ok (.dir entries) := by
    cases node : disk.node false path with
    | error fault => simp [Disk.lstat, node, Except.mapError] at dir
    | ok n => simpa [Disk.lstat, node, Except.mapError] using dir
  obtain ⟨place, here⟩ := nodeAt?_of_node found
  exact proper place entries here

theorem nonempty_of_lstat {path : Text} {n : Node} (seen : disk.lstat path = .ok n) :
    path ≠ [] := by
  rintro rfl
  have missing : disk.lstat [] = .error ⟨"lstat", [], .notFound⟩ := rfl
  rw [missing] at seen
  cases seen

/-- A walk repeats no path, and all it finds lies below where it begins. -/
theorem nodup_walk (proper : disk.Proper) (fuel : Nat) (path : Text) :
    (disk.walk fuel path).Nodup ∧
      ∀ q ∈ disk.walk fuel path, Path.cleanElements path <+: Path.cleanElements q := by
  induction fuel generalizing path with
  | zero => exact ⟨List.nodup_nil, by simp [walk]⟩
  | succ fuel ih =>
    rw [walk]
    split
    next entries dir =>
      obtain ⟨distinct, named⟩ := proper.lstat dir
      have nonempty := nonempty_of_lstat dir
      have below : ∀ entry ∈ entries, ∀ q ∈ disk.walk fuel (Path.join path entry.1),
          Path.cleanElements path ++ [entry.1] <+: Path.cleanElements q := by
        intro entry member q found
        rw [← Path.cleanElements_join nonempty (named entry member)]
        exact (ih _).2 q found
      constructor
      · apply List.nodup_flatMap.mpr
        refine ⟨fun entry _ => (ih _).1, ?_⟩
        apply (List.pairwise_map.mp distinct).imp_of_mem
        intro a b first second different q one other
        have left := below a first q one
        have right := below b second q other
        have same := List.prefix_of_prefix_length_le left right (by simp)
        have names := List.append_inj_right (same.eq_of_length (by simp)) rfl
        exact different (List.cons.inj names).1
      · intro q found
        obtain ⟨entry, member, inside⟩ := List.mem_flatMap.mp found
        exact (List.prefix_append _ _).trans (below entry member q inside)
    next => exact ⟨List.nodup_singleton path, by simp⟩
    next => exact ⟨List.nodup_nil, by simp⟩

end Disk

theorem Workspace.nodup_sources {disk : Disk} (proper : disk.Proper) {root : Text}
    {paths : List Text} (found : sources disk root = .ok paths) : paths.Nodup := by
  unfold sources at found
  split at found
  · cases found
  · cases found
    exact (Disk.nodup_walk proper _ _).1.filter _
  · cases found
    exact List.nodup_singleton root

end Reckoner
