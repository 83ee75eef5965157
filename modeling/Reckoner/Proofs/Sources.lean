import Reckoner.Proofs.Discovery
import Reckoner.Proofs.Lookup

/-! # What a walk finds

In a disk as a file system keeps it, a path below a root is looked up from the
place of the root, name by name (`Roots.resolve_under`); so the entry that names
lead to in the tree is what its path names (`Straight.sees`), unless cleaning takes
a `..` away that stands behind a link.  Where it is, a walk finds just the entries
below its root that are no directories (`Sighting.mem_walk`): it goes through
directories alone, never through links, and misses only what is too deep for a
path.  The sources among them are those whose last name ends with the extension
(`Workspace.exists_sources`). -/
set_option autoImplicit false
namespace Reckoner

theorem Path.IsFileName.isStep {e : Text} (isFileName : IsFileName e) : Disk.IsStep e :=
  ⟨isFileName.nonempty, isFileName.notDot, isFileName.notDotDot, isFileName.short⟩

namespace Disk
variable {disk : Disk}

/-! ## Paths below a root -/

/-- No `..` is resolved otherwise than by cleaning: there is none, or the clean
spelling leads to the same place. -/
def Straight (disk : Disk) (root : Text) : Prop :=
  Path.dotDot ∉ root.splitOn Path.slash ∨
    disk.resolve { followed := true } (Path.clean root) = disk.resolve { followed := true } root

/-- A root whose elements lead to a place, with so many links to spare. -/
structure Roots (disk : Disk) (root : Text) (left : Nat) (place : Place) : Prop where
  nonempty : root ≠ []
  begins : disk.Begins (Path.isRooted root)
  noNul : ∀ e ∈ Path.cleanElements root, 0 ∉ e
  leads : disk.Leads linkLimit (disk.origin (Path.isRooted root)) (Path.cleanElements root) left place

section Under
variable {root : Text} {left : Nat} {place : Place} {names : List Text}

theorem Straight.exists_roots (straight : disk.Straight root)
    (found : disk.resolve { followed := true } root = .ok place) :
    ∃ left, disk.Roots root left place := by
  have clean : disk.resolve { followed := true } (Path.clean root) = .ok place := by
    rcases straight with level | same
    · exact resolve_clean level found
    · exact same.trans found
  obtain ⟨left, leads⟩ := leads_of_clean clean
  refine ⟨left, (passable_of_resolve found).nonempty, begins_of_resolve found,
    fun e member nul => ?_, leads⟩
  have noNul := (passable_of_resolve clean).noNul
  rw [Path.clean_eq, Path.mem_spelled (by decide) (by decide)] at noNul
  exact noNul ⟨e, member, nul⟩

section Roots
variable (roots : disk.Roots root left place) (below : names ≠ [])
  (named : ∀ name ∈ names, Path.IsFileName name)
include roots below named

/-- A path below a root is looked up from the place of the root. -/
theorem Roots.resolve_under (short : (Path.under root names).length ≤ pathLimit) (last : LastName) :
    disk.resolve last (Path.under root names) = disk.locate last left place names := by
  have isName : ∀ name ∈ names, Path.IsName name := fun name member => (named name member).toIsName
  have shape := Path.under_eq roots.nonempty isName below
  have element : ∀ e ∈ Path.cleanElements root ++ names, Path.IsElement e := by
    rw [← Path.cleanElements_under roots.nonempty isName]
    exact fun e => Path.element_of_mem
  have passable : Passable (Path.under root names) := by
    refine ⟨Path.under_ne_nil roots.nonempty isName, ?_, short⟩
    rw [shape, Path.mem_spelled (by decide) (by decide)]
    rintro ⟨e, member, nul⟩
    rcases List.mem_append.mp member with above | behind
    · exact roots.noNul e above nul
    · exact (named e behind).noNul nul
  rw [resolve_eq passable, Path.isRooted_under roots.nonempty isName, shape,
    locate_spelled roots.begins element]
  exact roots.leads.locate_append (.inl below)

end Roots

/-- Names in the tree lead to their entry, be it a link. -/
theorem locate_at? (last : LastName) (unfollowed : last.followed = false) {links : Nat}
    {here : Place} {entries : List (Text × Node)}
    (dir : disk.nodeAt? here = some (.dir entries))
    (named : ∀ name ∈ names, Path.IsFileName name) {n : Node}
    (found : (Node.dir entries).at? names = some n) :
    disk.locate last links here names = .ok (here ++ names) := by
  induction names generalizing here entries with
  | nil => rw [locate, List.append_nil]
  | cons name rest ih =>
    obtain ⟨first, others⟩ := List.forall_mem_cons.mp named
    obtain ⟨child, entry, below⟩ := Node.at?_cons.mp found
    have inside : disk.nodeAt? (here ++ [name]) = some child := by
      rw [nodeAt?_entry dir, at?_singleton, entry]
    cases child with
    | dir inner =>
      rw [locate_enter dir first.isStep entry (by simp), ih inside others below, List.append_assoc]
      rfl
    | file content =>
      cases rest with
      | nil => rw [locate_enter dir first.isStep entry (by simp), locate]
      | cons second more => cases below
    | link target =>
      cases rest with
      | nil => exact locate_stop dir first.isStep entry unfollowed
      | cons second more => cases below

theorem node_eq_ok {followed : Bool} {path : Text} {n : Node} : disk.node followed path = .ok n ↔
    ∃ place, disk.resolve { followed := followed } path = .ok place ∧
      disk.nodeAt? place = some n := by
  unfold node
  cases disk.resolve { followed := followed } path with
  | error fault => simp
  | ok place => cases here : disk.nodeAt? place <;> simp [here]

theorem lstat_eq_ok {path : Text} {n : Node} :
    disk.lstat path = .ok n ↔ disk.node false path = .ok n := by
  unfold lstat
  cases disk.node false path <;> simp [Except.mapError]

theorem stat_eq_ok {path : Text} {n : Node} :
    disk.stat path = .ok n ↔ disk.node true path = .ok n := by
  unfold stat
  cases disk.node true path <;> simp [Except.mapError]

/-- A path that is a directory and no link leads there if links are followed, too. -/
theorem resolve_of_lstat {entries : List (Text × Node)}
    (dir : disk.lstat root = .ok (.dir entries)) :
    ∃ place, disk.resolve { followed := true } root = .ok place ∧
      disk.nodeAt? place = some (.dir entries) := by
  obtain ⟨place, found, here⟩ := node_eq_ok.mp (lstat_eq_ok.mp dir)
  refine ⟨place, ?_, here⟩
  have passable := passable_of_resolve found
  rw [resolve_eq passable] at found ⊢
  rcases leads_of_locate rfl found with ⟨left, leads⟩ | ⟨_, target, link⟩
  · exact leads.locate rfl
  · cases here.symm.trans link

/-! ## Walks -/

theorem short_of_lstat {path : Text} {n : Node} (seen : disk.lstat path = .ok n) :
    path.length ≤ pathLimit := by
  obtain ⟨_, resolved, _⟩ := node_eq_ok.mp (lstat_eq_ok.mp seen)
  exact (passable_of_resolve resolved).short

theorem walk_long {path : Text} (long : pathLimit < path.length) (fuel : Nat) :
    disk.walk fuel path = [] := by
  cases fuel with
  | zero => rfl
  | succ fuel =>
    have lost : ∀ n, disk.lstat path ≠ .ok n := fun n seen =>
      absurd (short_of_lstat seen) (not_le.mpr long)
    rw [walk]
    split
    next dir => exact absurd dir (lost _)
    next n _ found => exact absurd found (lost n)
    next => rfl

theorem walk_leaf {path : Text} {n : Node} (seen : disk.lstat path = .ok n)
    (leaf : n.isDir = false) (fuel : Nat) : disk.walk (fuel + 1) path = [path] := by
  rw [walk, seen]
  cases n with
  | file content => rfl
  | link target => rfl
  | dir entries => cases leaf

/-- A directory is walked entry by entry, under the path and the name. -/
theorem mem_walk_dir {path : Text} {entries : List (Text × Node)} (proper : disk.Proper)
    (seen : disk.lstat path = .ok (.dir entries)) {fuel : Nat} {q : Text} :
    q ∈ disk.walk (fuel + 1) path ↔
      ∃ name n, entries.lookup name = some n ∧ q ∈ disk.walk fuel (Path.join path name) := by
  have distinct := (proper.lstat seen).1
  rw [walk, seen, List.mem_flatMap]
  constructor
  · rintro ⟨⟨name, n⟩, member, inside⟩
    exact ⟨name, n, Node.lookup_of_mem distinct member, inside⟩
  · rintro ⟨name, n, present, inside⟩
    exact ⟨(name, n), Node.mem_of_lookup present, inside⟩

/-- Every entry below a root is what the path that a walk gives it names. -/
def SeesEach (disk : Disk) (root : Text) (entries : List (Text × Node)) : Prop :=
  ∀ names n, names ≠ [] → (Node.dir entries).at? names = some n →
    disk.lstat (Path.under root names) = .ok n

/-- So is every entry whose path is not too long. -/
def Sees (disk : Disk) (root : Text) (entries : List (Text × Node)) : Prop :=
  ∀ names n, names ≠ [] → (Node.dir entries).at? names = some n →
    (Path.under root names).length ≤ pathLimit → disk.lstat (Path.under root names) = .ok n

/-- Names lead to an entry below a root, and that is seen at its path. -/
structure Sighting (disk : Disk) (root : Text) (entries : List (Text × Node)) (names : List Text)
    (n : Node) : Prop where
  found : (Node.dir entries).at? names = some n
  seen : disk.lstat (Path.under root names) = .ok n

section Walk
variable {entries : List (Text × Node)} (native : disk.Native)
  (seen : disk.lstat root = .ok (.dir entries))
include native seen

theorem Native.named_below {n : Node} (found : (Node.dir entries).at? names = some n) :
    ∀ name ∈ names, Path.IsFileName name := by
  obtain ⟨place, _, here⟩ := node_eq_ok.mp (lstat_eq_ok.mp seen)
  exact native.named here found

theorem Native.isName_below {n : Node} (found : (Node.dir entries).at? names = some n) :
    ∀ name ∈ names, Path.IsName name :=
  fun name member => (native.named_below seen found name member).toIsName

theorem Straight.sees (straight : disk.Straight root) : disk.Sees root entries := by
  intro names n below found short
  obtain ⟨place, resolved, dir⟩ := resolve_of_lstat seen
  obtain ⟨left, roots⟩ := straight.exists_roots resolved
  have named := native.named_below seen found
  rw [lstat_eq_ok, node_eq_ok]
  refine ⟨place ++ names, ?_, (nodeAt?_entry dir names).trans found⟩
  rw [roots.resolve_under below named short]
  exact locate_at? _ rfl dir named found

/-- On the way to an entry the paths are no longer. -/
theorem length_le_of_at? {before : List Text} (nonempty : before ≠ []) {n : Node}
    (found : (Node.dir entries).at? (before ++ names) = some n) :
    (Path.under root before).length ≤ (Path.under root (before ++ names)).length :=
  Path.length_under_le (nonempty_of_lstat seen) nonempty (native.isName_below seen found)

variable (sees : disk.Sees root entries)
include sees

omit native seen in
theorem Sighting.entry {inner : List (Text × Node)}
    (sighting : Sighting disk root entries names (.dir inner)) {name : Text} {child : Node}
    (present : inner.lookup name = some child)
    (short : (Path.under root (names ++ [name])).length ≤ pathLimit) :
    Sighting disk root entries (names ++ [name]) child := by
  have found : (Node.dir entries).at? (names ++ [name]) = some child := by
    rw [Node.at?_append, sighting.found, Option.bind_some, at?_singleton, present]
  exact ⟨found, sees _ _ (by simp) found short⟩

/-- From an entry on, a walk finds what is below it and no directory. -/
theorem Sighting.mem_walk {fuel : Nat} {before : List Text} {m : Node}
    (sighting : Sighting disk root entries before m) {q : Text} :
    q ∈ disk.walk fuel (Path.under root before) ↔
      ∃ names n, names.length < fuel ∧ m.at? names = some n ∧ n.isDir = false ∧
        q = Path.under root (before ++ names) ∧ (names = [] ∨ q.length ≤ pathLimit) := by
  induction fuel generalizing before m with
  | zero => simp [walk]
  | succ fuel ih =>
    by_cases leaf : m.isDir = false
    · rw [walk_leaf sighting.seen leaf, List.mem_singleton]
      constructor
      · rintro rfl
        exact ⟨[], m, Nat.succ_pos fuel, rfl, leaf, by rw [List.append_nil], .inl rfl⟩
      · rintro ⟨names, n, _, reached, _, rfl, _⟩
        rw [((Node.at?_leaf leaf).mp reached).1, List.append_nil]
    · obtain ⟨inner, rfl⟩ := Node.exists_dir leaf
      have shape : ∀ name, Path.join (Path.under root before) name =
          Path.under root (before ++ [name]) := fun name =>
        (Path.under_append root before [name]).symm
      rw [mem_walk_dir native.proper sighting.seen]
      simp only [shape]
      constructor
      · rintro ⟨name, child, present, inside⟩
        have short : (Path.under root (before ++ [name])).length ≤ pathLimit := by
          by_contra long
          rw [walk_long (not_le.mp long)] at inside
          cases inside
        have entry := sighting.entry sees present short
        obtain ⟨names, n, deep, reached, leaf, rfl, fits⟩ := (ih entry).mp inside
        refine ⟨name :: names, n, ?_, Node.at?_cons.mpr ⟨child, present, reached⟩, leaf, by simp,
          .inr ?_⟩
        · simpa using deep
        · rcases fits with rfl | fits
          · rwa [List.append_nil]
          · exact fits
      · rintro ⟨names, n, deep, reached, leaf, here, fits⟩
        cases names with
        | nil =>
          cases reached
          cases leaf
        | cons name rest =>
          have whole := (Node.at?_append (.dir entries) before (name :: rest)).trans
            (by rw [sighting.found, Option.bind_some, reached])
          obtain ⟨child, present, reached⟩ := Node.at?_cons.mp reached
          have fits := fits.resolve_left (List.cons_ne_nil name rest)
          rw [List.append_cons] at here whole
          have short : (Path.under root (before ++ [name])).length ≤ pathLimit := by
            refine le_trans (length_le_of_at? native seen (by simp) whole) ?_
            rwa [← here]
          have entry := sighting.entry sees present short
          refine ⟨name, child, present,
            (ih entry).mpr ⟨rest, n, ?_, reached, leaf, here, .inr fits⟩⟩
          simpa using deep

end Walk

end Under

end Disk

/-! ## Sources -/

theorem Path.extension_under {root : Text} (nonempty : root ≠ []) {names : List Text} {name : Text}
    (named : ∀ n ∈ names ++ [name], IsName n) :
    extension (under root (names ++ [name])) = sourceExtension ↔ sourceExtension <:+ name := by
  have unslashed : slash ∉ name := (named name (by simp)).unslashed
  have shape : sourceExtension = 46 :: utf8 "arith" := by decide
  rw [under_eq nonempty named (by simp), ← List.append_assoc, extension_spelled unslashed, shape]
  exact extension_eq_iff unslashed (by decide)

/-- A working directory with two directories below `x`, one of them with a source, and
a link to each. -/
def Disk.crossed : Disk where
  entries := [(utf8 "w", .dir [(utf8 "l", .link (utf8 "x/b")), (utf8 "link", .link (utf8 "/w/x/y")),
    (utf8 "x", .dir [(utf8 "b", .dir [(utf8 "f.arith", .file (utf8 "1+2"))]), (utf8 "y", .dir [])])])]
  working := [utf8 "w"]

/-- The last of the names that lead to an entry is a source's, and the entry is
no directory. -/
structure Node.Source (n : Node) (names : List Text) : Prop where
  leaf : ∃ m, n.at? names = some m ∧ m.isDir = false
  extension : ∃ before name, names = before ++ [name] ∧ sourceExtension <:+ name

theorem Node.Source.ne_nil {n : Node} {names : List Text} (source : n.Source names) :
    names ≠ [] := by
  obtain ⟨before, name, rfl, _⟩ := source.extension
  simp

namespace Workspace

section Directory
variable {disk : Disk} (native : disk.Native) {root : Text} {entries : List (Text × Node)}
  (seen : disk.lstat root = .ok (.dir entries)) (sees : disk.Sees root entries)
include native seen sees

theorem exists_sources : ∃ paths, sources disk root = .ok paths ∧
    ∀ q, q ∈ paths ↔ ∃ names, (Node.dir entries).Source names ∧
      q = Path.under root names ∧ q.length ≤ Disk.pathLimit := by
  obtain ⟨place, resolved, dir⟩ := Disk.resolve_of_lstat seen
  have stat : disk.stat root = .ok (.dir entries) :=
    Disk.stat_eq_ok.mpr (Disk.node_eq_ok.mpr ⟨place, resolved, dir⟩)
  have found : sources disk root = .ok ((disk.walk (disk.root.size + 1) root).filter
      fun p => Path.extension p = sourceExtension) := by
    rw [sources, stat]
  have nonempty := Disk.nonempty_of_lstat seen
  have sighting : Disk.Sighting disk root entries [] (.dir entries) := ⟨rfl, seen⟩
  refine ⟨_, found, fun q => ?_⟩
  have walked := @Disk.Sighting.mem_walk _ _ _ native seen sees (disk.root.size + 1) _ _ sighting q
  simp only [Path.under_nil, List.nil_append] at walked
  rw [List.mem_filter, decide_eq_true_eq, walked]
  constructor
  · rintro ⟨⟨names, n, _, reached, leaf, rfl, fits⟩, extension⟩
    rcases List.eq_nil_or_concat' names with rfl | ⟨before, name, rfl⟩
    · cases reached
      cases leaf
    · rw [Path.extension_under nonempty (native.isName_below seen reached)] at extension
      exact ⟨before ++ [name], ⟨⟨n, reached, leaf⟩, before, name, rfl, extension⟩, rfl,
        fits.resolve_left (by simp)⟩
  · rintro ⟨_, ⟨⟨n, reached, leaf⟩, before, name, rfl, extension⟩, rfl, fits⟩
    rw [Path.extension_under nonempty (native.isName_below seen reached)]
    have deep := Node.length_add_size_le reached
    have above := Node.length_add_size_le dir
    exact ⟨⟨before ++ [name], n, by omega, reached, leaf, rfl, .inr fits⟩, extension⟩

end Directory

theorem sources_leaf {disk : Disk} {root : Text} {n : Node} (stat : disk.stat root = .ok n)
    (leaf : n.isDir = false) : sources disk root = .ok [root] := by
  rw [sources, stat]
  cases n with
  | dir entries => cases leaf
  | file content => rfl
  | link target => rfl

/-- In a disk of a file system the sources of a directory, if its entries are seen where a
walk looks for them, are the paths of those below it that are no directories, links
among them, and named as sources; the source of anything else is itself.  The entries
are seen wherever cleaning leaves the root what it is and no path is too long. -/
theorem sources_exact (disk : Disk) (native : disk.Native) (root : Text) :
    (∀ entries, disk.lstat root = .ok (.dir entries) → disk.SeesEach root entries →
      ∃ paths, sources disk root = .ok paths ∧ paths.Nodup ∧
        ∀ q, q ∈ paths ↔ ∃ names, (Node.dir entries).Source names ∧ q = Path.under root names) ∧
    (∀ entries, disk.lstat root = .ok (.dir entries) → disk.Straight root →
      (∀ names n, (Node.dir entries).at? names = some n →
        (Path.under root names).length ≤ Disk.pathLimit) → disk.SeesEach root entries) ∧
    ∀ n, disk.stat root = .ok n → n.isDir = false → sources disk root = .ok [root] := by
  refine ⟨fun entries seen seesEach => ?_, fun entries seen straight short => ?_, fun n => sources_leaf⟩
  · have sees : disk.Sees root entries := fun names n below found _ => seesEach names n below found
    obtain ⟨paths, found, members⟩ := exists_sources native seen sees
    refine ⟨paths, found, nodup_sources native.proper found, fun q => ?_⟩
    rw [members]
    refine exists_congr fun names => and_congr_right fun source => and_iff_left_of_imp ?_
    rintro rfl
    obtain ⟨n, reached, _⟩ := source.leaf
    exact Disk.short_of_lstat (seesEach names n source.ne_nil reached)
  · exact fun names n below found => straight.sees native seen names n below found (short names n found)

theorem native_crossed : Disk.crossed.Native := by decide

theorem short_crossed {names : List Text} {n : Node}
    (reached : (Node.dir [(utf8 "b", .dir [(utf8 "f.arith", .file (utf8 "1+2"))]),
      (utf8 "y", .dir [])]).at? names = some n) :
    (Path.under (utf8 "/w/x") names).length ≤ Disk.pathLimit := by
  rcases names with - | ⟨name, rest⟩
  · decide
  · obtain ⟨child, entry, below⟩ := Node.at?_cons.mp reached
    have listed := Node.mem_of_lookup entry
    simp only [List.mem_cons, List.not_mem_nil, or_false, Prod.mk.injEq] at listed
    rcases listed with ⟨rfl, rfl⟩ | ⟨rfl, rfl⟩
    · rcases rest with - | ⟨name, rest⟩
      · decide
      · obtain ⟨child, entry, below⟩ := Node.at?_cons.mp below
        have listed := Node.mem_of_lookup entry
        simp only [List.mem_cons, List.not_mem_nil, or_false, Prod.mk.injEq] at listed
        obtain ⟨rfl, rfl⟩ := listed
        rw [((Node.at?_leaf rfl).mp below).1]
        decide
    · rcases rest with - | ⟨name, rest⟩
      · decide
      · cases below

theorem sources_exact_crossed :
    (∃ paths, sources Disk.crossed (utf8 "/w/x") = .ok paths ∧ paths.Nodup ∧
      utf8 "/w/x/b/f.arith" ∈ paths) ∧
    sources Disk.crossed (utf8 "l/f.arith") = .ok [utf8 "l/f.arith"] := by
  obtain ⟨exact, sees, itself⟩ := sources_exact Disk.crossed native_crossed (utf8 "/w/x")
  constructor
  · have seen : Disk.crossed.lstat (utf8 "/w/x") = .ok (.dir [(utf8 "b",
        .dir [(utf8 "f.arith", .file (utf8 "1+2"))]), (utf8 "y", .dir [])]) := by cbv
    obtain ⟨paths, found, distinct, members⟩ :=
      exact _ seen (sees _ seen (.inl (by decide)) fun names n reached => short_crossed reached)
    refine ⟨paths, found, distinct, (members _).mpr ⟨[utf8 "b", utf8 "f.arith"], ?_, by decide⟩⟩
    exact ⟨⟨_, rfl, rfl⟩, [utf8 "b"], utf8 "f.arith", rfl, by decide⟩
  · have stat : Disk.crossed.stat (utf8 "l/f.arith") = .ok (.file (utf8 "1+2")) := by cbv
    exact (sources_exact Disk.crossed native_crossed (utf8 "l/f.arith")).2.2 _ stat rfl

/-- A walk cleans the paths that it goes on with, so it leaves a directory that
`..` behind a link leads to. -/
example : Disk.crossed.stat (utf8 "link/../b") = Disk.crossed.stat (utf8 "x/b") ∧
    sources Disk.crossed (utf8 "link/../b") = .ok [] := by
  constructor <;> cbv

end Workspace
end Reckoner
