import Reckoner.Proofs.Sources
import Reckoner.Proofs.Verdict

/-! # The spelling of the root

Two paths that lead to the same directory are walked alike below it, so scans of
a new workspace at either store the same contents and reports under the same
names, and fail to read the same (`agree_of_visits`).  But a root that is a link is
followed when it is looked at and not when it is walked: it is its own only
source, or there is none (`sources_link`).  So its scan agrees with that of the
directory only where neither finds anything (`agree_link_iff`). -/
set_option autoImplicit false
namespace Reckoner

namespace Disk
variable {disk : Disk}

theorem node_eq_tooManyLinks {followed : Bool} {path : Text} :
    disk.node followed path = .error .tooManyLinks ↔
      disk.resolve { followed := followed } path = .error .tooManyLinks := by
  unfold node
  cases disk.resolve { followed := followed } path with
  | error fault => simp
  | ok place => cases here : disk.nodeAt? place <;> simp [here]

theorem toOption_read (path : Text) : (disk.read path).toOption =
    match disk.node true path with
    | .ok (.file content) => some content
    | _ => none := by
  unfold read
  cases disk.node true path with
  | error fault => rfl
  | ok n => cases n <;> rfl

theorem readable_iff {path : Text} : disk.Readable path ↔ (disk.read path).toOption ≠ none := by
  cases read : disk.read path <;> simp [Readable, read, Except.toOption]

/-- What is found with links followed is found without, but for a link. -/
theorem lstat_of_resolve {root : Text} {place : Place} {n : Node}
    (found : disk.resolve { followed := true } root = .ok place)
    (here : disk.nodeAt? place = some n) (solid : ∀ target, disk.lstat root ≠ .ok (.link target)) :
    disk.lstat root = .ok n := by
  rcases resolve_unfollowed found with same | ⟨spot, target, stopped, link⟩
  · exact lstat_eq_ok.mpr (node_eq_ok.mpr ⟨place, same, here⟩)
  · exact absurd (lstat_eq_ok.mpr (node_eq_ok.mpr ⟨spot, stopped, link⟩)) (solid target)

/-- The paths below two roots are spelled the same, or the limits on paths and
links stop at the same sources. -/
def Alike (disk : Disk) (entries : List (Text × Node)) (r d : Text) : Prop :=
  Path.clean r = Path.clean d ∨ ∀ names, (Node.dir entries).Source names →
    ((Path.under r names).length ≤ pathLimit ↔ (Path.under d names).length ≤ pathLimit) ∧
    (disk.node true (Path.under r names) = .error .tooManyLinks ↔
      disk.node true (Path.under d names) = .error .tooManyLinks)

theorem Alike.limits {entries : List (Text × Node)} {r d : Text} (alike : disk.Alike entries r d)
    (nonempty : r ≠ []) (likewise : d ≠ []) {names : List Text}
    (source : (Node.dir entries).Source names) (named : ∀ name ∈ names, Path.IsName name) :
    ((Path.under r names).length ≤ pathLimit ↔ (Path.under d names).length ≤ pathLimit) ∧
    (disk.node true (Path.under r names) = .error .tooManyLinks ↔
      disk.node true (Path.under d names) = .error .tooManyLinks) := by
  rcases alike with clean | limits
  · rw [Path.under_of_clean nonempty likewise clean source.ne_nil named]
    exact ⟨Iff.rfl, Iff.rfl⟩
  · exact limits names source

/-- From the same place names lead to the same entry, unless one of the roots
has too few links left. -/
theorem Roots.node_under_eq {r d : Text} {left less : Nat} {place : Place} {names : List Text}
    (roots : disk.Roots r left place) (others : disk.Roots d less place) (below : names ≠ [])
    (named : ∀ name ∈ names, Path.IsFileName name)
    (short : (Path.under r names).length ≤ pathLimit)
    (likewise : (Path.under d names).length ≤ pathLimit)
    (alike : disk.node true (Path.under r names) = .error .tooManyLinks ↔
      disk.node true (Path.under d names) = .error .tooManyLinks) :
    disk.node true (Path.under r names) = disk.node true (Path.under d names) := by
  have one := roots.resolve_under below named short { followed := true }
  have other := others.resolve_under below named likewise { followed := true }
  rw [node_eq_tooManyLinks, node_eq_tooManyLinks, one, other] at alike
  have same : disk.locate { followed := true } left place names =
      disk.locate { followed := true } less place names := by
    by_cases few : disk.locate { followed := true } left place names = .error .tooManyLinks
    · rw [few, alike.mp few]
    · rcases Nat.le_total left less with more | more
      · exact (locate_eq_of_le more few).symm
      · exact locate_eq_of_le more (mt alike.mpr few)
  unfold node
  rw [one, other, same]

end Disk

namespace Workspace
variable {disk : Disk} {r d root : Text} {paths : List Text}

/-! ## What a scan says about a path -/

/-- The content and the report that a scan of a new workspace stores. -/
def stored? (disk : Disk) (root path : Text) : Option (Text × Report) :=
  ((scanAll disk none { root := root }).1.get? path).map fun f => (f.content, f.report)

/-- A scan of a new workspace fails to read a path. -/
def Unread (disk : Disk) (root path : Text) : Prop :=
  ∃ errors e, (scanAll disk none { root := root }).2 = some (.files errors) ∧
    e ∈ errors ∧ e.path = path

/-- Scans from two roots store the same below them and fail to read the same. -/
structure Agree (disk : Disk) (r d : Text) : Prop where
  stored : ∀ names, (∀ name ∈ names, Path.IsName name) →
    stored? disk r (Path.under r names) = stored? disk d (Path.under d names)
  unread : ∀ names, (∀ name ∈ names, Path.IsName name) →
    (Unread disk r (Path.under r names) ↔ Unread disk d (Path.under d names))

section Found
variable (found : sources disk root = .ok paths) (path : Text)
include found

theorem stored?_eq : stored? disk root path =
    if path ∈ paths then
      (disk.read path).toOption.map fun content => (content, compileFile (Path.base path) content)
    else none := by
  have empty : get? { root := root } path = none := rfl
  rw [stored?, get?_scanAll (w := { root := root }) found, empty, Option.or_none]
  split
  · rw [Disk.scanned?, Option.map_map]
    rfl
  · rfl

theorem unread_iff : Unread disk root path ↔ path ∈ paths ∧ ¬ disk.Readable path := by
  have failed : Unread disk root path ↔
      ∃ e ∈ paths.filterMap fun p => failure? disk (p, none), e.path = path := by
    simp only [Unread, scanAll, found, runTasks_eq, List.filterMap_map, Function.comp_def]
    cases paths.filterMap fun p => failure? disk (p, none) <;> simp
  rw [failed, ← failure?_eq_none]
  constructor
  · rintro ⟨e, member, rfl⟩
    obtain ⟨p, listed, fails⟩ := List.mem_filterMap.mp member
    rw [path_of_failure? fails]
    exact ⟨listed, by simp [fails]⟩
  · rintro ⟨listed, fails⟩
    obtain ⟨e, failure⟩ := Option.ne_none_iff_exists'.mp fails
    exact ⟨e, List.mem_filterMap.mpr ⟨path, listed, failure⟩, path_of_failure? failure⟩

/-- Something becomes of each path that is visited. -/
theorem stored_or_unread (visit : path ∈ paths) :
    stored? disk root path ≠ none ∨ Unread disk root path := by
  rw [stored?_eq found, unread_iff found, Disk.readable_iff, if_pos visit, Ne,
    Option.map_eq_none_iff]
  by_cases read : (disk.read path).toOption = none
  · exact .inr ⟨visit, not_not.mpr read⟩
  · exact .inl read

end Found

/-- A root that is a link to a directory is walked as a link. -/
theorem sources_link {target : Text} {entries : List (Text × Node)}
    (link : disk.lstat root = .ok (.link target)) (stat : disk.stat root = .ok (.dir entries)) :
    sources disk root = .ok (if Path.extension root = sourceExtension then [root] else []) := by
  rw [sources, stat, Disk.walk_leaf link rfl]
  by_cases named : Path.extension root = sourceExtension <;> simp [named]

/-! ## Two roots of one directory -/

/-- What a scan visits from a path of the directory at a place. -/
structure Visits (disk : Disk) (root : Text) (place : Place) (entries : List (Text × Node))
    (left : Nat) (paths : List Text) : Prop where
  roots : disk.Roots root left place
  found : sources disk root = .ok paths
  members : ∀ q, q ∈ paths ↔ ∃ names, (Node.dir entries).Source names ∧
    q = Path.under root names ∧ q.length ≤ Disk.pathLimit
  named : ∀ {names}, (Node.dir entries).Source names → ∀ name ∈ names, Path.IsFileName name

theorem exists_visits {place : Place} {entries : List (Text × Node)} (native : disk.Native)
    (here : disk.nodeAt? place = some (.dir entries))
    (resolved : disk.resolve { followed := true } root = .ok place)
    (seen : disk.lstat root = .ok (.dir entries)) (straight : disk.Straight root) :
    ∃ left paths, Visits disk root place entries left paths := by
  obtain ⟨left, roots⟩ := straight.exists_roots resolved
  obtain ⟨paths, found, members⟩ := exists_sources native seen (straight.sees native seen)
  refine ⟨left, paths, roots, found, members, fun source => ?_⟩
  obtain ⟨n, reached, _⟩ := source.leaf
  exact native.named here reached

section Visits
variable {place : Place} {entries : List (Text × Node)} {left : Nat}
  (visits : Visits disk root place entries left paths)
include visits

theorem Visits.isName {names : List Text} (source : (Node.dir entries).Source names) :
    ∀ name ∈ names, Path.IsName name :=
  fun name member => (visits.named source name member).toIsName

theorem Visits.mem_under {names : List Text} (named : ∀ name ∈ names, Path.IsName name) :
    Path.under root names ∈ paths ↔
      (Node.dir entries).Source names ∧ (Path.under root names).length ≤ Disk.pathLimit := by
  rw [visits.members]
  constructor
  · rintro ⟨others, source, same, short⟩
    rw [Path.under_injective visits.roots.nonempty named (visits.isName source) same]
    exact ⟨source, same ▸ short⟩
  · rintro ⟨source, short⟩
    exact ⟨names, source, rfl, short⟩

theorem Visits.not_mem_root : root ∉ paths := by
  intro visit
  have nothing : ∀ name ∈ ([] : List Text), Path.IsName name := by simp
  exact ((visits.mem_under nothing).mp visit).1.ne_nil rfl

end Visits

section Alike
variable {place : Place} {entries : List (Text × Node)} {left less : Nat} {others : List Text}
  (one : Visits disk r place entries left paths) (other : Visits disk d place entries less others)
  (alike : disk.Alike entries r d) {names : List Text}
include one other alike

theorem Visits.mem_alike (named : ∀ name ∈ names, Path.IsName name) :
    Path.under r names ∈ paths ↔ Path.under d names ∈ others := by
  rw [one.mem_under named, other.mem_under named]
  exact and_congr_right fun source =>
    (alike.limits one.roots.nonempty other.roots.nonempty source named).1

theorem Visits.read_alike (named : ∀ name ∈ names, Path.IsName name)
    (visit : Path.under r names ∈ paths) :
    (disk.read (Path.under r names)).toOption = (disk.read (Path.under d names)).toOption := by
  obtain ⟨source, short⟩ := (one.mem_under named).mp visit
  obtain ⟨fits, links⟩ := alike.limits one.roots.nonempty other.roots.nonempty source named
  rw [Disk.toOption_read, Disk.toOption_read, one.roots.node_under_eq other.roots source.ne_nil
    (one.named source) short (fits.mp short) links]

/-- Scans from two paths of a directory agree. -/
theorem agree_of_visits : Agree disk r d := by
  constructor
  · intro names named
    rw [stored?_eq one.found, stored?_eq other.found]
    by_cases visit : Path.under r names ∈ paths
    · obtain ⟨before, name, rfl, _⟩ := ((one.mem_under named).mp visit).1.extension
      rw [if_pos visit, if_pos ((one.mem_alike other alike named).mp visit),
        one.read_alike other alike named visit, Path.base_under one.roots.nonempty named,
        Path.base_under other.roots.nonempty named]
    · rw [if_neg visit, if_neg (mt (one.mem_alike other alike named).mpr visit)]
  · intro names named
    rw [unread_iff one.found, unread_iff other.found, ← one.mem_alike other alike named]
    refine and_congr_right fun visit => ?_
    rw [Disk.readable_iff, Disk.readable_iff, one.read_alike other alike named visit]

end Alike

/-- A root that is a link agrees with the directory where neither finds anything. -/
theorem agree_link_iff {place : Place} {entries : List (Text × Node)} {target : Text} {left : Nat}
    (visits : Visits disk d place entries left paths)
    (link : disk.lstat r = .ok (.link target)) (stat : disk.stat r = .ok (.dir entries)) :
    Agree disk r d ↔ sources disk r = .ok [] ∧ sources disk d = .ok [] := by
  have found := sources_link link stat
  constructor
  · intro agree
    have unnamed : Path.extension r ≠ sourceExtension := by
      intro named
      rw [if_pos named] at found
      have unreadable : ¬ disk.Readable r := by
        rw [Disk.readable_iff, Disk.toOption_read, Disk.stat_eq_ok.mp stat]
        simp
      have failed : Unread disk d (Path.under d []) :=
        (agree.unread [] (by simp)).mp ((unread_iff found r).mpr ⟨List.mem_singleton_self r, unreadable⟩)
      exact visits.not_mem_root ((unread_iff visits.found _).mp failed).1
    rw [if_neg unnamed] at found
    refine ⟨found, ?_⟩
    have nothing : paths = [] := by
      refine List.eq_nil_iff_forall_not_mem.mpr fun q visit => ?_
      obtain ⟨names, source, rfl, _⟩ := (visits.members q).mp visit
      rcases stored_or_unread visits.found _ visit with stored | unread
      · rw [← agree.stored names (visits.isName source), stored?_eq found] at stored
        simp at stored
      · rw [← agree.unread names (visits.isName source), unread_iff found] at unread
        simp at unread
    rw [visits.found, nothing]
  · rintro ⟨nothing, likewise⟩
    constructor
    · intro names _
      rw [stored?_eq nothing, stored?_eq likewise]
      simp
    · intro names _
      rw [unread_iff nothing, unread_iff likewise]
      simp

/-- The scan of a path that leads to a directory agrees with that of the directory's
own path, unless the former is a link: then its only source is the link itself, if it
is named as a source, and the scans agree where neither finds anything. -/
theorem scan_respelled (disk : Disk) (native : disk.Native) (r d : Text)
    (entries : List (Text × Node)) (dir : disk.lstat d = .ok (.dir entries))
    (same : disk.resolve { followed := true } r = disk.resolve { followed := true } d)
    (likewise : disk.Straight d) :
    ((∀ target, disk.lstat r ≠ .ok (.link target)) → disk.Straight r → disk.Alike entries r d →
      Agree disk r d) ∧
    ∀ target, disk.lstat r = .ok (.link target) →
      sources disk r = .ok (if Path.extension r = sourceExtension then [r] else []) ∧
      (Agree disk r d ↔ sources disk r = .ok [] ∧ sources disk d = .ok []) := by
  obtain ⟨place, resolved, here⟩ := Disk.resolve_of_lstat dir
  obtain ⟨less, others, visits⟩ := exists_visits native here resolved dir likewise
  have reached := same.trans resolved
  constructor
  · intro solid straight alike
    have seen := Disk.lstat_of_resolve reached here solid
    obtain ⟨left, paths, first⟩ := exists_visits native here reached seen straight
    exact agree_of_visits first visits alike
  · intro target link
    have stat : disk.stat r = .ok (.dir entries) :=
      Disk.stat_eq_ok.mpr (Disk.node_eq_ok.mpr ⟨place, reached, here⟩)
    exact ⟨sources_link link stat, agree_link_iff visits link stat⟩

theorem scan_respelled_crossed :
    Agree Disk.crossed (utf8 "/w/x/b/") (utf8 "/w/x/b") ∧
      ¬ Agree Disk.crossed (utf8 "l") (utf8 "/w/x/b") := by
  have dir : Disk.crossed.lstat (utf8 "/w/x/b") =
      .ok (.dir [(utf8 "f.arith", .file (utf8 "1+2"))]) := by cbv
  have straight : Disk.crossed.Straight (utf8 "/w/x/b") := .inl (by decide)
  have slashed : Disk.crossed.resolve { followed := true } (utf8 "/w/x/b/") =
      Disk.crossed.resolve { followed := true } (utf8 "/w/x/b") := by cbv
  have linked : Disk.crossed.resolve { followed := true } (utf8 "l") =
      Disk.crossed.resolve { followed := true } (utf8 "/w/x/b") := by cbv
  have visited : sources Disk.crossed (utf8 "/w/x/b") = .ok [utf8 "/w/x/b/f.arith"] := by cbv
  constructor
  · have solid : Disk.crossed.lstat (utf8 "/w/x/b/") =
        .ok (.dir [(utf8 "f.arith", .file (utf8 "1+2"))]) := by cbv
    exact (scan_respelled Disk.crossed native_crossed _ _ _ dir slashed straight).1
      (by simp [solid]) (.inl (by decide)) (.inl (by decide))
  · have link : Disk.crossed.lstat (utf8 "l") = .ok (.link (utf8 "x/b")) := by cbv
    rw [((scan_respelled Disk.crossed native_crossed _ _ _ dir linked straight).2 _ link).2, visited]
    rintro ⟨_, nothing⟩
    cases nothing

/-- A check of a link to a directory passes over the sources there. -/
theorem scan_link :
    Disk.crossed.resolve { followed := true } (utf8 "/w/l") =
      Disk.crossed.resolve { followed := true } (utf8 "/w/x/b") ∧
    (Command.checkPath 0 Disk.crossed {} {} (utf8 "/w/l")).1 = .done ∧
    ¬ Agree Disk.crossed (utf8 "/w/l") (utf8 "/w/x/b") := by
  refine ⟨by cbv, by cbv, fun agree => ?_⟩
  have nothing : sources Disk.crossed (utf8 "/w/l") = .ok [] := by cbv
  have visited : sources Disk.crossed (utf8 "/w/x/b") = .ok [utf8 "/w/x/b/f.arith"] := by cbv
  have read : Disk.crossed.read (utf8 "/w/x/b/f.arith") = .ok (utf8 "1+2") := by cbv
  have path : Path.under (utf8 "/w/x/b") [utf8 "f.arith"] = utf8 "/w/x/b/f.arith" := by decide
  have stored := agree.stored [utf8 "f.arith"] (by decide)
  rw [stored?_eq nothing, stored?_eq visited, path, read] at stored
  simp [Except.toOption] at stored

end Workspace
end Reckoner
