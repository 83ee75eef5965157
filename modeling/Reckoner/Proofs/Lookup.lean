import Reckoner.Disk
import Reckoner.Proofs.Spelling

/-! # Looking up paths

`Leads` tells how names lead to a place when every link on the way is followed,
and how many links may still be followed from there.  A look-up that succeeds is
such a way (`leads_of_locate`), and a look-up that goes on behind it starts from
its place (`Leads.locate_append`).  So empty elements and dots change nothing
(`Leads.filter`), and a path without `..` leads where its clean spelling does
(`resolve_clean`).  More links to spare change nothing but a look-up that had too
few (`locate_eq_of_le`). -/
set_option autoImplicit false
namespace Reckoner

/-! ## Nodes of a tree -/

namespace Node

theorem at?_append (n : Node) (names more : List Text) :
    n.at? (names ++ more) = (n.at? names).bind fun m => m.at? more := by
  induction names generalizing n with
  | nil => simp [at?]
  | cons name rest ih =>
    cases n with
    | file content => rfl
    | link target => rfl
    | dir entries =>
      simp only [List.cons_append, at?]
      cases entries.lookup name with
      | none => rfl
      | some m => exact ih m

theorem size_le_of_lookup {entries : List (Text × Node)} {name : Text} {m : Node}
    (found : entries.lookup name = some m) : m.size ≤ size.sizes entries := by
  induction entries with
  | nil => simp at found
  | cons entry rest ih =>
    obtain ⟨other, n⟩ := entry
    rw [List.lookup_cons] at found
    simp only [size.sizes]
    split at found
    · cases found
      omega
    · have := ih found
      omega

theorem length_add_size_le {n m : Node} {names : List Text} (found : n.at? names = some m) :
    names.length + m.size ≤ n.size := by
  induction names generalizing n with
  | nil =>
    cases found
    simp
  | cons name rest ih =>
    cases n with
    | file content => cases found
    | link target => cases found
    | dir entries =>
      simp only [at?] at found
      split at found
      next child entry =>
        have below := ih found
        have smaller := size_le_of_lookup entry
        simp only [List.length_cons, size]
        omega
      · cases found

end Node

namespace Disk
variable {disk : Disk}

/-! ## Ways through a disk -/

/-- The name of an entry, not too long. -/
structure IsStep (name : Text) : Prop where
  nonempty : name ≠ []
  notDot : name ≠ Path.dot
  notDotDot : name ≠ Path.dotDot
  short : name.length ≤ nameLimit

theorem isStep_iff {name : Text} : IsStep name ↔
    ¬ (name.isEmpty || decide (name = Path.dot)) = true ∧ name ≠ Path.dotDot ∧
      ¬ nameLimit < name.length := by
  constructor
  · rintro ⟨nonempty, notDot, notDotDot, short⟩
    exact ⟨by simp [nonempty, notDot], notDotDot, not_lt.mpr short⟩
  · rintro ⟨other, notDotDot, short⟩
    obtain ⟨nonempty, notDot⟩ : name ≠ [] ∧ name ≠ Path.dot := by simpa using other
    exact ⟨nonempty, notDot, notDotDot, not_lt.mp short⟩

theorem IsStep.not_idle {name : Text} (isStep : IsStep name) :
    (name.isEmpty || decide (name = Path.dot)) = false := by
  simp [isStep.nonempty, isStep.notDot]

theorem IsStep.isKept {name : Text} (isStep : IsStep name) : Path.isKept name = true :=
  Path.isKept_iff.mpr (not_or.mpr ⟨isStep.nonempty, isStep.notDot⟩)

/-- Names lead from a place to another one, with so many links to spare before
and behind them. -/
inductive Leads (disk : Disk) : Nat → Place → List Text → Nat → Place → Prop
  | done {links here} : Leads disk links here [] links here
  | stay {links here name names left place entries}
    (dir : disk.nodeAt? here = some (.dir entries)) (idle : name = [] ∨ name = Path.dot)
    (rest : Leads disk links here names left place) :
    Leads disk links here (name :: names) left place
  | up {links here names left place entries} (dir : disk.nodeAt? here = some (.dir entries))
    (rest : Leads disk links here.dropLast names left place) :
    Leads disk links here (Path.dotDot :: names) left place
  | enter {links here name names left place entries n}
    (dir : disk.nodeAt? here = some (.dir entries)) (isStep : IsStep name)
    (found : entries.lookup name = some n) (solid : ∀ target, n ≠ .link target)
    (rest : Leads disk links (here ++ [name]) names left place) :
    Leads disk links here (name :: names) left place
  | follow {links here name names left place entries target}
    (dir : disk.nodeAt? here = some (.dir entries)) (isStep : IsStep name)
    (found : entries.lookup name = some (.link target))
    (rest : Leads disk links (if Path.isRooted target then [] else here)
      (target.splitOn Path.slash ++ names) left place) :
    Leads disk (links + 1) here (name :: names) left place

theorem nodeAt?_entry {here : Place} {entries : List (Text × Node)}
    (dir : disk.nodeAt? here = some (.dir entries)) (names : List Text) :
    disk.nodeAt? (here ++ names) = (Node.dir entries).at? names := by
  have root : disk.root.at? here = some (.dir entries) := dir
  rw [nodeAt?, Node.at?_append, root, Option.bind_some]

theorem at?_singleton (entries : List (Text × Node)) (name : Text) :
    (Node.dir entries).at? [name] = entries.lookup name := by
  rw [Node.at?]
  cases entries.lookup name <;> rfl

section Locate
variable {last : LastName} {links : Nat} {here place : Place} {name : Text} {names rest : List Text}
  {entries : List (Text × Node)}

theorem locate_stay (dir : disk.nodeAt? here = some (.dir entries))
    (idle : name = [] ∨ name = Path.dot) :
    disk.locate last links here (name :: rest) = disk.locate last links here rest := by
  rw [locate, dir]
  rcases idle with rfl | rfl <;> simp

theorem locate_up (dir : disk.nodeAt? here = some (.dir entries)) :
    disk.locate last links here (Path.dotDot :: rest) = disk.locate last links here.dropLast rest := by
  rw [locate, dir]
  simp [Path.dotDot, Path.dot]

theorem locate_enter (dir : disk.nodeAt? here = some (.dir entries))
    (isStep : IsStep name) {n : Node} (found : entries.lookup name = some n)
    (solid : ∀ target, n ≠ .link target) :
    disk.locate last links here (name :: rest) = disk.locate last links (here ++ [name]) rest := by
  rw [locate, dir]
  simp only [isStep.not_idle, isStep.notDotDot, not_lt.mpr isStep.short, Bool.false_eq_true,
    if_false, found]

theorem locate_follow (dir : disk.nodeAt? here = some (.dir entries))
    (isStep : IsStep name) {target : Text} (found : entries.lookup name = some (.link target))
    (followed : rest ≠ [] ∨ last.followed = true) :
    disk.locate last (links + 1) here (name :: rest) =
      disk.locate last links (if Path.isRooted target then [] else here)
        (target.splitOn Path.slash ++ rest) := by
  have goes : (rest.isEmpty && !last.followed) = false := by
    rcases followed with more | follows <;> simp [*]
  rw [locate, dir]
  simp only [isStep.not_idle, isStep.notDotDot, not_lt.mpr isStep.short, Bool.false_eq_true,
    if_false, found, goes]

/-- A link at the end is what is found, unless it is followed. -/
theorem locate_stop (dir : disk.nodeAt? here = some (.dir entries))
    (isStep : IsStep name) {target : Text} (found : entries.lookup name = some (.link target))
    (unfollowed : last.followed = false) :
    disk.locate last links here [name] = .ok (here ++ [name]) := by
  rw [locate, dir]
  simp [isStep.nonempty, isStep.notDot, isStep.notDotDot, not_lt.mpr isStep.short, found, unfollowed]

/-- A look-up that goes on behind a way starts where the way ends. -/
theorem Leads.locate_append {left : Nat} (leads : disk.Leads links here names left place)
    (followed : rest ≠ [] ∨ last.followed = true) :
    disk.locate last links here (names ++ rest) = disk.locate last left place rest := by
  induction leads with
  | done => rfl
  | stay dir idle _ ih => rw [List.cons_append, locate_stay dir idle, ih]
  | up dir _ ih => rw [List.cons_append, locate_up dir, ih]
  | enter dir isStep found solid _ ih =>
    rw [List.cons_append, locate_enter dir isStep found solid, ih]
  | @follow _ _ _ more _ _ _ _ dir isStep found _ ih =>
    have onward : more ++ rest ≠ [] ∨ last.followed = true :=
      followed.imp_left (List.append_ne_nil_of_right_ne_nil more)
    rw [List.cons_append, locate_follow dir isStep found onward, ← List.append_assoc, ih]

theorem Leads.locate {left : Nat} (leads : disk.Leads links here names left place)
    (followed : last.followed = true) : disk.locate last links here names = .ok place := by
  have located : disk.locate last links here (names ++ []) = disk.locate last left place [] :=
    leads.locate_append (.inr followed)
  rw [List.append_nil] at located
  rw [located, Disk.locate]

/-- A look-up that succeeds has followed a way, unless it ends at a link that it
does not follow. -/
theorem leads_of_locate (present : last.mayMiss = false)
    (located : disk.locate last links here names = .ok place) :
    (∃ left, disk.Leads links here names left place) ∨
      last.followed = false ∧ ∃ target, disk.nodeAt? place = some (.link target) := by
  fun_induction Disk.locate disk last links here names with
  | case1 links here =>
    cases located
    exact .inl ⟨links, .done⟩
  | case2 links here name rest entries dir idle ih =>
    refine (ih located).imp_left fun ⟨left, leads⟩ => ⟨left, .stay dir ?_ leads⟩
    simpa using idle
  | case3 links here rest entries dir other ih =>
    exact (ih located).imp_left fun ⟨left, leads⟩ => ⟨left, .up dir leads⟩
  | case4 => cases located
  | case5 links here name rest entries dir other up short target found stops =>
    cases located
    refine .inr ⟨by simpa using (Bool.and_eq_true_iff.mp stops).2, target, ?_⟩
    rw [nodeAt?_entry dir, at?_singleton, found]
  | case6 => cases located
  | case7 here name rest entries dir other up short target found goes links ih =>
    have isStep := isStep_iff.mpr ⟨other, up, short⟩
    exact (ih located).imp_left fun ⟨left, leads⟩ => ⟨left, .follow dir isStep found leads⟩
  | case8 links here name rest entries dir other up short n solid found ih =>
    have isStep := isStep_iff.mpr ⟨other, up, short⟩
    exact (ih located).imp_left fun ⟨left, leads⟩ => ⟨left, .enter dir isStep found solid leads⟩
  | case9 links here name rest entries dir other up short missing mayMiss =>
    simp [present] at mayMiss
  | case10 => cases located
  | case11 => cases located
  | case12 => cases located

/-- Not following the last link ends at the same place, or at that link. -/
theorem Leads.locate_unfollowed {left : Nat} (leads : disk.Leads links here names left place)
    (unfollowed : last.followed = false) :
    disk.locate last links here names = .ok place ∨
      ∃ spot target, disk.locate last links here names = .ok spot ∧
        disk.nodeAt? spot = some (.link target) := by
  induction leads with
  | done => exact .inl (by rw [Disk.locate])
  | stay dir idle _ ih => rwa [locate_stay dir idle]
  | up dir _ ih => rwa [locate_up dir]
  | enter dir isStep found solid _ ih => rwa [locate_enter dir isStep found solid]
  | @follow links here name names _ _ entries target dir isStep found _ ih =>
    by_cases more : names = []
    · subst more
      refine .inr ⟨here ++ [name], target, locate_stop dir isStep found unfollowed, ?_⟩
      rw [nodeAt?_entry dir, at?_singleton, found]
    · rwa [locate_follow dir isStep found (.inl more)]

/-- More links to spare change nothing but a look-up that had too few. -/
theorem locate_eq_of_le {more : Nat} (least : links ≤ more)
    (enough : disk.locate last links here names ≠ .error .tooManyLinks) :
    disk.locate last more here names = disk.locate last links here names := by
  fun_induction Disk.locate disk last links here names generalizing more with
  | case1 => rw [Disk.locate]
  | case2 links here name rest entries dir idle ih =>
    rw [locate_stay dir (by simpa using idle)]
    exact ih least enough
  | case3 links here rest entries dir other ih =>
    rw [locate_up dir]
    exact ih least enough
  | case4 links here name rest entries dir other up long =>
    rw [Disk.locate, dir]
    simp only [other, up, long, Bool.false_eq_true, if_true, if_false]
  | case5 links here name rest entries dir other up short target found stops =>
    obtain ⟨ends, unfollowed⟩ := Bool.and_eq_true_iff.mp stops
    rw [List.isEmpty_iff.mp ends]
    exact locate_stop dir (isStep_iff.mpr ⟨other, up, short⟩) found (by simpa using unfollowed)
  | case6 => exact absurd rfl enough
  | case7 here name rest entries dir other up short target found goes links ih =>
    have followed : rest ≠ [] ∨ last.followed = true := by
      rw [Bool.and_eq_true, not_and_or, List.isEmpty_iff, Bool.not_eq_true'] at goes
      simpa using goes
    cases more with
    | zero => omega
    | succ more =>
      rw [locate_follow dir (isStep_iff.mpr ⟨other, up, short⟩) found followed]
      exact ih (Nat.le_of_succ_le_succ least) enough
  | case8 links here name rest entries dir other up short n solid found ih =>
    rw [locate_enter dir (isStep_iff.mpr ⟨other, up, short⟩) found solid]
    exact ih least enough
  | case9 links here name rest entries dir other up short missing mayMiss
  | case10 links here name rest entries dir other up short missing mayMiss =>
    rw [Disk.locate, dir]
    simp only [other, up, short, Bool.false_eq_true, if_false, missing, mayMiss, if_true]
  | case11 links here name rest n solid leaf =>
    rw [Disk.locate, leaf]
    cases n with
    | dir entries => exact absurd rfl (solid entries)
    | file content => rfl
    | link target => rfl
  | case12 links here name rest gone => rw [Disk.locate, gone]

end Locate

/-- Elements that cleaning drops lead nowhere else. -/
theorem Leads.filter {links left : Nat} {here place : Place} {names : List Text}
    (leads : disk.Leads links here names left place) (before : List Text) {after : List Text}
    (split : names = before ++ after) :
    disk.Leads links here (before ++ after.filter Path.isKept) left place := by
  -- What a link on the way says is in front of the elements that are dropped.
  induction leads generalizing before after with
  | done =>
    obtain ⟨rfl, rfl⟩ := List.append_eq_nil_iff.mp split.symm
    exact .done
  | stay dir idle _ ih =>
    rcases List.cons_eq_append_iff.mp split with ⟨rfl, rfl⟩ | ⟨more, rfl, rfl⟩
    · have dropped := Bool.eq_false_iff.mpr fun kept => Path.isKept_iff.mp kept idle
      rw [List.filter_cons, dropped]
      exact ih [] rfl
    · exact .stay dir idle (ih more rfl)
  | up dir _ ih =>
    rcases List.cons_eq_append_iff.mp split with ⟨rfl, rfl⟩ | ⟨more, rfl, rfl⟩
    · exact .up dir (ih [] rfl)
    · exact .up dir (ih more rfl)
  | enter dir isStep found solid _ ih =>
    rcases List.cons_eq_append_iff.mp split with ⟨rfl, rfl⟩ | ⟨more, rfl, rfl⟩
    · rw [List.filter_cons, isStep.isKept]
      exact .enter dir isStep found solid (ih [] rfl)
    · exact .enter dir isStep found solid (ih more rfl)
  | @follow _ _ _ _ _ _ _ target dir isStep found _ ih =>
    rcases List.cons_eq_append_iff.mp split with ⟨rfl, rfl⟩ | ⟨more, rfl, rfl⟩
    · rw [List.filter_cons, isStep.isKept]
      exact .follow dir isStep found (ih (target.splitOn Path.slash) rfl)
    · have onward := ih (target.splitOn Path.slash ++ more) (List.append_assoc ..).symm
      rw [List.append_assoc] at onward
      exact .follow dir isStep found onward

/-! ## Paths -/

/-- A path that is looked up at all. -/
structure Passable (path : Text) : Prop where
  nonempty : path ≠ []
  noNul : 0 ∉ path
  short : path.length ≤ pathLimit

section Resolve
variable {last : LastName} {path root : Text} {place : Place}

theorem resolve_eq (passable : Passable path) :
    disk.resolve last path = disk.locate last linkLimit (disk.origin (Path.isRooted path))
      (path.splitOn Path.slash) := by
  simp [resolve, passable.noNul, passable.nonempty, not_lt.mpr passable.short]

theorem passable_of_resolve (found : disk.resolve last path = .ok place) : Passable path := by
  unfold resolve at found
  split_ifs at found with nul empty long
  all_goals exact ⟨by simpa using empty, by simpa using nul, not_lt.mp long⟩

/-- Only where a directory stands the look-up of a path gets off. -/
def Begins (disk : Disk) (rooted : Bool) : Prop :=
  ∃ entries, disk.nodeAt? (disk.origin rooted) = some (.dir entries)

theorem begins_of_resolve (found : disk.resolve last path = .ok place) :
    disk.Begins (Path.isRooted path) := by
  obtain ⟨name, rest, split⟩ := List.exists_cons_of_ne_nil (List.splitOn_ne_nil Path.slash path)
  rw [resolve_eq (passable_of_resolve found), split, locate] at found
  split at found
  next entries dir => exact ⟨entries, dir⟩
  · cases found
  · cases found

/-- The elements of a clean path are looked up one by one. -/
theorem locate_spelled {rooted : Bool} (begins : disk.Begins rooted) {elements : List Text}
    (element : ∀ e ∈ elements, Path.IsElement e) (links : Nat) :
    disk.locate last links (disk.origin rooted)
        ((Path.spelled rooted elements).splitOn Path.slash) =
      disk.locate last links (disk.origin rooted) elements := by
  obtain ⟨entries, dir⟩ := begins
  by_cases empty : elements = []
  · subst empty
    cases rooted with
    | true =>
      have split : (Path.spelled true []).splitOn Path.slash = [[], []] := by decide
      rw [split, locate_stay dir (.inl rfl), locate_stay dir (.inl rfl)]
    | false =>
      have split : (Path.spelled false []).splitOn Path.slash = [Path.dot] := by decide
      rw [split, locate_stay dir (.inr rfl)]
  · have body := Path.splitOn_join empty fun e member => (element e member).unslashed
    cases rooted with
    | true =>
      have shape : Path.spelled true elements = [] ++ Path.slash :: Text.join [Path.slash] elements := by
        simp [Path.spelled]
      rw [shape, List.splitOn_append_cons_self, body]
      exact locate_stay dir (.inl rfl)
    | false =>
      have shape : Path.spelled false elements = Text.join [Path.slash] elements := by
        simp [Path.spelled, empty]
      rw [shape, body]

theorem leads_of_resolve (found : disk.resolve { followed := true } path = .ok place) :
    ∃ left, disk.Leads linkLimit (disk.origin (Path.isRooted path)) (path.splitOn Path.slash) left place := by
  rw [resolve_eq (passable_of_resolve found)] at found
  rcases leads_of_locate rfl found with leads | ⟨unfollowed, _⟩
  · exact leads
  · cases unfollowed

/-- A path that leads somewhere leads there, or to a link, if its last link is
not followed. -/
theorem resolve_unfollowed (found : disk.resolve { followed := true } path = .ok place) :
    disk.resolve { followed := false } path = .ok place ∨
      ∃ spot target, disk.resolve { followed := false } path = .ok spot ∧
        disk.nodeAt? spot = some (.link target) := by
  obtain ⟨left, leads⟩ := leads_of_resolve found
  rw [resolve_eq (passable_of_resolve found)]
  exact leads.locate_unfollowed rfl

/-- What is found by its clean spelling is found by its elements. -/
theorem leads_of_clean (found : disk.resolve { followed := true } (Path.clean root) = .ok place) :
    ∃ left, disk.Leads linkLimit (disk.origin (Path.isRooted root)) (Path.cleanElements root) left place := by
  obtain ⟨left, leads⟩ := leads_of_resolve found
  have kept := leads.filter [] (List.nil_append _).symm
  rw [Path.isRooted_clean, List.nil_append, Path.clean_eq,
    Path.split_spelled fun e => Path.element_of_mem] at kept
  exact ⟨left, kept⟩

theorem not_mem_of_mem_split (noNul : 0 ∉ path) : ∀ e ∈ path.splitOn Path.slash, 0 ∉ e := by
  intro e member nul
  have whole : Text.join [Path.slash] (path.splitOn Path.slash) = path :=
    List.intercalate_splitOn Path.slash
  refine noNul ?_
  rw [← whole, Path.mem_join (by decide)]
  exact ⟨e, member, nul⟩

/-- A path without `..` leads where its clean spelling does. -/
theorem resolve_clean (level : Path.dotDot ∉ root.splitOn Path.slash)
    (found : disk.resolve { followed := true } root = .ok place) :
    disk.resolve { followed := true } (Path.clean root) = .ok place := by
  obtain ⟨nonempty, noNul, short⟩ := passable_of_resolve found
  obtain ⟨left, leads⟩ := leads_of_resolve found
  have element : ∀ e ∈ Path.cleanElements root, Path.IsElement e := fun e => Path.element_of_mem
  have kept := leads.filter [] (List.nil_append _).symm
  rw [List.nil_append, ← Path.cleanElements_level level] at kept
  have passable : Passable (Path.clean root) := by
    refine ⟨?_, ?_, (Path.length_clean_le nonempty level).trans short⟩
    · rw [Path.clean_eq]
      exact Path.spelled_ne_nil element
    · rw [Path.clean_eq, Path.mem_spelled (by decide) (by decide)]
      rintro ⟨e, member, nul⟩
      rw [Path.cleanElements_level level] at member
      exact not_mem_of_mem_split noNul e (List.mem_filter.mp member).1 nul
  rw [resolve_eq passable, Path.isRooted_clean, Path.clean_eq,
    locate_spelled (begins_of_resolve found) element]
  exact kept.locate rfl

end Resolve
end Disk
end Reckoner
