import Mathlib
import Reckoner.Proofs.Cleaning

/-! # How clean paths are spelled

A clean path is spelled by its elements alone (`clean_eq`), so cleaning twice is
cleaning once.  Joining names to a path, one after the other, gives the clean
path with these elements more (`under_eq`), and its extension is that of the last
name (`extension_spelled`). -/
set_option autoImplicit false
namespace Reckoner.Path

/-! ## Elements between slashes -/

theorem join_concat {elements : List Text} (nonempty : elements ≠ []) (e : Text) :
    Text.join [slash] (elements ++ [e]) = Text.join [slash] elements ++ slash :: e := by
  induction elements with
  | nil => exact absurd rfl nonempty
  | cons first rest ih =>
    cases rest with
    | nil => simp [Text.join, List.intercalate_cons_cons]
    | cons second more =>
      have behind := ih (by simp)
      simp only [Text.join, List.cons_append, List.intercalate_cons_cons] at behind ⊢
      rw [behind]
      simp

theorem mem_join {elements : List Text} {b : UInt8} (other : b ≠ slash) :
    b ∈ Text.join [slash] elements ↔ ∃ e ∈ elements, b ∈ e := by
  induction elements using List.reverseRecOn with
  | nil => simp [Text.join]
  | append_singleton rest e ih =>
    by_cases first : rest = []
    · simp [first, Text.join]
    · rw [join_concat first, List.mem_append, ih]
      simp [other, or_and_right, exists_or]

/-- A clean path with these elements. -/
def spelled (rooted : Bool) (elements : List Text) : Text :=
  if rooted then slash :: Text.join [slash] elements
  else if elements.isEmpty then dot
  else Text.join [slash] elements

theorem mem_spelled {rooted : Bool} {elements : List Text} {b : UInt8} (other : b ≠ slash)
    (notDot : b ≠ 46) : b ∈ spelled rooted elements ↔ ∃ e ∈ elements, b ∈ e := by
  rw [← mem_join other, spelled]
  split
  · simp [other]
  · split
    next empty => simp [List.isEmpty_iff.mp empty, dot, notDot, Text.join]
    next => rfl

theorem element_of_mem {p e : Text} (member : e ∈ cleanElements p) : IsElement e :=
  (settled_cleanElements p).elements e (List.mem_reverse.mpr member)

section Spelled
variable {rooted : Bool} {elements : List Text} (element : ∀ e ∈ elements, IsElement e)
include element

theorem exists_join_cons (nonempty : elements ≠ []) :
    ∃ b rest, Text.join [slash] elements = b :: rest ∧ b ≠ slash := by
  obtain ⟨first, more, rfl⟩ := List.exists_cons_of_ne_nil nonempty
  have isElement := element first List.mem_cons_self
  obtain ⟨b, tail, rfl⟩ := List.exists_cons_of_ne_nil isElement.nonempty
  have other : b ≠ slash := by
    rintro rfl
    exact isElement.unslashed List.mem_cons_self
  cases more with
  | nil => exact ⟨b, tail, by simp [Text.join], other⟩
  | cons second others =>
    exact ⟨b, _, by rw [Text.join, List.intercalate_cons_cons]; rfl, other⟩

theorem isRooted_spelled : isRooted (spelled rooted elements) = rooted := by
  unfold spelled
  cases rooted with
  | true => rfl
  | false =>
    simp only [Bool.false_eq_true, if_false]
    split
    · rfl
    next nonempty =>
      obtain ⟨b, rest, join, other⟩ := exists_join_cons element (by simpa using nonempty)
      simp [isRooted, join, other]

end Spelled

theorem spelled_ne_nil {rooted : Bool} {elements : List Text}
    (element : ∀ e ∈ elements, IsElement e) : spelled rooted elements ≠ [] := by
  unfold spelled
  split
  · simp
  · split
    · simp [dot]
    next nonempty =>
      obtain ⟨b, rest, join, _⟩ := exists_join_cons element (by simpa using nonempty)
      simp [join]

theorem clean_eq (p : Text) : clean p = spelled (isRooted p) (cleanElements p) := by
  have element : ∀ e ∈ cleanElements p, IsElement e := fun e => element_of_mem
  have empty : (Text.join [slash] (cleanElements p)).isEmpty = (cleanElements p).isEmpty := by
    cases bare : (cleanElements p).isEmpty with
    | true => simp [List.isEmpty_iff.mp bare, Text.join]
    | false =>
      obtain ⟨b, rest, join, _⟩ := exists_join_cons element (by simpa using bare)
      simp [join]
  simp only [clean, spelled, empty]

theorem isRooted_clean (p : Text) : isRooted (clean p) = isRooted p := by
  rw [clean_eq]
  exact isRooted_spelled fun e => element_of_mem

theorem clean_clean (p : Text) : clean (clean p) = clean p := by
  rw [clean_eq (clean p), isRooted_clean, cleanElements_clean, ← clean_eq]

/-! ## Elements that are kept -/

/-- Neither empty nor a dot. -/
def isKept (e : Text) : Bool := !(e.isEmpty || decide (e = dot))

theorem isKept_iff {e : Text} : isKept e = true ↔ ¬ (e = [] ∨ e = dot) := by
  simp [isKept]

theorem foldl_pushElement {rooted : Bool} {elements : List Text} (level : dotDot ∉ elements)
    (kept : List Text) :
    elements.foldl (pushElement rooted) kept = (elements.filter isKept).reverse ++ kept := by
  induction elements generalizing kept with
  | nil => rfl
  | cons e rest ih =>
    obtain ⟨other, later⟩ := not_or.mp (mt List.mem_cons.mpr level)
    rw [List.foldl_cons, ih later]
    by_cases skipped : e = [] ∨ e = dot
    · have dropped : isKept e = false := Bool.eq_false_iff.mpr fun kept => isKept_iff.mp kept skipped
      rw [pushElement_skip skipped, List.filter_cons, dropped]
      rfl
    · obtain ⟨nonempty, notDot⟩ := not_or.mp skipped
      rw [pushElement_name nonempty notDot (Ne.symm other), List.filter_cons,
        isKept_iff.mpr skipped]
      simp

/-- Without `..` cleaning drops elements and moves none. -/
theorem cleanElements_level {p : Text} (level : dotDot ∉ p.splitOn slash) :
    cleanElements p = (p.splitOn slash).filter isKept := by
  rw [cleanElements, foldl_pushElement level, List.append_nil, List.reverse_reverse]

theorem filter_elements {elements : List Text} (element : ∀ e ∈ elements, IsElement e) :
    elements.filter isKept = elements := by
  refine List.filter_eq_self.mpr fun e member => isKept_iff.mpr ?_
  exact not_or.mpr ⟨(element e member).nonempty, (element e member).notDot⟩

theorem split_spelled {rooted : Bool} {elements : List Text}
    (element : ∀ e ∈ elements, IsElement e) :
    ((spelled rooted elements).splitOn slash).filter isKept = elements := by
  by_cases empty : elements = []
  · subst empty
    cases rooted <;> decide
  · have body := splitOn_join empty fun e member => (element e member).unslashed
    cases rooted with
    | true =>
      have shape : spelled true elements = [] ++ slash :: Text.join [slash] elements := by
        simp [spelled]
      rw [shape, List.splitOn_append_cons_self, body, List.filter_append, filter_elements element]
      rfl
    | false =>
      have shape : spelled false elements = Text.join [slash] elements := by simp [spelled, empty]
      rw [shape, body, filter_elements element]

theorem length_join {elements : List Text} (nonempty : elements ≠ []) :
    (Text.join [slash] elements).length + 1 = (elements.map fun e => e.length + 1).sum := by
  induction elements with
  | nil => exact absurd rfl nonempty
  | cons first rest ih =>
    cases rest with
    | nil =>
      simp only [Text.join, List.intercalate_singleton, List.map_cons, List.map_nil, List.sum_cons,
        List.sum_nil, Nat.add_zero]
    | cons second more =>
      have behind := ih (List.cons_ne_nil second more)
      simp only [Text.join, List.intercalate_cons_cons, List.map_cons, List.sum_cons,
        List.length_append, List.length_singleton] at behind ⊢
      omega

/-- Without `..` the clean spelling is no longer. -/
theorem length_clean_le {p : Text} (nonempty : p ≠ []) (level : dotDot ∉ p.splitOn slash) :
    (clean p).length ≤ p.length := by
  have letters : 0 < p.length := List.length_pos_iff.mpr nonempty
  have whole : Text.join [slash] (p.splitOn slash) = p := List.intercalate_splitOn slash
  have length := length_join (List.splitOn_ne_nil slash p)
  rw [whole] at length
  rw [clean_eq, cleanElements_level level]
  by_cases empty : (p.splitOn slash).filter isKept = []
  · rw [empty]
    cases isRooted p <;> simp [spelled, Text.join, dot] <;> omega
  · have body := length_join empty
    have fewer : ∀ elements : List Text, ((elements.filter isKept).map fun e => e.length + 1).sum ≤
        (elements.map fun e => e.length + 1).sum := fun elements =>
      (List.filter_sublist.map _).sum_le_sum fun n _ => Nat.zero_le n
    cases rooted : isRooted p with
    | false =>
      have least := fewer (p.splitOn slash)
      simp only [spelled, List.isEmpty_iff, empty, Bool.false_eq_true, if_false]
      omega
    | true =>
      obtain ⟨rest, rfl⟩ : ∃ rest, p = slash :: rest := by
        obtain ⟨b, rest, rfl⟩ := List.exists_cons_of_ne_nil nonempty
        have first : b = slash := by simpa [isRooted] using rooted
        exact ⟨rest, by rw [first]⟩
      have split : (slash :: rest).splitOn slash = [] :: rest.splitOn slash :=
        List.splitOn_append_cons_self [] rest
      have least := fewer (rest.splitOn slash)
      rw [split] at body length ⊢
      have dropped : ([] :: rest.splitOn slash).filter isKept = (rest.splitOn slash).filter isKept := rfl
      rw [dropped] at body ⊢
      simp only [spelled, if_true, List.length_cons, List.map_cons, List.sum_cons,
        List.length_nil] at length ⊢
      omega

/-! ## Below a root -/

/-- The path that names lead to from a root. -/
def under (root : Text) (names : List Text) : Text := names.foldl join root

@[simp] theorem under_nil (root : Text) : under root [] = root := rfl

section Join
variable {dir name : Text} (nonempty : dir ≠ []) (isName : IsName name)
include nonempty isName

theorem join_eq : join dir name = spelled (isRooted dir) (cleanElements dir ++ [name]) := by
  have rooted : isRooted (dir ++ slash :: name) = isRooted dir := by
    obtain ⟨b, rest, rfl⟩ := List.exists_cons_of_ne_nil nonempty
    rfl
  have behind : join dir name = clean (dir ++ slash :: name) := by
    simp [join, nonempty, isName.nonempty]
  rw [behind, clean_eq, rooted, cleanElements_below nonempty isName]

theorem element_of_join : ∀ e ∈ cleanElements dir ++ [name], IsElement e := by
  rw [← cleanElements_join nonempty isName]
  exact fun e => element_of_mem

theorem join_ne_nil : join dir name ≠ [] := by
  rw [join_eq nonempty isName]
  exact spelled_ne_nil (element_of_join nonempty isName)

theorem isRooted_join : isRooted (join dir name) = isRooted dir := by
  rw [join_eq nonempty isName]
  exact isRooted_spelled (element_of_join nonempty isName)

theorem clean_join : clean (join dir name) = join dir name := by
  rw [clean_eq, isRooted_join nonempty isName, cleanElements_join nonempty isName,
    join_eq nonempty isName]

theorem length_clean_le_join : (clean dir).length ≤ (join dir name).length := by
  have letters : 0 < name.length := List.length_pos_iff.mpr isName.nonempty
  rw [clean_eq, join_eq nonempty isName]
  by_cases first : cleanElements dir = []
  · simp only [spelled, first, Text.join]
    cases isRooted dir <;> simp [dot]
    omega
  · simp only [spelled, join_concat first]
    cases isRooted dir <;> simp [first]

end Join

section Under
variable {root : Text} (nonempty : root ≠ []) {names : List Text} (named : ∀ n ∈ names, IsName n)
include nonempty named

theorem under_ne_nil : under root names ≠ [] := by
  induction names generalizing root with
  | nil => exact nonempty
  | cons name rest ih =>
    obtain ⟨first, others⟩ := List.forall_mem_cons.mp named
    exact ih (join_ne_nil nonempty first) others

theorem cleanElements_under : cleanElements (under root names) = cleanElements root ++ names := by
  induction names generalizing root with
  | nil => simp [under]
  | cons name rest ih =>
    obtain ⟨first, others⟩ := List.forall_mem_cons.mp named
    have behind := ih (join_ne_nil nonempty first) others
    rw [cleanElements_join nonempty first, List.append_assoc] at behind
    exact behind

theorem isRooted_under : isRooted (under root names) = isRooted root := by
  induction names generalizing root with
  | nil => rfl
  | cons name rest ih =>
    obtain ⟨first, others⟩ := List.forall_mem_cons.mp named
    exact (ih (join_ne_nil nonempty first) others).trans (isRooted_join nonempty first)

theorem clean_under (below : names ≠ []) : clean (under root names) = under root names := by
  rcases List.eq_nil_or_concat names with rfl | ⟨init, last, rfl⟩
  · exact absurd rfl below
  · rw [List.concat_eq_append] at named ⊢
    have earlier : ∀ n ∈ init, IsName n := fun n member => named n (by simp [member])
    rw [under, List.foldl_append]
    exact clean_join (under_ne_nil nonempty earlier) (named last (by simp))

theorem under_eq (below : names ≠ []) :
    under root names = spelled (isRooted root) (cleanElements root ++ names) := by
  rw [← clean_under nonempty named below, clean_eq, isRooted_under nonempty named,
    cleanElements_under nonempty named]

end Under

theorem under_append (root : Text) (names more : List Text) :
    under root (names ++ more) = under (under root names) more :=
  List.foldl_append

/-- Going on below a path makes it no shorter. -/
theorem length_under_le {root : Text} (nonempty : root ≠ []) {names more : List Text}
    (below : names ≠ []) (named : ∀ n ∈ names ++ more, IsName n) :
    (under root names).length ≤ (under root (names ++ more)).length := by
  induction more generalizing names with
  | nil => rw [List.append_nil]
  | cons name rest ih =>
    have init : ∀ n ∈ names, IsName n := fun n member => named n (by simp [member])
    have first : IsName name := named name (by simp)
    have step := length_clean_le_join (under_ne_nil nonempty init) first
    rw [clean_under nonempty init below] at step
    rw [List.append_cons] at named ⊢
    have behind := ih (by simp) named
    rw [under_append root names [name]] at behind
    exact Nat.le_trans step behind

/-- Different names lead to different paths. -/
theorem under_injective {root : Text} (nonempty : root ≠ []) {names others : List Text}
    (named : ∀ n ∈ names, IsName n) (likewise : ∀ n ∈ others, IsName n)
    (same : under root names = under root others) : names = others := by
  have elements := congrArg cleanElements same
  rw [cleanElements_under nonempty named, cleanElements_under nonempty likewise] at elements
  exact List.append_cancel_left elements

/-- Below a path it counts only how that is spelled when it is clean. -/
theorem under_of_clean {root other : Text} (nonempty : root ≠ []) (likewise : other ≠ [])
    (same : clean root = clean other) {names : List Text} (below : names ≠ [])
    (named : ∀ n ∈ names, IsName n) : under root names = under other names := by
  have elements : cleanElements root = cleanElements other := by
    rw [← cleanElements_clean root, same, cleanElements_clean]
  have rooted : isRooted root = isRooted other := by
    rw [← isRooted_clean root, same, isRooted_clean]
  rw [under_eq nonempty named below, under_eq likewise named below, elements, rooted]

/-! ## Last elements -/

section Last
variable {name : Text} (unslashed : slash ∉ name)
include unslashed

theorem takeWhile_reverse : name.reverse.takeWhile (· != slash) = name.reverse := by
  refine List.takeWhile_eq_self_iff.mpr fun b member => ?_
  exact bne_iff_ne.mpr fun same => unslashed (same ▸ List.mem_reverse.mp member)

theorem takeWhile_behind_slash (before : Text) :
    (before ++ slash :: name).reverse.takeWhile (· != slash) = name.reverse := by
  have all := List.takeWhile_eq_self_iff.mp (takeWhile_reverse unslashed)
  rw [List.reverse_append, List.reverse_cons, List.append_assoc, List.takeWhile_append_of_pos all]
  simp

theorem takeWhile_spelled (rooted : Bool) (elements : List Text) :
    (spelled rooted (elements ++ [name])).reverse.takeWhile (· != slash) = name.reverse := by
  have empty : (elements ++ [name]).isEmpty = false := by simp
  unfold spelled
  simp only [empty, Bool.false_eq_true, if_false]
  by_cases first : elements = []
  · subst first
    cases rooted with
    | true => simpa [Text.join] using takeWhile_behind_slash unslashed []
    | false => simpa [Text.join] using takeWhile_reverse unslashed
  · rw [join_concat first]
    cases rooted with
    | true =>
      simpa using takeWhile_behind_slash unslashed (slash :: Text.join [slash] elements)
    | false => exact takeWhile_behind_slash unslashed _

theorem extension_spelled (rooted : Bool) (elements : List Text) :
    extension (spelled rooted (elements ++ [name])) = extension name := by
  simp only [extension, takeWhile_spelled unslashed, takeWhile_reverse unslashed]

theorem base_spelled (nonempty : name ≠ []) (rooted : Bool) (elements : List Text) :
    base (spelled rooted (elements ++ [name])) = name := by
  have last := takeWhile_spelled unslashed rooted elements
  generalize spelled rooted (elements ++ [name]) = p at last
  unfold base
  cases reversed : p.reverse with
  | nil =>
    rw [reversed] at last
    exact absurd (List.reverse_eq_nil_iff.mp last.symm) nonempty
  | cons b rest =>
    have other : (b != slash) = true := by
      by_contra same
      rw [reversed, List.takeWhile_cons, Bool.eq_false_iff.mpr same] at last
      exact nonempty (List.reverse_eq_nil_iff.mp last.symm)
    have nonempty : p ≠ [] := by
      rintro rfl
      cases reversed
    have first : (b == slash) = false := by simpa using other
    rw [reversed] at last
    simp [nonempty, first, last]

end Last

theorem base_under {root : Text} (nonempty : root ≠ []) {names : List Text} {name : Text}
    (named : ∀ n ∈ names ++ [name], IsName n) : base (under root (names ++ [name])) = name := by
  have isName := named name (by simp)
  rw [under_eq nonempty named (by simp), ← List.append_assoc,
    base_spelled isName.unslashed isName.nonempty]

/-! ## Extensions -/

/-- A name has the extension that it ends with, if that has a single dot. -/
theorem extension_eq_iff {name e : Text} (unslashed : slash ∉ name) (single : (46 : UInt8) ∉ e) :
    extension name = 46 :: e ↔ 46 :: e <:+ name := by
  have last : name.reverse.takeWhile (· != slash) = name.reverse := by
    refine List.takeWhile_eq_self_iff.mpr fun b member => ?_
    exact bne_iff_ne.mpr fun same => unslashed (same ▸ List.mem_reverse.mp member)
  have whole : name.reverse.takeWhile (· != 46) ++ name.reverse.dropWhile (· != 46) =
      name.reverse := List.takeWhile_append_dropWhile
  have others : ∀ b ∈ e.reverse, (b != 46) = true := by
    intro b member
    exact bne_iff_ne.mpr fun same => single (same ▸ List.mem_reverse.mp member)
  rw [← List.reverse_prefix, List.reverse_cons]
  simp only [extension, last]
  cases rest : name.reverse.dropWhile (· != 46) with
  | nil =>
    simp only [List.nil_eq, reduceCtorEq, false_iff]
    rintro ⟨more, shape⟩
    have dot : (46 : UInt8) ∈ name.reverse := by rw [← shape]; simp
    have all := List.dropWhile_eq_nil_iff.mp rest 46 dot
    simp at all
  | cons b more =>
    have mark : b = 46 := by
      have stops := List.head?_dropWhile_not (· != 46) name.reverse
      rw [rest] at stops
      simpa using stops
    subst mark
    constructor
    · intro same
      have taken := (List.cons.inj same).2
      refine ⟨more, ?_⟩
      rw [← taken, List.reverse_reverse, List.append_assoc]
      rw [rest] at whole
      exact whole
    · rintro ⟨behind, shape⟩
      have taken : name.reverse.takeWhile (· != 46) = e.reverse := by
        rw [← shape, List.append_assoc, List.takeWhile_append_of_pos others]
        simp
      rw [taken, List.reverse_reverse]

end Reckoner.Path
