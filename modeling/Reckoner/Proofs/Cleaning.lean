import Mathlib.Data.List.Basic
import Reckoner.Path

/-! # The elements of clean paths

What cleaning keeps is settled: reading it once more keeps all of it.  So a
clean path has the elements of the path it came from (`cleanElements_clean`),
and joining a name to a path adds one element (`cleanElements_join`). -/
set_option autoImplicit false
namespace Reckoner.Path

/-- Can stand between two slashes and names something there. -/
structure IsElement (e : Text) : Prop where
  nonempty : e ≠ []
  notDot : e ≠ dot
  unslashed : slash ∉ e

/-- A name that a directory can have for an entry. -/
structure IsName (e : Text) : Prop extends IsElement e where
  notDotDot : e ≠ dotDot

instance (e : Text) : Decidable (IsName e) :=
  decidable_of_iff ((e ≠ [] ∧ e ≠ dot ∧ slash ∉ e) ∧ e ≠ dotDot)
    ⟨fun ⟨⟨nonempty, notDot, unslashed⟩, notDotDot⟩ => ⟨⟨nonempty, notDot, unslashed⟩, notDotDot⟩,
      fun name => ⟨⟨name.nonempty, name.notDot, name.unslashed⟩, name.notDotDot⟩⟩

section Elements
variable {rooted : Bool} {kept : List Text} {e : Text}

theorem pushElement_skip (skipped : e = [] ∨ e = dot) : pushElement rooted kept e = kept := by
  rcases skipped with rfl | rfl
  · simp [pushElement]
  · simp [pushElement]

theorem pushElement_name (nonempty : e ≠ []) (notDot : e ≠ dot) (notDotDot : e ≠ dotDot) :
    pushElement rooted kept e = e :: kept := by
  simp [pushElement, nonempty, notDot, notDotDot]

/-- Elements, given in reverse, that are all kept when they are read again. -/
structure Settled (rooted : Bool) (kept : List Text) : Prop where
  again : kept.reverse.foldl (pushElement rooted) [] = kept
  elements : ∀ e ∈ kept, IsElement e

theorem settled_nil : Settled rooted [] := ⟨rfl, by simp⟩

/-- Another element that is put in front stays there. -/
theorem Settled.cons (settled : Settled rooted kept) (element : IsElement e)
    (pushed : pushElement rooted kept e = e :: kept) : Settled rooted (e :: kept) := by
  refine ⟨?_, List.forall_mem_cons.mpr ⟨element, settled.elements⟩⟩
  rw [List.reverse_cons, List.foldl_append, settled.again]
  exact pushed

theorem Settled.tail (settled : Settled rooted (e :: kept)) (notDotDot : e ≠ dotDot) :
    Settled rooted kept := by
  obtain ⟨element, others⟩ := List.forall_mem_cons.mp settled.elements
  have again := settled.again
  rw [List.reverse_cons, List.foldl_append, List.foldl_cons, List.foldl_nil,
    pushElement_name element.nonempty element.notDot notDotDot] at again
  exact ⟨List.tail_eq_of_cons_eq again, others⟩

theorem Settled.push (settled : Settled rooted kept) (unslashed : slash ∉ e) :
    Settled rooted (pushElement rooted kept e) := by
  by_cases skipped : e = [] ∨ e = dot
  · rwa [pushElement_skip skipped]
  obtain ⟨nonempty, notDot⟩ := not_or.mp skipped
  have element : IsElement e := ⟨nonempty, notDot, unslashed⟩
  by_cases up : e = dotDot
  · subst up
    -- A `..` takes the element before it away, unless that is a `..` as well.
    cases kept with
    | nil =>
      cases rooted with
      | true => exact settled_nil
      | false => exact settled_nil.cons element rfl
    | cons last before =>
      by_cases again : last = dotDot
      · have pushed : pushElement rooted (last :: before) dotDot = dotDot :: last :: before := by
          simp [pushElement, nonempty, notDot, again]
        rw [pushed]
        exact settled.cons element pushed
      · have popped : pushElement rooted (last :: before) dotDot = before := by
          simp [pushElement, nonempty, notDot, again]
        rw [popped]
        exact settled.tail again
  · rw [pushElement_name nonempty notDot up]
    exact settled.cons element (pushElement_name nonempty notDot up)

theorem settled_foldl {elements : List Text} (settled : Settled rooted kept)
    (unslashed : ∀ e ∈ elements, slash ∉ e) :
    Settled rooted (elements.foldl (pushElement rooted) kept) := by
  induction elements generalizing kept with
  | nil => exact settled
  | cons e rest ih =>
    obtain ⟨first, others⟩ := List.forall_mem_cons.mp unslashed
    exact ih (settled.push first) others

end Elements

theorem not_mem_splitOn (p : Text) : ∀ e ∈ p.splitOn slash, slash ∉ e := by
  induction p with
  | nil => simp
  | cons b rest ih =>
    rw [List.splitOn_cons_eq_if_modifyHead]
    split
    · simpa using ih
    next other =>
      obtain ⟨first, more, split⟩ := List.exists_cons_of_ne_nil (List.splitOn_ne_nil slash rest)
      rw [split] at ih ⊢
      simp only [List.modifyHead_cons, List.forall_mem_cons] at ih ⊢
      refine ⟨?_, ih.2⟩
      intro member
      rcases List.mem_cons.mp member with rfl | behind
      · simp at other
      · exact ih.1 behind

theorem settled_cleanElements (p : Text) : Settled (isRooted p) (cleanElements p).reverse := by
  rw [cleanElements, List.reverse_reverse]
  exact settled_foldl settled_nil (not_mem_splitOn p)

theorem splitOn_join {elements : List Text} (nonempty : elements ≠ [])
    (unslashed : ∀ e ∈ elements, slash ∉ e) : (Text.join [slash] elements).splitOn slash = elements :=
  List.splitOn_intercalate slash unslashed nonempty

/-- A text whose split names settled elements has these for its clean elements. -/
theorem cleanElements_of_split {p : Text} {elements : List Text}
    (settled : Settled (isRooted p) elements.reverse)
    (split : (p.splitOn slash).foldl (pushElement (isRooted p)) [] =
      elements.foldl (pushElement (isRooted p)) []) : cleanElements p = elements := by
  have again := settled.again
  rw [List.reverse_reverse] at again
  rw [cleanElements, split, again, List.reverse_reverse]

theorem cleanElements_clean (p : Text) : cleanElements (clean p) = cleanElements p := by
  have settled := settled_cleanElements p
  have element : ∀ e ∈ cleanElements p, IsElement e := fun e member =>
    settled.elements e (List.mem_reverse.mpr member)
  cases kept : cleanElements p with
  | nil =>
    by_cases rooted : isRooted p = true
    · simp only [clean, kept, rooted, if_true]
      decide
    · simp only [clean, kept, rooted]
      decide
  | cons first more =>
    rw [kept] at settled element
    have body : (Text.join [slash] (first :: more)).splitOn slash = first :: more :=
      splitOn_join (by simp) fun e member => (element e member).unslashed
    by_cases rooted : isRooted p = true
    · have shape : clean p = [] ++ slash :: Text.join [slash] (first :: more) := by
        simp [clean, kept, rooted]
      have rooted' : isRooted (clean p) = true := by simp [shape, isRooted]
      apply cleanElements_of_split
      · rwa [rooted', ← rooted]
      · rw [shape, List.splitOn_append_cons_self, body]
        rfl
    · obtain ⟨b, tail, rfl⟩ := List.exists_cons_of_ne_nil (element first List.mem_cons_self).nonempty
      obtain ⟨rest, join⟩ : ∃ rest, Text.join [slash] ((b :: tail) :: more) = b :: rest := by
        cases more with
        | nil => exact ⟨tail, by simp [Text.join]⟩
        | cons second others =>
          exact ⟨_, by rw [Text.join, List.intercalate_cons_cons]; rfl⟩
      have shape : clean p = Text.join [slash] ((b :: tail) :: more) := by
        simp [clean, kept, rooted, join]
      have other : b ≠ slash := by
        rintro rfl
        exact (element _ List.mem_cons_self).unslashed List.mem_cons_self
      have rooted' : isRooted (clean p) = isRooted p := by
        rw [shape, join]
        simpa [isRooted, other] using rooted
      apply cleanElements_of_split
      · rwa [rooted']
      · rw [shape, body]

theorem cleanElements_below {dir name : Text} (dirNonempty : dir ≠ []) (isName : IsName name) :
    cleanElements (dir ++ slash :: name) = cleanElements dir ++ [name] := by
  have rooted : isRooted (dir ++ slash :: name) = isRooted dir := by
    obtain ⟨b, rest, rfl⟩ := List.exists_cons_of_ne_nil dirNonempty
    rfl
  unfold cleanElements
  rw [rooted, List.splitOn_append_cons_self, List.splitOn_eq_singleton isName.unslashed,
    List.foldl_append, List.foldl_cons, List.foldl_nil,
    pushElement_name isName.nonempty isName.notDot isName.notDotDot, List.reverse_cons]

theorem cleanElements_join {dir name : Text} (dirNonempty : dir ≠ []) (isName : IsName name) :
    cleanElements (join dir name) = cleanElements dir ++ [name] := by
  have below : join dir name = clean (dir ++ slash :: name) := by
    simp [join, dirNonempty, isName.nonempty]
  rw [below, cleanElements_clean, cleanElements_below dirNonempty isName]

end Reckoner.Path
