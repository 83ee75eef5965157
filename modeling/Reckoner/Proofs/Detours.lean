import Mathlib.Logic.Relation
import Reckoner.Proofs.Spelling

/-! # Detours in paths

A path makes a detour where it repeats a slash, stays with a `.`, goes up again
with `..`, goes up from the root, or ends with a slash (`Detour`).  Cleaning takes
one detour after the other away (`reaches_clean`) and looks at nothing else, so
rooted paths have the same clean spelling if and only if they differ by detours
(`clean_eq_iff`). -/
set_option autoImplicit false
namespace Reckoner.Path

/-- An element ends here: nothing follows, or a slash. -/
def Bounded (t : Text) : Prop := ∀ b ∈ t.head?, b = slash

/-- The first path makes a detour that the second one does not make.  The slash of
the root itself is none: the empty path does not begin at the root. -/
inductive Detour : Text → Text → Prop
  | slashes (before behind : Text) :
    Detour (before ++ slash :: slash :: behind) (before ++ slash :: behind)
  | trailing {path : Text} (nonempty : path ≠ []) : Detour (path ++ [slash]) path
  | stay (before : Text) {behind : Text} (ends : Bounded behind) :
    Detour (before ++ slash :: (dot ++ behind)) (before ++ slash :: behind)
  | up (before : Text) {name behind : Text} (named : IsName name) (ends : Bounded behind) :
    Detour (before ++ slash :: (name ++ slash :: (dotDot ++ behind))) (before ++ slash :: behind)
  | root {behind : Text} (ends : Bounded behind) :
    Detour (slash :: (dotDot ++ behind)) (slash :: behind)

/-! ## Cleaning does not see them -/

/-- The elements behind the end of one. -/
def following : Text → List Text
  | [] => []
  | _ :: rest => rest.splitOn slash

theorem splitOn_bounded {e behind : Text} (unslashed : slash ∉ e) (ends : Bounded behind) :
    (e ++ behind).splitOn slash = e :: following behind := by
  cases behind with
  | nil => rw [List.append_nil, following, List.splitOn_eq_singleton unslashed]
  | cons b rest =>
    rw [ends b rfl, List.splitOn_append_cons_self, List.splitOn_eq_singleton unslashed]
    rfl

theorem isRooted_append_cons (before : Text) (b : UInt8) (t u : Text) :
    isRooted (before ++ b :: t) = isRooted (before ++ b :: u) := by
  cases before <;> rfl

section Kept
variable {rooted : Bool} {kept : List Text} {name : Text}

theorem pushElement_nil : pushElement rooted kept [] = kept := pushElement_skip (.inl rfl)

theorem pushElement_dot : pushElement rooted kept dot = kept := pushElement_skip (.inr rfl)

theorem pushElement_up (named : IsName name) : pushElement rooted (name :: kept) dotDot = kept := by
  rw [pushElement, if_neg (by decide), if_pos rfl]
  simp [named.notDotDot]

theorem pushElement_named (named : IsName name) : pushElement rooted kept name = name :: kept :=
  pushElement_name named.nonempty named.notDot named.notDotDot

end Kept

section Detours
variable {p q : Text} (detour : Detour p q)
include detour

theorem Detour.isRooted_eq : isRooted p = isRooted q := by
  cases detour with
  | slashes before behind => exact isRooted_append_cons ..
  | trailing nonempty =>
    obtain ⟨b, rest, rfl⟩ := List.exists_cons_of_ne_nil nonempty
    rfl
  | stay before ends => exact isRooted_append_cons ..
  | up before named ends => exact isRooted_append_cons ..
  | root ends => rfl

theorem Detour.cleanElements_eq : cleanElements p = cleanElements q := by
  have split : ∀ before behind : Text,
      (before ++ slash :: behind).splitOn slash = before.splitOn slash ++ behind.splitOn slash :=
    List.splitOn_append_cons_self
  have empty : ∀ {t : Text}, Bounded t → t.splitOn slash = [] :: following t := fun ends =>
    splitOn_bounded List.not_mem_nil ends
  unfold cleanElements
  rw [← detour.isRooted_eq]
  generalize whether : isRooted p = rooted
  apply congrArg List.reverse
  cases detour with
  | slashes before behind =>
    have doubled : (slash :: behind).splitOn slash = [] :: behind.splitOn slash := split [] behind
    rw [split, split, doubled, List.foldl_append, List.foldl_append, List.foldl_cons,
      pushElement_nil]
  | @trailing q _ =>
    have ended : (q ++ [slash]).splitOn slash = q.splitOn slash ++ [[]] := split q []
    rw [ended, List.foldl_append, List.foldl_cons, List.foldl_nil, pushElement_nil]
  | @stay before behind ends =>
    rw [split, split, splitOn_bounded (by decide) ends, empty ends, List.foldl_append,
      List.foldl_append, List.foldl_cons, List.foldl_cons, pushElement_dot, pushElement_nil]
  | @up before name behind named ends =>
    rw [split, split, split, List.splitOn_eq_singleton named.unslashed, List.singleton_append,
      splitOn_bounded (by decide) ends, empty ends, List.foldl_append, List.foldl_append,
      List.foldl_cons, List.foldl_cons, List.foldl_cons, pushElement_named named,
      pushElement_up named, pushElement_nil]
  | @root behind ends =>
    have first : ∀ t : Text, (slash :: t).splitOn slash = [] :: t.splitOn slash := split []
    -- At the root there is nothing to go up from.
    have top : pushElement rooted [] dotDot = [] := by
      rw [← whether]
      rfl
    rw [first, first, splitOn_bounded (by decide) ends, empty ends, List.foldl_cons,
      List.foldl_cons, List.foldl_cons, List.foldl_cons, pushElement_nil, top, pushElement_nil]

theorem Detour.clean_eq : clean p = clean q := by
  rw [Path.clean_eq p, Path.clean_eq q, detour.isRooted_eq, detour.cleanElements_eq]

end Detours

/-! ## Cleaning takes them away -/

/-- The elements of a rooted path, each behind its slash. -/
def below (elements : List Text) : Text := elements.flatMap (slash :: ·)

theorem below_append (elements more : List Text) :
    below (elements ++ more) = below elements ++ below more := List.flatMap_append

theorem below_cons (e : Text) (more : List Text) : below (e :: more) = slash :: (e ++ below more) :=
  rfl

theorem bounded_below (elements : List Text) : Bounded (below elements) := by
  cases elements with
  | nil => simp [Bounded, below]
  | cons e rest => simp [Bounded, below_cons]

theorem below_eq {elements : List Text} (nonempty : elements ≠ []) :
    below elements = slash :: Text.join [slash] elements := by
  induction elements with
  | nil => exact absurd rfl nonempty
  | cons e rest ih =>
    cases rest with
    | nil => simp [below, Text.join]
    | cons next more =>
      rw [below_cons, ih (List.cons_ne_nil next more), Text.join, Text.join,
        List.intercalate_cons_cons]
      simp

/-- Elements that are still to be read, behind those that are kept, in reverse. -/
def Reaches (kept elements : List Text) : Prop :=
  Relation.ReflTransGen Detour (below (kept.reverse ++ elements))
    (spelled true (elements.foldl (pushElement true) kept).reverse)

theorem detour_empty {before behind : List Text} (nonempty : before ++ behind ≠ []) :
    Detour (below (before ++ [] :: behind)) (below (before ++ behind)) := by
  rw [below_append, below_append, below_cons, List.nil_append]
  cases behind with
  | nil =>
    rw [List.append_nil] at nonempty
    have path : below before ≠ [] := by simp [below_eq nonempty]
    simpa [below] using Detour.trailing path
  | cons e more =>
    rw [below_cons]
    exact .slashes (below before) (e ++ below more)

theorem reaches_empty {kept elements : List Text}
    (later : kept.reverse ++ elements ≠ [] → Reaches kept elements) : Reaches kept ([] :: elements) := by
  by_cases empty : kept.reverse ++ elements = []
  · obtain ⟨reversed, rfl⟩ := List.append_eq_nil_iff.mp empty
    rw [List.reverse_eq_nil_iff.mp reversed]
    exact .refl
  · have reaches := later empty
    rw [Reaches, List.foldl_cons, pushElement_nil]
    exact .head (detour_empty empty) reaches

theorem reaches_clean {kept elements : List Text} (named : ∀ n ∈ kept, IsName n)
    (unslashed : ∀ e ∈ elements, slash ∉ e) (nonempty : kept.reverse ++ elements ≠ []) :
    Reaches kept elements := by
  induction elements generalizing kept with
  | nil =>
    rw [List.append_nil] at nonempty
    rw [Reaches, List.append_nil, below_eq nonempty]
    exact .refl
  | cons e rest ih =>
    obtain ⟨first, later⟩ := List.forall_mem_cons.mp unslashed
    have on := bounded_below rest
    by_cases empty : e = []
    · rw [empty]
      exact reaches_empty (ih named later)
    by_cases stays : e = dot
    · have reaches : Reaches kept ([] :: rest) := reaches_empty (ih named later)
      rw [Reaches, List.foldl_cons, pushElement_nil, below_append, below_cons] at reaches
      rw [Reaches, stays, List.foldl_cons, pushElement_dot, below_append, below_cons]
      exact .head (.stay (below kept.reverse) on) reaches
    by_cases goesUp : e = dotDot
    · subst goesUp
      cases kept with
      | nil =>
        have reaches : Reaches [] ([] :: rest) := reaches_empty (ih named later)
        exact .head (.root on) reaches
      | cons n before =>
        obtain ⟨last, others⟩ := List.forall_mem_cons.mp named
        have reaches : Reaches before ([] :: rest) := reaches_empty (ih others later)
        rw [Reaches, List.foldl_cons, pushElement_nil, below_append, below_cons] at reaches
        rw [Reaches, List.foldl_cons, pushElement_up last, List.reverse_cons, List.append_assoc,
          below_append, List.singleton_append, below_cons, below_cons]
        exact .head (.up (below before.reverse) last on) reaches
    · have name : IsName e := ⟨⟨empty, stays, first⟩, goesUp⟩
      have reaches : Reaches (e :: kept) rest :=
        ih (List.forall_mem_cons.mpr ⟨name, named⟩) later (by simp)
      rw [Reaches, List.reverse_cons, List.append_assoc, List.singleton_append] at reaches
      rw [Reaches, List.foldl_cons, pushElement_named name]
      exact reaches

theorem detours_clean {p : Text} (rooted : isRooted p = true) :
    Relation.ReflTransGen Detour p (clean p) := by
  obtain ⟨rest, rfl⟩ : ∃ rest, p = slash :: rest := by
    cases p with
    | nil => cases rooted
    | cons b rest =>
      have first : b = slash := by simpa [isRooted] using rooted
      exact ⟨rest, by rw [first]⟩
  have split : (slash :: rest).splitOn slash = [] :: rest.splitOn slash :=
    List.splitOn_append_cons_self [] rest
  have whole : slash :: rest = below (rest.splitOn slash) := by
    rw [below_eq (List.splitOn_ne_nil slash rest)]
    exact congrArg (slash :: ·) (List.intercalate_splitOn slash).symm
  have reaches : Reaches [] (rest.splitOn slash) :=
    reaches_clean (by simp) (not_mem_splitOn rest) (by simp)
  rw [clean_eq, cleanElements, rooted, split, List.foldl_cons, pushElement_nil]
  rw [Reaches, List.reverse_nil, List.nil_append, ← whole] at reaches
  exact reaches

theorem clean_eq_of_detours {p q : Text} (differ : Relation.EqvGen Detour p q) :
    clean p = clean q := by
  induction differ with
  | rel p q detour => exact detour.clean_eq
  | refl p => rfl
  | symm p q _ same => exact same.symm
  | trans p q r _ _ one other => exact one.trans other

/-- Two paths, one of them rooted, have one clean spelling exactly if they differ
by detours. -/
theorem clean_eq_iff {p q : Text} (rooted : isRooted p = true) :
    clean p = clean q ↔ Relation.EqvGen Detour p q := by
  constructor
  · intro same
    have likewise : isRooted q = true := by rw [← isRooted_clean, ← same, isRooted_clean, rooted]
    have one := Relation.EqvGen.reflTransGen_le_eqvGen Detour _ _ (detours_clean rooted)
    have other := Relation.EqvGen.reflTransGen_le_eqvGen Detour _ _ (detours_clean likewise)
    rw [same] at one
    exact .trans _ _ _ one (.symm _ _ other)
  · exact clean_eq_of_detours

end Reckoner.Path
