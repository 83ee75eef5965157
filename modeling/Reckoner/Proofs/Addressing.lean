import Reckoner.Proofs.Detours
import Reckoner.Proofs.Dialogue
import Reckoner.Proofs.Numerals

/-! # File addresses name clean paths

A file address consists of parts (`Parts`), of which only the path, unescaped and
cleaned, tells the file (`toPath_text`).  A rooted clean path is named by the
address that escapes it, and two addresses name the same file exactly if their
unescaped paths differ by detours (`toPath_canonical`). -/
set_option autoImplicit false
namespace Reckoner

namespace Percent

theorem decode_encode {plain : UInt8 → Bool} (escaped : plain 37 = false) (t : Text) :
    decode (encode plain t) = some t := by
  refine decodeOnto_flatMap (fun b done rest => ?_) t
  split
  next stands =>
    have percent : b ≠ 37 := by
      rintro rfl
      rw [escaped] at stands
      cases stands
    exact decodeOnto_plain percent rfl done rest
  next => exact decodeOnto_escape false done b rest

theorem of_mem_encode {plain : UInt8 → Bool} {t : Text} {b : UInt8} (member : b ∈ encode plain t) :
    plain b = true ∨ b = 37 ∨ isUnreserved b = true := by
  obtain ⟨c, _, inside⟩ := List.mem_flatMap.mp member
  split at inside
  next stands =>
    rw [List.mem_singleton.mp inside]
    exact .inl stands
  next =>
    obtain ⟨high, low⟩ := nibbles_lt c
    rw [escape_eq] at inside
    simp only [List.mem_cons, List.not_mem_nil, or_false] at inside
    rcases inside with rfl | rfl | rfl
    · exact .inr (.inl rfl)
    · exact .inr (.inr (isUnreserved_digit high))
    · exact .inr (.inr (isUnreserved_digit low))

/-- What is decoded already stays in front. -/
theorem prefix_of_decodeOnto {plus : Bool} {done : Array UInt8} {t p : Text}
    (decoded : decodeOnto plus done t = some p) : done.toList <+: p := by
  have pushed : ∀ {done : Array UInt8} {c : UInt8}, (done.push c).toList <+: p → done.toList <+: p := by
    intro done c longer
    rw [Array.toList_push] at longer
    exact (List.prefix_append done.toList [c]).trans longer
  fun_induction decodeOnto plus done t with
  | case1 done =>
    cases decoded
    exact List.prefix_rfl
  | case2 done high low more h l _ _ ih => exact pushed (ih decoded)
  | case3 => cases decoded
  | case4 => cases decoded
  | case5 done b rest _ _ ih => exact pushed (ih decoded)
  | case6 done b rest _ _ ih => exact pushed (ih decoded)

end Percent

namespace FileUri

/-! ## The parts of an address -/

/-- A text behind its mark, if there is one. -/
def marked (mark : UInt8) (t : Option Text) : Text := t.elim [] (mark :: ·)

theorem cut_marked {mark : UInt8} {t : Text} (unmarked : mark ∉ t) (behind : Option Text) :
    Text.cut mark (t ++ marked mark behind) = (t, behind) := by
  cases behind with
  | none =>
    rw [marked, Option.elim_none, List.append_nil]
    exact Text.cut_of_not_mem unmarked
  | some rest => exact Web.Form.cut_append unmarked rest

theorem exists_marked (mark : UInt8) (t : Text) :
    ∃ before behind, t = before ++ marked mark behind ∧ mark ∉ before := by
  induction t with
  | nil => exact ⟨[], none, rfl, List.not_mem_nil⟩
  | cons b rest ih =>
    by_cases here : b = mark
    · subst here
      exact ⟨[], some rest, rfl, List.not_mem_nil⟩
    · obtain ⟨before, behind, split, unmarked⟩ := ih
      refine ⟨b :: before, behind, by rw [split, List.cons_append], ?_⟩
      exact List.not_mem_cons_of_ne_of_not_mem (Ne.symm here) unmarked

/-- The parts that a file address is written of, none of which holds a mark that
would end it. -/
structure Parts where
  authority : Text
  path : Text
  query : Option Text := none
  fragment : Option Text := none
  authority_ends : ∀ b ∈ authority, b ≠ Path.slash ∧ b ≠ 63 ∧ b ≠ 35
  path_begins : path = [] ∨ Path.isRooted path = true
  path_ends : ∀ b ∈ path, b ≠ 63 ∧ b ≠ 35
  query_ends : ∀ q ∈ query, (35 : UInt8) ∉ q

namespace Parts
variable (a : Parts)

/-- Everything in front of the fragment. -/
def address : Text := (a.authority ++ a.path) ++ marked 63 a.query

def text : Text := scheme ++ (a.address ++ marked 35 a.fragment)

/-- Nothing apart from the path is malformed. -/
def isProper : Bool :=
  !a.address.any isControl && isAuthority a.authority &&
    (Percent.decode (a.fragment.getD [])).isSome

theorem not_mem_address : (35 : UInt8) ∉ a.address := by
  intro member
  rcases List.mem_append.mp member with located | query
  · rcases List.mem_append.mp located with authority | path
    · exact (a.authority_ends _ authority).2.2 rfl
    · exact (a.path_ends _ path).2 rfl
  · cases asked : a.query with
    | none => simp [marked, asked] at query
    | some q =>
      rw [marked, asked, Option.elim_some] at query
      rcases List.mem_cons.mp query with mark | inside
      · cases mark
      · exact a.query_ends q asked inside

theorem not_mem_located : (63 : UInt8) ∉ a.authority ++ a.path := by
  intro member
  rcases List.mem_append.mp member with authority | path
  · exact (a.authority_ends _ authority).2.1 rfl
  · exact (a.path_ends _ path).1 rfl

end Parts

theorem dropHead?_append (head t : Text) : Text.dropHead? head (head ++ t) = some t := by
  simp [Text.dropHead?]

/-- Only the unescaped path tells what an address names. -/
theorem toPath_text (a : Parts) :
    toPath a.text = if a.isProper then (Percent.decode a.path).map Path.clean else none := by
  have stops : a.path.Stops (· != Path.slash) := by
    intro b member
    rcases a.path_begins with empty | rooted
    · rw [empty] at member
      cases member
    · have first : a.path.head? = some Path.slash := by simpa [Path.isRooted] using rooted
      cases first.symm.trans member
      rfl
  have slashless : ∀ b ∈ a.authority, (b != Path.slash) = true := fun b member =>
    bne_iff_ne.mpr (a.authority_ends b member).1
  have authority : (a.authority ++ a.path).takeWhile (· != Path.slash) = a.authority :=
    Text.takeWhile_run slashless stops
  have path : (a.authority ++ a.path).dropWhile (· != Path.slash) = a.path :=
    Text.dropWhile_run slashless stops
  have located : Text.cut 63 a.address = (a.authority ++ a.path, a.query) :=
    cut_marked a.not_mem_located a.query
  rw [toPath, Parts.text, dropHead?_append, Parts.isProper]
  simp only [cut_marked a.not_mem_address, located, authority, path]
  cases a.address.any isControl <;> cases isAuthority a.authority <;>
    cases Percent.decode (a.fragment.getD []) <;> rfl

theorem exists_parts {u : Text} (begins : scheme <+: u) : ∃ a : Parts, a.text = u := by
  obtain ⟨rest, rfl⟩ := begins
  obtain ⟨address, fragment, behind, unfragmented⟩ := exists_marked 35 rest
  obtain ⟨located, query, asked, unasked⟩ := exists_marked 63 address
  have split : located.takeWhile (· != Path.slash) ++ located.dropWhile (· != Path.slash) = located :=
    List.takeWhile_append_dropWhile
  have inside : ∀ b ∈ located, b ≠ 63 ∧ b ≠ 35 := by
    intro b member
    refine ⟨fun same => unasked (same ▸ member), fun same => unfragmented ?_⟩
    rw [asked, ← same]
    exact List.mem_append_left _ member
  refine ⟨⟨located.takeWhile (· != Path.slash), located.dropWhile (· != Path.slash), query,
    fragment, ?_, ?_, ?_, ?_⟩, ?_⟩
  · intro b member
    have other : (b != Path.slash) = true := List.mem_takeWhile_imp (p := (· != Path.slash)) member
    exact ⟨bne_iff_ne.mp other, inside b (List.takeWhile_subset _ member)⟩
  · cases path : located.dropWhile (· != Path.slash) with
    | nil => exact .inl rfl
    | cons b more =>
      right
      have stopped := List.head?_dropWhile_not (· != Path.slash) located
      rw [path] at stopped
      simpa [Path.isRooted] using stopped
  · intro b member
    exact inside b (List.dropWhile_subset _ member)
  · intro q given mark
    rw [given] at asked
    refine unfragmented ?_
    rw [asked]
    exact List.mem_append_right _ (List.mem_cons_of_mem _ mark)
  · rw [Parts.text, Parts.address]
    simp only [split, ← asked, ← behind]

/-- A file address with nothing malformed in it, and the path that it holds, unescaped. -/
def Holds (u p : Text) : Prop :=
  ∃ a : Parts, a.text = u ∧ a.isProper = true ∧ Percent.decode a.path = some p

theorem Holds.toPath {u p : Text} (holds : Holds u p) : toPath u = some (Path.clean p) := by
  obtain ⟨a, rfl, proper, path⟩ := holds
  rw [toPath_text, proper, path]
  rfl

theorem exists_holds {u q : Text} (begins : scheme <+: u) (named : toPath u = some q) :
    ∃ p, Holds u p ∧ Path.clean p = q := by
  obtain ⟨a, rfl⟩ := exists_parts begins
  rw [toPath_text, Option.ite_none_right_eq_some, Option.map_eq_some_iff] at named
  obtain ⟨proper, p, path, cleaned⟩ := named
  exact ⟨p, ⟨a, rfl, proper, path⟩, cleaned⟩

/-- An address holds a path from the root, or none. -/
theorem Holds.rooted {u p : Text} (holds : Holds u p) : p = [] ∨ Path.isRooted p = true := by
  obtain ⟨a, _, _, path⟩ := holds
  rcases a.path_begins with empty | rooted
  · rw [empty] at path
    exact .inl (Option.some.inj path).symm
  · right
    cases written : a.path with
    | nil => simp [written, Path.isRooted] at rooted
    | cons b rest =>
      rw [written] at path rooted
      have first : b = Path.slash := by simpa [Path.isRooted] using rooted
      rw [first, Percent.decode, Percent.decodeOnto_plain (by decide) rfl] at path
      obtain ⟨more, rfl⟩ := Percent.prefix_of_decodeOnto path
      rfl

/-! ## The address of a path -/

/-- What an escaped path leaves as it is. -/
def isPathByte (b : UInt8) : Bool := b = Path.slash || Percent.isUnreserved b

/-- The address of a path, with no authority. -/
def ofPath (p : Text) : Text := scheme ++ Percent.encode isPathByte p

theorem mem_encode {p : Text} {b : UInt8} (member : b ∈ Percent.encode isPathByte p) :
    b ≠ 63 ∧ b ≠ 35 ∧ isControl b = false := by
  have unreserved : ∀ {b : UInt8}, Percent.isUnreserved b = true →
      b ≠ 63 ∧ b ≠ 35 ∧ isControl b = false := by
    intro b plain
    refine ⟨Percent.ne_of_isUnreserved plain rfl, Percent.ne_of_isUnreserved plain rfl, ?_⟩
    have printable : 32 ≤ b.toNat ∧ b.toNat ≠ 127 := by
      simp [Percent.isUnreserved, Percent.isLetterOrDigit, Text.isDigit, UInt8.le_iff_toNat_le,
        ← UInt8.toNat_inj] at plain
      omega
    simpa [isControl, ← UInt8.toNat_inj, UInt8.lt_iff_toNat_lt] using printable
  rcases Percent.of_mem_encode member with stands | rfl | digit
  · rcases Bool.or_eq_true_iff.mp stands with slash | plain
    · rw [of_decide_eq_true slash]
      decide
    · exact unreserved plain
  · decide
  · exact unreserved digit

theorem holds_ofPath {p : Text} (rooted : Path.isRooted p = true) : Holds (ofPath p) p := by
  have begins : Path.isRooted (Percent.encode isPathByte p) = true := by
    cases p with
    | nil => cases rooted
    | cons b rest =>
      have first : b = Path.slash := by simpa [Path.isRooted] using rooted
      rw [first]
      rfl
  let a : Parts := {
    authority := []
    path := Percent.encode isPathByte p
    authority_ends := by simp
    path_begins := .inr begins
    path_ends := fun b member => ⟨(mem_encode member).1, (mem_encode member).2.1⟩
    query_ends := by simp }
  have address : a.address = Percent.encode isPathByte p := by simp [Parts.address, a, marked]
  refine ⟨a, ?_, ?_, Percent.decode_encode (by decide) p⟩
  · simp [Parts.text, address, a, marked, ofPath]
  · have printable : a.address.any isControl = false := by
      rw [address, List.any_eq_false]
      intro b member
      simp [(mem_encode member).2.2]
    have nothing : isAuthority [] = true := by decide
    rw [Parts.isProper, printable, nothing]
    rfl

/-! ## What addresses name -/

theorem toPath_eq_iff {u v p r : Text} (one : Holds u p) (other : Holds v r) :
    toPath u = toPath v ↔ Relation.EqvGen Path.Detour p r := by
  rw [one.toPath, other.toPath, Option.some.injEq]
  rcases one.rooted with empty | rooted
  · constructor
    · intro same
      have unrooted : Path.isRooted r = false := by
        rw [← Path.isRooted_clean, ← same, Path.isRooted_clean, empty]
        rfl
      have likewise : r = [] := other.rooted.resolve_right (by simp [unrooted])
      rw [empty, likewise]
      exact .refl []
    · exact Path.clean_eq_of_detours
  · exact Path.clean_eq_iff rooted

/-- Content that is brought to a document is shown under every address of its path. -/
theorem hover_alike {u v q content : Text} {disk : Disk} {m : Editor.Message}
    (same : toPath u = toPath v) (s : Editor.Session) (later : Disk)
    (edits : m.Edits disk u q content) :
    ((s.handle disk m).1.handle later (.hover v)).2.answer =
      .hover (Editor.hoverText (SourceFile.ofContent q content).report) := by
  have stored := Editor.Session.get?_handle_brings (s := s) (t := (disk, m)) (.edit edits)
  exact Editor.Session.hover_found (same.symm.trans edits.named) stored

/-- Every rooted clean path is named by its address.  Every file address that
names something names a clean path, and of two of them that name something both
name the same exactly if their unescaped paths differ by detours: whatever is
brought to a document under one address is then shown under the other. -/
theorem toPath_canonical :
    (∀ p, Path.isRooted p = true → Path.clean p = p → toPath (ofPath p) = some p) ∧
    (∀ u q, scheme <+: u → toPath u = some q →
      Path.clean q = q ∧ ∃ p, Holds u p ∧ Path.clean p = q) ∧
    ∀ u v p r, Holds u p → Holds v r →
      toPath u = some (Path.clean p) ∧
      (toPath u = toPath v ↔ Relation.EqvGen Path.Detour p r) ∧
      (Relation.EqvGen Path.Detour p r → ∀ (s : Editor.Session) disk later m q content,
        Editor.Message.Edits disk m u q content →
        ((s.handle disk m).1.handle later (.hover v)).2.answer =
          .hover (Editor.hoverText (SourceFile.ofContent q content).report)) := by
  refine ⟨?_, ?_, ?_⟩
  · intro p rooted clean
    rw [(holds_ofPath rooted).toPath, clean]
  · intro u q begins named
    obtain ⟨p, holds, rfl⟩ := exists_holds begins named
    exact ⟨Path.clean_clean p, p, holds, rfl⟩
  · intro u v p r one other
    have alike := toPath_eq_iff one other
    refine ⟨one.toPath, alike, ?_⟩
    intro differ s disk later m q content edits
    exact hover_alike (alike.mpr differ) s later edits

theorem holds_crossed : Holds (utf8 "file:///b/..//a/%C3%a9/") (utf8 "/b/..//a/é/") := by
  let a : Parts := {
    authority := []
    path := utf8 "/b/..//a/%C3%a9/"
    authority_ends := by simp
    path_begins := by decide +kernel
    path_ends := by decide +kernel
    query_ends := by simp }
  exact ⟨a, by cbv, by cbv, by cbv⟩

theorem holds_queried : Holds (utf8 "file://host/a/./é?q#f") (utf8 "/a/./é") := by
  let a : Parts := {
    authority := utf8 "host"
    path := utf8 "/a/./é"
    query := some (utf8 "q")
    fragment := some (utf8 "f")
    authority_ends := by decide +kernel
    path_begins := by decide +kernel
    path_ends := by decide +kernel
    query_ends := by decide }
  exact ⟨a, by cbv, by cbv, by cbv⟩

theorem toPath_canonical_crossed :
    toPath (ofPath (utf8 "/a/é")) = some (utf8 "/a/é") ∧
    toPath (utf8 "file:///b/..//a/%C3%a9/") = toPath (utf8 "file://host/a/./é?q#f") := by
  obtain ⟨named, _, alike⟩ := toPath_canonical
  have same : Path.clean (utf8 "/b/..//a/é/") = Path.clean (utf8 "/a/./é") := by decide +kernel
  have differ := (Path.clean_eq_iff (by decide +kernel)).mp same
  refine ⟨named _ (by decide +kernel) (by decide +kernel), ?_⟩
  exact (alike _ _ _ _ holds_crossed holds_queried).2.1.mpr differ

end FileUri
end Reckoner
