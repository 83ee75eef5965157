import Mathlib.Algebra.BigOperators.Group.List.Basic
import Mathlib.Data.List.Count
import Reckoner.Editor.Position
import Reckoner.Proofs.Location

/-! # Positions as an editor counts them

An editor counts the lines before a place, and along its line the 16-bit units
of UTF-16.  Positions count characters.  Both agree exactly where every
character in front of the place on its line is one unit (`length_eq_units`), so
a diagnostic behind a supplementary character is shown too far to the left
(`range_supplementary`). -/
set_option autoImplicit false
namespace Reckoner

/-! ## Characters of a document -/

/-- The number of 16-bit units that encode a character. -/
def utf16Size (c : Char) : Nat := if c.toNat < 0x10000 then 1 else 2

def utf16Length (cs : List Char) : Nat := (cs.map utf16Size).sum

/-- The characters behind the last newline. -/
def lastCharacters (cs : List Char) : List Char := cs.rtakeWhile (· != '\n')

theorem length_le_units (cs : List Char) : cs.length ≤ utf16Length cs := by
  have positive : ∀ n ∈ cs.map utf16Size, 1 ≤ n := by
    intro n member
    obtain ⟨c, _, rfl⟩ := List.mem_map.mp member
    unfold utf16Size
    split <;> omega
  have least := List.length_le_sum_of_one_le _ positive
  rwa [List.length_map] at least

theorem length_eq_units (cs : List Char) :
    cs.length = utf16Length cs ↔ ∀ c ∈ cs, c.toNat < 0x10000 := by
  induction cs with
  | nil => simp [utf16Length]
  | cons c more ih =>
    have least := length_le_units more
    have sum : utf16Length (c :: more) = utf16Size c + utf16Length more := rfl
    rw [List.forall_mem_cons, ← ih, sum, List.length_cons]
    unfold utf16Size
    split <;> omega

theorem bytes_scalars (cs : List Char) :
    (cs.map Rune.scalar).flatMap Rune.bytes = cs.flatMap String.utf8EncodeChar := by
  rw [List.flatMap_map]
  rfl

theorem lastRunes_scalars (cs : List Char) :
    lastRunes (cs.map Rune.scalar) = (lastCharacters cs).map Rune.scalar := by
  have same : (fun c => Rune.scalar c != Rune.newline) = fun c => c != '\n' := by
    funext c
    rw [Bool.eq_iff_iff, bne_iff_ne, bne_iff_ne, Rune.newline]
    simp
  simp only [lastRunes, lastCharacters, List.rtakeWhile, ← List.map_reverse, List.takeWhile_map]
  rw [← same]
  rfl

/-- A faithful position in a document counts the characters before it. -/
theorem Position.Faithful.characters {file : Text} {document : String} {p : Position}
    (faithful : p.Faithful file (utf8 document)) :
    ∃ before, before <+: document.toList ∧
      p.offset = (before.flatMap String.utf8EncodeChar).length ∧
      p.line = 1 + before.count '\n' ∧ p.column = 1 + (lastCharacters before).length := by
  obtain ⟨runes, behind, reading, offset⟩ := faithful.between
  have scalars : runes ++ behind = document.toList.map Rune.scalar :=
    reading.unique.trans (reading_scalars document.toList).unique.symm
  obtain ⟨before, later, split, rfl, _⟩ := List.map_eq_append_iff.mp scalars.symm
  have early : Reading (before.flatMap String.utf8EncodeChar) (before.map Rune.scalar) := by
    rw [← bytes_scalars]
    exact reading.split.1
  rw [bytes_scalars] at offset
  have taken : (utf8 document).take p.offset.toNat = before.flatMap String.utf8EncodeChar := by
    rw [offset, Int.toNat_natCast, utf8, split, List.flatMap_append, List.take_left]
  refine ⟨before, ⟨later, split.symm⟩, offset, ?_, ?_⟩
  · have count := count_newline (sound_of_mem_reading early)
    rw [bytes_scalars, Rune.newline,
      List.count_map_of_injective _ _ fun _ _ same => Rune.scalar.inj same] at count
    rw [faithful.lines, taken, count]
  · obtain ⟨last, found, column⟩ := faithful.columns
    rw [taken] at found
    have same := found.unique.trans (reading_lastLine early).unique.symm
    rw [column, same, lastRunes_scalars, List.length_map]

/-! ## Diagnostics of a report -/

/-- The diagnostics of a report stand at illegal runes, at tokens or at the end
of input. -/
theorem span_of_mem_diagnostics {file source : Text} {d : Diagnostic}
    (member : d ∈ (compileAt file source).diagnostics) :
    d ∈ (scan file source).diagnostics ∨ (∃ t ∈ (scan file source).tokens, d.span = t.span) ∨
      d.span = Evaluator.endOf file (scan file source).tokens := by
  rcases List.mem_append.mp member with scanned | evaluated
  · exact Or.inl scanned
  · have added : d ∈ (Evaluator.start file (scan file source).tokens).added := evaluated
    rcases Evaluator.mem_added added with ⟨_, atEnd | token⟩ | ⟨a, aborts, rfl⟩
    · exact Or.inr (Or.inr atEnd)
    · exact Or.inr (Or.inl token)
    · obtain ⟨_, ⟨_, t, inside, _, span⟩, _⟩ := Evaluator.next_aborts aborts
      exact Or.inr (Or.inl ⟨t, inside, span⟩)

theorem faithful_of_mem_diagnostics {file source : Text} {d : Diagnostic}
    (member : d ∈ (compileAt file source).diagnostics) : d.span.Faithful file source := by
  rcases span_of_mem_diagnostics member with scanned | ⟨t, inside, span⟩ | atEnd
  · exact faithful_note scanned
  · rw [span]
    exact faithful_token inside
  · rw [atEnd]
    exact faithful_endOf

/-! ## Ranges -/

namespace Editor

/-- The line and the character of a place as the protocol defines them, given
the characters before it. -/
def EditorPosition.Conforms (p : EditorPosition) (before : List Char) : Prop :=
  p.line.toNat = before.count '\n' ∧ p.character.toNat = utf16Length (lastCharacters before)

/-- One end of a range, at a place in a document: its line is right, its character
counts characters, and so it conforms exactly if all of them are one unit. -/
def Placed (document : String) (offset : Int) (p : EditorPosition) : Prop :=
  ∃ before, before <+: document.toList ∧
    offset = (before.flatMap String.utf8EncodeChar).length ∧
    p.line.toNat = before.count '\n' ∧ p.character.toNat = (lastCharacters before).length ∧
    (p.Conforms before ↔ ∀ c ∈ lastCharacters before, c.toNat < 0x10000)

theorem toNat_coordinate {n : Nat} (small : n < 2 ^ 32) : (coordinate (1 + n)).toNat = n := by
  have same : Int.bmod (1 + (n : Int) - 1) (Nat.pow 2 64) = n := by
    have width : Nat.pow 2 64 = 18446744073709551616 := by decide
    have shift : 1 + (n : Int) - 1 = n := by omega
    rw [width, shift]
    exact Int.bmod_eq_of_le (by omega) (by omega)
  rw [coordinate, same, Int.toNat_natCast, UInt32.toNat_ofNat']
  exact Nat.mod_eq_of_lt small

theorem length_le_bytes (cs : List Char) :
    cs.length ≤ (cs.flatMap String.utf8EncodeChar).length := by
  induction cs with
  | nil => exact Nat.le_refl 0
  | cons c more ih =>
    have positive := Char.utf8Size_pos c
    rw [List.flatMap_cons, List.length_append, String.length_utf8EncodeChar, List.length_cons]
    omega

theorem placed_of_faithful {file : Text} {document : String} {p : Position}
    (short : (utf8 document).length < 2 ^ 32) (faithful : p.Faithful file (utf8 document)) :
    Placed document p.offset (positionOf p) := by
  obtain ⟨before, begins, offset, line, column⟩ := faithful.characters
  have size : before.length < 2 ^ 32 := by
    have least := length_le_bytes before
    have high := faithful.high
    omega
  have lines : (positionOf p).line.toNat = before.count '\n' := by
    rw [positionOf, line]
    exact toNat_coordinate (Nat.lt_of_le_of_lt List.count_le_length size)
  have characters : (positionOf p).character.toNat = (lastCharacters before).length := by
    rw [positionOf, column]
    refine toNat_coordinate (Nat.lt_of_le_of_lt ?_ size)
    exact (List.rtakeWhile_suffix _ before).length_le
  refine ⟨before, begins, offset, lines, characters, ?_⟩
  rw [EditorPosition.Conforms, lines, characters, length_eq_units]
  simp

/-- The second of two illegal characters, the first of which is two units. -/
theorem diagnostics_supplementary (file : Text) :
    Diagnostic.illegal (.scalar '$') ⟨⟨file, 4, 1, 2⟩, ⟨file, 5, 1, 3⟩⟩ ∈
      (compileFile file (utf8 "😀$")).diagnostics := by
  let xs : List Piece := [.illegal (.scalar '😀'), .illegal (.scalar '$')]
  have illegal : ∀ c : Char, (Rune.scalar c).scanClass = .illegal →
      (Piece.illegal (.scalar c)).Written := fun c kind =>
    ⟨Rune.scanClass_illegal kind, fun _ inside => ⟨c, List.mem_singleton.mp inside⟩⟩
  have written : ∀ x ∈ xs, x.Written :=
    List.forall_mem_cons.mpr ⟨illegal '😀' (by decide),
      List.forall_mem_singleton.mpr (illegal '$' (by decide))⟩
  have apart : xs.IsChain Apart := by simp [xs, Apart, Piece.isNumber]
  have cut : pieces (utf8 "😀$") = xs := by
    have text : utf8 "😀$" = xs.flatMap Piece.bytes := by decide
    rw [text, pieces_bytes written apart]
  refine List.mem_append_left _ ?_
  rw [scan_eq, cut]
  exact List.mem_cons_of_mem _ (List.mem_cons_self ..)

/-- The ranges of diagnostics about a document of less than 4 GiB: lines are
right, and a character is right exactly where no supplementary character is in
front of it on its line. -/
theorem range_conforms_iff (file : Text) (document : String)
    (short : (utf8 document).length < 2 ^ 32) :
    ∀ d ∈ (compileFile file (utf8 document)).diagnostics,
      Placed document d.span.start.offset (rangeOf d.span).start ∧
      Placed document d.span.stop.offset (rangeOf d.span).stop := by
  intro d member
  have faithful : d.span.Faithful file (utf8 document) := faithful_of_mem_diagnostics member
  exact ⟨placed_of_faithful short faithful.start, placed_of_faithful short faithful.stop⟩

/-- The theorem at that diagnostic. -/
theorem range_conforms_iff_supplementary :
    (utf8 "😀$").length < 2 ^ 32 ∧ ∃ d ∈ (compileFile [] (utf8 "😀$")).diagnostics,
      Placed "😀$" d.span.start.offset (rangeOf d.span).start ∧
      Placed "😀$" d.span.stop.offset (rangeOf d.span).stop := by
  have short : (utf8 "😀$").length < 2 ^ 32 := by decide
  have member := diagnostics_supplementary []
  exact ⟨short, _, member, range_conforms_iff [] "😀$" short _ member⟩

/-- Behind a supplementary character a range does not conform. -/
theorem range_supplementary :
    ∃ d ∈ (compileFile [] (utf8 "😀$")).diagnostics,
      d.span.start.offset = ((['😀'] : List Char).flatMap String.utf8EncodeChar).length ∧
      ¬ (rangeOf d.span).start.Conforms ['😀'] := by
  refine ⟨_, diagnostics_supplementary [], by decide, ?_⟩
  rintro ⟨_, character⟩
  exact absurd character (by decide)

end Editor
end Reckoner
