import Reckoner.Json.Reader
import Reckoner.Json.Writer
import Reckoner.Proofs.Lettering

/-! # Quoted strings are read back

In well-formed text every rune is the encoding of one character, U+FFFD for a
stray byte.  A character can be written in a string in several ways (`Spells`).
Whichever was chosen, its encoding is read, so a string is read as its
characters (`Spelled.string?_append`); a text that was quoted is one of those
that write it in well-formed form (`spelled_quoted`). -/
set_option autoImplicit false
namespace Reckoner

/-! ## Well-formed text -/

/-- The character that stands for a rune in well-formed text. -/
def Rune.char : Rune → Char
  | .scalar c => c
  | .stray _ => '\uFFFD'

theorem Rune.wellFormed_eq (r : Rune) : r.wellFormed = String.utf8EncodeChar r.char := by
  cases r with
  | scalar c => rfl
  | stray b => rfl

namespace Text

def chars (t : Text) : List Char := (Rune.all t).map Rune.char

theorem wellFormed_eq (t : Text) : t.wellFormed = t.chars.flatMap String.utf8EncodeChar := by
  rw [wellFormed, chars, List.flatMap_map]
  exact List.flatMap_congr fun r _ => r.wellFormed_eq

theorem wellFormed_encoded (cs : List Char) :
    wellFormed (cs.flatMap String.utf8EncodeChar) = cs.flatMap String.utf8EncodeChar := by
  rw [wellFormed, ← (reading_scalars cs).unique, List.flatMap_map]
  rfl

@[simp] theorem wellFormed_utf8 (s : String) : (utf8 s).wellFormed = utf8 s := wellFormed_encoded _

theorem wellFormed_of_visible {t : Text} (visible : t.Visible) : t.wellFormed = t := by
  have encoded : t = (t.map fun b => Char.ofNat b.toNat).flatMap String.utf8EncodeChar := by
    induction t with
    | nil => rfl
    | cons b rest ih =>
      obtain ⟨first, later⟩ := visible_cons.mp visible
      rw [List.map_cons, List.flatMap_cons, encode_ascii (by omega), ← ih later]
      rfl
  rw [encoded, wellFormed_encoded]

end Text

namespace Json

/-! ## One character -/

/-- The texts that write a character inside a string: the character itself, the
letter of an escape, its code, or the codes of the two surrogates that stand
for it. -/
inductive Spells : Char → Text → Prop where
  | plain {c : Char} (visible : 0x20 ≤ c.toNat) (quote : c ≠ '"') (backslash : c ≠ '\\') :
      Spells c (String.utf8EncodeChar c)
  | letter {c letter : Char} (short : (c, letter) ∈ ('/', '/') :: shortEscapes) :
      Spells c (92 :: String.utf8EncodeChar letter)
  | code {c : Char} {w x y z : UInt8} (unit : codeUnit? w x y z = some c.toNat) :
      Spells c [92, 117, w, x, y, z]
  | surrogates {c : Char} {w x y z w' x' y' z' : UInt8} (large : 0x10000 ≤ c.toNat)
      (high : codeUnit? w x y z = some (0xD800 + (c.toNat - 0x10000) / 0x400))
      (low : codeUnit? w' x' y' z' = some (0xDC00 + (c.toNat - 0x10000) % 0x400)) :
      Spells c [92, 117, w, x, y, z, 92, 117, w', x', y', z']

section Characters
variable (done : Array UInt8) (rest : Text)

/-- Bytes that need no escape are read as they are. -/
theorem unescaped_plain {bytes : Text} (plain : ∀ b ∈ bytes, b ≠ 34 ∧ b ≠ 92 ∧ ¬ b < 32) :
    unescaped none done (bytes ++ rest) = unescaped none (done ++ bytes) rest := by
  induction bytes generalizing done with
  | nil => simp
  | cons b more ih =>
    obtain ⟨⟨quote, backslash, control⟩, later⟩ := List.forall_mem_cons.mp plain
    have read : unescaped none done (b :: (more ++ rest)) =
        unescaped none (done.push b) (more ++ rest) := by
      rw [unescaped.eq_def]
      simp [quote, backslash, control, settled]
    rw [List.cons_append, read, ih _ later]
    simp

/-- A character that needs no escape has no byte that would need one. -/
theorem plain_of_mem_encode {c : Char} (visible : 0x20 ≤ c.toNat) (quote : c ≠ '"')
    (backslash : c ≠ '\\') : ∀ b ∈ String.utf8EncodeChar c, b ≠ 34 ∧ b ≠ 92 ∧ ¬ b < 32 := by
  intro b member
  have same : b.toNat < 128 → c = Char.ofNat b.toNat := fun ascii =>
    eq_ascii_of_mem_encode ascii member
  refine ⟨?_, ?_, ?_⟩
  · rintro rfl
    exact quote (same (by decide))
  · rintro rfl
    exact backslash (same (by decide))
  · intro control
    have low : b.toNat < 32 := UInt8.lt_iff_toNat_lt.mp control
    have code : c.toNat = b.toNat := by
      rw [same (by omega)]
      exact toNat_ofNat_byte b
    omega

theorem unescaped_letter {c letter : Char} (short : (c, letter) ∈ ('/', '/') :: shortEscapes) :
    unescaped none done (92 :: String.utf8EncodeChar letter ++ rest) =
      unescaped none (done ++ String.utf8EncodeChar c) rest := by
  -- In the table, letter and character are one byte each.
  have table : ∀ p ∈ ('/', '/') :: shortEscapes, ∃ e b, String.utf8EncodeChar p.2 = [e] ∧
      String.utf8EncodeChar p.1 = [b] ∧ e ≠ 117 ∧ shortEscape? e = some b := by
    simp only [shortEscapes, List.forall_mem_cons]
    refine ⟨?_, ?_, ?_, ?_, ?_, ?_, ?_, ?_, by simp⟩ <;> exact ⟨_, _, rfl, rfl, by decide, rfl⟩
  obtain ⟨e, b, spelled, encoded, notCode, stands⟩ := table (c, letter) short
  simp only at spelled encoded
  rw [spelled, encoded, unescaped.eq_def]
  simp [notCode, stands, settled]

theorem unescaped_unit {w x y z : UInt8} {n : Nat} (unit : codeUnit? w x y z = some n)
    (pending : Option Nat) : unescaped pending done (92 :: 117 :: w :: x :: y :: z :: rest) =
      unescaped (withUnit pending done n).1 (withUnit pending done n).2 rest := by
  rw [unescaped.eq_def]
  simp [unit]

/-- The code of a character is no surrogate. -/
theorem withUnit_char (c : Char) :
    withUnit none done c.toNat = (none, done ++ String.utf8EncodeChar c) := by
  have valid : c.toNat < 0xD800 ∨ 0xDFFF < c.toNat ∧ c.toNat < 0x110000 := c.valid
  have high : isHighSurrogate c.toNat = false := by simp [isHighSurrogate]; omega
  have low : isLowSurrogate c.toNat = false := by simp [isLowSurrogate]; omega
  simp [withUnit, high, low, settled]

theorem withUnit_high {high : Nat} (surrogate : isHighSurrogate high = true) :
    withUnit none done high = (some high, done) := by
  simp [withUnit, surrogate, settled]

theorem withUnit_low {high low : Nat} (surrogate : isLowSurrogate low = true) :
    withUnit (some high) done low = (none, done ++ String.utf8EncodeChar (paired high low)) := by
  have other : isHighSurrogate low = false := by
    simp only [isLowSurrogate, Bool.and_eq_true, decide_eq_true_eq] at surrogate
    simp [isHighSurrogate]
    omega
  simp [withUnit, surrogate, other]

theorem Spells.unescaped_append {c : Char} {t : Text} (spells : Spells c t) :
    unescaped none done (t ++ rest) = unescaped none (done ++ String.utf8EncodeChar c) rest := by
  cases spells with
  | plain visible quote backslash =>
    exact unescaped_plain done rest (plain_of_mem_encode visible quote backslash)
  | letter short => exact unescaped_letter done rest short
  | code unit =>
    refine (unescaped_unit done rest unit none).trans ?_
    rw [withUnit_char]
  | surrogates large high low =>
    have bound : c.toNat < 0x110000 := by
      have valid : c.toNat < 0xD800 ∨ 0xDFFF < c.toNat ∧ c.toNat < 0x110000 := c.valid
      omega
    -- The two codes are named so that only their ranges matter from here on.
    generalize first : 0xD800 + (c.toNat - 0x10000) / 0x400 = leading at high
    generalize second : 0xDC00 + (c.toNat - 0x10000) % 0x400 = trailing at low
    have isHigh : isHighSurrogate leading = true := by simp [isHighSurrogate]; omega
    have isLow : isLowSurrogate trailing = true := by simp [isLowSurrogate]; omega
    have pair : paired leading trailing = c := by
      have code : 0x10000 + (leading - 0xD800) * 0x400 + (trailing - 0xDC00) = c.toNat := by omega
      rw [paired, code, Char.ofNat_toNat]
    refine (unescaped_unit done _ high none).trans ?_
    rw [withUnit_high done isHigh]
    refine (unescaped_unit done rest low _).trans ?_
    rw [withUnit_low done isLow, pair]

end Characters

theorem hexValue?_hexDigit {n : Nat} (small : n < 16) :
    Text.hexValue? (Text.hexDigit n) = some n := by
  have all : ∀ n < 16, Text.hexValue? (Text.hexDigit n) = some n := by decide
  exact all n small

theorem codeUnit?_codeEscape {n : Nat} (small : n < 0x10000) :
    codeUnit? (Text.hexDigit (n / 4096 % 16)) (Text.hexDigit (n / 256 % 16))
      (Text.hexDigit (n / 16 % 16)) (Text.hexDigit (n % 16)) = some n := by
  have digit : ∀ k, Text.hexValue? (Text.hexDigit (k % 16)) = some (k % 16) := fun k =>
    hexValue?_hexDigit (Nat.mod_lt _ (by decide))
  simp only [codeUnit?, digit, Option.some.injEq]
  omega

theorem spells_escaped (r : Rune) : Spells r.char (escaped r) := by
  cases r with
  | stray b => exact .plain (c := '\uFFFD') (by decide) (by decide) (by decide)
  | scalar c =>
    rw [escaped]
    cases short : shortEscapes.lookup c with
    | some letter =>
      obtain ⟨before, behind, shape, _⟩ := List.lookup_eq_some_iff.mp short
      exact .letter (by simp [shape, Rune.char])
    | none =>
      have other : ∀ k, shortEscapes.lookup k ≠ none → c ≠ k := by
        rintro _ listed rfl
        exact listed short
      simp only
      split
      next code =>
        refine .code (codeUnit?_codeEscape ?_)
        simp only [needsCode, Bool.or_eq_true, decide_eq_true_eq] at code
        rcases code with ((((control | rfl) | rfl) | rfl) | line) | paragraph
        · exact control.trans (by decide)
        · decide
        · decide
        · decide
        · exact line ▸ (by decide)
        · exact paragraph ▸ (by decide)
      next plain =>
        refine .plain ?_ (other _ (by decide)) (other _ (by decide))
        simp only [needsCode, Bool.or_eq_true, decide_eq_true_eq, not_or] at plain
        exact not_lt.mp plain.1.1.1.1.1

/-! ## Strings -/

/-- The texts that write characters one after another. -/
inductive Spelled : List Char → Text → Prop where
  | nil : Spelled [] []
  | cons {c : Char} {cs : List Char} {t u : Text} (first : Spells c t) (later : Spelled cs u) :
      Spelled (c :: cs) (t ++ u)

theorem Spelled.unescaped_append {cs : List Char} {t : Text} (spelled : Spelled cs t)
    (done : Array UInt8) (rest : Text) : unescaped none done (t ++ 34 :: rest) =
      some (done.toList ++ cs.flatMap String.utf8EncodeChar, rest) := by
  induction spelled generalizing done with
  | nil =>
    rw [List.nil_append, unescaped.eq_def]
    simp [settled]
  | cons first later ih =>
    rw [List.append_assoc, first.unescaped_append, ih]
    simp

/-- A string is read whichever way its characters are written. -/
theorem Spelled.string?_append {cs : List Char} {t : Text} (spelled : Spelled cs t) (rest : Text) :
    string? (t ++ 34 :: rest) = some (cs.flatMap String.utf8EncodeChar, rest) := by
  -- What was read is well-formed already, so that the reader changes nothing more.
  rw [string?, spelled.unescaped_append]
  simp [Text.wellFormed_encoded]

theorem spelled_quoted (t : Text) : Spelled t.chars ((Rune.all t).flatMap escaped) := by
  rw [Text.chars]
  induction Rune.all t with
  | nil => exact .nil
  | cons r more ih =>
    rw [List.map_cons, List.flatMap_cons]
    exact .cons (spells_escaped r) ih

end Json
end Reckoner
