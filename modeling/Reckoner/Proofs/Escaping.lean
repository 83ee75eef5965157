import Reckoner.Web.Form

/-! # Escapes are read back

An escape decodes to its byte, whatever follows it.  A field whose name and
value are escaped holds no ampersand, semicolon or further equals sign, so a
form of that one field is read as that field (`fields?_written`). -/
set_option autoImplicit false
namespace Reckoner

namespace Percent

def digit (n : Nat) : UInt8 := UInt8.ofNat (if n < 10 then 48 + n else 55 + n)

theorem escape_eq (b : UInt8) : escape b = [37, digit (b.toNat / 16), digit (b.toNat % 16)] := rfl

theorem hexValue?_digit {n : Nat} (small : n < 16) : Text.hexValue? (digit n) = some n := by
  have all : ∀ n < 16, Text.hexValue? (digit n) = some n := by decide
  exact all n small

theorem isUnreserved_digit {n : Nat} (small : n < 16) : isUnreserved (digit n) = true := by
  have all : ∀ n < 16, isUnreserved (digit n) = true := by decide
  exact all n small

theorem nibbles_lt (b : UInt8) : b.toNat / 16 < 16 ∧ b.toNat % 16 < 16 := by
  have size := b.toNat_lt
  omega

theorem decodeOnto_escape (plus : Bool) (done : Array UInt8) (b : UInt8) (rest : Text) :
    decodeOnto plus done (escape b ++ rest) = decodeOnto plus (done.push b) rest := by
  obtain ⟨high, low⟩ := nibbles_lt b
  have whole : UInt8.ofNat (16 * (b.toNat / 16) + b.toNat % 16) = b := by
    rw [Nat.div_add_mod, UInt8.ofNat_toNat]
  simp only [escape_eq, List.cons_append, List.nil_append, decodeOnto, if_true,
    hexValue?_digit high, hexValue?_digit low, whole]

theorem decodeOnto_plain {plus : Bool} {b : UInt8} (percent : b ≠ 37)
    (blank : (plus && decide (b = 43)) = false) (done : Array UInt8) (rest : Text) :
    decodeOnto plus done (b :: rest) = decodeOnto plus (done.push b) rest := by
  rw [decodeOnto.eq_def]
  simp only [if_neg percent, blank, Bool.false_eq_true, if_false]

/-- A text is read back from the spellings of its bytes. -/
theorem decodeOnto_flatMap {plus : Bool} {spell : UInt8 → Text}
    (read : ∀ b done rest, decodeOnto plus done (spell b ++ rest) =
      decodeOnto plus (done.push b) rest) (t : Text) :
    decodeOnto plus #[] (t.flatMap spell) = some t := by
  have onto : ∀ done, decodeOnto plus done (t.flatMap spell) = some (done.toList ++ t) := by
    induction t with
    | nil =>
      intro done
      simp [decodeOnto]
    | cons b more ih =>
      intro done
      rw [List.flatMap_cons, read, ih]
      simp
  exact onto #[]

theorem ne_of_isUnreserved {b mark : UInt8} (plain : isUnreserved b = true)
    (reserved : isUnreserved mark = false) : b ≠ mark := by
  rintro rfl
  rw [plain] at reserved
  cases reserved

end Percent

namespace Web.Form

open Percent

/-- What one byte is escaped as. -/
def spelling (b : UInt8) : Text :=
  if b = 32 then [43] else if isUnreserved b then [b] else escape b

theorem decodeOnto_spelling (done : Array UInt8) (b : UInt8) (rest : Text) :
    decodeOnto true done (spelling b ++ rest) = decodeOnto true (done.push b) rest := by
  unfold spelling
  split
  next blank =>
    subst blank
    rw [List.singleton_append, decodeOnto.eq_def]
    rfl
  next =>
    split
    next plain =>
      have percent : b ≠ 37 := ne_of_isUnreserved plain (by decide)
      have plus : b ≠ 43 := ne_of_isUnreserved plain (by decide)
      exact decodeOnto_plain percent (by simp [plus]) done rest
    next => exact decodeOnto_escape true done b rest

theorem decodeField_escaped (t : Text) : decodeField (escaped t) = some t :=
  decodeOnto_flatMap (fun b done rest => decodeOnto_spelling done b rest) t

/-- No mark that divides a form is in an escaped text. -/
theorem not_mem_escaped {mark : UInt8} (reserved : isUnreserved mark = false) (plus : mark ≠ 43)
    (percent : mark ≠ 37) (t : Text) : mark ∉ escaped t := by
  intro member
  obtain ⟨b, _, inside⟩ := List.mem_flatMap.mp member
  split at inside
  · exact plus (List.mem_singleton.mp inside)
  · split at inside
    next plain => exact ne_of_isUnreserved plain reserved (List.mem_singleton.mp inside).symm
    next =>
      obtain ⟨high, low⟩ := nibbles_lt b
      rw [escape_eq] at inside
      simp only [List.mem_cons, List.not_mem_nil, or_false] at inside
      rcases inside with same | same | same
      · exact percent same
      · exact ne_of_isUnreserved (isUnreserved_digit high) reserved same.symm
      · exact ne_of_isUnreserved (isUnreserved_digit low) reserved same.symm

theorem cut_append {mark : UInt8} {t : Text} (unmarked : mark ∉ t) (rest : Text) :
    Text.cut mark (t ++ mark :: rest) = (t, some rest) := by
  have other : ∀ b ∈ t, (b != mark) = true := by
    intro b member
    rw [bne_iff_ne]
    rintro rfl
    exact unmarked member
  have dropped : (t ++ mark :: rest).dropWhile (· != mark) = mark :: rest := by
    rw [List.dropWhile_append_of_pos other, List.dropWhile_cons_of_neg (by simp)]
  have taken : (t ++ mark :: rest).takeWhile (· != mark) = t := by
    rw [List.takeWhile_append_of_pos other, List.takeWhile_cons_of_neg (by simp), List.append_nil]
  rw [Text.cut, dropped]
  simp only [taken]

/-- A name and a value as a form of one field. -/
def written (name value : Text) : Text := escaped name ++ 61 :: escaped value

theorem not_mem_written {mark : UInt8} (reserved : isUnreserved mark = false) (plus : mark ≠ 43)
    (percent : mark ≠ 37) (equals : mark ≠ 61) (name value : Text) : mark ∉ written name value := by
  intro member
  rcases List.mem_append.mp member with inName | later
  · exact not_mem_escaped reserved plus percent name inName
  · rcases List.mem_cons.mp later with same | inValue
    · exact equals same
    · exact not_mem_escaped reserved plus percent value inValue

theorem fields?_written (name value : Text) :
    fields? (written name value) = some [⟨name, value⟩] := by
  have semicolon : (written name value).contains 59 = false := by
    rw [List.contains_eq_mem, decide_eq_false_iff_not]
    exact not_mem_written (by decide) (by decide) (by decide) (by decide) name value
  have ampersand : (38 : UInt8) ∉ written name value :=
    not_mem_written (by decide) (by decide) (by decide) (by decide) name value
  have equals : (61 : UInt8) ∉ escaped name :=
    not_mem_escaped (by decide) (by decide) (by decide) name
  have field : field? (written name value) = some ⟨name, value⟩ := by
    rw [field?, semicolon, written, cut_append equals]
    simp only [Bool.false_eq_true, if_false, decodeField_escaped, Option.getD_some]
  have nonempty : (written name value).isEmpty = false := by simp [written]
  have few : ¬ fieldLimit < [written name value].length := by simp [fieldLimit]
  rw [fields?, List.splitOn_eq_singleton ampersand]
  simp only [if_neg few, List.filter_cons, nonempty, Bool.not_false, if_true, List.filter_nil,
    List.mapM_cons, List.mapM_nil, field]
  rfl

end Web.Form
end Reckoner
