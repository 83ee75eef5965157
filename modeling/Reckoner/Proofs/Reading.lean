import Reckoner.Scanner

/-! # Reading bytes as runes

`Reading` says without a decoder what runes a text is read as: where the
encoding of a scalar value stands, it is one rune; where none stands, the byte
is a rune of its own.  Every text has exactly one reading, and `Rune.all` finds
it (`reading_all`, `Reading.unique`).  An ASCII byte is read as itself, and no
other rune has an ASCII byte in it. -/
set_option autoImplicit false
namespace Reckoner

inductive Reading : Text → List Rune → Prop where
  | done : Reading [] []
  | scalar (c : Char) {rest : Text} {runes : List Rune} (more : Reading rest runes) :
      Reading (String.utf8EncodeChar c ++ rest) (.scalar c :: runes)
  | stray (b : UInt8) {rest : Text} {runes : List Rune}
      (undecodable : ∀ c, ¬ String.utf8EncodeChar c <+: b :: rest) (more : Reading rest runes) :
      Reading (b :: rest) (.stray b :: runes)

namespace Rune

theorem decode_eq_none {t : Text} : decode t = none ↔ t = [] := by
  cases t with
  | nil => simp [decode]
  | cons b rest =>
    simp only [decode]
    split <;> simp

theorem decode_scalar (c : Char) (rest : Text) :
    decode (String.utf8EncodeChar c ++ rest) = some (.scalar c, rest) := by
  have found := scalar?_append c rest
  have size := String.length_utf8EncodeChar c
  cases encoding : String.utf8EncodeChar c with
  | nil => exact absurd encoding String.utf8EncodeChar_ne_nil
  | cons b tail =>
    rw [encoding] at found size
    simp only [List.cons_append] at found ⊢
    simp only [decode, found, Option.some.injEq, Prod.mk.injEq, true_and]
    rw [← size, List.length_cons, Nat.add_sub_cancel, List.drop_left]

theorem undecodable_of_stray {t rest : Text} {b : UInt8} (read : decode t = some (.stray b, rest))
    (c : Char) : ¬ String.utf8EncodeChar c <+: t := by
  rintro ⟨more, rfl⟩
  rw [decode_scalar] at read
  simp at read

theorem decode_stray {b : UInt8} {rest : Text}
    (undecodable : ∀ c, ¬ String.utf8EncodeChar c <+: b :: rest) :
    decode (b :: rest) = some (.stray b, rest) := by
  simp only [decode]
  split
  next c found =>
    obtain ⟨more, shape⟩ := append_of_scalar? found
    exact absurd ⟨more, shape.symm⟩ (undecodable c)
  next => rfl

theorem readOnto_eq (t : Text) : ∀ runes : Array Rune,
    (readOnto runes t).toList = runes.toList ++ all t := by
  induction size : t.length using Nat.strongRecOn generalizing t with
  | ind n ih =>
    intro runes
    rw [all, readOnto, readOnto]
    cases read : decode t with
    | none => simp
    | some found =>
      obtain ⟨r, rest⟩ := found
      have shorter : rest.length < n := size ▸ length_of_decode read
      simp only
      rw [ih _ shorter rest rfl, ih _ shorter rest rfl (#[].push r)]
      simp

@[simp] theorem all_nil : all [] = [] := by
  rw [all, readOnto]
  simp [decode]

theorem all_of_decode {t rest : Text} {r : Rune} (read : decode t = some (r, rest)) :
    all t = r :: all rest := by
  rw [all, readOnto]
  split
  next ended => simp [ended] at read
  next r' rest' found =>
    rw [read] at found
    cases found
    rw [readOnto_eq]
    rfl

end Rune

theorem reading_all (t : Text) : Reading t (Rune.all t) := by
  induction size : t.length using Nat.strongRecOn generalizing t with
  | ind n ih =>
    cases read : Rune.decode t with
    | none =>
      rw [Rune.decode_eq_none.mp read, Rune.all_nil]
      exact .done
    | some found =>
      obtain ⟨r, rest⟩ := found
      have shorter : rest.length < n := size ▸ Rune.length_of_decode read
      have more := ih _ shorter rest rfl
      have shape := Rune.bytes_append_of_decode read
      rw [Rune.all_of_decode read]
      cases r with
      | scalar c =>
        rw [shape]
        exact .scalar c more
      | stray b =>
        have undecodable := Rune.undecodable_of_stray read
        rw [shape] at undecodable ⊢
        exact .stray b undecodable more

theorem Reading.unique {t : Text} {runes : List Rune} (reading : Reading t runes) :
    runes = Rune.all t := by
  induction reading with
  | done => exact Rune.all_nil.symm
  | scalar c more ih => rw [Rune.all_of_decode (Rune.decode_scalar c _), ← ih]
  | stray b undecodable more ih =>
    rw [Rune.all_of_decode (Rune.decode_stray undecodable), ← ih]

/-- Characters are read back from their encodings. -/
theorem reading_scalars (cs : List Char) :
    Reading (cs.flatMap String.utf8EncodeChar) (cs.map .scalar) := by
  induction cs with
  | nil => exact .done
  | cons c more ih => exact .scalar c ih

/-! ## ASCII bytes -/

/-- The rune that an ASCII byte is. -/
def Rune.ascii (b : UInt8) : Rune := .scalar (Char.ofNat b.toNat)

theorem toNat_ofNat_byte (b : UInt8) : (Char.ofNat b.toNat).val.toNat = b.toNat := by
  have small := b.toNat_lt
  have valid : b.toNat.isValidChar := Or.inl (by omega)
  rw [Char.ofNat, dif_pos valid]
  rfl

theorem encode_ascii {b : UInt8} (ascii : b.toNat < 128) :
    String.utf8EncodeChar (Char.ofNat b.toNat) = [b] := by
  have code := toNat_ofNat_byte b
  have low : b.toNat ≤ 127 := by omega
  unfold String.utf8EncodeChar
  simp only [code, if_pos low, UInt8.ofNat_toNat]

theorem decode_ascii {b : UInt8} (ascii : b.toNat < 128) (rest : Text) :
    Rune.decode (b :: rest) = some (.ascii b, rest) := by
  have read := Rune.decode_scalar (Char.ofNat b.toNat) rest
  rwa [encode_ascii ascii] at read

/-- An ASCII byte is in no encoding but its own. -/
theorem eq_ascii_of_mem_encode {c : Char} {b : UInt8} (ascii : b.toNat < 128)
    (member : b ∈ String.utf8EncodeChar c) : c = Char.ofNat b.toNat := by
  have code := toNat_ofNat_byte b
  unfold String.utf8EncodeChar at member
  simp only at member
  split at member
  · rw [List.mem_singleton] at member
    subst member
    apply Char.ext
    apply UInt32.toNat_inj.mp
    rw [code, UInt8.toNat_ofNat']
    omega
  · exfalso
    split at member
    · simp only [List.mem_cons, List.not_mem_nil, or_false] at member
      rcases member with rfl | rfl <;> rw [UInt8.toNat_ofNat'] at ascii <;> omega
    · split at member
      · simp only [List.mem_cons, List.not_mem_nil, or_false] at member
        rcases member with rfl | rfl | rfl <;> rw [UInt8.toNat_ofNat'] at ascii <;> omega
      · simp only [List.mem_cons, List.not_mem_nil, or_false] at member
        rcases member with rfl | rfl | rfl | rfl <;> rw [UInt8.toNat_ofNat'] at ascii <;> omega

/-- A rune with an ASCII byte in it is that byte. -/
def Rune.Sound (r : Rune) : Prop := ∀ b ∈ r.bytes, b.toNat < 128 → r = .ascii b

theorem sound_scalar (c : Char) : (Rune.scalar c).Sound :=
  fun _ member ascii => congrArg Rune.scalar (eq_ascii_of_mem_encode ascii member)

theorem sound_of_mem_reading {t : Text} {runes : List Rune} (reading : Reading t runes) :
    ∀ r ∈ runes, r.Sound := by
  induction reading with
  | done => simp
  | scalar c more ih => exact List.forall_mem_cons.mpr ⟨sound_scalar c, ih⟩
  | @stray b rest runes undecodable more ih =>
    refine List.forall_mem_cons.mpr ⟨fun a member ascii => ?_, ih⟩
    cases List.mem_singleton.mp member
    have begins : String.utf8EncodeChar (Char.ofNat b.toNat) <+: b :: rest := by
      rw [encode_ascii ascii]
      exact ⟨rest, rfl⟩
    exact absurd begins (undecodable _)

theorem Text.isDigit_iff {b : UInt8} : Text.isDigit b = true ↔ 48 ≤ b.toNat ∧ b.toNat ≤ 57 := by
  simp only [Text.isDigit, Bool.and_eq_true, decide_eq_true_eq, UInt8.le_iff_toNat_le]
  rfl

theorem Text.ascii_of_isDigit {b : UInt8} (digit : Text.isDigit b = true) : b.toNat < 128 := by
  have := Text.isDigit_iff.mp digit
  omega

theorem Rune.isDigit_ascii (b : UInt8) : (Rune.ascii b).isDigit = Text.isDigit b := by
  rw [Bool.eq_iff_iff, Text.isDigit_iff]
  simp only [Rune.ascii, Rune.isDigit, Bool.and_eq_true, decide_eq_true_eq, Char.le_def,
    UInt32.le_iff_toNat_le, toNat_ofNat_byte]
  rfl

end Reckoner
