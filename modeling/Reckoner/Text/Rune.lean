import Reckoner.Text

/-! # Runes

A text is read as a sequence of runes: a well-formed UTF-8 sequence is one
scalar rune, and a byte that starts no such sequence is a stray rune of width
one.  Reading loses nothing: the bytes of a rune are the bytes it was read
from. -/
set_option autoImplicit false
namespace Reckoner

inductive Rune where
  /-- A Unicode scalar value, read from its UTF-8 encoding. -/
  | scalar (c : Char)
  /-- A byte that begins no UTF-8 encoding. -/
  | stray (b : UInt8)
  deriving DecidableEq, Repr, Inhabited

namespace Rune

def bytes : Rune → Text
  | .scalar c => String.utf8EncodeChar c
  | .stray b => [b]

def width (r : Rune) : Nat := r.bytes.length

def scalar? (t : Text) : Option Char := (t.take 4).toByteArray.utf8DecodeChar? 0

def decode : Text → Option (Rune × Text)
  | [] => none
  | b :: rest =>
    match scalar? (b :: rest) with
    | some c => some (.scalar c, rest.drop (c.utf8Size - 1))
    | none => some (.stray b, rest)

theorem length_of_decode {t rest : Text} {r : Rune} (read : decode t = some (r, rest)) :
    rest.length < t.length := by
  cases t with
  | nil => simp [decode] at read
  | cons b tail =>
    simp only [decode] at read
    split at read <;> simp only [Option.some.injEq, Prod.mk.injEq] at read <;>
      obtain ⟨_, rfl⟩ := read <;> simp only [List.length_drop, List.length_cons] <;> omega

theorem append_of_scalar? {t : Text} {c : Char} (read : scalar? t = some c) :
    ∃ more, t = String.utf8EncodeChar c ++ more := by
  have bytes := congrArg (fun b => b.data.toList) (ByteArray.eq_of_utf8DecodeChar?_eq_some read)
  simp only [List.data_toByteArray, ByteArray.data_append, Array.toList_append] at bytes
  refine ⟨?_, ?_⟩
  rotate_left
  · rw [← List.take_append_drop 4 t, bytes, List.append_assoc]

theorem scalar?_append (c : Char) (more : Text) :
    scalar? (String.utf8EncodeChar c ++ more) = some c := by
  have short : (String.utf8EncodeChar c).length ≤ 4 := by
    rw [String.length_utf8EncodeChar]; exact Char.utf8Size_le_four c
  have split : ((String.utf8EncodeChar c ++ more).take 4).toByteArray =
      [c].utf8Encode ++ (more.take (4 - (String.utf8EncodeChar c).length)).toByteArray := by
    rw [List.utf8Encode_singleton, ← List.toByteArray_append, List.take_append,
      List.take_of_length_le short]
  rw [scalar?, split, List.utf8DecodeChar?_utf8Encode_singleton_append]

theorem bytes_append_of_decode {t rest : Text} {r : Rune} (read : decode t = some (r, rest)) :
    t = r.bytes ++ rest := by
  cases t with
  | nil => simp [decode] at read
  | cons b tail =>
    simp only [decode] at read
    split at read
    · rename_i c found
      simp only [Option.some.injEq, Prod.mk.injEq] at read
      obtain ⟨rfl, rfl⟩ := read
      obtain ⟨more, shape⟩ := append_of_scalar? found
      have size := String.length_utf8EncodeChar c
      have pos := Char.utf8Size_pos c
      have tail_eq : tail.drop (c.utf8Size - 1) = more := by
        have : (b :: tail).drop c.utf8Size = more := by rw [shape, ← size, List.drop_left]
        rw [← this, ← Nat.succ_pred_eq_of_pos pos]; rfl
      rw [tail_eq]; exact shape
    · simp only [Option.some.injEq, Prod.mk.injEq] at read
      obtain ⟨rfl, rfl⟩ := read
      rfl

def readOnto (runes : Array Rune) (t : Text) : Array Rune :=
  match _read : decode t with
  | none => runes
  | some (r, rest) => readOnto (runes.push r) rest
termination_by t.length
decreasing_by exact length_of_decode ‹_›

def all (t : Text) : List Rune := (readOnto #[] t).toList

def replacement : Text := utf8 "\uFFFD"

def wellFormed : Rune → Text
  | .scalar c => String.utf8EncodeChar c
  | .stray _ => replacement

end Rune

/-- The text with every stray byte replaced by U+FFFD. -/
def Text.wellFormed (t : Text) : Text := (Rune.all t).flatMap Rune.wellFormed

end Reckoner
