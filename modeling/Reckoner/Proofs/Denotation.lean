import Reckoner.Proofs.Agreement
import Reckoner.Proofs.Expansion
import Reckoner.Proofs.Nearness

/-! # What displayed numbers denote

A numeral says a sign and an exact magnitude (`Text.signed?`) and denotes the
number nearest to it (`Text.Denotes`).  The numeral that displays a value says
the value itself, if that has a finite expansion, and else a decimal that rounds to
its nearest number; the literal in a document says such a decimal always.  So both
denote the nearest number of the value, and no other one
(`Value.text_denotes`). -/
set_option autoImplicit false
namespace Reckoner

/-! ## What a numeral says -/

namespace Text

/-- The exponent behind its mark, a sign and digits; without a mark it is zero. -/
def exponent? : Option Text → Option Int
  | none => some 0
  | some (43 :: digits) => (Json.natural? digits).map fun n => (n : Int)
  | some (45 :: digits) => (Json.natural? digits).map fun n => -(n : Int)
  | some _ => none

/-- The sign and the magnitude that a numeral says: a minus sign or none, digits,
more digits behind a point, and an exponent. -/
def signed? (t : Text) : Option (Bool × ℚ) :=
  let negative : Bool := t.head? = some 45
  let (mantissa, mark) := Text.cut 101 (if negative then t.tail else t)
  let (integer, fraction) := Text.cut 46 mantissa
  let places := fraction.getD []
  if !integer.isEmpty && (integer ++ places).all Text.isDigit then
    (exponent? mark).map fun x =>
      (negative, Decimal.toRat ⟨Text.toNat (integer ++ places), x - places.length⟩)
  else none

/-- A number is nearest to what a numeral says, and has its sign. -/
inductive Denotes (t : Text) : Binary64 → Prop
  | finite {negative m e x} (read : t.signed? = some (negative, x))
    (canonical : Binary64.Canonical m e) (nearest : Binary64.IsNearest m e x) :
    Denotes t (.finite negative m e)

theorem signed?_nonneg {t : Text} {negative : Bool} {x : ℚ}
    (read : t.signed? = some (negative, x)) : 0 ≤ x := by
  simp only [signed?, Option.ite_none_right_eq_some, Option.map_eq_some_iff] at read
  obtain ⟨_, exponent, _, shape⟩ := read
  cases shape
  unfold Decimal.toRat
  positivity

theorem Denotes.unique {t : Text} {a b : Binary64} (one : t.Denotes a) (other : t.Denotes b) :
    a = b := by
  obtain ⟨read, canonical, nearest⟩ := one
  obtain ⟨likewise, also, equally⟩ := other
  cases read.symm.trans likewise
  obtain ⟨rfl, rfl⟩ := nearest.unique (signed?_nonneg read) canonical also equally
  rfl

end Text

namespace Numeral
variable (n : Numeral)

theorem cut_body : Text.cut 101 n.body = (n.integer ++ n.fractionText,
    if n.exponent.isEmpty then none else some ((if n.falling then 45 else 43) :: n.exponent)) := by
  have unmarked : (101 : UInt8) ∉ n.integer ++ n.fractionText := fun member =>
    absurd (n.unmarked_front member).2 (by decide)
  rw [body, ← List.append_assoc, exponentText]
  split
  · rw [List.append_nil, Text.cut_of_not_mem unmarked]
  · rw [Web.Form.cut_append unmarked]

theorem exponent?_mark : Text.exponent?
    (if n.exponent.isEmpty then none else some ((if n.falling then 45 else 43) :: n.exponent)) =
      some (if n.falling then -(Text.toNat n.exponent : Int) else Text.toNat n.exponent) := by
  split
  next empty =>
    rw [List.isEmpty_iff.mp empty]
    cases n.falling <;> rfl
  next written =>
    have digits : Json.natural? n.exponent = some (Text.toNat n.exponent) := by
      have all : n.exponent.all Text.isDigit = true := List.all_eq_true.mpr n.exponent_digits
      simp [Json.natural?, written, all]
    cases n.falling <;> simp [Text.exponent?, digits]

theorem signed?_text : Text.signed? n.text = some (n.negative, n.decimal.toRat) := by
  obtain ⟨integer, fraction⟩ := n.cut_front
  have digits : (!n.integer.isEmpty && (n.integer ++ n.fraction).all Text.isDigit) = true := by
    simpa [n.some_digit] using And.intro n.integer_digits n.fraction_digits
  rw [Text.signed?, n.sign_text, n.unsigned_text]
  simp only [n.cut_body, integer, fraction]
  rw [if_pos digits, n.exponent?_mark]
  rfl

end Numeral

/-! ## Shortest numerals -/

/-- The shortest numeral of a number says its sign and rounds to it. -/
theorem Binary64.denotes_render (layout : Layout) (negative : Bool) {m : Nat} {e : Int}
    (canonical : Canonical m e) :
    Text.Denotes ((finite negative m e).render layout) (.finite negative m e) := by
  obtain ⟨n, unsigned, text, value⟩ := (shortest m e).exists_numeral layout
  have shape : (n.withSign negative).text = (finite negative m e).render layout := by
    rw [n.text_withSign unsigned, text]
    rfl
  have nearest : IsNearest m e n.decimal.toRat := by
    rw [value]
    rcases Nat.eq_zero_or_pos m with rfl | positive
    · have zero : (shortest 0 e).toRat = 0 := Decimal.toRat_eq_zero.mpr rfl
      rw [zero]
      exact ⟨fun v _ => by simp, fun _ _ _ _ => rfl⟩
    · exact (rounds_shortest canonical positive).isNearest canonical
  rw [← shape]
  exact .finite (n.withSign negative).signed?_text canonical nearest

/-! ## Values -/

namespace Value
variable {q : ℚ} {negative : Bool} {m : Nat} {e : Int}

/-- The numeral of a value denotes its nearest number, whichever way it is written. -/
theorem denotes_text (rounded : Binary64.nearest q = .finite negative m e) :
    Text.Denotes (number q).text (.finite negative m e) := by
  obtain ⟨sign, canonical, nearest⟩ := Binary64.isNearest_nearest rounded
  cases places : decimalPlaces? q.den with
  | some k =>
    have divides := ((decimalPlaces?_eq_some q.den_pos).mp places).1
    have decimal : (Numeral.ofRat q k).decimal = ⟨scaled q k, -k⟩ := Numeral.decimal_fixed k _
    have read := (Numeral.ofRat q k).signed?_text
    rw [decimal, toRat_scaled divides] at read
    rw [text_eq_exact places, ← Numeral.text_ofRat divides, sign]
    exact .finite read canonical nearest
  | none =>
    have fraction : q.den ≠ 1 := by
      intro integer
      have integral : decimalPlaces? q.den = some 0 := by
        rw [integer]
        exact (decimalPlaces?_eq_some Nat.one_pos).mpr ⟨Nat.one_dvd _, fun j _ => Nat.zero_le j⟩
      cases places.symm.trans integral
    have text : (number q).text = (Binary64.nearest q).render layout := by
      rw [Value.text, if_neg fraction, places]
    rw [text, rounded]
    exact Binary64.denotes_render layout negative canonical

theorem lookup_document (rounded : Binary64.nearest q = .finite negative m e) :
    (number q).document.lookup (utf8 "value") =
      some (.number ((Binary64.finite negative m e).render Binary64.documentLayout)) := by
  simp [document, isNumber, toBinary64, rounded]

/-- The numeral that displays a value and the literal in its document denote its
nearest number, sign included, and no other one, unless that number is infinite. -/
theorem text_denotes (q : ℚ) (finite : ∀ sign, (number q).toBinary64 ≠ .infinite sign) :
    (∀ b, Text.Denotes (number q).text b ↔ b = (number q).toBinary64) ∧
    ∀ r : Report, r.value = number q → ∃ literal,
      r.document.member? "value" = some (.number literal) ∧
      r.document.member? "display" = some (.string (number q).text) ∧
      ∀ b, Text.Denotes literal b ↔ b = (number q).toBinary64 := by
  have unique : ∀ {t : Text} {b}, Text.Denotes t b → ∀ c, Text.Denotes t c ↔ c = b := fun one c =>
    ⟨fun other => other.unique one, fun same => same ▸ one⟩
  cases rounded : Binary64.nearest q with
  | infinite sign => exact absurd rounded (finite sign)
  | finite negative m e =>
    rw [toBinary64, rounded]
    refine ⟨unique (denotes_text rounded), fun r value => ?_⟩
    have canonical := Binary64.canonical_nearest rounded
    refine ⟨_, ?_, ?_, unique (Binary64.denotes_render Binary64.documentLayout negative canonical)⟩
    · rw [member?_document r (by decide), value, lookup_document rounded]
      rfl
    · rw [member?_document r (by decide), value, lookup_value_display]
      rfl

theorem text_denotes_underflow :
    (number (mkRat (-1) (3 * 10 ^ 250 * 10 ^ 150))).text = utf8 "-0" ∧
    ∀ b, Text.Denotes (utf8 "-0") b ↔ b = .finite true 0 (-1074) := by
  have text : (number (mkRat (-1) (3 * 10 ^ 250 * 10 ^ 150))).text = utf8 "-0" := by decide +kernel
  have rounded : (number (mkRat (-1) (3 * 10 ^ 250 * 10 ^ 150))).toBinary64 = .finite true 0 (-1074) := by
    decide +kernel
  have finite : ∀ sign, (number (mkRat (-1) (3 * 10 ^ 250 * 10 ^ 150))).toBinary64 ≠
      .infinite sign := by
    rw [rounded]
    nofun
  have denotes := (text_denotes (mkRat (-1) (3 * 10 ^ 250 * 10 ^ 150)) finite).1
  rw [text, rounded] at denotes
  exact ⟨text, denotes⟩

end Value
end Reckoner
