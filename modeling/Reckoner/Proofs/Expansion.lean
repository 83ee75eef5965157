import Mathlib.Data.Nat.Prime.Basic
import Mathlib.Order.Bounds.Defs
import Reckoner.Proofs.Numerals
import Reckoner.Value.Display

/-! # Finite decimal expansions

Taking the twos and then the fives out of a denominator leaves one exactly if it
divides a power of ten, and the larger count is the least such power
(`decimalPlaces?_eq_some`).  So a rational with a finite expansion is displayed
with just the places it needs: scaling it by that power of ten leaves an integer
(`scaled_mul_den`), so rounding changes nothing (`rounded_scaled`), and the last
place is not zero (`not_ten_dvd_scaled`).  Hence the numeral can be read back
(`Value.rational?_text`), and different rationals have different numerals. -/
set_option autoImplicit false
namespace Reckoner

/-! ## Twos and fives -/

theorem multiplicity_spec {p : Nat} (factor : 1 < p) {d : Nat} (positive : 0 < d) :
    d = p ^ (multiplicity p d).1 * (multiplicity p d).2 ∧ ¬ p ∣ (multiplicity p d).2 := by
  fun_induction multiplicity p d with
  | case1 d divides k rest found ih =>
    obtain ⟨_, _, remainder⟩ := divides
    have multiple : p ∣ d := Nat.dvd_of_mod_eq_zero remainder
    have smaller : 0 < d / p := Nat.div_pos (Nat.le_of_dvd positive multiple) (by omega)
    obtain ⟨shape, free⟩ := ih smaller
    rw [found] at shape free
    refine ⟨?_, free⟩
    calc d = p * (d / p) := (Nat.mul_div_cancel' multiple).symm
      _ = p * (p ^ k * rest) := congrArg (p * ·) shape
      _ = p ^ (k + 1) * rest := by ring
  | case2 d stops =>
    refine ⟨by simp, fun multiple => stops ⟨factor, positive, ?_⟩⟩
    exact Nat.mod_eq_zero_of_dvd multiple

theorem multiplicity_rest_pos {p : Nat} (factor : 1 < p) {d : Nat} (positive : 0 < d) :
    0 < (multiplicity p d).2 := by
  refine Nat.pos_of_ne_zero fun zero => (multiplicity_spec factor positive).2 ?_
  rw [zero]
  exact Nat.dvd_zero p

theorem factors_dvd_pow {a b r j : Nat} (odd : ¬ 2 ∣ r) (free : ¬ 5 ∣ r) :
    2 ^ a * (5 ^ b * r) ∣ 10 ^ j ↔ r = 1 ∧ a ≤ j ∧ b ≤ j := by
  have ten : (10 : Nat) ^ j = 2 ^ j * 5 ^ j := by rw [← Nat.mul_pow]
  have apart : Nat.Coprime 2 5 := by decide
  have two : Nat.Coprime r 2 := ((Nat.Prime.coprime_iff_not_dvd Nat.prime_two).mpr odd).symm
  have five : Nat.Coprime r 5 := ((Nat.Prime.coprime_iff_not_dvd Nat.prime_five).mpr free).symm
  rw [ten]
  constructor
  · intro divides
    have twos : 2 ^ a ∣ 2 ^ j :=
      (apart.pow a j).dvd_of_dvd_mul_right ((Dvd.intro _ rfl).trans divides)
    have fives : 5 ^ b ∣ 5 ^ j :=
      (apart.symm.pow b j).dvd_of_dvd_mul_left
        (((Dvd.intro _ rfl).trans (Dvd.intro_left _ rfl)).trans divides)
    have rest : r ∣ 2 ^ j * 5 ^ j := ((Dvd.intro_left _ rfl).trans (Dvd.intro_left _ rfl)).trans divides
    refine ⟨((two.pow_right j).mul_right (five.pow_right j)).eq_one_of_dvd rest, ?_, ?_⟩
    · exact (Nat.pow_dvd_pow_iff_le_right (by decide)).mp twos
    · exact (Nat.pow_dvd_pow_iff_le_right (by decide)).mp fives
  · rintro ⟨rfl, twos, fives⟩
    rw [Nat.mul_one]
    exact Nat.mul_dvd_mul (Nat.pow_dvd_pow 2 twos) (Nat.pow_dvd_pow 5 fives)

theorem exists_factors {d : Nat} (positive : 0 < d) :
    ∃ a b r, d = 2 ^ a * (5 ^ b * r) ∧ ¬ 2 ∣ r ∧ ¬ 5 ∣ r ∧
      decimalPlaces? d = if r = 1 then some (max a b) else none := by
  obtain ⟨first, odd⟩ := multiplicity_spec (p := 2) (by decide) positive
  have left : 0 < (multiplicity 2 d).2 := multiplicity_rest_pos (by decide) positive
  obtain ⟨second, free⟩ := multiplicity_spec (p := 5) (by decide) left
  refine ⟨_, _, _, ?_, fun even => odd ?_, free, rfl⟩
  · rw [← second]
    exact first
  · rw [second]
    exact even.mul_left _

theorem decimalPlaces?_eq_some {d k : Nat} (positive : 0 < d) :
    decimalPlaces? d = some k ↔ IsLeast {j | d ∣ 10 ^ j} k := by
  obtain ⟨a, b, r, rfl, odd, free, places⟩ := exists_factors positive
  rw [places]
  simp only [IsLeast, lowerBounds, Set.mem_ofPred_eq, factors_dvd_pow odd free]
  by_cases one : r = 1
  · simp only [one, if_true, true_and, Option.some.injEq]
    constructor
    · rintro rfl
      exact ⟨⟨le_max_left a b, le_max_right a b⟩, fun j ⟨twos, fives⟩ => max_le twos fives⟩
    · rintro ⟨⟨twos, fives⟩, least⟩
      exact le_antisymm (max_le twos fives) (least ⟨le_max_left a b, le_max_right a b⟩)
  · simp [one]

theorem decimalPlaces?_eq_none {d : Nat} (positive : 0 < d) :
    decimalPlaces? d = none ↔ ¬ ∃ j, d ∣ 10 ^ j := by
  rw [Option.eq_none_iff_forall_ne_some]
  constructor
  · rintro nowhere ⟨j, divides⟩
    exact nowhere _ ((decimalPlaces?_eq_some positive).mpr (Nat.isLeast_find ⟨j, divides⟩))
  · intro never k found
    exact never ⟨k, ((decimalPlaces?_eq_some positive).mp found).1⟩

/-- No prime beside two and five is in the denominator. -/
def Terminates (q : ℚ) : Prop := ∀ p : ℕ, p.Prime → p ∣ q.den → p = 2 ∨ p = 5

theorem Terminates.of_dvd {q : ℚ} {k : Nat} (divides : q.den ∣ 10 ^ k) : Terminates q := by
  intro p prime inside
  have ten : p ∣ 2 * 5 := prime.dvd_of_dvd_pow (inside.trans divides)
  rcases prime.dvd_mul.mp ten with two | five
  · exact .inl ((Nat.prime_dvd_prime_iff_eq prime Nat.prime_two).mp two)
  · exact .inr ((Nat.prime_dvd_prime_iff_eq prime Nat.prime_five).mp five)

theorem Terminates.exists_places {q : ℚ} (terminates : Terminates q) :
    ∃ k, decimalPlaces? q.den = some k := by
  obtain ⟨a, b, r, shape, odd, free, places⟩ := exists_factors q.den_pos
  have one : r = 1 := by
    by_contra more
    obtain ⟨p, prime, divides⟩ := Nat.exists_prime_and_dvd more
    have inside : p ∣ q.den := by
      rw [shape]
      exact (divides.mul_left _).mul_left _
    rcases terminates p prime inside with rfl | rfl
    · exact odd divides
    · exact free divides
  exact ⟨max a b, by rw [places, if_pos one]⟩

/-! ## Scaled numerators -/

/-- The magnitude of a rational, counted in units of the last place. -/
def scaled (q : ℚ) (places : Nat) : Nat := q.num.natAbs * Nat.pow 10 places / q.den

section Scaled
variable {q : ℚ} {k : Nat}

theorem scaled_mul_den (divides : q.den ∣ 10 ^ k) : scaled q k * q.den = q.num.natAbs * 10 ^ k :=
  Nat.div_mul_cancel (divides.mul_left _)

/-- Rounding to the nearest unit, halves away from zero, gives the same count. -/
theorem rounded_scaled (divides : q.den ∣ 10 ^ k) :
    (2 * (q.num.natAbs * 10 ^ k) + q.den) / (2 * q.den) = scaled q k := by
  have positive := q.den_pos
  rw [← scaled_mul_den divides]
  refine Nat.div_eq_of_lt_le ?_ ?_ <;> nlinarith

theorem places_eq_zero (least : IsLeast {j | q.den ∣ 10 ^ j} k) : k = 0 ↔ q.den = 1 := by
  constructor
  · rintro rfl
    exact Nat.dvd_one.mp least.1
  · intro integer
    exact Nat.le_zero.mp (least.2 (integer ▸ Nat.one_dvd 1))

/-- With one place less the denominator would divide the power of ten already. -/
theorem not_ten_dvd_scaled (fraction : q.den ≠ 1) (least : IsLeast {j | q.den ∣ 10 ^ j} k) :
    ¬ 10 ∣ scaled q k := by
  rintro ⟨c, tenth⟩
  have whole := scaled_mul_den least.1
  obtain ⟨j, rfl⟩ := Nat.exists_eq_succ_of_ne_zero (mt (places_eq_zero least).mp fraction)
  have shorter : q.num.natAbs * 10 ^ j = q.den * c := by
    rw [tenth, pow_succ] at whole
    nlinarith
  have divides : q.den ∣ 10 ^ j := q.reduced.symm.dvd_of_dvd_mul_left ⟨c, shorter⟩
  have bound : j + 1 ≤ j := least.2 divides
  omega

theorem toRat_scaled (divides : q.den ∣ 10 ^ k) : Decimal.toRat ⟨scaled q k, -k⟩ = |q| := by
  have den : (q.den : ℚ) ≠ 0 := by exact_mod_cast q.den_nz
  have whole : (scaled q k : ℚ) * q.den = q.num.natAbs * 10 ^ k := by
    exact_mod_cast scaled_mul_den divides
  rw [← natAbs_div_den, Decimal.toRat, zpow_neg, zpow_natCast]
  field_simp
  linarith

theorem signed_scaled (divides : q.den ∣ 10 ^ k) :
    (if q < 0 then -1 else 1) * Decimal.toRat ⟨scaled q k, -k⟩ = q := by
  rw [toRat_scaled divides]
  split_ifs with negative
  · rw [abs_of_neg negative]
    ring
  · rw [abs_of_nonneg (not_lt.mp negative), one_mul]

end Scaled

/-! ## Reading numerals as rationals -/

/-- The rational that a plain numeral says: a minus sign or none, digits, and
more digits behind a point. -/
def Text.rational? (t : Text) : Option ℚ :=
  let negative : Bool := t.head? = some 45
  let (integer, fraction) := Text.cut 46 (if negative then t.tail else t)
  let places := fraction.getD []
  if !integer.isEmpty && (integer ++ places).all Text.isDigit then
    some ((if negative then -1 else 1) *
      Decimal.toRat ⟨Text.toNat (integer ++ places), -(places.length : Int)⟩)
  else none

theorem Numeral.rational?_text (n : Numeral) (plain : n.exponent = []) :
    Text.rational? n.text = some ((if n.negative then -1 else 1) * n.decimal.toRat) := by
  have body : n.body = n.integer ++ n.fractionText := by
    simp [Numeral.body, Numeral.exponentText, plain]
  obtain ⟨integer, fraction⟩ := n.cut_front
  have scale : n.decimal = ⟨Text.toNat (n.integer ++ n.fraction), -(n.fraction.length : Int)⟩ := by
    simp [Numeral.decimal, plain, Text.toNat]
  have digits : (!n.integer.isEmpty && (n.integer ++ n.fraction).all Text.isDigit) = true := by
    simpa [n.some_digit] using And.intro n.integer_digits n.fraction_digits
  rw [Text.rational?, n.sign_text, n.unsigned_text, body, scale]
  simp only [integer, fraction]
  rw [if_pos digits]

theorem Text.ten_dvd_toNat {t : Text} (zero : t.getLast? = some 48) : 10 ∣ Text.toNat t := by
  obtain ⟨init, rfl⟩ := List.getLast?_eq_some_iff.mp zero
  refine ⟨Text.toNat init, ?_⟩
  rw [Text.toNat_append]
  simp [Text.toNat, Nat.mul_comm]

/-! ## Displayed values -/

namespace Numeral

/-- A count of units of the last place, as `fixedPoint` writes it. -/
def fixed (places c : Nat) : Numeral := if places = 0 then ofNat c else pointed places c

theorem text_fixed (places c : Nat) : (fixed places c).text = fixedPoint places c := by
  unfold fixed
  split_ifs with zero
  · rw [text_ofNat, fixedPoint, if_pos zero]
  · exact text_pointed (Nat.pos_of_ne_zero zero) c

theorem decimal_fixed (places c : Nat) : (fixed places c).decimal = ⟨c, -places⟩ := by
  unfold fixed
  split_ifs with zero
  · subst zero
    rw [decimal, ofNat, List.append_nil, Text.toNat_ofNat]
    rfl
  · exact decimal_pointed (Nat.pos_of_ne_zero zero) c

theorem unsigned_fixed (places c : Nat) :
    (fixed places c).negative = false ∧ (fixed places c).exponent = [] := by
  unfold fixed
  split_ifs <;> exact ⟨rfl, rfl⟩

theorem length_fraction_fixed (places c : Nat) : (fixed places c).fraction.length = places := by
  unfold fixed
  split_ifs with zero
  · exact zero.symm
  · exact length_fraction_pointed (Nat.pos_of_ne_zero zero) c

theorem ten_dvd_of_fixed {places c : Nat} (zero : (fixed places c).fraction.getLast? = some 48) :
    10 ∣ c := by
  unfold fixed at zero
  split_ifs at zero with unplaced
  · simp [ofNat] at zero
  · have last : 10 ∣ c % 10 ^ places := by
      have divides := Text.ten_dvd_toNat zero
      rwa [pointed, toNat_padded] at divides
    exact (Nat.dvd_mod_iff (dvd_pow_self 10 unplaced)).mp last

/-- The numeral of a rational that needs so many places. -/
def ofRat (q : ℚ) (places : Nat) : Numeral := (fixed places (scaled q places)).withSign (q < 0)

theorem text_ofRat {q : ℚ} {places : Nat} (divides : q.den ∣ 10 ^ places) :
    (ofRat q places).text = Value.exact q places := by
  have sign : decide (q < 0) = decide (q.num < 0) := by
    rw [decide_eq_decide]
    exact Rat.num_neg.symm
  rw [ofRat, text_withSign _ (unsigned_fixed _ _).1, text_fixed, sign, Value.exact,
    ← rounded_scaled divides]
  simp only [decide_eq_true_eq]
  rfl

end Numeral

namespace Value
variable {q : ℚ}

/-- An integer needs no places, and is then written like every other rational. -/
theorem text_eq_exact {k : Nat} (places : decimalPlaces? q.den = some k) :
    (number q).text = exact q k := by
  rw [text]
  split_ifs with integer
  · have unplaced : k = 0 :=
      (places_eq_zero ((decimalPlaces?_eq_some q.den_pos).mp places)).mpr integer
    have whole : (2 * q.num.natAbs + 1) / 2 = q.num.natAbs := by omega
    subst unplaced
    simp [Text.ofInt, exact, fixedPoint, integer, whole]
  · rw [places]

theorem exists_ofRat (terminates : Terminates q) : ∃ k, (number q).text = (Numeral.ofRat q k).text ∧
    q.den ∣ 10 ^ k ∧ ((Numeral.ofRat q k).fraction ≠ [] ↔ q.den ≠ 1) ∧
    (Numeral.ofRat q k).fraction.getLast? ≠ some 48 := by
  obtain ⟨k, places⟩ := terminates.exists_places
  have least := (decimalPlaces?_eq_some q.den_pos).mp places
  have length : (Numeral.ofRat q k).fraction.length = k := Numeral.length_fraction_fixed k _
  have integral : (Numeral.ofRat q k).fraction = [] ↔ q.den = 1 := by
    rw [← List.length_eq_zero_iff, length]
    exact places_eq_zero least
  refine ⟨k, by rw [text_eq_exact places, Numeral.text_ofRat least.1], least.1, not_congr integral, ?_⟩
  intro zero
  by_cases integer : q.den = 1
  · simp [integral.mpr integer] at zero
  · exact not_ten_dvd_scaled integer least (Numeral.ten_dvd_of_fixed zero)

theorem rational?_text (terminates : Terminates q) : Text.rational? (number q).text = some q := by
  obtain ⟨k, shape, divides, _⟩ := exists_ofRat terminates
  have plain : (Numeral.ofRat q k).exponent = [] := (Numeral.unsigned_fixed _ _).2
  have decimal : (Numeral.ofRat q k).decimal = ⟨scaled q k, -k⟩ := Numeral.decimal_fixed k _
  have sign : (Numeral.ofRat q k).negative = decide (q < 0) := rfl
  rw [shape, Numeral.rational?_text _ plain, decimal, sign]
  simpa using signed_scaled divides

theorem text_canonical (q : ℚ) (terminates : Terminates q) :
    (∃ n : Numeral, n.text = (number q).text ∧ n.exponent = [] ∧ (n.negative = true ↔ q < 0) ∧
      (n.fraction ≠ [] ↔ ¬ ∃ z : ℤ, (z : ℚ) = q) ∧ n.fraction.getLast? ≠ some 48) ∧
    Text.rational? (number q).text = some q ∧
    ∀ r : ℚ, Terminates r → (number r).text = (number q).text → r = q := by
  have integral : (∃ z : ℤ, (z : ℚ) = q) ↔ q.den = 1 :=
    ⟨fun ⟨z, same⟩ => same ▸ Rat.den_intCast z, fun one => ⟨q.num, Rat.den_eq_one_iff q |>.mp one⟩⟩
  refine ⟨?_, rational?_text terminates, fun r finite same => ?_⟩
  · obtain ⟨k, shape, _, fraction, last⟩ := exists_ofRat terminates
    refine ⟨.ofRat q k, shape.symm, (Numeral.unsigned_fixed _ _).2, ?_, ?_, last⟩
    · exact decide_eq_true_iff
    · rw [integral]
      exact fraction
  · have read := rational?_text finite
    rw [same, rational?_text terminates] at read
    exact (Option.some.inj read).symm

theorem text_canonical_eighth : Terminates (-1 / 8) ∧ (number (-1 / 8)).text = utf8 "-0.125" ∧
    Text.rational? (number (-1 / 8)).text = some (-1 / 8) := by
  have den : (-1 / 8 : ℚ).den = 8 := by decide +kernel
  have terminates : Terminates (-1 / 8) := .of_dvd (k := 3) (by rw [den]; decide)
  refine ⟨terminates, by decide +kernel, (text_canonical _ terminates).2.1⟩

end Value
end Reckoner
