import Mathlib.Algebra.Order.Field.Power
import Mathlib.Algebra.Order.Field.Rat
import Mathlib.Tactic.FieldSimp
import Mathlib.Tactic.Linarith
import Mathlib.Tactic.NormNum
import Mathlib.Tactic.Positivity
import Mathlib.Tactic.Ring
import Reckoner.Binary64.Shortest

/-! # Rounding to binary64 numbers

The numbers that round to `m * 2 ^ e` are those between the midpoints to its
neighbours (`Rounds`), the midpoints included for an even mantissa.  Rounding
finds the number that a positive quotient rounds to (`nearestQuotient_eq`), and
its mantissas and exponents are canonical (`canonical_nearestQuotient`). -/
set_option autoImplicit false
namespace Reckoner

/-! ## Powers with the sign of the exponent split off -/

theorem pow_div_pow {b : ℚ} (nonzero : b ≠ 0) (e : Int) :
    b ^ e.toNat / b ^ (-e).toNat = b ^ e := by
  rw [← zpow_natCast, ← zpow_natCast, ← zpow_sub₀ nonzero]
  congr 1
  omega

theorem two_zpow_add (e : Int) (k : Nat) : (2 : ℚ) ^ (e + k) = 2 ^ k * 2 ^ e := by
  rw [zpow_add₀ (by norm_num), zpow_natCast, mul_comm]

/-- A quotient scaled by a power of two, whole numbers kept on both sides. -/
theorem scaled_quotient (n d : Nat) (e : Int) :
    ((n * Nat.pow 2 (-e).toNat : Nat) : ℚ) / (d * Nat.pow 2 e.toNat : Nat) = n / d / 2 ^ e := by
  have power := pow_div_pow (b := 2) (by norm_num) e
  simp only [Nat.pow_eq, Nat.cast_mul, Nat.cast_pow, Nat.cast_ofNat]
  rw [← power]
  field_simp

theorem natAbs_div_den (q : ℚ) : (q.num.natAbs : ℚ) / q.den = |q| := by
  have den : (0 : ℚ) < q.den := by exact_mod_cast q.den_pos
  rw [Nat.cast_natAbs, Int.cast_abs, ← abs_of_pos den, ← abs_div, Rat.num_div_den]

/-! ## Rounding to integers -/

/-- An integer next to a number, the even one of two. -/
structure Near (r : Nat) (y : ℚ) : Prop where
  low : (r : ℚ) - 1 / 2 ≤ y
  high : y ≤ r + 1 / 2
  inner : r % 2 = 1 → (r : ℚ) - 1 / 2 < y ∧ y < r + 1 / 2

theorem roundedQuotient_eq {n d r : Nat} (positive : 0 < d) (near : Near r ((n : ℚ) / d)) :
    roundedQuotient n d = r := by
  have scale : (0 : ℚ) < d := by exact_mod_cast positive
  -- The same comparisons without fractions.
  have low : 2 * r * d ≤ 2 * n + d := by
    have bound := (le_div_iff₀ scale).mp near.low
    have : (2 * r * d : ℚ) ≤ 2 * n + d := by linarith
    exact_mod_cast this
  have high : 2 * n ≤ 2 * r * d + d := by
    have bound := (div_le_iff₀ scale).mp near.high
    have : (2 * n : ℚ) ≤ 2 * r * d + d := by linarith
    exact_mod_cast this
  have inner : r % 2 = 1 → 2 * r * d < 2 * n + d ∧ 2 * n < 2 * r * d + d := by
    intro odd
    obtain ⟨left, right⟩ := near.inner odd
    have first := (lt_div_iff₀ scale).mp left
    have second := (div_lt_iff₀ scale).mp right
    have one : (2 * r * d : ℚ) < 2 * n + d := by linarith
    have two : (2 * n : ℚ) < 2 * r * d + d := by linarith
    exact ⟨by exact_mod_cast one, by exact_mod_cast two⟩
  have split := Nat.div_add_mod n d
  have small := Nat.mod_lt n positive
  unfold roundedQuotient
  generalize n / d = q at split
  generalize n % d = s at split small
  -- The integer is the quotient or the one above it.
  have least : q ≤ r := by
    by_contra above
    have : d * (r + 1) ≤ d * q := Nat.mul_le_mul_left d (by omega)
    nlinarith
  have most : r ≤ q + 1 := by
    by_contra above
    have : d * (q + 2) ≤ d * r := Nat.mul_le_mul_left d (by omega)
    nlinarith
  have shape : 2 * n = 2 * q * d + 2 * s := by
    rw [← split]
    ring
  rcases Nat.eq_or_lt_of_le least with same | above
  · subst same
    simp only
    split_ifs <;> omega
  · have next : r = q + 1 := by omega
    subst next
    have expand : 2 * (q + 1) * d = 2 * q * d + 2 * d := by ring
    rw [expand] at low high inner
    simp only
    split_ifs <;> omega

theorem le_roundedQuotient {n d a : Nat} (positive : 0 < d) (low : (a : ℚ) ≤ n / d) :
    a ≤ roundedQuotient n d := by
  have scale : (0 : ℚ) < d := by exact_mod_cast positive
  have bound : a * d ≤ n := by exact_mod_cast (le_div_iff₀ scale).mp low
  have least : a ≤ n / d := (Nat.le_div_iff_mul_le positive).mpr bound
  unfold roundedQuotient
  simp only
  split_ifs <;> omega

theorem roundedQuotient_le {n d a : Nat} (positive : 0 < d) (high : (n : ℚ) / d < a) :
    roundedQuotient n d ≤ a := by
  have scale : (0 : ℚ) < d := by exact_mod_cast positive
  have bound : n < a * d := by exact_mod_cast (div_lt_iff₀ scale).mp high
  have most : n / d < a := (Nat.div_lt_iff_lt_mul positive).mpr bound
  unfold roundedQuotient
  simp only
  split_ifs <;> omega

/-! ## The order of a quotient -/

section Order
variable {n d : Nat}

theorem binaryOrder_spec (n_pos : 0 < n) (d_pos : 0 < d) :
    (2 : ℚ) ^ binaryOrder n d ≤ n / d ∧ (n : ℚ) / d < 2 ^ (binaryOrder n d + 1) := by
  have scale : (0 : ℚ) < d := by exact_mod_cast d_pos
  have n_low : (2 : ℚ) ^ (n.log2 : Int) ≤ n := by
    rw [zpow_natCast]
    exact_mod_cast Nat.log2_self_le n_pos.ne'
  have n_high : (n : ℚ) < 2 ^ ((n.log2 : Int) + 1) := by
    rw [← Nat.cast_one, ← Nat.cast_add, zpow_natCast]
    exact_mod_cast Nat.lt_log2_self
  have d_low : (2 : ℚ) ^ (d.log2 : Int) ≤ d := by
    rw [zpow_natCast]
    exact_mod_cast Nat.log2_self_le d_pos.ne'
  have d_high : (d : ℚ) < 2 ^ ((d.log2 : Int) + 1) := by
    rw [← Nat.cast_one, ← Nat.cast_add, zpow_natCast]
    exact_mod_cast Nat.lt_log2_self
  have shift : ∀ k : Int, ((n : ℚ) / d < 2 ^ k ↔
      n * Nat.pow 2 (-k).toNat < d * Nat.pow 2 k.toNat) := by
    intro k
    have positive : (0 : ℚ) < 2 ^ (-k).toNat := by positivity
    have power := pow_div_pow (b := 2) (by norm_num) k
    rw [← power, div_lt_div_iff₀ scale positive, mul_comm ((2 : ℚ) ^ k.toNat)]
    simp only [Nat.pow_eq]
    exact_mod_cast Iff.rfl
  unfold binaryOrder
  simp only [← shift]
  split_ifs with below
  · refine ⟨?_, by rwa [sub_add_cancel]⟩
    have split : (2 : ℚ) ^ ((n.log2 : Int) - d.log2 - 1) * 2 ^ ((d.log2 : Int) + 1) =
        2 ^ (n.log2 : Int) := by
      rw [← zpow_add₀ (by norm_num)]
      congr 1
      omega
    have positive : (0 : ℚ) < 2 ^ ((n.log2 : Int) - d.log2 - 1) := by positivity
    rw [le_div_iff₀ scale]
    nlinarith
  · refine ⟨not_lt.mp below, ?_⟩
    have split : (2 : ℚ) ^ ((n.log2 : Int) - d.log2 + 1) * 2 ^ (d.log2 : Int) =
        2 ^ ((n.log2 : Int) + 1) := by
      rw [← zpow_add₀ (by norm_num)]
      congr 1
      omega
    have positive : (0 : ℚ) < 2 ^ ((n.log2 : Int) - d.log2 + 1) := by positivity
    rw [div_lt_iff₀ scale]
    nlinarith

theorem binaryOrder_eq {k : Int} (n_pos : 0 < n) (d_pos : 0 < d) (low : (2 : ℚ) ^ k ≤ n / d)
    (high : (n : ℚ) / d < 2 ^ (k + 1)) : binaryOrder n d = k := by
  obtain ⟨least, most⟩ := binaryOrder_spec n_pos d_pos
  have first : k < binaryOrder n d + 1 :=
    (zpow_lt_zpow_iff_right₀ (a := (2 : ℚ)) (by norm_num)).mp (low.trans_lt most)
  have second : binaryOrder n d < k + 1 :=
    (zpow_lt_zpow_iff_right₀ (a := (2 : ℚ)) (by norm_num)).mp (least.trans_lt high)
  omega

end Order

/-! ## Rounding to binary64 -/

namespace Binary64

/-- A mantissa of at most 53 bits, of exactly so many unless the exponent is
the least. -/
structure Canonical (m : Nat) (e : Int) : Prop where
  below : m < 2 ^ 53
  least : -1074 ≤ e
  greatest : e ≤ 971
  normal : 2 ^ 52 ≤ m ∨ e = -1074

/-- The midpoint to the next number below, which is closer at the least
mantissa of a binade. -/
def midpointBelow (m : Nat) (e : Int) : ℚ :=
  if m = 2 ^ 52 ∧ -1074 < e then (m - 1 / 4) * 2 ^ e else (m - 1 / 2) * 2 ^ e

def midpointAbove (m : Nat) (e : Int) : ℚ := (m + 1 / 2) * 2 ^ e

/-- The numbers that round to `m * 2 ^ e`. -/
structure Rounds (m : Nat) (e : Int) (x : ℚ) : Prop where
  low : midpointBelow m e ≤ x
  high : x ≤ midpointAbove m e
  inner : m % 2 = 1 → midpointBelow m e < x ∧ x < midpointAbove m e

section Rounding
variable {m : Nat} {e : Int}

theorem le_midpointBelow (m : Nat) (e : Int) : ((m : ℚ) - 1 / 2) * 2 ^ e ≤ midpointBelow m e := by
  have positive : (0 : ℚ) < 2 ^ e := by positivity
  unfold midpointBelow
  split_ifs
  · nlinarith
  · exact le_refl _

theorem midpointBelow_of_odd (odd : m % 2 = 1) : midpointBelow m e = ((m : ℚ) - 1 / 2) * 2 ^ e := by
  have other : ¬ (m = 2 ^ 52 ∧ -1074 < e) := by
    rintro ⟨rfl, _⟩
    norm_num at odd
  rw [midpointBelow, if_neg other]

/-- On the grid of its own exponent, the mantissa is next to the number. -/
theorem Rounds.near {x : ℚ} (rounds : Rounds m e x) : Near m (x / 2 ^ e) := by
  have positive : (0 : ℚ) < 2 ^ e := by positivity
  have low := le_midpointBelow m e
  constructor
  case low => rw [le_div_iff₀ positive]; exact low.trans rounds.low
  case high => rw [div_le_iff₀ positive]; exact rounds.high
  case inner =>
    intro odd
    obtain ⟨left, right⟩ := rounds.inner odd
    rw [midpointBelow_of_odd odd] at left
    rw [lt_div_iff₀ positive, div_lt_iff₀ positive]
    exact ⟨left, right⟩

/-- What rounding does once the exponent is known. -/
theorem nearestQuotient_of_exponent (negative : Bool) {n d r : Nat} (d_pos : 0 < d)
    (exponent : max leastExponent (binaryOrder n d - 52) = e) (near : Near r ((n : ℚ) / d / 2 ^ e)) :
    nearestQuotient negative n d =
      let (m, e) := if r = 2 ^ 53 then (2 ^ 52, e + 1) else (r, e)
      if greatestExponent < e then .infinite negative else .finite negative m e := by
  have positive : 0 < d * Nat.pow 2 e.toNat := Nat.mul_pos d_pos (Nat.pow_pos (by decide))
  rw [← scaled_quotient] at near
  unfold nearestQuotient
  simp only [exponent, roundedQuotient_eq positive near]
  rfl

theorem exponent_eq {n d : Nat} (n_pos : 0 < n) (d_pos : 0 < d) (least : -1074 ≤ e)
    (low : e = -1074 ∨ (2 : ℚ) ^ (e + 52) ≤ n / d) (high : (n : ℚ) / d < 2 ^ (e + 53)) :
    max leastExponent (binaryOrder n d - 52) = e := by
  have above : binaryOrder n d < e + 53 := by
    have bounds := binaryOrder_spec n_pos d_pos
    exact (zpow_lt_zpow_iff_right₀ (a := (2 : ℚ)) (by norm_num)).mp (bounds.1.trans_lt high)
  unfold leastExponent
  rcases low with lowest | low
  · omega
  · have order : binaryOrder n d = e + 52 := by
      refine binaryOrder_eq n_pos d_pos low ?_
      rwa [show e + 52 + 1 = e + 53 by omega]
    omega

theorem nearestQuotient_eq (negative : Bool) {n d : Nat} (canonical : Canonical m e)
    (n_pos : 0 < n) (d_pos : 0 < d) (rounds : Rounds m e (n / d)) :
    nearestQuotient negative n d = .finite negative m e := by
  have positive : (0 : ℚ) < 2 ^ e := by positivity
  have least := canonical.least
  have finite : ¬ greatestExponent < e := not_lt.mpr canonical.greatest
  have below : (m : ℚ) + 1 ≤ 2 ^ 53 := by exact_mod_cast canonical.below
  have high : (n : ℚ) / d < 2 ^ (e + 53) := by
    have bound := rounds.high
    unfold midpointAbove at bound
    rw [show e + 53 = e + (53 : Nat) by rfl, two_zpow_add]
    nlinarith
  by_cases same : e = -1074 ∨ (2 : ℚ) ^ (e + 52) ≤ n / d
  · -- The quotient lies in the binade of the exponent, or the exponent is the least.
    have exponent := exponent_eq n_pos d_pos least same high
    rw [nearestQuotient_of_exponent negative d_pos exponent rounds.near]
    have other : m ≠ 2 ^ 53 := canonical.below.ne
    simp only [if_neg other, if_neg finite]
  · -- Just below a binade: it is rounded up to the least mantissa of that binade.
    obtain ⟨above, under⟩ := not_or.mp same
    have under := not_le.mp under
    rw [show e + 52 = e + (52 : Nat) by rfl, two_zpow_add] at under
    have normal := canonical.normal.resolve_right above
    have low := rounds.low
    have first : m = 2 ^ 52 := by
      by_contra other
      have more : (2 : ℚ) ^ 52 + 1 ≤ m := by exact_mod_cast Nat.lt_of_le_of_ne normal (Ne.symm other)
      have bound := (le_midpointBelow m e).trans low
      nlinarith
    have quarter : ((2 : ℚ) ^ 52 - 1 / 4) * 2 ^ e ≤ n / d := by
      rw [midpointBelow, if_pos ⟨first, by omega⟩, first] at low
      exact_mod_cast low
    have half : (2 : ℚ) ^ e = 2 * 2 ^ (e - 1) := by
      rw [← zpow_one_add₀ (by norm_num)]
      congr 1
      omega
    have smaller : (0 : ℚ) < 2 ^ (e - 1) := by positivity
    have exponent : max leastExponent (binaryOrder n d - 52) = e - 1 := by
      refine exponent_eq n_pos d_pos (by omega) (Or.inr ?_) ?_
      · rw [show e - 1 + 52 = e + (51 : Nat) by omega, two_zpow_add]
        nlinarith
      · rw [show e - 1 + 53 = e + (52 : Nat) by omega, two_zpow_add]
        exact under
    have near : Near (2 ^ 53) ((n : ℚ) / d / 2 ^ (e - 1)) := by
      constructor
      case low =>
        rw [le_div_iff₀ smaller]
        push_cast
        nlinarith
      case high =>
        rw [div_le_iff₀ smaller]
        push_cast
        nlinarith
      case inner => intro odd; norm_num at odd
    rw [nearestQuotient_of_exponent negative d_pos exponent near]
    simp only [if_true, sub_add_cancel, if_neg finite, first]

/-- What rounding gives is canonical. -/
theorem canonical_nearestQuotient {negative sign : Bool} {n d : Nat} (n_pos : 0 < n) (d_pos : 0 < d)
    (rounded : nearestQuotient negative n d = .finite sign m e) : Canonical m e := by
  obtain ⟨low, high⟩ := binaryOrder_spec n_pos d_pos
  unfold nearestQuotient at rounded
  simp only at rounded
  generalize exponent : max leastExponent (binaryOrder n d - 52) = f at rounded
  unfold leastExponent at exponent
  have positive : (0 : ℚ) < 2 ^ f := by positivity
  have scaled : 0 < d * Nat.pow 2 f.toNat := Nat.mul_pos d_pos (Nat.pow_pos (by decide))
  have most : roundedQuotient (n * Nat.pow 2 (-f).toNat) (d * Nat.pow 2 f.toNat) ≤ 2 ^ 53 := by
    refine roundedQuotient_le scaled ?_
    rw [scaled_quotient, div_lt_iff₀ positive, Nat.cast_pow, Nat.cast_ofNat, ← two_zpow_add]
    exact high.trans_le ((zpow_le_zpow_iff_right₀ (by norm_num)).mpr (by push_cast; omega))
  have normal : 2 ^ 52 ≤ roundedQuotient (n * Nat.pow 2 (-f).toNat) (d * Nat.pow 2 f.toNat) ∨
      f = -1074 := by
    by_cases lowest : f = -1074
    · exact Or.inr lowest
    · refine Or.inl (le_roundedQuotient scaled ?_)
      rw [scaled_quotient, le_div_iff₀ positive, Nat.cast_pow, Nat.cast_ofNat, ← two_zpow_add]
      exact ((zpow_le_zpow_iff_right₀ (by norm_num)).mpr (by push_cast; omega)).trans low
  generalize roundedQuotient (n * Nat.pow 2 (-f).toNat) (d * Nat.pow 2 f.toNat) = r at *
  simp only [Nat.pow_eq] at rounded
  unfold greatestExponent at rounded
  by_cases full : r = 2 ^ 53
  · simp only [full, if_true] at rounded
    split_ifs at rounded
    cases rounded
    exact ⟨by norm_num, by omega, by omega, Or.inl (le_refl _)⟩
  · simp only [if_neg full] at rounded
    split_ifs at rounded
    cases rounded
    exact ⟨lt_of_le_of_ne most full, by omega, by omega, normal⟩

end Rounding
end Binary64
end Reckoner
