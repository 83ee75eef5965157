import Reckoner.Proofs.Numerals

/-! # Nearest numbers

A number is nearest to a magnitude if no other one is nearer, and its mantissa is
even if another one is as near (`IsNearest`).  The magnitudes that it is nearest
to are those that round to it (`IsNearest.rounds`, `Rounds.isNearest`): between two
neighbours there is no third number (`grid_gap`), so the midpoints to them decide.
Hence just one number is nearest (`IsNearest.unique`), and rounding finds it
(`isNearest_nearest`). -/
set_option autoImplicit false
namespace Reckoner

/-! ## Rounding to integers -/

theorem near_roundedQuotient (n : Nat) {d : Nat} (positive : 0 < d) :
    Near (roundedQuotient n d) ((n : ℚ) / d) := by
  have scale : (0 : ℚ) < d := by exact_mod_cast positive
  have split : (n : ℚ) = d * (n / d : Nat) + (n % d : Nat) := by
    exact_mod_cast (Nat.div_add_mod n d).symm
  have small : ((n % d : Nat) : ℚ) / d < 1 := by
    rw [div_lt_one scale]
    exact_mod_cast Nat.mod_lt n positive
  have rest : (0 : ℚ) ≤ ((n % d : Nat) : ℚ) / d := by positivity
  have less : 2 * (n % d) < d ↔ ((n % d : Nat) : ℚ) / d < 1 / 2 := by
    rw [div_lt_div_iff₀ scale (by norm_num), one_mul, mul_comm]
    exact_mod_cast Iff.rfl
  have more : d < 2 * (n % d) ↔ 1 / 2 < ((n % d : Nat) : ℚ) / d := by
    rw [div_lt_div_iff₀ (by norm_num) scale, one_mul, mul_comm ((n % d : Nat) : ℚ)]
    exact_mod_cast Iff.rfl
  have value : (n : ℚ) / d = (n / d : Nat) + ((n % d : Nat) : ℚ) / d := by
    nth_rewrite 1 [split]
    field_simp
  rw [value]
  unfold roundedQuotient
  simp only [less, more]
  generalize ((n % d : Nat) : ℚ) / d = part at *
  generalize n / d = q
  split_ifs with first second
  · exact ⟨by linarith, by linarith, fun _ => ⟨by linarith, by linarith⟩⟩
  · have next : ((q + 1 : Nat) : ℚ) = q + 1 := Nat.cast_succ q
    exact ⟨by linarith, by linarith, fun _ => ⟨by linarith, by linarith⟩⟩
  · -- A tie.
    have half : part = 1 / 2 := le_antisymm (not_lt.mp second) (not_lt.mp first)
    have sum : (q + q % 2) % 2 = 0 := by omega
    rcases Nat.mod_two_eq_zero_or_one q with even | odd
    · rw [even, half]
      exact ⟨by push_cast; linarith, by push_cast; linarith, fun uneven => by omega⟩
    · rw [odd, half]
      exact ⟨by push_cast; linarith, by push_cast; linarith, fun uneven => by omega⟩

namespace Binary64

/-! ## Neighbours -/

/-- The magnitudes of numbers, were there no greatest exponent. -/
def Grid (v : ℚ) : Prop := ∃ (k : Nat) (f : Int), k < 2 ^ 53 ∧ -1074 ≤ f ∧ v = k * 2 ^ f

/-- The next number above `m * 2 ^ e`. -/
def above (m : Nat) (e : Int) : ℚ := (m + 1) * 2 ^ e

/-- The next number below `m * 2 ^ e`, if there is one. -/
def below (m : Nat) (e : Int) : ℚ :=
  if m = 2 ^ 52 ∧ -1074 < e then (m - 1 / 2) * 2 ^ e else (m - 1) * 2 ^ e

section Neighbours
variable {m : Nat} {e : Int}

theorem midpointAbove_eq (m : Nat) (e : Int) : midpointAbove m e = (m * 2 ^ e + above m e) / 2 := by
  unfold midpointAbove above
  ring

theorem midpointBelow_eq (m : Nat) (e : Int) : midpointBelow m e = (m * 2 ^ e + below m e) / 2 := by
  unfold midpointBelow below
  split_ifs <;> ring

theorem lt_above (m : Nat) (e : Int) : (m : ℚ) * 2 ^ e < above m e := by
  have positive : (0 : ℚ) < 2 ^ e := by positivity
  unfold above
  linarith

theorem below_lt (m : Nat) (e : Int) : below m e < (m : ℚ) * 2 ^ e := by
  have positive : (0 : ℚ) < 2 ^ e := by positivity
  unfold below
  split_ifs <;> linarith

theorem grid_above (canonical : Canonical m e) : Grid (above m e) := by
  by_cases full : m + 1 = 2 ^ 53
  · refine ⟨2 ^ 52, e + 1, by norm_num, by have := canonical.least; omega, ?_⟩
    have whole : (m : ℚ) + 1 = 2 ^ 53 := by exact_mod_cast full
    have double := two_zpow_add e 1
    push_cast at double
    rw [above, whole, double]
    push_cast
    ring
  · refine ⟨m + 1, e, lt_of_le_of_ne canonical.below full, canonical.least, ?_⟩
    rw [above]
    push_cast
    ring

theorem grid_below (canonical : Canonical m e) (positive : 0 < m) : Grid (below m e) := by
  unfold below
  split_ifs with least
  · obtain ⟨rfl, above⟩ := least
    refine ⟨2 ^ 53 - 1, e - 1, by norm_num, by omega, ?_⟩
    have double := two_zpow_add (e - 1) 1
    push_cast at double
    rw [sub_add_cancel] at double
    rw [double]
    push_cast
    ring
  · refine ⟨m - 1, e, by have := canonical.below; omega, canonical.least, ?_⟩
    rw [Nat.cast_pred positive]

/-- No number lies between two neighbours. -/
theorem grid_gap (canonical : Canonical m e) {v : ℚ} (grid : Grid v) :
    v ≤ below m e ∨ v = m * 2 ^ e ∨ above m e ≤ v := by
  obtain ⟨k, f, small, least, rfl⟩ := grid
  have unit : (0 : ℚ) < 2 ^ e := by positivity
  by_cases finer : f < e
  · -- A number on a finer grid lies below the binade.
    left
    have normal : 2 ^ 52 ≤ m := canonical.normal.resolve_right (by omega)
    have half : (2 : ℚ) ^ e = 2 * 2 ^ (e - 1) := by
      rw [← zpow_one_add₀ (by norm_num)]
      congr 1
      omega
    have step : (2 : ℚ) ^ f ≤ 2 ^ (e - 1) := (zpow_le_zpow_iff_right₀ (by norm_num)).mpr (by omega)
    have most : (k : ℚ) ≤ 2 ^ 53 - 1 := by
      have : (k : ℚ) + 1 ≤ 2 ^ 53 := by exact_mod_cast small
      linarith
    have bound : (k : ℚ) * 2 ^ f ≤ (2 ^ 52 - 1 / 2) * 2 ^ e := by
      calc (k : ℚ) * 2 ^ f ≤ (2 ^ 53 - 1) * 2 ^ (e - 1) := by gcongr
        _ = (2 ^ 52 - 1 / 2) * 2 ^ e := by rw [half]; ring
    unfold below
    split_ifs with first
    · rw [first.1]
      exact_mod_cast bound
    · have more : (2 : ℚ) ^ 52 + 1 ≤ m := by
        have other : m ≠ 2 ^ 52 := fun same => first ⟨same, by omega⟩
        exact_mod_cast Nat.lt_of_le_of_ne normal (Ne.symm other)
      nlinarith
  · -- A number on the same or a coarser grid is a multiple of the unit.
    obtain ⟨j, rfl⟩ : ∃ j : Nat, f = e + j := ⟨(f - e).toNat, by omega⟩
    have multiple : (k : ℚ) * 2 ^ (e + j) = (k * 2 ^ j : Nat) * 2 ^ e := by
      rw [two_zpow_add]
      push_cast
      ring
    rw [multiple]
    generalize k * 2 ^ j = c
    rcases Nat.lt_trichotomy c m with less | same | more
    · left
      have least : (c : ℚ) + 1 ≤ m := by exact_mod_cast less
      unfold below
      split_ifs <;> nlinarith
    · right; left
      rw [same]
    · right; right
      have least : (m : ℚ) + 1 ≤ c := by exact_mod_cast more
      unfold above
      nlinarith

end Neighbours

/-! ## Distances -/

section Distances
variable {a b x : ℚ}

theorem dist_le_iff_of_lt (less : a < b) : |x - a| ≤ |x - b| ↔ x ≤ (a + b) / 2 := by
  rw [← sq_le_sq]
  constructor <;> intro <;> nlinarith

theorem dist_le_iff_of_gt (greater : b < a) : |x - a| ≤ |x - b| ↔ (a + b) / 2 ≤ x := by
  rw [← sq_le_sq]
  constructor <;> intro <;> nlinarith

theorem dist_eq_iff (different : a ≠ b) : |x - a| = |x - b| ↔ x = (a + b) / 2 := by
  rw [← sq_eq_sq_iff_abs_eq_abs]
  have apart : a - b ≠ 0 := sub_ne_zero.mpr different
  constructor
  · intro same
    have product : (a - b) * (x - (a + b) / 2) = 0 := by linarith
    rcases mul_eq_zero.mp product with zero | zero
    · exact absurd zero apart
    · linarith
  · rintro rfl
    ring

end Distances

/-! ## The nearest number -/

/-- No other number is nearer to a magnitude, and if another one is as near, the
mantissa is even. -/
structure IsNearest (m : Nat) (e : Int) (x : ℚ) : Prop where
  nearest : ∀ v, Grid v → |x - m * 2 ^ e| ≤ |x - v|
  even : ∀ v, Grid v → v ≠ m * 2 ^ e → |x - m * 2 ^ e| = |x - v| → m % 2 = 0

section Nearest
variable {m : Nat} {e : Int} {x : ℚ} (canonical : Canonical m e)
include canonical

theorem IsNearest.rounds (isNearest : IsNearest m e x) (nonneg : 0 ≤ x) : Rounds m e x := by
  have upper := grid_above canonical
  have high := (dist_le_iff_of_lt (lt_above m e)).mp (isNearest.nearest _ upper)
  have low : midpointBelow m e ≤ x := by
    rcases Nat.eq_zero_or_pos m with rfl | positive
    · have unit : (0 : ℚ) < 2 ^ e := by positivity
      have negative : below 0 e < 0 := by
        have := below_lt 0 e
        rwa [Nat.cast_zero, zero_mul] at this
      rw [midpointBelow_eq, Nat.cast_zero, zero_mul]
      linarith
    · rw [midpointBelow_eq]
      exact (dist_le_iff_of_gt (below_lt m e)).mp (isNearest.nearest _ (grid_below canonical positive))
  rw [← midpointAbove_eq] at high
  refine ⟨low, high, fun odd => ⟨lt_of_le_of_ne low fun same => ?_, lt_of_le_of_ne high fun same => ?_⟩⟩
  · have lower := grid_below canonical (by omega : 0 < m)
    have tie := (dist_eq_iff (below_lt m e).ne').mpr (same.symm.trans (midpointBelow_eq m e))
    have even := isNearest.even _ lower (below_lt m e).ne tie
    omega
  · have tie := (dist_eq_iff (lt_above m e).ne).mpr (same.trans (midpointAbove_eq m e))
    have even := isNearest.even _ upper (lt_above m e).ne' tie
    omega

theorem Rounds.isNearest (rounds : Rounds m e x) : IsNearest m e x := by
  have low := rounds.low
  have high := rounds.high
  rw [midpointBelow_eq] at low
  rw [midpointAbove_eq] at high
  constructor
  · intro v grid
    rcases grid_gap canonical grid with less | rfl | more
    · exact (dist_le_iff_of_gt (less.trans_lt (below_lt m e))).mpr (by linarith)
    · exact le_refl _
    · exact (dist_le_iff_of_lt ((lt_above m e).trans_le more)).mpr (by linarith)
  · intro v grid other tie
    rw [dist_eq_iff other.symm] at tie
    by_contra uneven
    obtain ⟨left, right⟩ := rounds.inner (by omega)
    rw [midpointBelow_eq] at left
    rw [midpointAbove_eq] at right
    rcases grid_gap canonical grid with less | same | more
    · linarith
    · exact other same
    · linarith

end Nearest

/-! ## What rounding finds -/

theorem rounds_nearestQuotient {negative sign : Bool} {n d m : Nat} {e : Int} (n_pos : 0 < n)
    (d_pos : 0 < d) (rounded : nearestQuotient negative n d = .finite sign m e) :
    sign = negative ∧ Rounds m e ((n : ℚ) / d) := by
  have order := (binaryOrder_spec n_pos d_pos).1
  unfold nearestQuotient at rounded
  simp only at rounded
  generalize exponent : max leastExponent (binaryOrder n d - 52) = f at rounded
  have unit : (0 : ℚ) < 2 ^ f := by positivity
  have scaled : 0 < d * Nat.pow 2 f.toNat := Nat.mul_pos d_pos (Nat.pow_pos (by decide))
  have near := near_roundedQuotient (n * Nat.pow 2 (-f).toNat) scaled
  rw [scaled_quotient] at near
  generalize roundedQuotient (n * Nat.pow 2 (-f).toNat) (d * Nat.pow 2 f.toNat) = r at *
  generalize (n : ℚ) / d = x at *
  have low := (le_div_iff₀ unit).mp near.low
  have high := (div_le_iff₀ unit).mp near.high
  simp only [Nat.pow_eq] at rounded
  unfold leastExponent at exponent
  by_cases full : r = 2 ^ 53
  · simp only [full, if_true] at rounded
    split_ifs at rounded
    cases rounded
    have double := two_zpow_add f 1
    push_cast at double
    have least : (2 : Nat) ^ 52 = 2 ^ 52 ∧ -1074 < f + 1 := ⟨rfl, by omega⟩
    have whole : ((2 ^ 53 : Nat) : ℚ) = 2 * (2 ^ 52 : Nat) := by norm_num
    rw [full, whole] at low high
    refine ⟨rfl, ?_, ?_, fun odd => by norm_num at odd⟩
    · rw [midpointBelow, if_pos least, double]
      linarith
    · rw [midpointAbove, double]
      linarith
  · simp only [if_neg full] at rounded
    split_ifs at rounded
    cases rounded
    refine ⟨rfl, ?_, high, fun odd => ?_⟩
    · unfold midpointBelow
      split_ifs with first
      · -- The least number of a binade is at most what rounds to it.
        have binade : binaryOrder n d = e + (52 : Nat) := by omega
        rw [binade, two_zpow_add] at order
        rw [first.1]
        push_cast
        linarith
      · exact low
    · obtain ⟨left, right⟩ := near.inner odd
      rw [midpointBelow_of_odd odd]
      exact ⟨(lt_div_iff₀ unit).mp left, (div_lt_iff₀ unit).mp right⟩

/-- Rounding finds the number nearest to a rational's magnitude, with its sign. -/
theorem isNearest_nearest {q : ℚ} {negative : Bool} {m : Nat} {e : Int}
    (rounded : nearest q = .finite negative m e) :
    negative = decide (q < 0) ∧ Canonical m e ∧ IsNearest m e |q| := by
  have canonical := canonical_nearest rounded
  unfold nearest at rounded
  split_ifs at rounded with zero
  · cases rounded
    rw [Rat.num_eq_zero.mp zero]
    exact ⟨rfl, canonical, fun v _ => by simp, fun _ _ _ _ => rfl⟩
  · obtain ⟨rfl, rounds⟩ := rounds_nearestQuotient (by omega) q.den_pos rounded
    rw [natAbs_div_den] at rounds
    exact ⟨decide_eq_decide.mpr Rat.num_neg, canonical, rounds.isNearest canonical⟩

/-- Two numbers that are nearest to the same magnitude are the same. -/
theorem IsNearest.unique {m k : Nat} {e f : Int} {x : ℚ} (nonneg : 0 ≤ x)
    (canonical : Canonical m e) (likewise : Canonical k f) (one : IsNearest m e x)
    (other : IsNearest k f x) : m = k ∧ e = f := by
  have left := one.rounds canonical nonneg
  have right := other.rounds likewise nonneg
  rcases nonneg.eq_or_lt with rfl | positive
  · have zero : ∀ {m e}, Canonical m e → Rounds m e 0 → m = 0 ∧ e = -1074 := by
      intro m e canonical rounds
      have nothing : m = 0 := by
        by_contra nonzero
        exact lt_irrefl _ (rounds.pos (Nat.pos_of_ne_zero nonzero))
      subst nothing
      exact ⟨rfl, canonical.normal.resolve_left (by norm_num)⟩
    obtain ⟨rfl, rfl⟩ := zero canonical left
    obtain ⟨rfl, rfl⟩ := zero likewise right
    exact ⟨rfl, rfl⟩
  · have num : 0 < x.num.natAbs := Int.natAbs_pos.mpr (Rat.num_ne_zero.mpr positive.ne')
    rw [← abs_of_pos positive, ← natAbs_div_den] at left right
    have same := (nearestQuotient_eq false canonical num x.den_pos left).symm.trans
      (nearestQuotient_eq false likewise num x.den_pos right)
    cases same
    exact ⟨rfl, rfl⟩

end Binary64
end Reckoner
