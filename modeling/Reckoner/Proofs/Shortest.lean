import Reckoner.Proofs.Rounding

/-! # Shortest decimals are read back

The interval that shortest decimals are chosen from holds the multiples of a
power of ten that round to the number (`holds_interval`).  Steps of the
seventeenth digit are smaller than the interval (`holds_of_small_step`), so a
decimal is found, and rounding it gives the number again (`rounded_shortest`). -/
set_option autoImplicit false
namespace Reckoner

namespace Decimal

def toRat (d : Decimal) : ℚ := d.coefficient * 10 ^ d.scale

/-- The number nearest to a decimal with a sign. -/
def rounded (negative : Bool) (d : Decimal) : Binary64 :=
  if d.coefficient = 0 then .finite negative 0 Binary64.leastExponent
  else Binary64.nearestQuotient negative (d.coefficient * Nat.pow 10 d.scale.toNat)
    (Nat.pow 10 (-d.scale).toNat)

theorem quotient_eq_toRat (d : Decimal) :
    ((d.coefficient * Nat.pow 10 d.scale.toNat : Nat) : ℚ) / (Nat.pow 10 (-d.scale).toNat : Nat) =
      d.toRat := by
  have power := pow_div_pow (b := 10) (by norm_num) d.scale
  simp only [Nat.pow_eq, Nat.cast_mul, Nat.cast_pow, Nat.cast_ofNat]
  rw [toRat, ← power, mul_div_assoc]

theorem rounded_eq (negative : Bool) {d : Decimal} {m : Nat} {e : Int}
    (canonical : Binary64.Canonical m e) (nonzero : d.coefficient ≠ 0)
    (rounds : Binary64.Rounds m e d.toRat) : d.rounded negative = .finite negative m e := by
  have ten : ∀ k, 0 < Nat.pow 10 k := fun k => Nat.pow_pos (by decide)
  rw [rounded, if_neg nonzero]
  refine Binary64.nearestQuotient_eq negative canonical ?_ (ten _) ?_
  · exact Nat.mul_pos (Nat.pos_of_ne_zero nonzero) (ten _)
  · rwa [quotient_eq_toRat]

theorem toRat_trimmed (fuel : Nat) (d : Decimal) : (d.trimmed fuel).toRat = d.toRat := by
  induction fuel generalizing d with
  | zero => rfl
  | succ fuel ih =>
    rw [trimmed]
    split_ifs with zero
    · have whole : (d.coefficient : ℚ) = 10 * (d.coefficient / 10 : Nat) := by
        exact_mod_cast (Nat.mul_div_cancel' (Nat.dvd_of_mod_eq_zero zero.2)).symm
      rw [ih, toRat, toRat, whole, zpow_add_one₀ (by norm_num)]
      ring
    · rfl

theorem toRat_eq_zero {d : Decimal} : d.toRat = 0 ↔ d.coefficient = 0 := by
  have power : (10 : ℚ) ^ d.scale ≠ 0 := by positivity
  simp [toRat, power]

end Decimal

namespace Binary64

/-! ## The interval of a number -/

/-- Whether a multiple of a power of ten lies in an interval. -/
def Interval.holds (i : Interval) (scale : Int) (n : Nat) : Bool :=
  let grid := i.unit * Nat.pow 10 scale.toNat
  let up := Nat.pow 10 (-scale).toNat
  if i.closed then i.low * up ≤ n * grid && n * grid ≤ i.high * up
  else i.low * up < n * grid && n * grid < i.high * up

/-- The greatest multiple of a power of ten up to the value. -/
def Interval.floor (i : Interval) (scale : Int) : Nat :=
  i.value * Nat.pow 10 (-scale).toNat / (i.unit * Nat.pow 10 scale.toNat)

theorem holds_of_onGrid {i : Interval} {scale : Int} {d : Decimal}
    (found : onGrid i scale = some d) : ∃ n, d = ⟨n, scale⟩ ∧ i.holds scale n = true := by
  unfold onGrid at found
  simp only at found
  split at found
  next first second =>
    obtain rfl := Option.some.inj found
    refine ⟨_, rfl, ?_⟩
    split_ifs
    · exact first
    · exact second
    · rcases Nat.mod_two_eq_zero_or_one (i.floor scale) with even | odd
      · exact even ▸ first
      · exact odd ▸ second
  next first _ =>
    obtain rfl := Option.some.inj found
    exact ⟨_, rfl, first⟩
  next second =>
    obtain rfl := Option.some.inj found
    exact ⟨_, rfl, second⟩
  next => simp at found

theorem isSome_onGrid {i : Interval} {scale : Int}
    (near : i.holds scale (i.floor scale) = true ∨ i.holds scale (i.floor scale + 1) = true) :
    (onGrid i scale).isSome = true := by
  unfold onGrid
  simp only
  split
  next => rfl
  next => rfl
  next => rfl
  next first second =>
    rcases near with inside | inside
    · exact absurd (inside.symm.trans first) (by decide)
    · exact absurd (inside.symm.trans second) (by decide)

section Interval
variable {m : Nat} {e : Int}

theorem quarters (k : Nat) (e : Int) :
    ((k * Nat.pow 2 (e - 2).toNat : Nat) : ℚ) / (Nat.pow 2 (2 - e).toNat : Nat) =
      k / 4 * 2 ^ e := by
  have power := pow_div_pow (b := 2) (by norm_num) (e - 2)
  rw [neg_sub, zpow_sub₀ (by norm_num)] at power
  simp only [Nat.pow_eq, Nat.cast_mul, Nat.cast_pow, Nat.cast_ofNat]
  rw [mul_div_assoc, power]
  ring

theorem low_interval (positive : 0 < m) :
    ((interval m e).low : ℚ) / (interval m e).unit = midpointBelow m e := by
  have scaled := quarters (4 * m - if m = Nat.pow 2 52 ∧ leastExponent < e then 1 else 2) e
  refine scaled.trans ?_
  unfold midpointBelow leastExponent
  simp only [Nat.pow_eq]
  split_ifs
  · rw [Nat.cast_sub (by omega)]
    push_cast
    ring
  · rw [Nat.cast_sub (by omega)]
    push_cast
    ring

theorem value_interval (m : Nat) (e : Int) :
    ((interval m e).value : ℚ) / (interval m e).unit = m * 2 ^ e := by
  refine (quarters (4 * m) e).trans ?_
  push_cast
  ring

theorem high_interval (m : Nat) (e : Int) :
    ((interval m e).high : ℚ) / (interval m e).unit = midpointAbove m e := by
  refine (quarters (4 * m + 2) e).trans ?_
  unfold midpointAbove
  push_cast
  ring

theorem unit_pos (m : Nat) (e : Int) : 0 < (interval m e).unit := Nat.pow_pos (by decide)

/-- The comparisons of an interval with a multiple of a power of ten. -/
theorem compared (a n : Nat) {unit : Nat} (unit_pos : 0 < unit) (scale : Int) :
    (a * Nat.pow 10 (-scale).toNat ≤ n * (unit * Nat.pow 10 scale.toNat) ↔
      (a : ℚ) / unit ≤ Decimal.toRat ⟨n, scale⟩) ∧
    (n * (unit * Nat.pow 10 scale.toNat) ≤ a * Nat.pow 10 (-scale).toNat ↔
      Decimal.toRat ⟨n, scale⟩ ≤ (a : ℚ) / unit) := by
  have positive : (0 : ℚ) < unit := by exact_mod_cast unit_pos
  have up : (0 : ℚ) < (Nat.pow 10 (-scale).toNat : Nat) := by
    exact_mod_cast Nat.pow_pos (by decide)
  rw [← Decimal.quotient_eq_toRat, div_le_div_iff₀ positive up, div_le_div_iff₀ up positive]
  constructor
  · rw [show n * (unit * Nat.pow 10 scale.toNat) = n * Nat.pow 10 scale.toNat * unit by ring]
    exact_mod_cast Iff.rfl
  · rw [show n * (unit * Nat.pow 10 scale.toNat) = n * Nat.pow 10 scale.toNat * unit by ring]
    exact_mod_cast Iff.rfl

theorem holds_interval (positive : 0 < m) {scale : Int} {n : Nat} :
    (interval m e).holds scale n = true ↔ Rounds m e (Decimal.toRat ⟨n, scale⟩) := by
  obtain ⟨above, below⟩ := compared (interval m e).low n (unit_pos m e) scale
  obtain ⟨beyond, within⟩ := compared (interval m e).high n (unit_pos m e) scale
  rw [low_interval positive] at above below
  rw [high_interval] at beyond within
  have parity : (interval m e).closed = decide (m % 2 = 0) := rfl
  unfold Interval.holds
  simp only [parity, decide_eq_true_eq]
  split_ifs with even
  · rw [Bool.and_eq_true, decide_eq_true_eq, decide_eq_true_eq, above, within]
    refine ⟨fun inside => ⟨inside.1, inside.2, by omega⟩, fun rounds => ⟨rounds.low, rounds.high⟩⟩
  · have odd : m % 2 = 1 := by omega
    rw [Bool.and_eq_true, decide_eq_true_eq, decide_eq_true_eq, ← not_le, ← not_le, below, beyond,
      not_le, not_le]
    exact ⟨fun inside => ⟨inside.1.le, inside.2.le, fun _ => inside⟩, fun rounds => rounds.inner odd⟩

/-- The value lies between its floor and the multiple above it. -/
theorem floor_interval (m : Nat) (e scale : Int) :
    Decimal.toRat ⟨(interval m e).floor scale, scale⟩ ≤ m * 2 ^ e ∧
      (m : ℚ) * 2 ^ e < Decimal.toRat ⟨(interval m e).floor scale + 1, scale⟩ := by
  have grid_pos : 0 < (interval m e).unit * Nat.pow 10 scale.toNat :=
    Nat.mul_pos (unit_pos m e) (Nat.pow_pos (by decide))
  have low := (compared (interval m e).value ((interval m e).floor scale) (unit_pos m e) scale).2
  have high := (compared (interval m e).value ((interval m e).floor scale + 1) (unit_pos m e) scale).2
  rw [value_interval] at low high
  constructor
  · exact low.mp (Nat.div_mul_le_self _ _)
  · rw [← not_le, ← high, not_le]
    exact Nat.lt_mul_of_div_lt (Nat.lt_succ_self _) grid_pos

/-- A step smaller than the interval meets it. -/
theorem holds_of_small_step (positive : 0 < m) {scale : Int}
    (small : (10 : ℚ) ^ scale < midpointAbove m e - midpointBelow m e) :
    (interval m e).holds scale ((interval m e).floor scale) = true ∨
      (interval m e).holds scale ((interval m e).floor scale + 1) = true := by
  obtain ⟨low, high⟩ := floor_interval m e scale
  rw [holds_interval positive, holds_interval positive]
  generalize (interval m e).floor scale = c at *
  have step : Decimal.toRat ⟨c + 1, scale⟩ = Decimal.toRat ⟨c, scale⟩ + 10 ^ scale := by
    simp only [Decimal.toRat]
    push_cast
    ring
  rw [step] at high ⊢
  generalize Decimal.toRat ⟨c, scale⟩ = x at *
  have unit : (0 : ℚ) < 2 ^ e := by positivity
  have above : (m : ℚ) * 2 ^ e < midpointAbove m e := by
    unfold midpointAbove
    nlinarith
  have below : midpointBelow m e < m * 2 ^ e := by
    unfold midpointBelow
    split_ifs <;> nlinarith
  -- The floor is inside, or it is so far below that the multiple above it is.
  by_cases inside : midpointBelow m e < x
  · exact Or.inl ⟨inside.le, by linarith, fun _ => ⟨inside, by linarith⟩⟩
  · have outside := not_lt.mp inside
    exact Or.inr ⟨by linarith, by linarith, fun _ => ⟨by linarith, by linarith⟩⟩

end Interval

/-! ## The order of a number -/

theorem lt_pow_length (n : Nat) : n < 10 ^ (Text.ofNat n).length := by
  rw [Text.ofNat, List.length_map]
  exact (Nat.length_toDigits_le_iff (by decide) Nat.length_toDigits_pos).mp (le_refl _)

theorem pow_length_le {n : Nat} (positive : 0 < n) : 10 ^ ((Text.ofNat n).length - 1) ≤ n := by
  have nonempty : 0 < (Nat.toDigits 10 n).length := Nat.length_toDigits_pos
  rw [Text.ofNat, List.length_map]
  by_cases one : (Nat.toDigits 10 n).length = 1
  · rw [one]
    exact positive
  · have bound := Nat.length_toDigits_le_iff (b := 10) (n := n)
      (k := (Nat.toDigits 10 n).length - 1) (by decide) (by omega)
    by_contra less
    have := bound.mpr (not_le.mp less)
    omega

theorem pow_decimalOrder_le {n d : Nat} (n_pos : 0 < n) (d_pos : 0 < d) :
    (10 : ℚ) ^ decimalOrder n d ≤ n / d := by
  have scale : (0 : ℚ) < d := by exact_mod_cast d_pos
  have split : ∀ k : Nat, d ≤ n * 10 ^ k → (10 : ℚ) ^ (-(k : Int)) ≤ n / d := by
    intro k bound
    have : (d : ℚ) ≤ n * 10 ^ k := by exact_mod_cast bound
    rw [zpow_neg, zpow_natCast, le_div_iff₀ scale, inv_mul_le_iff₀ (by positivity)]
    linarith
  unfold decimalOrder
  split_ifs with whole
  · have quotient : 0 < n / d := Nat.div_pos whole d_pos
    have digits : 0 < (Text.ofNat (n / d)).length := by simp [Text.ofNat, Nat.length_toDigits_pos]
    rw [show ((Text.ofNat (n / d)).length : Int) - 1 = ((Text.ofNat (n / d)).length - 1 : Nat) by
      omega, zpow_natCast, le_div_iff₀ scale]
    exact_mod_cast (Nat.mul_le_mul_right d (pow_length_le quotient)).trans (Nat.div_mul_le_self n d)
  · simp only
    have digits : 0 < (Text.ofNat (d / n)).length := by simp [Text.ofNat, Nat.length_toDigits_pos]
    split_ifs with close
    · rw [show ((Text.ofNat (d / n)).length : Int) - 1 = ((Text.ofNat (d / n)).length - 1 : Nat) by
        omega]
      exact split _ close
    · refine split _ ?_
      rw [Nat.mul_comm]
      exact (Nat.lt_mul_of_div_lt (lt_pow_length _) n_pos).le

/-! ## Seventeen digits -/

section Shortest
variable {m : Nat} {e : Int}

/-- The seventeenth digit counts in steps that are smaller than the interval. -/
theorem seventeenth_step (canonical : Canonical m e) (positive : 0 < m) :
    (10 : ℚ) ^ (decimalOrder (interval m e).value (interval m e).unit - 16) <
      midpointAbove m e - midpointBelow m e := by
  have value_pos : 0 < (interval m e).value :=
    Nat.mul_pos (Nat.mul_pos (by decide) positive) (Nat.pow_pos (by decide))
  have order := pow_decimalOrder_le value_pos (unit_pos m e)
  rw [value_interval] at order
  have unit : (0 : ℚ) < 2 ^ e := by positivity
  have below : (m : ℚ) ≤ 2 ^ 53 := by exact_mod_cast canonical.below.le
  rw [zpow_sub₀ (by norm_num), div_lt_iff₀ (by norm_num)]
  unfold midpointAbove midpointBelow
  -- The step is at most `m * 2 ^ e / 10 ^ 16`, and `2 ^ 53 < 10 ^ 16`; where the interval has
  -- only three quarters of a unit, the mantissa is half as large.
  split_ifs with least
  · have first : (m : ℚ) = 2 ^ 52 := by exact_mod_cast congrArg (Nat.cast (R := ℚ)) least.1
    nlinarith
  · have width : ((m : ℚ) + 1 / 2) * 2 ^ e - (m - 1 / 2) * 2 ^ e = 2 ^ e := by ring
    have most : (m : ℚ) * 2 ^ e ≤ 2 ^ 53 * 2 ^ e := mul_le_mul_of_nonneg_right below unit.le
    rw [width]
    norm_num at most ⊢
    linarith

theorem rounds_shortest (canonical : Canonical m e) (positive : 0 < m) :
    Rounds m e (shortest m e).toRat := by
  unfold shortest
  rw [if_neg positive.ne']
  simp only
  generalize order : decimalOrder (interval m e).value (interval m e).unit = x
  have step := seventeenth_step canonical positive
  rw [order] at step
  have exists_found : ((List.range 17).findSome? fun n : Nat =>
      onGrid (interval m e) (x - n)).isSome = true := by
    rw [List.findSome?_isSome_iff]
    exact ⟨16, by decide, isSome_onGrid (holds_of_small_step positive step)⟩
  obtain ⟨d, found⟩ := Option.isSome_iff_exists.mp exists_found
  obtain ⟨digits, _, onGrid⟩ := List.exists_of_findSome?_eq_some found
  obtain ⟨n, rfl, holds⟩ := holds_of_onGrid onGrid
  rw [found, Option.getD_some, Decimal.toRat_trimmed]
  exact (holds_interval positive).mp holds

theorem Rounds.pos {x : ℚ} (positive : 0 < m) (rounds : Rounds m e x) : 0 < x := by
  have unit : (0 : ℚ) < 2 ^ e := by positivity
  have first : (1 : ℚ) ≤ m := by exact_mod_cast positive
  have low := (le_midpointBelow m e).trans rounds.low
  nlinarith

theorem rounded_shortest (negative : Bool) (canonical : Canonical m e) {d : Decimal}
    (same : d.toRat = (shortest m e).toRat) : d.rounded negative = .finite negative m e := by
  rcases Nat.eq_zero_or_pos m with zero | positive
  · have least : e = leastExponent := by
      refine canonical.normal.resolve_left ?_
      rw [zero]
      norm_num
    have nothing : d.coefficient = 0 := by
      rw [← Decimal.toRat_eq_zero, same, shortest, if_pos zero, Decimal.toRat_eq_zero]
    rw [Decimal.rounded, if_pos nothing, zero, least]
  · have rounds := rounds_shortest canonical positive
    rw [← same] at rounds
    have nonzero : d.coefficient ≠ 0 := by
      rw [Ne, ← Decimal.toRat_eq_zero]
      exact (rounds.pos positive).ne'
    exact Decimal.rounded_eq negative canonical nonzero rounds

end Shortest
end Binary64
end Reckoner
