import Mathlib.Computability.StateTransition
import Reckoner.Proofs.Expansion

/-! # Counting factors ends

`multiplicity` is total because it asks for a positive number before every
division.  A count that only looks at the remainder has no such guard: it takes a
factor out of a number as long as that leaves no remainder, and out of zero it does
so for ever.  It ends from exactly the positive numbers (`Tally.dom_count`), with what
`multiplicity` finds (`Tally.count_eq`).  Denominators are positive, so the places
of every rational can be counted that way, and every value has a text without the
guard too, the same one (`Tally.places_eq`, `Value.displayed_eq`). -/
set_option autoImplicit false
namespace Reckoner

open StateTransition

/-- What remains of a number, and how often a factor was taken out of it. -/
structure Tally where
  rest : Nat
  times : Nat

namespace Tally

/-- Takes the factor out once more; there is no further pass once it leaves a remainder. -/
def pass (p : Nat) (t : Tally) : Option Tally :=
  if t.rest % p = 0 then some ⟨t.rest / p, t.times + 1⟩ else none

/-- The count behind the last pass; undefined if there is always another pass. -/
def count (p d : Nat) : Part Tally := eval (pass p) ⟨d, 0⟩

/-- The places that a denominator needs, from the count of its twos and that of
the fives in what the first one leaves. -/
def places (d : Nat) : Part (Option Nat) := do
  let twos ← count 2 d
  let fives ← count 5 twos.rest
  return if fives.rest = 1 then some (max twos.times fives.times) else none

section Count
variable {p d : Nat}

theorem pass_of_dvd {t : Tally} (divides : p ∣ t.rest) :
    pass p t = some ⟨t.rest / p, t.times + 1⟩ := by
  rw [pass, if_pos (Nat.mod_eq_zero_of_dvd divides)]

theorem pass_eq_none {t : Tally} : pass p t = none ↔ ¬ p ∣ t.rest := by
  rw [pass, Nat.dvd_iff_mod_eq_zero]
  split_ifs with remainder <;> simp [remainder]

/-- A count goes on from where it stands. -/
theorem eval_pass (factor : 1 < p) (positive : 0 < d) (times : Nat) :
    eval (pass p) ⟨d, times⟩ =
      Part.some ⟨(multiplicity p d).2, times + (multiplicity p d).1⟩ := by
  -- Each call of `multiplicity` is one pass; that the calls end is what its guard is for.
  fun_induction multiplicity p d generalizing times with
  | case1 d divides k rest found ih =>
    have multiple : p ∣ d := Nat.dvd_of_mod_eq_zero divides.2.2
    have smaller : 0 < d / p := Nat.div_pos (Nat.le_of_dvd positive multiple) (by omega)
    have step : Reaches (pass p) ⟨d, times⟩ ⟨d / p, times + 1⟩ := .single (pass_of_dvd multiple)
    rw [reaches_eval step, ih smaller, found]
    simp only [Part.some_inj, mk.injEq, true_and]
    omega
  | case2 d stops =>
    have last : pass p ⟨d, times⟩ = none :=
      pass_eq_none.mpr fun multiple => stops ⟨factor, positive, Nat.mod_eq_zero_of_dvd multiple⟩
    exact Part.eq_some_iff.mpr (mem_eval.mpr ⟨.refl, last⟩)

theorem count_eq (factor : 1 < p) (positive : 0 < d) :
    count p d = Part.some ⟨(multiplicity p d).2, (multiplicity p d).1⟩ := by
  rw [count, eval_pass factor positive, Nat.zero_add]

/-- From zero every pass leads to zero, where the next one is possible again. -/
theorem rest_of_reaches {s t : Tally} (zero : s.rest = 0) (run : Reaches (pass p) s t) :
    t.rest = 0 := by
  induction run with
  | refl => exact zero
  | @tail b c _ step ih =>
    have next : pass p b = some ⟨b.rest / p, b.times + 1⟩ := pass_of_dvd (ih ▸ Nat.dvd_zero p)
    obtain rfl := Option.some.inj (next.symm.trans step)
    rw [ih, Nat.zero_div]

theorem dom_count (factor : 1 < p) : (count p d).Dom ↔ 0 < d := by
  constructor
  · intro ends
    obtain ⟨t, result⟩ := Part.dom_iff_mem.mp ends
    obtain ⟨run, last⟩ := mem_eval.mp result
    refine Nat.pos_of_ne_zero fun zero => pass_eq_none.mp last ?_
    rw [rest_of_reaches zero run]
    exact Nat.dvd_zero p
  · intro positive
    rw [count_eq factor positive]
    exact trivial

theorem places_eq (positive : 0 < d) : places d = Part.some (decimalPlaces? d) := by
  have left : 0 < (multiplicity 2 d).2 := multiplicity_rest_pos (by decide) positive
  rw [places, count_eq (by decide) positive]
  simp only [Part.bind_eq_bind, Part.bind_some]
  rw [count_eq (by decide) left, Part.bind_some]
  rfl

end Count
end Tally

/-- The text of a value, where the places of a fraction are counted without a guard. -/
def Value.displayed : Value → Part Text
  | .lost => Part.some (utf8 "<invalid>")
  | .number q =>
    if q.den = 1 then Part.some (Text.ofInt q.num)
    else (Tally.places q.den).map fun
      | some places => exact q places
      | none => (Binary64.nearest q).render layout

theorem Value.displayed_eq (v : Value) : v.displayed = Part.some v.text := by
  cases v with
  | lost => rfl
  | number q =>
    rw [displayed, text]
    split_ifs with integer
    · rfl
    · rw [Tally.places_eq q.den_pos]
      exact Part.map_some _ _

namespace Tally

/-- Both counts of a positive number end, that of its fives from what that of its
twos leaves.  They give the places that the display uses: the exponent of the
least power of ten which the number divides, and none exactly if it divides no
power of ten.  A number is held in lowest terms over a positive denominator, so
displaying a value never runs into a count without an end. -/
theorem places_decides (d : Nat) (positive : 0 < d) :
    (count 2 d).Dom ∧ (∀ twos ∈ count 2 d, (count 5 twos.rest).Dom) ∧
    places d = Part.some (decimalPlaces? d) ∧
    (∀ k, decimalPlaces? d = some k ↔ IsLeast {j | d ∣ 10 ^ j} k) ∧
    (decimalPlaces? d = none ↔ ¬ ∃ j, d ∣ 10 ^ j) ∧
    ∀ v : Value, (∀ q, v.rat? = some q → 0 < q.den ∧ q.num.natAbs.Coprime q.den) ∧
      v.displayed = Part.some v.text := by
  refine ⟨(dom_count (by decide)).mpr positive, ?_, places_eq positive,
    fun k => decimalPlaces?_eq_some positive, decimalPlaces?_eq_none positive, ?_⟩
  · intro twos found
    rw [count_eq (by decide) positive, Part.mem_some_iff] at found
    rw [found]
    exact (dom_count (by decide)).mpr (multiplicity_rest_pos (by decide) positive)
  · intro v
    exact ⟨fun q _ => ⟨q.den_pos, q.reduced⟩, v.displayed_eq⟩

theorem places_decides_forty : 0 < 40 ∧ (count 2 40).Dom ∧ places 40 = Part.some (some 3) ∧
    IsLeast {j | 40 ∣ 10 ^ j} 3 ∧ (Value.number (1 / 40)).displayed = Part.some (utf8 "0.025") := by
  have positive : 0 < 40 := by decide
  have found : decimalPlaces? 40 = some 3 := by decide +kernel
  have text : (Value.number (1 / 40)).text = utf8 "0.025" := by decide +kernel
  obtain ⟨ends, _, counted, least, _, values⟩ := places_decides 40 positive
  rw [found] at counted
  refine ⟨positive, ends, counted, (least 3).mp found, ?_⟩
  rw [(values _).2, text]

end Tally
end Reckoner
