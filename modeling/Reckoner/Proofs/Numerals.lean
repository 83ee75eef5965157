import Mathlib.Data.List.TakeWhile
import Reckoner.Json.Number
import Reckoner.Json.Reader
import Reckoner.Proofs.Escaping
import Reckoner.Proofs.Shortest
import Reckoner.Proofs.Spacing

/-! # Numerals are read back

A literal is read from the front of every text that does not go on with more of
it (`number?_append`), and what is read tells its value (`ofLiteral_text`).  The
decimals of every layout are numerals (`Decimal.exists_numeral`), so a number is
read back from the shortest that writes it (`Binary64.exists_numeral`). -/
set_option autoImplicit false
namespace Reckoner

/-! ## Runs of digits -/

namespace Text

theorem cut_of_not_mem {mark : UInt8} {t : Text} (unmarked : mark ∉ t) : cut mark t = (t, .none) := by
  have everything : t.dropWhile (· != mark) = [] :=
    List.dropWhile_eq_nil_iff.mpr fun b member =>
      bne_iff_ne.mpr fun same => unmarked (same ▸ member)
  rw [cut, everything]

/-- The text does not begin with a byte of a class. -/
def Stops (p : UInt8 → Bool) (t : Text) : Prop := ∀ b ∈ t.head?, p b = false

section Runs
variable {p : UInt8 → Bool} {run rest : Text}

theorem takeWhile_run (all : ∀ b ∈ run, p b = true) (stops : rest.Stops p) :
    (run ++ rest).takeWhile p = run := by
  have nothing : rest.takeWhile p = [] := by
    cases rest with
    | nil => rfl
    | cons b rest => exact List.takeWhile_cons_of_neg (by simp [stops b rfl])
  rw [List.takeWhile_append_of_pos all, nothing, List.append_nil]

theorem dropWhile_run (all : ∀ b ∈ run, p b = true) (stops : rest.Stops p) :
    (run ++ rest).dropWhile p = rest := by
  have everything : rest.dropWhile p = rest := by
    cases rest with
    | nil => rfl
    | cons b rest => exact List.dropWhile_cons_of_neg (by simp [stops b rfl])
  rw [List.dropWhile_append_of_pos all, everything]

end Runs

theorem toNat_append (t u : Text) : toNat (t ++ u) = toNat t * 10 ^ u.length + toNat u := by
  induction u using List.reverseRecOn with
  | nil => simp [toNat]
  | append_singleton u b ih =>
    have last : ∀ t : Text, toNat (t ++ [b]) = 10 * toNat t + (b.toNat - 48) := by
      intro t
      simp [toNat, List.foldl_append]
    rw [← List.append_assoc, last, last, ih, List.length_append, List.length_singleton, pow_succ]
    ring

theorem toNat_lt_pow {t : Text} (digits : ∀ b ∈ t, isDigit b = true) :
    toNat t < 10 ^ t.length := by
  induction t with
  | nil => simp [toNat]
  | cons b t ih =>
    obtain ⟨first, later⟩ := List.forall_mem_cons.mp digits
    have small : toNat [b] ≤ 9 := by
      have := isDigit_iff.mp first
      simp only [toNat, List.foldl_cons, List.foldl_nil]
      omega
    have rest := ih later
    rw [← List.singleton_append, toNat_append, List.length_append, List.length_singleton, pow_add]
    nlinarith

theorem toNat_dropWhile_zeros (t : Text) : toNat (t.dropWhile (· == 48)) = toNat t := by
  induction t with
  | nil => rfl
  | cons b t ih =>
    by_cases zero : b = 48
    · rw [List.dropWhile_cons_of_pos (by simp [zero]), ih, zero]
      rfl
    · rw [List.dropWhile_cons_of_neg (by simp [zero])]

theorem ofNat_ne_nil (n : Nat) : ofNat n ≠ [] := by simp [ofNat]

/-- Only zero is written with a zero in front. -/
theorem ofNat_leading {n : Nat} (zero : (ofNat n).head? = some 48) : n = 0 ∧ ofNat n = [48] := by
  obtain ⟨tail, shape⟩ : ∃ tail, ofNat n = 48 :: tail := by
    cases digits : ofNat n with
    | nil => simp [digits] at zero
    | cons b tail =>
      rw [digits, List.head?_cons, Option.some.injEq] at zero
      exact ⟨tail, by rw [zero]⟩
  have small : n < 10 ^ tail.length := by
    have digits : ∀ b ∈ tail, isDigit b = true := fun b member =>
      digit_of_mem_ofNat (n := n) (by rw [shape]; exact List.mem_cons_of_mem _ member)
    have value : toNat tail = n := by
      rw [← toNat_ofNat n, shape]
      rfl
    exact value ▸ toNat_lt_pow digits
  -- The digits behind the zero would have to write a number of one digit more.
  have nothing : n = 0 := by
    by_contra positive
    have large := Binary64.pow_length_le (Nat.pos_of_ne_zero positive)
    rw [shape, List.length_cons, Nat.add_sub_cancel] at large
    omega
  exact ⟨nothing, by rw [nothing]; rfl⟩

end Text

theorem length_padded {width n : Nat} (fits : n < 10 ^ width) (positive : 0 < width) :
    (padded width n).length = width := by
  have short : (Text.ofNat n).length ≤ width := by
    rw [Text.ofNat, List.length_map]
    exact (Nat.length_toDigits_le_iff (by decide) positive).mpr fits
  simp only [padded, zeros, List.length_append, List.length_replicate]
  omega

theorem toNat_padded (width n : Nat) : (padded width n).toNat = n := by
  rw [padded, zeros, Text.toNat_zeros, Text.toNat_ofNat]

theorem digit_of_mem_padded {width n : Nat} {b : UInt8} (member : b ∈ padded width n) :
    Text.isDigit b = true := by
  rcases List.mem_append.mp member with zero | digit
  · rw [List.eq_of_mem_replicate zero]
    rfl
  · exact Text.digit_of_mem_ofNat digit

/-! ## Literals of numbers -/

/-- Digits, and at least one. -/
structure Text.IsRun (t : Text) : Prop where
  nonempty : t ≠ []
  digits : ∀ b ∈ t, isDigit b = true

theorem Text.IsRun.exists_cons {t : Text} (run : t.IsRun) :
    ∃ b more, t = b :: more ∧ isDigit b = true := by
  cases t with
  | nil => exact absurd rfl run.nonempty
  | cons b more => exact ⟨b, more, rfl, run.digits b List.mem_cons_self⟩

theorem Text.ne_of_digit {b mark : UInt8} (digit : isDigit b = true)
    (other : isDigit mark = false) : b ≠ mark := by
  rintro rfl
  rw [digit] at other
  cases other

inductive IsFraction : Text → Prop where
  | absent : IsFraction []
  | present {digits : Text} (run : digits.IsRun) : IsFraction (46 :: digits)

inductive IsExponent : Text → Prop where
  | absent : IsExponent []
  | present {mark : UInt8} {sign digits : Text} (marked : mark = 69 ∨ mark = 101)
      (signed : sign = [] ∨ sign = [43] ∨ sign = [45]) (run : digits.IsRun) :
      IsExponent (mark :: sign ++ digits)

/-- The texts that write a number: a zero stands alone in front of the point. -/
inductive IsNumber : Text → Prop where
  | intro {minus integer fraction exponent : Text} (signed : minus = [] ∨ minus = [45])
      (run : integer.IsRun) (leading : integer.head? = some 48 → integer = [48])
      (pointed : IsFraction fraction) (powered : IsExponent exponent) :
      IsNumber (minus ++ integer ++ fraction ++ exponent)

/-! ## Numerals -/

/-- The parts of a numeral; an empty fraction or exponent is not written. -/
structure Numeral where
  negative : Bool := false
  integer : Text
  fraction : Text := []
  falling : Bool := false
  exponent : Text := []
  some_digit : integer ≠ []
  integer_digits : ∀ b ∈ integer, Text.isDigit b = true
  leading : integer.head? = some 48 → integer = [48]
  fraction_digits : ∀ b ∈ fraction, Text.isDigit b = true := by simp
  exponent_digits : ∀ b ∈ exponent, Text.isDigit b = true := by simp

namespace Numeral

def fractionText (n : Numeral) : Text := if n.fraction.isEmpty then [] else 46 :: n.fraction

def exponentText (n : Numeral) : Text :=
  if n.exponent.isEmpty then [] else 101 :: (if n.falling then 45 else 43) :: n.exponent

def body (n : Numeral) : Text := n.integer ++ (n.fractionText ++ n.exponentText)

def text (n : Numeral) : Text := if n.negative then 45 :: n.body else n.body

/-- The value without its sign. -/
def decimal (n : Numeral) : Decimal where
  coefficient := Text.toNat (n.integer ++ n.fraction)
  scale := (if n.falling then -(Text.toNat n.exponent : Int) else Text.toNat n.exponent) -
    n.fraction.length

def withSign (n : Numeral) (negative : Bool) : Numeral := { n with negative := negative }

theorem no_mark_of_digit {b : UInt8} (digit : Text.isDigit b = true) :
    b ≠ 45 ∧ b ≠ 46 ∧ b ≠ 69 ∧ b ≠ 101 :=
  ⟨Text.ne_of_digit digit rfl, Text.ne_of_digit digit rfl, Text.ne_of_digit digit rfl,
    Text.ne_of_digit digit rfl⟩

theorem isRun_integer (n : Numeral) : n.integer.IsRun := ⟨n.some_digit, n.integer_digits⟩

theorem sign_text (n : Numeral) : decide (n.text.head? = some 45) = n.negative := by
  unfold text body
  cases n.negative with
  | true => rfl
  | false =>
    obtain ⟨b, more, integer, digit⟩ := n.isRun_integer.exists_cons
    simp [integer, (no_mark_of_digit digit).1]

theorem unsigned_text (n : Numeral) : (if n.negative then n.text.tail else n.text) = n.body := by
  unfold text
  cases n.negative <;> rfl

/-! ## Reading them from the front -/

/-- The bytes that a numeral could go on with. -/
def goesOn (b : UInt8) : Bool := Text.isDigit b || b = 46 || b = 69 || b = 101

theorem ne_of_stops {rest : Text} (stops : rest.Stops goesOn) {b : UInt8} (member : b ∈ rest.head?) :
    Text.isDigit b = false ∧ b ≠ 46 ∧ b ≠ 69 ∧ b ≠ 101 := by
  simpa [goesOn, and_assoc] using stops b member

theorem stops_digit {rest : Text} (stops : rest.Stops goesOn) : rest.Stops Text.isDigit :=
  fun _ member => (ne_of_stops stops member).1

section Literals
variable {t rest : Text}

theorem digits?_append (run : t.IsRun) (stops : rest.Stops Text.isDigit) :
    Json.digits? (t ++ rest) = some (t, rest) := by
  rw [Json.digits?, Text.takeWhile_run run.digits stops, Text.dropWhile_run run.digits stops]
  simp [run.nonempty]

theorem exponentPart?_append (exponent : IsExponent t) (stops : rest.Stops goesOn) :
    Json.exponentPart? (t ++ rest) = some (t, rest) := by
  cases exponent with
  | absent =>
    cases rest with
    | nil => rfl
    | cons b rest =>
      obtain ⟨_, _, upper, lower⟩ := ne_of_stops stops (b := b) rfl
      simp [Json.exponentPart?, upper, lower]
  | @present mark sign digits marked signed run =>
    have read := digits?_append run (stops_digit stops)
    have sign : Json.signPart (sign ++ (digits ++ rest)) = (sign, digits ++ rest) := by
      obtain ⟨b, more, rfl, digit⟩ := run.exists_cons
      rcases signed with rfl | rfl | rfl
      · have plus : b ≠ 43 := Text.ne_of_digit digit rfl
        have minus : b ≠ 45 := Text.ne_of_digit digit rfl
        simp [Json.signPart, plus, minus]
      · rfl
      · rfl
    simp [Json.exponentPart?, marked, sign, read]

theorem stops_exponent (exponent : IsExponent t) (stops : rest.Stops goesOn) :
    (t ++ rest).Stops fun b => Text.isDigit b || b = 46 := by
  cases exponent with
  | absent =>
    intro b member
    obtain ⟨digit, point, _⟩ := ne_of_stops stops member
    simp [digit, point]
  | present marked _ _ =>
    intro b member
    cases member
    rcases marked with rfl | rfl <;> rfl

theorem fractionPart?_append (fraction : IsFraction t)
    (stops : rest.Stops fun b => Text.isDigit b || b = 46) :
    Json.fractionPart? (t ++ rest) = some (t, rest) := by
  cases fraction with
  | absent =>
    cases rest with
    | nil => rfl
    | cons b rest =>
      have point : b ≠ 46 := of_decide_eq_false (Bool.or_eq_false_iff.mp (stops b rfl)).2
      simp [Json.fractionPart?, point]
  | present run =>
    have digit : rest.Stops Text.isDigit := fun b member =>
      (Bool.or_eq_false_iff.mp (stops b member)).1
    simp [Json.fractionPart?, digits?_append run digit]

theorem stops_fraction (fraction : IsFraction t)
    (stops : rest.Stops fun b => Text.isDigit b || b = 46) :
    (t ++ rest).Stops Text.isDigit := by
  cases fraction with
  | absent =>
    intro b member
    exact (Bool.or_eq_false_iff.mp (stops b member)).1
  | present _ =>
    intro b member
    cases member
    rfl

theorem integerPart?_append (run : t.IsRun) (leading : t.head? = some 48 → t = [48])
    (stops : rest.Stops Text.isDigit) : Json.integerPart? (t ++ rest) = some (t, rest) := by
  by_cases zero : t.head? = some 48
  · rw [leading zero]
    rfl
  · have read := digits?_append run stops
    obtain ⟨b, more, rfl, _⟩ := run.exists_cons
    have other : b ≠ 48 := fun same => zero (by rw [same]; rfl)
    simp [Json.integerPart?, other, ← read]

theorem number?_append (number : IsNumber t) (stops : rest.Stops goesOn) :
    Json.number? (t ++ rest) = some (t, rest) := by
  obtain @⟨minus, integer, point, power, signed, run, leading, fraction, exponent⟩ := number
  have first := stops_exponent exponent stops
  have sign : Json.minusPart (minus ++ (integer ++ (point ++ (power ++ rest)))) =
      (minus, integer ++ (point ++ (power ++ rest))) := by
    obtain ⟨b, more, rfl, digit⟩ := run.exists_cons
    rcases signed with rfl | rfl
    · have other : b ≠ 45 := Text.ne_of_digit digit rfl
      simp [Json.minusPart, other]
    · rfl
  rw [List.append_assoc, List.append_assoc, List.append_assoc, Json.number?, sign]
  simp only [integerPart?_append run leading (stops_fraction fraction first),
    fractionPart?_append fraction first, exponentPart?_append exponent stops, Option.map_some,
    List.append_assoc]

theorem isNumber_text (n : Numeral) : IsNumber n.text := by
  have fraction : IsFraction n.fractionText := by
    unfold fractionText
    split
    · exact .absent
    next nonempty => exact .present ⟨by simpa using nonempty, n.fraction_digits⟩
  have exponent : IsExponent n.exponentText := by
    unfold exponentText
    split
    · exact .absent
    next nonempty =>
      have run : n.exponent.IsRun := ⟨by simpa using nonempty, n.exponent_digits⟩
      have signed : ∀ b : UInt8, b = 43 ∨ b = 45 → [b] = [] ∨ [b] = [43] ∨ [b] = [45] := by simp
      exact .present (.inr rfl) (signed _ (by cases n.falling <;> simp)) run
  have signed : ∀ minus, minus = [] ∨ minus = [45] → IsNumber (minus ++ n.body) := by
    intro minus signed
    rw [body, ← List.append_assoc, ← List.append_assoc]
    exact .intro signed n.isRun_integer n.leading fraction exponent
  unfold text
  cases n.negative with
  | true => exact signed [45] (.inr rfl)
  | false => exact signed [] (.inl rfl)

end Literals

/-! ## What a literal says -/

section Magnitude
variable (n : Numeral)

/-- A byte that does not begin an exponent, as literals are searched for one. -/
def unmarked (b : UInt8) : Bool := !(b = 69 || b = 101)

theorem unmarked_front {b : UInt8} (member : b ∈ n.integer ++ n.fractionText) :
    b ≠ 45 ∧ unmarked b = true := by
  have digit : Text.isDigit b = true → b ≠ 45 ∧ unmarked b = true := by
    intro digit
    obtain ⟨minus, _, upper, lower⟩ := no_mark_of_digit digit
    simp [unmarked, minus, upper, lower]
  rcases List.mem_append.mp member with inside | inside
  · exact digit (n.integer_digits b inside)
  · unfold fractionText at inside
    split at inside
    · simp at inside
    · rcases List.mem_cons.mp inside with rfl | inside
      · decide
      · exact digit (n.fraction_digits b inside)

theorem stops_unmarked (rest : Text) :
    (if n.exponent.isEmpty then [] else 101 :: rest : Text).Stops unmarked := by
  intro b member
  split at member
  · simp at member
  · cases member
    rfl

theorem filter_body : n.body.filter (· != 45) =
    (n.integer ++ n.fractionText) ++ (if n.exponent.isEmpty then [] else
      101 :: (if n.falling then n.exponent else 43 :: n.exponent)) := by
  have front : (n.integer ++ n.fractionText).filter (· != 45) = n.integer ++ n.fractionText := by
    refine List.filter_eq_self.mpr fun b member => ?_
    simp [(n.unmarked_front member).1]
  have digits : n.exponent.filter (· != 45) = n.exponent := by
    refine List.filter_eq_self.mpr fun b member => ?_
    simp [(no_mark_of_digit (n.exponent_digits b member)).1]
  rw [body, ← List.append_assoc, List.filter_append, front, exponentText]
  cases n.falling <;> split <;> simp [digits]

theorem dropWhile_text : n.text.dropWhile unmarked = n.exponentText := by
  have front : ∀ b ∈ (if n.negative then [45] else []) ++ (n.integer ++ n.fractionText),
      unmarked b = true := by
    intro b member
    rcases List.mem_append.mp member with minus | inside
    · split at minus
      · rw [List.mem_singleton.mp minus]
        rfl
      · simp at minus
    · exact (n.unmarked_front inside).2
  have shape : n.text =
      ((if n.negative then [45] else []) ++ (n.integer ++ n.fractionText)) ++ n.exponentText := by
    unfold text body
    cases n.negative <;> simp
  rw [shape]
  exact Text.dropWhile_run front (n.stops_unmarked _)

theorem cut_front : (Text.cut 46 (n.integer ++ n.fractionText)).1 = n.integer ∧
    (Text.cut 46 (n.integer ++ n.fractionText)).2.getD [] = n.fraction := by
  have unmarked : (46 : UInt8) ∉ n.integer := fun member =>
    (no_mark_of_digit (n.integer_digits 46 member)).2.1 rfl
  unfold fractionText
  split
  next empty =>
    rw [List.append_nil, Text.cut_of_not_mem unmarked]
    exact ⟨rfl, (List.isEmpty_iff.mp empty).symm⟩
  next =>
    rw [Web.Form.cut_append unmarked]
    exact ⟨rfl, rfl⟩

theorem exponentOf_text : Json.exponentOf (n.exponentText.drop 1) =
    if n.falling then -(Text.toNat n.exponent : Int) else Text.toNat n.exponent := by
  unfold exponentText
  split
  next empty =>
    rw [List.isEmpty_iff.mp empty]
    cases n.falling <;> rfl
  next => cases n.falling <;> rfl

theorem magnitude_text : Json.magnitude n.text =
    let digits := (n.integer ++ n.fraction).dropWhile (· == 48)
    (digits, (digits.length : Int) + n.decimal.scale) := by
  have body : n.text.filter (· != 45) = n.body.filter (· != 45) := by
    unfold text
    cases n.negative <;> rfl
  have taken : (n.text.filter (· != 45)).takeWhile unmarked = n.integer ++ n.fractionText := by
    rw [body, filter_body]
    exact Text.takeWhile_run (fun b member => (n.unmarked_front member).2) (n.stops_unmarked _)
  obtain ⟨integer, fraction⟩ := n.cut_front
  have last : n.text.dropWhile unmarked = n.exponentText := n.dropWhile_text
  unfold unmarked at taken last
  simp only [Json.magnitude, taken, last, integer, fraction, exponentOf_text, decimal]
  rw [add_sub_assoc]

end Magnitude
end Numeral

/-- The nearest number to what a literal says. -/
def Binary64.ofLiteral (literal : Text) : Binary64 :=
  let (digits, order) := Json.magnitude literal
  Decimal.rounded (literal.head? = some 45) ⟨Text.toNat digits, order - digits.length⟩

theorem Numeral.ofLiteral_text (n : Numeral) :
    Binary64.ofLiteral n.text = n.decimal.rounded n.negative := by
  simp only [Binary64.ofLiteral, magnitude_text, sign_text, Text.toNat_dropWhile_zeros, add_sub_cancel_left]
  rfl

/-! ## Integers -/

namespace Numeral

def ofNat (n : Nat) : Numeral where
  integer := Text.ofNat n
  some_digit := Text.ofNat_ne_nil n
  integer_digits _ := Text.digit_of_mem_ofNat
  leading zero := (Text.ofNat_leading zero).2

def ofInt (i : Int) : Numeral := (ofNat i.natAbs).withSign (i < 0)

theorem text_ofNat (n : Nat) : (ofNat n).text = Text.ofNat n := by
  simp [ofNat, text, body, fractionText, exponentText]

theorem text_withSign (n : Numeral) (unsigned : n.negative = false) (negative : Bool) :
    (n.withSign negative).text = if negative then 45 :: n.text else n.text := by
  have body : (n.withSign negative).body = n.body := rfl
  rw [text, body, text, unsigned]
  rfl

theorem text_ofInt (i : Int) : (ofInt i).text = Text.ofInt i := by
  rw [ofInt, text_withSign _ rfl, text_ofNat, Text.ofInt]
  simp

end Numeral

theorem Json.natural?_ofNat (n : Nat) : Json.natural? (Text.ofNat n) = some n := by
  have digits : (Text.ofNat n).all Text.isDigit = true :=
    List.all_eq_true.mpr fun _ => Text.digit_of_mem_ofNat
  simp [Json.natural?, digits, Text.ofNat_ne_nil, Text.toNat_ofNat]

theorem Json.integer?_ofInt (i : Int) : Json.integer? (Text.ofInt i) = some i := by
  unfold Text.ofInt
  split_ifs with negative
  · simp [Json.integer?, Json.natural?_ofNat, abs_of_neg negative]
  · unfold Json.integer?
    split
    next digits shape =>
      have minus := Text.digit_of_mem_ofNat (n := i.natAbs) (b := 45) (by simp [shape])
      simp [Text.isDigit] at minus
    next => simp [Json.natural?_ofNat, abs_of_nonneg (not_lt.mp negative)]

/-! ## Decimals -/

namespace Numeral

/-- A positive number with zeros behind it. -/
def raised (c : Nat) (positive : 0 < c) (count : Nat) : Numeral where
  integer := Text.ofNat c ++ zeros count
  some_digit := List.append_ne_nil_of_left_ne_nil (Text.ofNat_ne_nil c) _
  integer_digits := by
    intro b member
    rcases List.mem_append.mp member with digit | zero
    · exact Text.digit_of_mem_ofNat digit
    · rw [List.eq_of_mem_replicate zero]
      rfl
  leading := by
    rw [List.head?_append_of_ne_nil _ (Text.ofNat_ne_nil c)]
    exact fun zero => absurd (Text.ofNat_leading zero).1 positive.ne'

theorem text_raised {c : Nat} (positive : 0 < c) (count : Nat) :
    (raised c positive count).text = Text.ofNat c ++ zeros count := by
  simp [raised, text, body, fractionText, exponentText]

theorem decimal_raised {c : Nat} (positive : 0 < c) (count : Nat) :
    (raised c positive count).decimal = ⟨c * 10 ^ count, 0⟩ := by
  have nothing : Text.toNat (zeros count) = 0 := by
    have := Text.toNat_zeros count []
    rwa [List.append_nil] at this
  have length : (zeros count).length = count := List.length_replicate
  simp only [decimal, raised, List.append_nil, Text.toNat_append, Text.toNat_ofNat, nothing, length]
  rfl

/-- A number with some places behind the point. -/
def pointed (places c : Nat) : Numeral :=
  { ofNat (c / Nat.pow 10 places) with
    fraction := padded places (c % Nat.pow 10 places)
    fraction_digits := fun _ => digit_of_mem_padded }

section Pointed
variable {places : Nat} (positive : 0 < places) (c : Nat)
include positive

theorem length_fraction_pointed : (pointed places c).fraction.length = places :=
  length_padded (Nat.mod_lt _ (Nat.pow_pos (by decide))) positive

theorem text_pointed : (pointed places c).text = fixedPoint places c := by
  have written : (pointed places c).fraction.isEmpty = false := by
    rw [List.isEmpty_eq_false_iff, ← List.length_pos_iff, length_fraction_pointed positive]
    exact positive
  rw [fixedPoint, if_neg positive.ne', text, body, fractionText, written]
  simp [pointed, ofNat, exponentText]

theorem decimal_pointed : (pointed places c).decimal = ⟨c, -places⟩ := by
  have coefficient := Nat.div_add_mod' c (10 ^ places)
  have length := length_fraction_pointed positive c
  rw [decimal, Text.toNat_append, length]
  simp only [pointed, ofNat, Text.toNat_ofNat, toNat_padded, Nat.pow_eq, coefficient]
  simp [Text.toNat]

end Pointed

/-- One digit in front of the point, and an exponent. -/
def powered (first : UInt8) (more : Text) (digits : ∀ b ∈ first :: more, Text.isDigit b = true)
    (width : Nat) (x : Int) : Numeral where
  integer := [first]
  fraction := more
  falling := x < 0
  exponent := padded width x.natAbs
  some_digit := List.cons_ne_nil _ _
  integer_digits := by simpa using digits first List.mem_cons_self
  leading := by simp
  fraction_digits b member := digits b (List.mem_cons_of_mem _ member)
  exponent_digits _ := digit_of_mem_padded

section Powered
variable {first : UInt8} {more : Text} (digits : ∀ b ∈ first :: more, Text.isDigit b = true)
  (width : Nat) (x : Int)

theorem text_powered : (powered first more digits width x).text =
    (if more.isEmpty then [first] else first :: 46 :: more) ++
      101 :: (if x < 0 then 45 else 43) :: padded width x.natAbs := by
  have written : (padded width x.natAbs).isEmpty = false := by
    simp [padded, Text.ofNat_ne_nil]
  simp only [text, body, fractionText, exponentText, powered, written]
  cases more <;> simp

theorem decimal_powered : (powered first more digits width x).decimal =
    ⟨Text.toNat (first :: more), x - more.length⟩ := by
  simp only [decimal, powered, toNat_padded, List.singleton_append, decide_eq_true_eq,
    Decimal.mk.injEq, true_and]
  split <;> omega

end Powered
end Numeral

namespace Decimal

theorem exists_positional {d : Decimal} (nonzero : d.coefficient ≠ 0) :
    ∃ n : Numeral, n.negative = false ∧ n.text = d.positional ∧ n.decimal.toRat = d.toRat := by
  unfold positional
  split_ifs with whole
  · have positive := Nat.pos_of_ne_zero nonzero
    refine ⟨.raised _ positive _, rfl, Numeral.text_raised positive _, ?_⟩
    have power : ((10 : ℚ) ^ d.scale.toNat) = 10 ^ d.scale := by
      rw [← zpow_natCast, Int.toNat_of_nonneg whole]
    rw [Numeral.decimal_raised, toRat, toRat, zpow_zero, mul_one, Nat.cast_mul, Nat.cast_pow,
      Nat.cast_ofNat, power]
  · have positive : 0 < (-d.scale).toNat := by omega
    refine ⟨.pointed _ d.coefficient, rfl, Numeral.text_pointed positive _, ?_⟩
    have scale : -((-d.scale).toNat : Int) = d.scale := by omega
    rw [Numeral.decimal_pointed positive, scale]

theorem exists_scientific (width : Nat) (d : Decimal) :
    ∃ n : Numeral, n.negative = false ∧ n.text = d.scientific width ∧ n.decimal = d := by
  have digits : ∀ b ∈ Text.ofNat d.coefficient, Text.isDigit b = true := fun _ =>
    Text.digit_of_mem_ofNat
  have value := Text.toNat_ofNat d.coefficient
  unfold scientific leading
  cases shape : Text.ofNat d.coefficient with
  | nil => exact absurd shape (Text.ofNat_ne_nil _)
  | cons first more =>
    rw [shape] at digits value
    refine ⟨.powered first more digits width (d.scale + (first :: more).length - 1), rfl, ?_, ?_⟩
    · rw [Numeral.text_powered]
      cases more <;> rfl
    · rw [Numeral.decimal_powered, value]
      congr
      simp only [List.length_cons]
      omega

theorem exists_numeral (layout : Layout) (d : Decimal) :
    ∃ n : Numeral, n.negative = false ∧ n.text = d.render layout ∧ n.decimal.toRat = d.toRat := by
  unfold render
  split_ifs with zero
  · refine ⟨Numeral.ofNat 0, rfl, Numeral.text_ofNat 0, ?_⟩
    rw [toRat_eq_zero.mpr zero, toRat_eq_zero]
    rfl
  · obtain ⟨n, unsigned, text, value⟩ := d.exists_scientific layout.exponentWidth
    exact ⟨n, unsigned, text, by rw [value]⟩
  · exact exists_positional zero

end Decimal

namespace Binary64

theorem exists_numeral (layout : Layout) (negative : Bool) {m : Nat} {e : Int}
    (canonical : Canonical m e) :
    ∃ n : Numeral, n.text = (finite negative m e).render layout ∧
      ofLiteral n.text = .finite negative m e := by
  obtain ⟨n, unsigned, text, value⟩ := (shortest m e).exists_numeral layout
  have shape : (n.withSign negative).text = (finite negative m e).render layout := by
    rw [n.text_withSign unsigned, text]
    rfl
  refine ⟨n.withSign negative, shape, ?_⟩
  rw [Numeral.ofLiteral_text]
  exact rounded_shortest negative canonical value

/-- What rounding gives is canonical. -/
theorem canonical_nearest {q : Rat} {negative : Bool} {m : Nat} {e : Int}
    (rounded : nearest q = .finite negative m e) : Canonical m e := by
  unfold nearest at rounded
  split_ifs at rounded with zero
  · cases rounded
    exact ⟨by norm_num, by decide, by decide, Or.inr rfl⟩
  · exact canonical_nearestQuotient (by omega) q.den_pos rounded

end Binary64
end Reckoner
