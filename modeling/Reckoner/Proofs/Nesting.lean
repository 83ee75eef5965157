import Mathlib.Data.List.DropRight
import Reckoner.Proofs.Numerals
import Reckoner.Proofs.Quoting

/-! # Values are read from all texts that write them

A value can be written in many ways: blanks stand around its parts, and a string
has many spellings (`Written`).  The reader gets it from each of them
(`value?_written`), whatever stands behind it, unless that goes on with a
number.  The indented form of a value is one of the texts that write it with its
strings in well-formed form (`written_indented`). -/
set_option autoImplicit false
namespace Reckoner.Json

/-! ## The texts of values -/

/-- A text between blanks. -/
structure Padded where
  lead : Text := []
  body : Text
  trail : Text := []
  lead_blank : ∀ b ∈ lead, isBlankByte b = true := by simp [Reckoner.Json.isBlankByte]
  trail_blank : ∀ b ∈ trail, isBlankByte b = true := by simp [Reckoner.Json.isBlankByte]

def Padded.text (p : Padded) : Text := p.lead ++ (p.body ++ p.trail)

/-- The name and the value of a member, and what they are written as. -/
structure Entry where
  name : Text
  label : Padded
  value : Json
  content : Padded

def Entry.text (e : Entry) : Text := e.label.text ++ 58 :: e.content.text

/-- Pieces between brackets, with commas between them. -/
def bracketed (opening closing : UInt8) (pieces : List Text) (gap : Text) : Text :=
  opening :: Text.join [44] pieces ++ (gap ++ [closing])

/-- The texts that write a value in which at most so many arrays and objects
stand in each other, without blanks around them. -/
inductive Written : Nat → Json → Text → Prop where
  | null (depth : Nat) : Written depth .null (utf8 "null")
  | bool (depth : Nat) (b : Bool) : Written depth (.bool b) (utf8 (if b then "true" else "false"))
  | number (depth : Nat) {t : Text} (number : IsNumber t) : Written depth (.number t) t
  | string (depth : Nat) {cs : List Char} {t : Text} (spelled : Spelled cs t) :
      Written depth (.string (cs.flatMap String.utf8EncodeChar)) (34 :: t ++ [34])
  | array {depth : Nat} {items : List (Json × Padded)} {gap : Text}
      (inside : ∀ i ∈ items, Written depth i.1 i.2.body)
      (blank : ∀ b ∈ gap, isBlankByte b = true) :
      Written (depth + 1) (.array (items.map Prod.fst))
        (bracketed 91 93 (items.map fun i => i.2.text) gap)
  | object {depth : Nat} {entries : List Entry} {gap : Text}
      (names : ∀ e ∈ entries, Written depth (.string e.name) e.label.body)
      (values : ∀ e ∈ entries, Written depth e.value e.content.body)
      (blank : ∀ b ∈ gap, isBlankByte b = true) :
      Written (depth + 1) (.object (entries.map fun e => (e.name, e.value)))
        (bracketed 123 125 (entries.map Entry.text) gap)

/-! ## Blanks -/

theorem skipBlanks_append {lead : Text} (blank : ∀ b ∈ lead, isBlankByte b = true) (t : Text) :
    skipBlanks (lead ++ t) = skipBlanks t := List.dropWhile_append_of_pos blank

theorem skipBlanks_cons {b : UInt8} (dark : isBlankByte b = false) (t : Text) :
    skipBlanks (b :: t) = b :: t := List.dropWhile_cons_of_neg (by simp [dark])

theorem skipBlanks_skipBlanks (t : Text) : skipBlanks (skipBlanks t) = skipBlanks t :=
  List.dropWhile_idempotent _ _

theorem blank_nil : ∀ b ∈ ([] : Text), isBlankByte b = true := by simp

theorem blank_lineBreak (level : Nat) : ∀ b ∈ lineBreak level, isBlankByte b = true := by
  refine List.forall_mem_cons.mpr ⟨rfl, fun b member => ?_⟩
  rw [List.eq_of_mem_replicate member]
  rfl

section Skipping
variable (fuel depth : Nat) (t : Text)

theorem value?_skipBlanks : value? fuel depth (skipBlanks t) = value? fuel depth t := by
  cases fuel with
  | zero => simp [value?]
  | succ fuel => rw [value?, value?, skipBlanks_skipBlanks]

theorem items?_skipBlanks (done : Array Json) :
    items? fuel depth done (skipBlanks t) = items? fuel depth done t := by
  cases fuel with
  | zero => simp [items?]
  | succ fuel => rw [items?, items?, value?_skipBlanks]

theorem members?_skipBlanks (done : Array (Text × Json)) :
    members? fuel depth done (skipBlanks t) = members? fuel depth done t := by
  cases fuel with
  | zero => simp [members?]
  | succ fuel => rw [members?, members?, skipBlanks_skipBlanks]

theorem value?_blanks {lead : Text} (blank : ∀ b ∈ lead, isBlankByte b = true) :
    value? fuel depth (lead ++ t) = value? fuel depth t := by
  rw [← value?_skipBlanks, skipBlanks_append blank, value?_skipBlanks]

end Skipping

theorem stops_of_blank {lead rest : Text} (blank : ∀ b ∈ lead, isBlankByte b = true)
    (stops : rest.Stops Numeral.goesOn) : (lead ++ rest).Stops Numeral.goesOn := by
  cases lead with
  | nil => exact stops
  | cons b lead =>
    have first : isBlankByte b = true := blank b List.mem_cons_self
    simp only [isBlankByte, Bool.or_eq_true, decide_eq_true_eq] at first
    intro c member
    cases member
    rcases first with ((rfl | rfl) | rfl) | rfl <;> rfl

theorem stops_cons {b : UInt8} (other : Numeral.goesOn b = false) (rest : Text) :
    Text.Stops Numeral.goesOn (b :: rest) := by
  rintro c ⟨⟩
  exact other

/-! ## Words and numbers -/

/-- A number begins with a byte that begins nothing else. -/
theorem begins_number {t : Text} (number : IsNumber t) : ∃ b more, t = b :: more ∧
    isBlankByte b = false ∧ b ≠ 34 ∧ b ≠ 91 ∧ b ≠ 93 ∧ b ≠ 123 ∧ b < 58 := by
  obtain @⟨minus, integer, point, power, signed, run, -, -, -⟩ := number
  rcases signed with rfl | rfl
  · obtain ⟨b, more, rfl, digit⟩ := run.exists_cons
    have ne : ∀ mark, Text.isDigit mark = false → b ≠ mark := fun mark => Text.ne_of_digit digit
    have early : b.toNat < 58 := by
      have := Text.isDigit_iff.mp digit
      omega
    have dark : isBlankByte b = false := by
      simp [isBlankByte, ne 32 rfl, ne 9 rfl, ne 10 rfl, ne 13 rfl]
    exact ⟨b, _, rfl, dark, ne _ rfl, ne _ rfl, ne _ rfl, ne _ rfl, UInt8.lt_iff_toNat_lt.mpr early⟩
  · exact ⟨45, _, rfl, by decide⟩

section Numbers
variable {t rest : Text} (number : IsNumber t) (stops : rest.Stops Numeral.goesOn)
include number stops

theorem plain?_number : plain? (t ++ rest) = some (.number t, rest) := by
  have word : ∀ (b : UInt8) (more : Text), ¬ b < 58 →
      Text.dropHead? (b :: more) (t ++ rest) = none := by
    intro b more letter
    obtain ⟨first, behind, shape, _, _, _, _, _, early⟩ := begins_number number
    have other : b ≠ first := by
      rintro rfl
      exact letter early
    simp [Text.dropHead?, shape, other]
  have null : Text.dropHead? (utf8 "null") (t ++ rest) = none := word 110 _ (by decide)
  have yes : Text.dropHead? (utf8 "true") (t ++ rest) = none := word 116 _ (by decide)
  have no : Text.dropHead? (utf8 "false") (t ++ rest) = none := word 102 _ (by decide)
  simp only [plain?, null, yes, no, Numeral.number?_append number stops, Option.map_some]

theorem value?_number (fuel depth : Nat) :
    value? (fuel + 1) depth (t ++ rest) = some (.number t, rest) := by
  have plain := plain?_number number stops
  obtain ⟨b, more, rfl, dark, quote, array, _, object, _⟩ := begins_number number
  rw [List.cons_append] at plain ⊢
  rw [value?, skipBlanks_cons dark]
  simp only [if_neg quote, if_neg array, if_neg object, plain]

end Numbers

theorem Written.begins {depth : Nat} {j : Json} {t : Text} (written : Written depth j t) :
    ∃ b more, t = b :: more ∧ isBlankByte b = false ∧ b ≠ 93 := by
  cases written with
  | null => exact ⟨110, _, rfl, by decide, by decide⟩
  | bool _ b =>
    cases b with
    | true => exact ⟨116, _, rfl, by decide, by decide⟩
    | false => exact ⟨102, _, rfl, by decide, by decide⟩
  | number _ number =>
    obtain ⟨b, more, shape, dark, _, _, other, _⟩ := begins_number number
    exact ⟨b, more, shape, dark, other⟩
  | string => exact ⟨34, _, rfl, by decide, by decide⟩
  | array => exact ⟨91, _, rfl, by decide, by decide⟩
  | object => exact ⟨123, _, rfl, by decide, by decide⟩

/-! ## Reading what was written -/

/-- The value is read wherever the text stands in front.  Two nested calls of the
reader take at least one byte, which bounds the fuel. -/
def Reads (depth : Nat) (j : Json) (t : Text) : Prop :=
  ∀ (fuel : Nat) (rest : Text), 2 * (t ++ rest).length < fuel → rest.Stops Numeral.goesOn →
    value? fuel depth (t ++ rest) = some (j, rest)

theorem Reads.intro {depth : Nat} {j : Json} {t : Text}
    (read : ∀ (fuel : Nat) (rest : Text), 2 * (t ++ rest).length ≤ fuel →
      rest.Stops Numeral.goesOn → value? (fuel + 1) depth (t ++ rest) = some (j, rest)) :
    Reads depth j t := by
  intro fuel rest enough stops
  obtain ⟨fuel, rfl⟩ : ∃ f, fuel = f + 1 := ⟨fuel - 1, by omega⟩
  exact read fuel rest (by omega) stops

theorem Reads.padded {depth : Nat} {j : Json} {p : Padded} (reads : Reads depth j p.body)
    {fuel : Nat} {rest : Text} (enough : 2 * (p.text ++ rest).length < fuel)
    (stops : rest.Stops Numeral.goesOn) :
    value? fuel depth (p.text ++ rest) = some (j, p.trail ++ rest) := by
  have shape : p.text ++ rest = p.lead ++ (p.body ++ (p.trail ++ rest)) := by simp [Padded.text]
  rw [shape] at enough ⊢
  rw [List.length_append] at enough
  rw [value?_blanks _ _ _ p.lead_blank,
    reads fuel _ (by omega) (stops_of_blank p.trail_blank stops)]

/-- What follows a piece: the other pieces, each behind a comma, and the end. -/
def followed (ending : Text) : List Text → Text
  | [] => ending
  | piece :: more => 44 :: (piece ++ followed ending more)

theorem join_append (piece : Text) (more : List Text) (ending : Text) :
    Text.join [44] (piece :: more) ++ ending = piece ++ followed ending more := by
  induction more generalizing piece with
  | nil => simp [Text.join, followed]
  | cons second more ih =>
    rw [Text.join, List.intercalate_cons_cons, ← Text.join, List.append_assoc, ih]
    simp [followed]

theorem stops_followed {gap rest : Text} {closing : UInt8}
    (blank : ∀ b ∈ gap, isBlankByte b = true) (other : Numeral.goesOn closing = false)
    (pieces : List Text) : (followed (gap ++ closing :: rest) pieces).Stops Numeral.goesOn := by
  cases pieces with
  | nil => exact stops_of_blank blank (stops_cons other rest)
  | cons piece more => exact stops_cons rfl _

section Parts
variable {α β : Type} (loop : Nat → Array α → Text → Option (Json × Text)) (build : List α → Json)
  (closing : UInt8)

/-- The loop over the parts of a value gets a part from a text, whether the part
is the last or not. -/
structure Takes (part : α) (t : Text) : Prop where
  next (fuel : Nat) (done : Array α) (rest : Text) {more : Text} :
    2 * (t ++ rest).length < fuel → rest.Stops Numeral.goesOn → skipBlanks rest = 44 :: more →
    loop (fuel + 1) done (t ++ rest) = loop fuel (done.push part) more
  last (fuel : Nat) (done : Array α) (rest : Text) {behind : Text} :
    2 * (t ++ rest).length < fuel → rest.Stops Numeral.goesOn →
    skipBlanks rest = closing :: behind →
    loop (fuel + 1) done (t ++ rest) = some (build (done.push part).toList, behind)

variable {loop build closing} (part : β → α) (text : β → Text) {gap : Text}
  (dark : isBlankByte closing = false) (ends : Numeral.goesOn closing = false)
  (blank : ∀ b ∈ gap, isBlankByte b = true) (behind : Text)
include dark ends blank

theorem loop_followed (x : β) (more : List β)
    (takes : ∀ y ∈ x :: more, Takes loop build closing (part y) (text y)) (fuel : Nat)
    (done : Array α) :
    let t := text x ++ followed (gap ++ closing :: behind) (more.map text)
    2 * t.length + 1 < fuel →
    loop fuel done t = some (build (done.toList ++ (x :: more).map part), behind) := by
  intro t enough
  -- The loop stands in front of one part; the induction is on those behind it.
  induction more generalizing x fuel done with
  | nil =>
    obtain ⟨fuel, rfl⟩ : ∃ f, fuel = f + 1 := ⟨fuel - 1, by omega⟩
    have closes : skipBlanks (gap ++ closing :: behind) = closing :: behind := by
      rw [skipBlanks_append blank, skipBlanks_cons dark]
    rw [(takes x List.mem_cons_self).last fuel done _ (Nat.lt_of_succ_lt_succ enough)
      (stops_followed blank ends _) closes]
    simp
  | cons y more ih =>
    obtain ⟨fuel, rfl⟩ : ∃ f, fuel = f + 1 := ⟨fuel - 1, by omega⟩
    have later := ih y (fun z member => takes z (List.mem_cons_of_mem x member)) fuel
      (done.push (part x)) (by
        simp only [t, List.map_cons, followed, List.length_append, List.length_cons] at enough ⊢
        omega)
    rw [(takes x List.mem_cons_self).next _ done _ (Nat.lt_of_succ_lt_succ enough)
      (stops_followed blank ends _) (skipBlanks_cons rfl _), later]
    simp

end Parts

section Loops
variable {depth : Nat}

theorem takes_item {i : Json × Padded} (reads : Reads depth i.1 i.2.body) :
    Takes (items? · depth) .array 93 i.1 i.2.text where
  next fuel done rest more enough stops comma := by
    have read := reads.padded enough stops
    simp only [items?, read, skipBlanks_append i.2.trail_blank, comma]
  last fuel done rest behind enough stops closes := by
    have read := reads.padded enough stops
    simp only [items?, read, skipBlanks_append i.2.trail_blank, closes]

theorem Written.exists_spelled {name t : Text} (written : Written depth (.string name) t) :
    ∃ cs u, name = cs.flatMap String.utf8EncodeChar ∧ t = 34 :: u ++ [34] ∧ Spelled cs u := by
  cases written with
  | string _ spelled => exact ⟨_, _, rfl, rfl, spelled⟩

theorem takes_entry {e : Entry} (written : Written depth (.string e.name) e.label.body)
    (reads : Reads depth e.value e.content.body) :
    Takes (members? · depth) .object 125 (e.name, e.value) e.text := by
  obtain ⟨cs, t, name, body, spelled⟩ := written.exists_spelled
  have shape : ∀ rest, e.text ++ rest = e.label.lead ++
      34 :: (t ++ 34 :: (e.label.trail ++ 58 :: (e.content.text ++ rest))) := by
    intro rest
    simp [Entry.text, Padded.text, body]
  have read : ∀ (fuel : Nat) (rest : Text), 2 * (e.text ++ rest).length < fuel →
      rest.Stops Numeral.goesOn →
      value? fuel depth (e.content.text ++ rest) = some (e.value, e.content.trail ++ rest) := by
    intro fuel rest enough stops
    refine reads.padded ?_ stops
    simp only [Entry.text, List.length_append, List.length_cons] at enough ⊢
    omega
  constructor
  · intro fuel done rest more enough stops comma
    have value := read fuel rest enough stops
    simp only [shape, members?, skipBlanks_append e.label.lead_blank, skipBlanks_cons (b := 34) rfl,
      spelled.string?_append, skipBlanks_append e.label.trail_blank, skipBlanks_cons (b := 58) rfl,
      value, skipBlanks_append e.content.trail_blank, comma, name]
  · intro fuel done rest behind enough stops closes
    have value := read fuel rest enough stops
    simp only [shape, members?, skipBlanks_append e.label.lead_blank, skipBlanks_cons (b := 34) rfl,
      spelled.string?_append, skipBlanks_append e.label.trail_blank, skipBlanks_cons (b := 58) rfl,
      value, skipBlanks_append e.content.trail_blank, closes, name]

end Loops

section Brackets
variable (fuel depth : Nat) {b : UInt8} {t more : Text} (begins : skipBlanks t = b :: more)
include begins

theorem value?_array (other : b ≠ 93) :
    value? (fuel + 1) (depth + 1) (91 :: t) = items? fuel depth #[] t := by
  rw [value?, skipBlanks_cons (b := 91) rfl, ← items?_skipBlanks]
  simp [begins, other]

theorem value?_object (other : b ≠ 125) :
    value? (fuel + 1) (depth + 1) (123 :: t) = members? fuel depth #[] t := by
  rw [value?, skipBlanks_cons (b := 123) rfl, ← members?_skipBlanks]
  simp [begins, other]

end Brackets

/-- Behind an opening bracket, blanks and the first piece follow. -/
theorem bracketed_append (opening closing : UInt8) (piece : Text) (more : List Text)
    (gap rest : Text) : bracketed opening closing (piece :: more) gap ++ rest =
      opening :: (piece ++ followed (gap ++ closing :: rest) more) := by
  rw [← join_append]
  simp [bracketed]

theorem Padded.skipBlanks_text {p : Padded} {b : UInt8} {more : Text} (begins : p.body = b :: more)
    (dark : isBlankByte b = false) (rest : Text) :
    skipBlanks (p.text ++ rest) = b :: (more ++ (p.trail ++ rest)) := by
  have shape : p.text ++ rest = p.lead ++ b :: (more ++ (p.trail ++ rest)) := by
    simp [Padded.text, begins]
  rw [shape, skipBlanks_append p.lead_blank, skipBlanks_cons dark]

section Values
variable {depth : Nat} {gap : Text} (blank : ∀ b ∈ gap, isBlankByte b = true)
include blank

theorem reads_array {items : List (Json × Padded)}
    (inside : ∀ i ∈ items, Written depth i.1 i.2.body)
    (reads : ∀ i ∈ items, Reads depth i.1 i.2.body) :
    Reads (depth + 1) (.array (items.map Prod.fst))
      (bracketed 91 93 (items.map fun i => i.2.text) gap) := by
  refine .intro fun fuel rest enough _ => ?_
  cases items with
  | nil =>
    have shape : bracketed 91 93 [] gap ++ rest = 91 :: (gap ++ 93 :: rest) := by
      simp [bracketed, Text.join]
    rw [List.map_nil, shape, value?, skipBlanks_cons (b := 91) rfl]
    simp [skipBlanks_append blank, skipBlanks_cons (b := 93) rfl]
  | cons i more =>
    obtain ⟨b, begun, begins, dark, other⟩ := (inside i List.mem_cons_self).begins
    rw [List.map_cons, bracketed_append] at enough ⊢
    rw [value?_array fuel depth (i.2.skipBlanks_text begins dark _) other]
    exact loop_followed Prod.fst (fun i => i.2.text) rfl rfl blank rest i more
      (fun k member => takes_item (reads k member)) fuel #[] (by
        rw [List.length_cons] at enough
        omega)

theorem reads_object {entries : List Entry}
    (names : ∀ e ∈ entries, Written depth (.string e.name) e.label.body)
    (reads : ∀ e ∈ entries, Reads depth e.value e.content.body) :
    Reads (depth + 1) (.object (entries.map fun e => (e.name, e.value)))
      (bracketed 123 125 (entries.map Entry.text) gap) := by
  refine .intro fun fuel rest enough _ => ?_
  cases entries with
  | nil =>
    have shape : bracketed 123 125 [] gap ++ rest = 123 :: (gap ++ 125 :: rest) := by
      simp [bracketed, Text.join]
    rw [List.map_nil, shape, value?, skipBlanks_cons (b := 123) rfl]
    simp [skipBlanks_append blank, skipBlanks_cons (b := 125) rfl]
  | cons e more =>
    obtain ⟨_, u, _, quote, _⟩ := (names e List.mem_cons_self).exists_spelled
    have begins : ∀ behind, skipBlanks (e.text ++ behind) = 34 :: (u ++ [34] ++
        (e.label.trail ++ (58 :: e.content.text ++ behind))) := by
      intro behind
      rw [Entry.text, List.append_assoc]
      exact e.label.skipBlanks_text quote rfl _
    rw [List.map_cons, bracketed_append] at enough ⊢
    rw [value?_object fuel depth (begins _) (by decide)]
    exact loop_followed (fun e => (e.name, e.value)) Entry.text rfl rfl blank rest e more
      (fun k member => takes_entry (names k member) (reads k member)) fuel #[] (by
        rw [List.length_cons] at enough
        omega)

end Values

/-- A value is read from every text that writes it, whatever stands behind it. -/
theorem value?_written {depth : Nat} {j : Json} {t : Text} (written : Written depth j t) :
    Reads depth j t := by
  induction written with
  | null depth =>
    refine .intro fun fuel rest _ _ => ?_
    rw [value?]
    rfl
  | bool depth b =>
    refine .intro fun fuel rest _ _ => ?_
    rw [value?]
    cases b <;> rfl
  | number depth number =>
    exact .intro fun fuel rest _ stops => value?_number number stops fuel depth
  | @string depth cs t spelled =>
    refine .intro fun fuel rest _ _ => ?_
    have shape : 34 :: t ++ [34] ++ rest = 34 :: (t ++ 34 :: rest) := by simp
    rw [shape, value?, skipBlanks_cons (b := 34) rfl]
    simp [spelled.string?_append]
  | array inside blank ih => exact reads_array blank inside ih
  | object names _ blank _ ih => exact reads_object blank names ih

/-- Blanks around the value do not matter. -/
theorem first?_written {j : Json} {p : Padded} (written : Written depthLimit j p.body) :
    first? p.text = some j := by
  have read : value? (2 * p.text.length + 2) depthLimit (p.text ++ []) = some (j, p.trail ++ []) :=
    (value?_written written).padded (by simp) (by simp [Text.Stops])
  rw [List.append_nil] at read
  rw [first?, read]
  rfl

/-! ## Indented values -/

/-- The value with all strings in it well-formed. -/
def wellFormed : Json → Json
  | .null => .null
  | .bool b => .bool b
  | .number literal => .number literal
  | .string t => .string t.wellFormed
  | .array items => .array (items.map wellFormed)
  | .object members => .object (members.map fun m => (m.1.wellFormed, m.2.wellFormed))
termination_by j => sizeOf j
decreasing_by
  · have smaller := List.sizeOf_lt_of_mem ‹_›
    simp only [array.sizeOf_spec]
    omega
  · have smaller := List.sizeOf_lt_of_mem ‹_›
    have part : sizeOf m = 1 + sizeOf m.1 + sizeOf m.2 := Prod.mk.sizeOf_spec m.1 m.2
    simp only [object.sizeOf_spec]
    omega

/-- Numbers are numerals, and at most so many arrays and objects stand in each
other. -/
inductive Writable : Nat → Json → Prop where
  | null (depth : Nat) : Writable depth .null
  | bool (depth : Nat) (b : Bool) : Writable depth (.bool b)
  | number (depth : Nat) (n : Numeral) : Writable depth (.number n.text)
  | string (depth : Nat) (t : Text) : Writable depth (.string t)
  | array {depth : Nat} {items : List Json} (inside : ∀ j ∈ items, Writable depth j) :
      Writable (depth + 1) (.array items)
  | object {depth : Nat} {members : List (Text × Json)} (inside : ∀ m ∈ members, Writable depth m.2) :
      Writable (depth + 1) (.object members)

theorem toList_indentedItems (level : Nat) (written : Array Text) (items : List Json) :
    (indentedItems level written items).toList = written.toList ++ items.map (indented level) := by
  induction items generalizing written with
  | nil => simp [indentedItems]
  | cons j rest ih => simp [indentedItems, ih]

/-- The indented form of a member. -/
def indentedMember (level : Nat) (m : Text × Json) : Text :=
  quoted m.1 ++ utf8 ": " ++ indented level m.2

theorem toList_indentedMembers (level : Nat) (written : Array Text) (members : List (Text × Json)) :
    (indentedMembers level written members).toList =
      written.toList ++ members.map (indentedMember level) := by
  induction members generalizing written with
  | nil => simp [indentedMembers]
  | cons m rest ih => simp [indentedMembers, ih, indentedMember]

/-- The lines of a block are pieces with blanks in front of them. -/
theorem exists_bracketed (level : Nat) (opening closing : UInt8) (pieces : List Text) :
    ∃ gap, (∀ b ∈ gap, isBlankByte b = true) ∧ block level opening closing pieces =
      bracketed opening closing (pieces.map (lineBreak (level + 1) ++ ·)) gap := by
  have joined : ∀ (piece : Text) (more : List Text),
      lineBreak (level + 1) ++ Text.join (44 :: lineBreak (level + 1)) (piece :: more) =
        Text.join [44] ((piece :: more).map (lineBreak (level + 1) ++ ·)) := by
    intro piece more
    induction more generalizing piece with
    | nil => simp [Text.join]
    | cons second more ih =>
      rw [List.map_cons, List.map_cons, Text.join, Text.join, List.intercalate_cons_cons,
        List.intercalate_cons_cons, ← Text.join, ← Text.join, ← List.map_cons, ← ih]
      simp
  cases pieces with
  | nil => exact ⟨[], blank_nil, rfl⟩
  | cons piece more =>
    refine ⟨lineBreak level, blank_lineBreak level, ?_⟩
    rw [bracketed, ← joined]
    simp [block]

theorem written_quoted (depth : Nat) (t : Text) :
    Written depth (.string t.wellFormed) (quoted t) := by
  rw [Text.wellFormed_eq]
  exact .string depth (spelled_quoted t)

theorem written_indented {depth : Nat} {j : Json} (writable : Writable depth j) (level : Nat) :
    Written depth j.wellFormed (j.indented level) := by
  induction writable generalizing level with
  | null depth =>
    rw [indented, wellFormed]
    exact .null depth
  | bool depth b =>
    rw [indented, wellFormed]
    exact .bool depth b
  | number depth n =>
    rw [indented, wellFormed]
    exact .number depth n.isNumber_text
  | string depth t =>
    rw [indented, wellFormed]
    exact written_quoted depth t
  | @array depth items inside ih =>
    obtain ⟨gap, blank, shape⟩ := exists_bracketed level 91 93 (items.map (indented (level + 1)))
    let item (j : Json) : Json × Padded := (j.wellFormed,
      { lead := lineBreak (level + 1), body := j.indented (level + 1)
        lead_blank := blank_lineBreak (level + 1) })
    have array : Written (depth + 1) (.array ((items.map item).map Prod.fst))
        (bracketed 91 93 ((items.map item).map fun i => i.2.text) gap) :=
      .array (List.forall_mem_map.mpr fun j member => ih j member (level + 1)) blank
    rw [indented, toList_indentedItems, List.nil_append, shape, wellFormed]
    simpa [item, Padded.text, Function.comp_def] using array
  | @object depth members inside ih =>
    obtain ⟨gap, blank, shape⟩ :=
      exists_bracketed level 123 125 (members.map (indentedMember (level + 1)))
    let entry (m : Text × Json) : Entry :=
      { name := m.1.wellFormed, value := m.2.wellFormed
        label :=
          { lead := lineBreak (level + 1), body := quoted m.1
            lead_blank := blank_lineBreak (level + 1) }
        content := { lead := [32], body := m.2.indented (level + 1) } }
    have object : Written (depth + 1)
        (.object ((members.map entry).map fun e => (e.name, e.value)))
        (bracketed 123 125 ((members.map entry).map Entry.text) gap) :=
      .object (List.forall_mem_map.mpr fun m _ => written_quoted depth m.1)
        (List.forall_mem_map.mpr fun m member => ih m member (level + 1)) blank
    have colon : utf8 ": " = [58, 32] := by decide
    rw [indented, toList_indentedMembers, List.nil_append, shape, wellFormed]
    simpa [entry, Entry.text, Padded.text, Function.comp_def, indentedMember, colon] using object

theorem Writable.begins {depth : Nat} {j : Json} (writable : Writable depth j) (level : Nat) :
    ∃ b more, j.indented level = b :: more ∧ isBlankByte b = false ∧ b ≠ 93 :=
  (written_indented writable level).begins

/-- A value is read back from its indented form, whatever stands behind it. -/
theorem value?_indented {depth : Nat} {j : Json} (writable : Writable depth j) (level : Nat) :
    Reads depth j.wellFormed (j.indented level) := value?_written (written_indented writable level)

end Reckoner.Json
