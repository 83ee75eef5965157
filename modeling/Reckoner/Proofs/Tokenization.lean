import Mathlib.Data.Nat.Digits.Defs
import Reckoner.Proofs.Pieces

/-! # Tokens and diagnostics cover a source

`Lossless` says what scanning makes of a source, in terms of its bytes and of
its runes only: every byte is in one token, in one diagnostic or in a blank
rune, runs of digits are not split, and every token and diagnostic says what
stands in its span.  It holds of every byte sequence (`scan_lossless`). -/
set_option autoImplicit false
namespace Reckoner

namespace Span

/-- The bytes of a source that a span covers. -/
def slice (s : Span) (source : Text) : Text :=
  (source.take s.stop.offset.toNat).drop s.start.offset.toNat

def Within (s : Span) (source : Text) : Prop :=
  0 ≤ s.start.offset ∧ s.start.offset < s.stop.offset ∧ s.stop.offset ≤ source.length

def Before (a b : Span) : Prop := a.stop.offset ≤ b.start.offset

def Covers (s : Span) (i : Nat) : Prop := s.start.offset ≤ i ∧ i < s.stop.offset

end Span

/-- The reading of the source has this rune at this offset. -/
def RuneAt (source : Text) (offset : Nat) (r : Rune) : Prop :=
  ∃ before behind, Reading source (before ++ r :: behind) ∧
    offset = (before.flatMap Rune.bytes).length

/-- The number that decimal digits stand for, most significant first. -/
def Text.decimal (digits : Text) : Nat := Nat.ofDigits 10 (digits.reverse.map fun b => b.toNat - 48)

/-- A number is a longest run of digits, and any other token a symbol's byte. -/
def Token.Spells (t : Token) (source : Text) : Prop :=
  match t.lexeme with
  | .number n =>
    t.span.slice source ≠ [] ∧ (∀ b ∈ t.span.slice source, Text.isDigit b = true) ∧
      (∀ b ∈ (source.take t.span.start.offset.toNat).getLast?, Text.isDigit b = false) ∧
      (∀ b ∈ (source.drop t.span.stop.offset.toNat).head?, Text.isDigit b = false) ∧
      n = (t.span.slice source).decimal
  | .symbol s => t.span.slice source = [s.char.toUInt8]
  | .unknown => False

/-- A diagnostic is about one rune that belongs to no token, and shows it. -/
def Diagnostic.Shows (d : Diagnostic) (source : Text) : Prop :=
  d.stage = .lexer ∧ ∃ r, RuneAt source d.span.start.offset.toNat r ∧
    d.span.slice source = r.bytes ∧ r.isBlank = false ∧ r.isDigit = false ∧
    (∀ s : Symbol, r ≠ .scalar s.char) ∧
    d.message =
      match r with
      | .scalar c => utf8 "Illegal character '" ++ String.utf8EncodeChar c ++ utf8 "'"
      | .stray b => utf8 "Illegal character '\\x" ++ Text.hexByte b ++ utf8 "'"

structure Lossless (source : Text) (s : Scan) : Prop where
  tokens_within : ∀ t ∈ s.tokens, t.span.Within source
  notes_within : ∀ d ∈ s.diagnostics, d.span.Within source
  tokens_ordered : s.tokens.Pairwise fun a b => a.span.Before b.span
  notes_ordered : s.diagnostics.Pairwise fun a b => a.span.Before b.span
  disjoint : ∀ t ∈ s.tokens, ∀ d ∈ s.diagnostics, t.span.Before d.span ∨ d.span.Before t.span
  blank_between : ∀ i < source.length, (∀ t ∈ s.tokens, ¬ t.span.Covers i) →
    (∀ d ∈ s.diagnostics, ¬ d.span.Covers i) →
      ∃ offset r, RuneAt source offset r ∧ offset ≤ i ∧ i < offset + r.width ∧ r.isBlank = true
  spelled : ∀ t ∈ s.tokens, t.Spells source
  shown : ∀ d ∈ s.diagnostics, d.Shows source

/-! ## One placed piece -/

section Placed
variable {file source : Text} {x : Piece} {span : Span}

theorem Text.decimal_toNat (digits : Text) : Text.toNat digits = digits.decimal := by
  unfold Text.toNat Text.decimal
  induction digits using List.reverseRecOn with
  | nil => rfl
  | append_singleton more b ih =>
    rw [List.foldl_append, ih, List.reverse_append, List.reverse_singleton, List.singleton_append,
      List.map_cons, Nat.ofDigits_cons]
    simp only [List.foldl_cons, List.foldl_nil, Nat.add_comm]

/-- The bytes of a placed piece stand between those of the pieces around it. -/
theorem split_of_mem_place (member : (x, span) ∈ place (.origin file) (pieces source)) :
    ∃ before behind, pieces source = before ++ x :: behind ∧
      source = before.flatMap Piece.bytes ++ (x.bytes ++ behind.flatMap Piece.bytes) ∧
      span.start.offset = (before.flatMap Piece.bytes).length ∧
      span.stop.offset = (before.flatMap Piece.bytes ++ x.bytes).length := by
  obtain ⟨before, behind, cut, rfl⟩ := exists_of_mem_place member
  refine ⟨before, behind, cut, ?_, ?_, ?_⟩
  · have whole := bytes_pieces source
    rw [cut] at whole
    simpa using whole.symm
  · simp [offset_across, Position.origin]
  · simp [offset_across, offset_stop, Position.origin]

theorem slice_of_split {before bytes behind : Text} (whole : source = before ++ (bytes ++ behind))
    (start : span.start.offset = before.length)
    (stop : span.stop.offset = (before ++ bytes).length) :
    span.slice source = bytes ∧ source.take span.start.offset.toNat = before ∧
      source.drop span.stop.offset.toNat = behind := by
  subst whole
  rw [Span.slice, start, stop, Int.toNat_natCast, Int.toNat_natCast, ← List.append_assoc,
    List.take_left, List.drop_left, List.drop_left, List.append_assoc, List.take_left]
  exact ⟨rfl, rfl, rfl⟩

theorem Piece.bytes_runes {x : Piece} (proper : x.Proper) :
    x.runes.flatMap Rune.bytes = x.bytes := by
  cases x with
  | blank r => exact List.flatMap_singleton ..
  | symbol s => exact List.flatMap_singleton ..
  | illegal r => exact List.flatMap_singleton ..
  | number digits =>
    have digit := proper.2
    simp only [Piece.runes, Piece.bytes] at digit ⊢
    clear proper
    induction digits with
    | nil => rfl
    | cons b more ih =>
      have ascii := Text.ascii_of_isDigit (digit b (List.mem_cons_self ..))
      rw [List.map_cons, List.flatMap_cons,
        ih fun b member => digit b (List.mem_cons_of_mem _ member)]
      exact congrArg (· ++ more) (encode_ascii ascii)

theorem within_of_mem_place (member : (x, span) ∈ place (.origin file) (pieces source)) :
    span.Within source := by
  obtain ⟨before, behind, cut, whole, start, stop⟩ := split_of_mem_place member
  have proper := proper_pieces source x (mem_of_mem_place member)
  have positive := List.length_pos_iff.mpr (Piece.bytes_ne_nil proper)
  have size := congrArg List.length whole
  simp only [List.length_append] at stop size
  refine ⟨?_, ?_, ?_⟩ <;> omega

/-- A piece of one rune stands where the reading has that rune. -/
theorem runeAt_of_mem_place {r : Rune} (member : (x, span) ∈ place (.origin file) (pieces source))
    (one : x.runes = [r]) : RuneAt source span.start.offset.toNat r := by
  obtain ⟨before, behind, cut, whole, start, stop⟩ := split_of_mem_place member
  refine ⟨before.flatMap Piece.runes, behind.flatMap Piece.runes, ?_, ?_⟩
  · have reading := reading_all source
    rw [← runes_pieces, cut, List.flatMap_append, List.flatMap_cons, one] at reading
    exact reading
  · have proper : ∀ y ∈ before, y.Proper := fun y first =>
      proper_pieces source y (by simp [cut, first])
    rw [start, Int.toNat_natCast, List.flatMap_assoc]
    exact congrArg List.length
      (List.flatMap_congr fun y first => (Piece.bytes_runes (proper y first)).symm)

/-- Next to a run of digits stands no digit. -/
theorem munched_of_mem_place {digits : Text}
    (member : (.number digits, span) ∈ place (.origin file) (pieces source)) :
    (∀ b ∈ (source.take span.start.offset.toNat).getLast?, Text.isDigit b = false) ∧
      ∀ b ∈ (source.drop span.stop.offset.toNat).head?, Text.isDigit b = false := by
  obtain ⟨before, behind, cut, whole, start, stop⟩ := split_of_mem_place member
  obtain ⟨_, early, late⟩ := slice_of_split whole start stop
  have chain := apart_pieces source
  rw [cut, List.isChain_append, List.isChain_cons] at chain
  obtain ⟨_, ⟨behindApart, _⟩, beforeApart⟩ := chain
  rw [early, late]
  constructor
  · intro b last
    rcases List.eq_nil_or_concat before with rfl | ⟨init, y, rfl⟩
    · cases last
    · have plain : ¬ y.isNumber = true := fun number =>
        beforeApart y (by simp) _ rfl ⟨number, rfl⟩
      have found : y ∈ pieces source := by simp [cut]
      have nonempty := Piece.bytes_ne_nil (proper_pieces source y found)
      rw [List.concat_eq_append, List.flatMap_append, List.flatMap_singleton,
        List.getLast?_append_of_ne_nil _ nonempty] at last
      exact digitless_of_mem_pieces found plain b (List.mem_of_getLast? last)
  · intro b first
    cases behind with
    | nil => cases first
    | cons y more =>
      have plain : ¬ y.isNumber = true := fun number => behindApart y rfl ⟨rfl, number⟩
      have found : y ∈ pieces source := by simp [cut]
      have nonempty := Piece.bytes_ne_nil (proper_pieces source y found)
      rw [List.flatMap_cons, List.head?_append_of_ne_nil _ nonempty] at first
      exact digitless_of_mem_pieces found plain b (List.mem_of_head? first)

theorem apart_of_mem_place {p : Position} {xs : List Piece} {a b : Piece × Span}
    (first : a ∈ place p xs) (second : b ∈ place p xs) (different : a ≠ b) :
    a.2.Before b.2 ∨ b.2.Before a.2 := by
  have symmetric : Std.Symm fun a b : Piece × Span => a.2.Before b.2 ∨ b.2.Before a.2 :=
    ⟨fun _ _ => Or.symm⟩
  have apart : (place p xs).Pairwise fun a b => a.2.Before b.2 ∨ b.2.Before a.2 :=
    (ordered_place p xs).imp Or.inl
  exact apart.forall first second different

theorem exists_covering {p : Position} {xs : List Piece} {i : Nat} (low : p.offset ≤ i)
    (high : i < (p.across xs).offset) : ∃ y ∈ place p xs, y.2.Covers i := by
  induction xs generalizing p with
  | nil =>
    simp only [Position.across, List.foldl_nil] at high
    omega
  | cons x more ih =>
    by_cases inside : i < (x.stop p).offset
    · exact ⟨_, List.mem_cons_self .., low, inside⟩
    · obtain ⟨y, member, covers⟩ := ih (Int.not_lt.mp inside) high
      exact ⟨y, List.mem_cons_of_mem _ member, covers⟩

end Placed

/-! ## All of them -/

theorem span_tokenOf {y : Piece × Span} {t : Token} (token : tokenOf y = some t) :
    t.span = y.2 := by
  obtain ⟨x, span⟩ := y
  cases x <;> cases token <;> rfl

theorem span_noteOf {y : Piece × Span} {d : Diagnostic} (note : noteOf y = some d) :
    d.span = y.2 := by
  obtain ⟨x, span⟩ := y
  cases x <;> cases note
  rfl

theorem noteOf_of_tokenOf {y : Piece × Span} {t : Token} (token : tokenOf y = some t) :
    noteOf y = none := by
  obtain ⟨x, span⟩ := y
  cases x <;> cases token <;> rfl

section Scanned
variable {file source : Text}

theorem spells_of_mem_place {y : Piece × Span} {t : Token}
    (member : y ∈ place (.origin file) (pieces source)) (token : tokenOf y = some t) :
    t.Spells source := by
  obtain ⟨x, span⟩ := y
  obtain ⟨before, behind, cut, whole, start, stop⟩ := split_of_mem_place member
  obtain ⟨slice, _, _⟩ := slice_of_split whole start stop
  cases x with
  | blank r => cases token
  | illegal r => cases token
  | number digits =>
    cases token
    have proper := proper_pieces source _ (mem_of_mem_place member)
    obtain ⟨early, late⟩ := munched_of_mem_place member
    simp only [Token.Spells, slice, Piece.bytes]
    exact ⟨proper.1, proper.2, early, late, by rw [Text.decimal_toNat]⟩
  | symbol s =>
    cases token
    simp only [Token.Spells, slice, Piece.bytes]
    cases s <;> decide

theorem shows_of_mem_place {y : Piece × Span} {d : Diagnostic}
    (member : y ∈ place (.origin file) (pieces source)) (note : noteOf y = some d) :
    d.Shows source := by
  obtain ⟨x, span⟩ := y
  obtain ⟨before, behind, cut, whole, start, stop⟩ := split_of_mem_place member
  obtain ⟨slice, _, _⟩ := slice_of_split whole start stop
  cases x with
  | blank r => cases note
  | number digits => cases note
  | symbol s => cases note
  | illegal r =>
    cases note
    obtain ⟨blank, digit, symbol⟩ := proper_pieces source _ (mem_of_mem_place member)
    refine ⟨rfl, r, runeAt_of_mem_place member rfl, slice, blank, digit, ?_, ?_⟩
    · rintro s rfl
      rw [Rune.symbol?, Symbol.ofChar?_char] at symbol
      cases symbol
    · cases r with
      | scalar c => rfl
      | stray b => simp [Diagnostic.illegal, utf8]

theorem blank_of_uncovered (file : Text) {i : Nat} (inside : i < source.length)
    (tokens : ∀ y ∈ place (.origin file) (pieces source), ∀ t, tokenOf y = some t →
      ¬ y.2.Covers i)
    (notes : ∀ y ∈ place (.origin file) (pieces source), ∀ d, noteOf y = some d →
      ¬ y.2.Covers i) :
    ∃ offset r, RuneAt source offset r ∧ offset ≤ i ∧ i < offset + r.width ∧ r.isBlank = true := by
  have high : (i : Int) < ((Position.origin file).across (pieces source)).offset := by
    rw [offset_across, bytes_pieces]
    simp only [Position.origin]
    omega
  obtain ⟨⟨x, span⟩, member, covers⟩ := exists_covering (Int.natCast_nonneg i) high
  cases x with
  | number digits => exact absurd covers (tokens _ member _ rfl)
  | symbol s => exact absurd covers (tokens _ member _ rfl)
  | illegal r => exact absurd covers (notes _ member _ rfl)
  | blank r =>
    obtain ⟨before, behind, cut, whole, start, stop⟩ := split_of_mem_place member
    have proper := proper_pieces source _ (mem_of_mem_place member)
    obtain ⟨low, high⟩ := covers
    refine ⟨_, r, runeAt_of_mem_place member rfl, ?_, ?_, proper⟩
    · simp only at low
      omega
    · simp only [start, stop, List.length_append, Piece.bytes, Rune.width] at high ⊢
      omega

/-- Scanning covers every byte of every source, whatever its bytes are. -/
theorem scan_lossless (file source : Text) : Lossless source (scan file source) := by
  rw [scan_eq]
  constructor
  case tokens_within =>
    intro t member
    obtain ⟨y, placed, token⟩ := List.mem_filterMap.mp member
    rw [span_tokenOf token]
    exact within_of_mem_place placed
  case notes_within =>
    intro d member
    obtain ⟨y, placed, note⟩ := List.mem_filterMap.mp member
    rw [span_noteOf note]
    exact within_of_mem_place placed
  case tokens_ordered =>
    refine List.pairwise_filterMap.mpr ((ordered_place _ _).imp ?_)
    intro a b before t first u second
    rw [span_tokenOf first, span_tokenOf second]
    exact before
  case notes_ordered =>
    refine List.pairwise_filterMap.mpr ((ordered_place _ _).imp ?_)
    intro a b before d first e second
    rw [span_noteOf first, span_noteOf second]
    exact before
  case disjoint =>
    intro t first d second
    obtain ⟨y, placed, token⟩ := List.mem_filterMap.mp first
    obtain ⟨z, also, note⟩ := List.mem_filterMap.mp second
    rw [span_tokenOf token, span_noteOf note]
    refine apart_of_mem_place placed also ?_
    rintro rfl
    rw [noteOf_of_tokenOf token] at note
    cases note
  case blank_between =>
    intro i inside tokens notes
    refine blank_of_uncovered file inside ?_ ?_
    · intro y placed t token
      have clear := tokens t (List.mem_filterMap.mpr ⟨y, placed, token⟩)
      rwa [span_tokenOf token] at clear
    · intro y placed d note
      have clear := notes d (List.mem_filterMap.mpr ⟨y, placed, note⟩)
      rwa [span_noteOf note] at clear
  case spelled =>
    intro t member
    obtain ⟨y, placed, token⟩ := List.mem_filterMap.mp member
    exact spells_of_mem_place placed token
  case shown =>
    intro d member
    obtain ⟨y, placed, note⟩ := List.mem_filterMap.mp member
    exact shows_of_mem_place placed note

end Scanned
end Reckoner
