import Mathlib.Data.List.DropRight
import Reckoner.Report
import Reckoner.Proofs.Discipline
import Reckoner.Proofs.Tokenization

/-! # Positions tell the truth

A position is faithful to a source if its line and its column can be counted
anew from the bytes before its offset.  Going on rune by rune from the origin
reaches faithful positions only (`faithful_of_reading`), and every position
that compiling a source produces is reached so or copied from one that is. -/
set_option autoImplicit false
namespace Reckoner

/-- The newline byte. -/
def Text.newline : UInt8 := 10

/-- The bytes behind the last newline. -/
def Text.lastLine (t : Text) : Text := t.rtakeWhile (· != Text.newline)

structure Position.Faithful (file source : Text) (p : Position) : Prop where
  named : p.file = file
  low : 0 ≤ p.offset
  high : p.offset ≤ source.length
  /-- It stands between two runes of the source, never inside one. -/
  between : ∃ before behind, Reading source (before ++ behind) ∧
    p.offset = (before.flatMap Rune.bytes).length
  lines : p.line = 1 + (source.take p.offset.toNat).count Text.newline
  columns : ∃ runes, Reading (Text.lastLine (source.take p.offset.toNat)) runes ∧
    p.column = 1 + runes.length

structure Span.Faithful (file source : Text) (s : Span) : Prop where
  start : s.start.Faithful file source
  stop : s.stop.Faithful file source
  ordered : s.start.offset ≤ s.stop.offset

/-! ## Parts of a reading -/

theorem Reading.bytes {t : Text} {runes : List Rune} (reading : Reading t runes) :
    runes.flatMap Rune.bytes = t := by
  induction reading with
  | done => rfl
  | scalar c more ih => rw [List.flatMap_cons, ih]; rfl
  | stray b undecodable more ih => rw [List.flatMap_cons, ih]; rfl

/-- Where a reading is cut, both parts are read as before. -/
theorem Reading.split {t : Text} {before behind : List Rune}
    (reading : Reading t (before ++ behind)) :
    Reading (before.flatMap Rune.bytes) before ∧ Reading (behind.flatMap Rune.bytes) behind := by
  induction before generalizing t with
  | nil =>
    have whole : behind.flatMap Rune.bytes = t := Reading.bytes reading
    exact ⟨.done, whole ▸ reading⟩
  | cons r more ih =>
    rw [List.cons_append] at reading
    cases reading with
    | scalar c rest =>
      obtain ⟨first, second⟩ := ih rest
      exact ⟨.scalar c first, second⟩
    | @stray b rest runes undecodable following =>
      obtain ⟨first, second⟩ := ih following
      refine ⟨.stray b ?_ first, second⟩
      -- A byte that begins no rune of a text begins none of a shorter one.
      intro c begins
      have shorter : b :: more.flatMap Rune.bytes <+: b :: rest := by
        rw [← following.bytes, List.flatMap_append]
        exact List.prefix_append (b :: more.flatMap Rune.bytes) _
      exact undecodable c (begins.trans shorter)

/-! ## Newlines -/

def Rune.newline : Rune := .scalar '\n'

theorem Rune.bytes_newline : Rune.newline.bytes = [Text.newline] := by decide

theorem Rune.newline_of_mem {r : Rune} (sound : r.Sound) (member : Text.newline ∈ r.bytes) :
    r = .newline := sound _ member (by decide)

theorem count_newline {runes : List Rune} (sound : ∀ r ∈ runes, r.Sound) :
    (runes.flatMap Rune.bytes).count Text.newline = runes.count .newline := by
  induction runes with
  | nil => rfl
  | cons r more ih =>
    obtain ⟨first, others⟩ := List.forall_mem_cons.mp sound
    rw [List.flatMap_cons, List.count_append, ih others]
    by_cases ends : r = .newline
    · subst ends
      rw [Rune.bytes_newline, List.count_singleton_self, List.count_cons_self, Nat.add_comm]
    · have unbroken : Text.newline ∉ r.bytes := fun member => ends (Rune.newline_of_mem first member)
      rw [List.count_eq_zero_of_not_mem unbroken, List.count_cons_of_ne ends, Nat.zero_add]

/-- The runes behind the last newline. -/
def lastRunes (runes : List Rune) : List Rune := runes.rtakeWhile (· != .newline)

theorem lastRunes_concat (runes : List Rune) (r : Rune) :
    lastRunes (runes ++ [r]) = if r = .newline then [] else lastRunes runes ++ [r] := by
  rw [lastRunes, List.rtakeWhile_concat]
  by_cases ends : r = .newline <;> simp [ends, lastRunes]

theorem lastLine_append {t u : Text} (unbroken : Text.newline ∉ u) :
    (t ++ u).lastLine = t.lastLine ++ u := by
  have all : ∀ b ∈ u.reverse, (b != Text.newline) = true := by
    intro b member
    rw [bne_iff_ne]
    rintro rfl
    exact unbroken (List.mem_reverse.mp member)
  simp only [Text.lastLine, List.rtakeWhile, List.reverse_append]
  rw [List.takeWhile_append_of_pos all, List.reverse_append, List.reverse_reverse]

theorem lastLine_bytes {runes : List Rune} (sound : ∀ r ∈ runes, r.Sound) :
    Text.lastLine (runes.flatMap Rune.bytes) = (lastRunes runes).flatMap Rune.bytes := by
  induction runes using List.reverseRecOn with
  | nil => rfl
  | append_singleton more r ih =>
    obtain ⟨others, last⟩ := List.forall_mem_append.mp sound
    have sound := last r (List.mem_singleton_self r)
    rw [List.flatMap_append, List.flatMap_singleton, lastRunes_concat]
    by_cases ends : r = .newline
    · subst ends
      rw [Rune.bytes_newline, if_pos rfl, Text.lastLine, List.rtakeWhile_concat_neg]
      · rfl
      · decide
    · have unbroken : Text.newline ∉ r.bytes := fun member => ends (Rune.newline_of_mem sound member)
      rw [if_neg ends, lastLine_append unbroken, ih others, List.flatMap_append,
        List.flatMap_singleton]

theorem reading_lastLine {t : Text} {runes : List Rune} (reading : Reading t runes) :
    Reading t.lastLine (lastRunes runes) := by
  have sound := sound_of_mem_reading reading
  obtain ⟨init, whole⟩ := List.rtakeWhile_suffix (· != Rune.newline) runes
  have parts := reading
  rw [← whole] at parts
  rw [← reading.bytes, lastLine_bytes sound]
  exact parts.split.2

/-! ## Positions behind runes -/

theorem Position.after_newline (p : Position) :
    p.after .newline = ⟨p.file, p.offset + 1, p.line + 1, 1⟩ := rfl

theorem Position.after_other {r : Rune} (other : r ≠ .newline) (p : Position) :
    p.after r = ⟨p.file, p.offset + r.bytes.length, p.line, p.column + 1⟩ := if_neg other

/-- Where going on from the origin leads. -/
theorem foldl_after (file : Text) (runes : List Rune) :
    runes.foldl Position.after (.origin file) =
      ⟨file, (runes.flatMap Rune.bytes).length, 1 + runes.count .newline,
        1 + (lastRunes runes).length⟩ := by
  -- From the right: the rune read last decides whether the column starts anew.
  induction runes using List.reverseRecOn with
  | nil => rfl
  | append_singleton more r ih =>
    rw [List.foldl_append, ih, List.foldl_cons, List.foldl_nil, List.flatMap_append,
      List.flatMap_singleton, List.length_append, lastRunes_concat, List.count_append]
    by_cases ends : r = .newline
    · subst ends
      simp only [Position.after_newline, Rune.bytes_newline, List.length_singleton,
        List.count_singleton_self, if_true, List.length_nil, Position.mk.injEq, true_and]
      omega
    · have unbroken : [r].count Rune.newline = 0 := by
        rw [List.count_cons_of_ne ends, List.count_nil]
      simp only [Position.after_other ends, unbroken, if_neg ends, List.length_append,
        List.length_singleton, Position.mk.injEq, true_and]
      omega

theorem faithful_of_reading (file : Text) {source : Text} {before behind : List Rune}
    (reading : Reading source (before ++ behind)) :
    (before.foldl Position.after (.origin file)).Faithful file source := by
  have first := reading.split.1
  have whole := reading.bytes
  rw [List.flatMap_append] at whole
  have taken : source.take (before.flatMap Rune.bytes).length = before.flatMap Rune.bytes := by
    rw [← whole, List.take_left]
  rw [foldl_after]
  refine ⟨rfl, Int.natCast_nonneg _, ?_, ⟨before, behind, reading, rfl⟩, ?_, ?_⟩
  · have size := congrArg List.length whole
    rw [List.length_append] at size
    simp only
    omega
  · simp only [Int.toNat_natCast, taken, count_newline (sound_of_mem_reading first)]
  · simp only [Int.toNat_natCast, taken]
    exact ⟨_, reading_lastLine first, rfl⟩

theorem faithful_origin (file source : Text) : (Position.origin file).Faithful file source := by
  have reading : Reading source ([] ++ Rune.all source) := reading_all source
  exact faithful_of_reading file reading

/-! ## Pieces, tokens and diagnostics -/

section Scanned
variable {file source : Text}

/-- The positions between the pieces of a source. -/
theorem faithful_across {before behind : List Piece} (cut : pieces source = before ++ behind) :
    ((Position.origin file).across before).Faithful file source := by
  have proper : ∀ x ∈ before, x.Proper := fun x member =>
    proper_pieces source x (by rw [cut]; exact List.mem_append_left behind member)
  have reading := reading_all source
  rw [← runes_pieces, cut, List.flatMap_append] at reading
  rw [across_eq proper]
  exact faithful_of_reading file reading

theorem faithful_of_mem_place {x : Piece} {span : Span}
    (member : (x, span) ∈ place (.origin file) (pieces source)) : span.Faithful file source := by
  obtain ⟨before, behind, cut, rfl⟩ := exists_of_mem_place member
  refine ⟨faithful_across cut, ?_, ?_⟩
  · have stop : x.stop ((Position.origin file).across before) =
        (Position.origin file).across (before ++ [x]) := by
      simp [Position.across]
    have next : pieces source = (before ++ [x]) ++ behind := by simp [cut]
    rw [stop]
    exact faithful_across next
  · simp only [offset_stop]
    omega

theorem faithful_token {t : Token} (member : t ∈ (scan file source).tokens) :
    t.span.Faithful file source := by
  rw [scan_eq] at member
  obtain ⟨y, placed, token⟩ := List.mem_filterMap.mp member
  rw [span_tokenOf token]
  exact faithful_of_mem_place placed

theorem faithful_note {d : Diagnostic} (member : d ∈ (scan file source).diagnostics) :
    d.span.Faithful file source := by
  rw [scan_eq] at member
  obtain ⟨y, placed, note⟩ := List.mem_filterMap.mp member
  rw [span_noteOf note]
  exact faithful_of_mem_place placed

theorem faithful_endOf : (Evaluator.endOf file (scan file source).tokens).Faithful file source := by
  have still : ∀ p : Position, p.Faithful file source → p.span.Faithful file source :=
    fun p faithful => ⟨faithful, faithful, Int.le_refl _⟩
  unfold Evaluator.endOf
  split
  next t last => exact still _ (faithful_token (List.mem_of_getLast? last)).stop
  next => exact still _ (faithful_origin file source)

end Scanned

/-- Every position in a report is faithful. -/
structure Report.Located (file source : Text) (r : Report) : Prop where
  tokens : ∀ t ∈ r.tokens, t.span.Faithful file source
  diagnostics : ∀ d ∈ r.diagnostics, d.span.Faithful file source
  failure : ∀ a, r.failure = some (.aborted a) → a.span.Faithful file source

theorem compileAt_located (file source : Text) :
    (compileAt file source).Located file source := by
  have blamed : ∀ a, (evaluate file (scan file source).tokens).abort = some a →
      a.span.Faithful file source := by
    intro a aborts
    obtain ⟨_, ⟨_, t, member, _, span⟩, _⟩ := Evaluator.next_aborts aborts
    rw [span]
    exact faithful_token member
  constructor
  case tokens => exact fun t member => faithful_token member
  case failure =>
    intro a failed
    obtain ⟨b, aborts, same⟩ := Option.map_eq_some_iff.mp failed
    cases same
    exact blamed a aborts
  case diagnostics =>
    intro d member
    rcases List.mem_append.mp member with scanned | evaluated
    · exact faithful_note scanned
    · have added : d ∈ (Evaluator.start file (scan file source).tokens).added := evaluated
      rcases Evaluator.mem_added added with ⟨_, atEnd | ⟨t, inside, span⟩⟩ | ⟨a, aborts, rfl⟩
      · rw [atEnd]
        exact faithful_endOf
      · rw [span]
        exact faithful_token inside
      · exact blamed a aborts

end Reckoner
