import Reckoner.Report.Encoder
import Reckoner.Proofs.Agreement
import Reckoner.Proofs.Lettering
import Reckoner.Proofs.Location

/-! # Lines can be told apart, painted or not

An illegal rune is the only part of a line that a source decides.  It is not a
newline, and a quotation mark follows it: so no line holds a newline, and none
holds a control sequence that selects a rendition (`steady_of_mem_lines`).
Hence the lines can be read back from what is printed, and painted lines are
the plain ones with such sequences put in. -/
set_option autoImplicit false
namespace Reckoner

/-! ## Control sequences -/

/-- The byte that begins a control sequence, and the one that follows it there. -/
def Text.escape : UInt8 := 27

def Text.bracket : UInt8 := 91

/-- Rendition codes are digits and semicolons. -/
def isCodeByte (b : UInt8) : Bool := Text.isDigit b || b == 59

/-- What follows a control sequence that selects a rendition, if one begins the
text. -/
def behindRendition? : Text → Option Text
  | b :: c :: rest =>
    if b = Text.escape ∧ c = Text.bracket then
      match rest.dropWhile isCodeByte with
      | 109 :: behind => some behind
      | _ => none
    else none
  | _ => none

theorem length_of_behindRendition? {t behind : Text} (found : behindRendition? t = some behind) :
    behind.length < t.length := by
  unfold behindRendition? at found
  split at found
  next b c rest =>
    split at found
    · split at found
      next more shape =>
        cases found
        have shorter := (List.dropWhile_sublist isCodeByte (l := rest)).length_le
        rw [shape] at shorter
        simp only [List.length_cons] at shorter ⊢
        omega
      next => cases found
    · cases found
  next => cases found

/-- The text without the control sequences that select renditions. -/
def unpainted (t : Text) : Text :=
  match _found : behindRendition? t with
  | some behind => unpainted behind
  | none =>
    match t with
    | [] => []
    | b :: rest => b :: unpainted rest
termination_by t.length
decreasing_by
  · exact length_of_behindRendition? _found
  · simp

theorem unpainted_behind {t behind : Text} (found : behindRendition? t = some behind) :
    unpainted t = unpainted behind := by
  rw [unpainted]
  split <;> simp_all

theorem unpainted_cons {b : UInt8} {rest : Text} (plain : behindRendition? (b :: rest) = none) :
    unpainted (b :: rest) = b :: unpainted rest := by
  rw [unpainted]
  split <;> simp_all

theorem unpainted_nil : unpainted [] = [] := by
  rw [unpainted]
  split <;> simp_all [behindRendition?]

/-! ## Texts without control sequences -/

/-- Every escape byte is followed by something other than the bracket. -/
def Text.Quiet : Text → Prop
  | [] => True
  | b :: rest => (b = Text.escape → ∃ c ∈ rest.head?, c ≠ Text.bracket) ∧ Text.Quiet rest

theorem quiet_of_not_mem {t : Text} (unescaped : Text.escape ∉ t) : t.Quiet := by
  induction t with
  | nil => trivial
  | cons b rest ih =>
    obtain ⟨other, more⟩ := not_or.mp (mt List.mem_cons.mpr unescaped)
    exact ⟨fun same => absurd same.symm other, ih more⟩

theorem quiet_append {t u : Text} (first : t.Quiet) (second : u.Quiet) : (t ++ u).Quiet := by
  induction t with
  | nil => exact second
  | cons b rest ih =>
    refine ⟨fun escape => ?_, ih first.2⟩
    obtain ⟨c, head, other⟩ := first.1 escape
    cases rest with
    | nil => cases head
    | cons d more => exact ⟨c, head, other⟩

theorem unpainted_quiet {t : Text} (quiet : t.Quiet) (rest : Text) :
    unpainted (t ++ rest) = t ++ unpainted rest := by
  induction t with
  | nil => rfl
  | cons b more ih =>
    have plain : behindRendition? (b :: (more ++ rest)) = none := by
      by_cases escape : b = Text.escape
      · obtain ⟨c, head, other⟩ := quiet.1 escape
        cases more with
        | nil => cases head
        | cons d later =>
          cases head
          simp [behindRendition?, other]
      · cases more ++ rest with
        | nil => rfl
        | cons c behind => simp [behindRendition?, escape]
    rw [List.cons_append, unpainted_cons plain, ih quiet.2]
    rfl

/-- A control sequence that selects a rendition is left out. -/
theorem unpainted_rendition {codes : Text} (code : ∀ b ∈ codes, isCodeByte b = true)
    (rest : Text) : unpainted (Text.escape :: Text.bracket :: codes ++ 109 :: rest) =
      unpainted rest := by
  apply unpainted_behind
  have stop : isCodeByte 109 = false := by decide
  simp only [List.cons_append, behindRendition?, and_self, if_true,
    List.dropWhile_append_of_pos code, List.dropWhile_cons_of_neg (stop ▸ Bool.false_ne_true)]

theorem unpainted_paint (k : LineKind) (rest : Text) :
    unpainted (rendition k.paint.1 ++ rest) = unpainted rest ∧
      unpainted (rendition k.paint.2 ++ rest) = unpainted rest := by
  have shape : ∀ k : LineKind, ∃ before behind : Text,
      rendition k.paint.1 = Text.escape :: Text.bracket :: before ++ [109] ∧
      rendition k.paint.2 = Text.escape :: Text.bracket :: behind ++ [109] ∧
      before.all isCodeByte = true ∧ behind.all isCodeByte = true := by
    intro k
    refine ⟨utf8 k.paint.1, utf8 k.paint.2, ?_⟩
    cases k <;> decide
  obtain ⟨before, behind, first, second, codes, more⟩ := shape k
  rw [first, second, List.append_assoc, List.append_assoc]
  exact ⟨unpainted_rendition (List.all_eq_true.mp codes) rest,
    unpainted_rendition (List.all_eq_true.mp more) rest⟩

/-! ## Lines of a compiled source -/

/-- Neither a newline nor a control sequence is in the text. -/
structure Text.Steady (t : Text) : Prop where
  unbroken : Text.newline ∉ t
  quiet : t.Quiet

theorem Text.Visible.steady {t : Text} (visible : t.Visible) : t.Steady := by
  refine ⟨fun member => absurd (visible _ member) (by decide), quiet_of_not_mem fun member => ?_⟩
  exact absurd (visible _ member) (by decide)

theorem Text.Steady.append {t u : Text} (first : t.Steady) (second : u.Steady) :
    (t ++ u).Steady := by
  refine ⟨?_, quiet_append first.quiet second.quiet⟩
  rw [List.mem_append]
  exact not_or.mpr ⟨first.unbroken, second.unbroken⟩

/-- What is shown of an illegal rune, up to the quotation mark behind it. -/
theorem steady_shown {r : Rune} (sound : r.Sound) (blank : r.isBlank = false) :
    (r.bytes ++ utf8 "'").Steady := by
  have mark : utf8 "'" = [39] := by decide
  have other : Text.newline ∉ r.bytes := by
    intro member
    rw [Rune.newline_of_mem sound member] at blank
    exact absurd blank (by decide)
  refine ⟨?_, ?_⟩
  · rw [List.mem_append, mark]
    exact not_or.mpr ⟨other, by decide⟩
  · by_cases escapes : Text.escape ∈ r.bytes
    · -- The rune is the escape character, and the mark stands behind it.
      have bytes : r.bytes = [Text.escape] := by
        rw [sound _ escapes (by decide)]
        decide
      rw [bytes, mark]
      exact ⟨fun _ => ⟨39, rfl, by decide⟩, fun same => absurd same (by decide), trivial⟩
    · refine quiet_of_not_mem ?_
      rw [List.mem_append, mark]
      exact not_or.mpr ⟨escapes, by decide⟩

theorem steady_illegal {r : Rune} (sound : r.Sound) (blank : r.isBlank = false) (span : Span) :
    (Diagnostic.illegal r span).message.Steady := by
  have fixed : (utf8 "Illegal character '").Visible := by decide
  cases r with
  | scalar c =>
    have shown := steady_shown sound blank
    have steady := fixed.steady.append shown
    rwa [← List.append_assoc] at steady
  | stray b =>
    have nibbles : ∀ n < 16, 32 ≤ (Text.hexDigit n).toNat ∧ (Text.hexDigit n).toNat < 127 := by decide
    have small := b.toNat_lt
    have hex : (Text.hexByte b).Visible := by
      rw [Text.hexByte, Text.visible_cons, Text.visible_cons]
      exact ⟨nibbles _ (by omega), nibbles _ (by omega), Text.visible_nil⟩
    have escaped : (utf8 "\\x" ++ Text.hexByte b).Visible := Text.visible_append.mpr ⟨by decide, hex⟩
    have mark : (utf8 "'").Visible := by decide
    exact (fixed.steady.append escaped.steady).append mark.steady

section Lines
variable {file source : Text}

theorem steady_note {d : Diagnostic} (member : d ∈ (compileAt file source).diagnostics) :
    d.text.Steady := by
  refine (Stage.visible_heading d.stage).steady.append ?_
  rcases List.mem_append.mp member with scanned | evaluated
  · rw [scan_eq] at scanned
    obtain ⟨⟨x, span⟩, placed, note⟩ := List.mem_filterMap.mp scanned
    cases x with
    | blank r => cases note
    | number digits => cases note
    | symbol s => cases note
    | illegal r =>
      cases note
      have found := mem_of_mem_place placed
      have proper := proper_pieces source _ found
      exact steady_illegal (sound_pieces found r (List.mem_singleton_self r)) proper.1 span
  · exact (visible_of_mem_evaluate (Array.mem_toList_iff.mp evaluated)).steady

theorem steady_of_mem_stageLines {stage : Stage} {kind : LineKind} {l : Line}
    (member : l ∈ (compileAt file source).stageLines stage kind) : l.text.Steady := by
  obtain ⟨d, found, rfl⟩ := List.mem_map.mp member
  exact steady_note (List.mem_filter.mp found).1

theorem steady_outcomeLine : (compileAt file source).outcomeLine.text.Steady := by
  have words : (utf8 "Compilation successful: ").Visible ∧
      (utf8 "Compilation failed: no value after error recovery").Visible := by decide
  unfold Report.outcomeLine
  split
  · exact words.1.steady.append (Value.visible_text _).steady
  · exact words.2.steady

theorem steady_of_mem_lines {l : Line} (member : l ∈ (compileAt file source).lines) :
    l.text.Steady := by
  have listing : (compileAt file source).listing.Steady := (Token.visible_listing _).steady
  unfold Report.lines at member
  simp only [List.mem_append, List.mem_singleton] at member
  rcases member with ((lexer | rfl) | parser) | last
  · exact steady_of_mem_stageLines lexer
  · exact listing
  · exact steady_of_mem_stageLines parser
  · split at last
    · rw [List.mem_singleton.mp last]
      exact steady_outcomeLine
    next fatal => exact steady_of_mem_stageLines last

end Lines

/-! ## What is printed -/

theorem splitOn_lines {texts : List Text} (unbroken : ∀ t ∈ texts, Text.newline ∉ t) :
    (texts.flatMap fun t => t ++ [Text.newline]).splitOn Text.newline = texts ++ [[]] := by
  have joined : ∀ texts : List Text,
      (texts.flatMap fun t => t ++ [Text.newline]) = [Text.newline].intercalate (texts ++ [[]]) := by
    intro texts
    induction texts with
    | nil => rfl
    | cons t more ih =>
      obtain ⟨u, rest, shape⟩ := List.exists_cons_of_ne_nil
        (List.append_ne_nil_of_right_ne_nil more (List.cons_ne_nil [] []))
      rw [List.flatMap_cons, ih, List.cons_append, shape, List.intercalate_cons_cons]
  rw [joined]
  refine List.splitOn_intercalate Text.newline ?_ (by simp)
  exact List.forall_mem_append.mpr ⟨unbroken, by simp⟩

theorem unpainted_lines {lines : List Line} (quiet : ∀ l ∈ lines, l.text.Quiet) :
    unpainted (lines.flatMap fun l => l.painted ++ [Text.newline]) =
      lines.flatMap fun l => l.text ++ [Text.newline] := by
  induction lines with
  | nil => exact unpainted_nil
  | cons l more ih =>
    obtain ⟨first, later⟩ := List.forall_mem_cons.mp quiet
    have newline : Text.Quiet [Text.newline] := quiet_of_not_mem (by decide)
    have paint := fun rest => unpainted_paint l.kind rest
    rw [List.flatMap_cons, List.flatMap_cons, Line.painted]
    simp only [List.append_assoc]
    rw [(paint _).1, unpainted_quiet first, (paint _).2, unpainted_quiet newline, ih later]

/-- What printing the lines of a report writes. -/
def Report.printed (r : Report) : Text := (writeLines {} r).2.output

/-- What encoding a report as text writes. -/
def Report.encoded (colored : Bool) (r : Report) : Text :=
  (Encoder.encode { format := .text, colored := colored } r {}).2.2.output

theorem Report.printed_eq (r : Report) :
    r.printed = r.lines.flatMap fun l => l.text ++ [Text.newline] := by
  have output := Sink.output_writeAll (s := {}) rfl r.lineChunks
  rw [printed, writeLines, output, lineChunks, ← List.flatMap_def]
  rfl

theorem Report.encoded_eq (colored : Bool) (r : Report) : r.encoded colored = r.linesText colored := by
  have output := Sink.output_writeAll (s := {}) rfl [r.linesText colored]
  simp only [encoded, Encoder.encode, Encoder.chunks, Encoder.render, output]
  simp [Sink.output]

/-- For every source: writing succeeds, no line holds a newline, the lines are
what stands between the newlines of what is printed, the encoder writes the
same bytes, and the painted form without its control sequences is that too. -/
theorem compileAt_rendered (file source : Text) :
    (writeLines {} (compileAt file source)).1 = true ∧
    (∀ l ∈ (compileAt file source).lines, Text.newline ∉ l.text) ∧
    (compileAt file source).printed.splitOn Text.newline =
      (compileAt file source).lines.map Line.text ++ [[]] ∧
    (compileAt file source).encoded false = (compileAt file source).printed ∧
    unpainted ((compileAt file source).encoded true) = (compileAt file source).encoded false := by
  have steady : ∀ l ∈ (compileAt file source).lines, l.text.Steady :=
    fun _ member => steady_of_mem_lines member
  have header : (compileAt file source).header = [] := rfl
  have unbroken : ∀ t ∈ (compileAt file source).lines.map Line.text, Text.newline ∉ t := by
    intro t member
    obtain ⟨l, found, rfl⟩ := List.mem_map.mp member
    exact (steady l found).unbroken
  refine ⟨(Sink.writeAll_open rfl _).1, fun l member => (steady l member).unbroken, ?_, ?_, ?_⟩
  · rw [Report.printed_eq, ← splitOn_lines unbroken, List.flatMap_map]
  · rw [Report.encoded_eq, Report.linesText, header, Report.printed_eq]
    rfl
  · rw [Report.encoded_eq, Report.encoded_eq, Report.linesText, Report.linesText, header]
    exact unpainted_lines fun l member => (steady l member).quiet

end Reckoner
