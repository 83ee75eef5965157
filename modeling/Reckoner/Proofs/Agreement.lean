import Mathlib.Tactic.TFAE
import Reckoner.Command.Execution
import Reckoner.Editor.Position
import Reckoner.Web.Server
import Reckoner.Proofs.Escaping
import Reckoner.Proofs.Poison
import Reckoner.Proofs.Tokenization

/-! # All front ends agree on success

The lines of a report, its document, the web server, the editor and the command
line each tell from other parts of a report whether there is a value.  They
agree because a compiled report is coherent: it has a fatal diagnostic exactly
if it failed, a failed one has no value, and one without value has something
other than illegal runes to say (`compileAt_coherent`). -/
set_option autoImplicit false
namespace Reckoner

/-! ## Coherent reports -/

structure Report.Coherent (r : Report) : Prop where
  fatal : (∃ d ∈ r.diagnostics, d.stage = .fatal) ↔ r.failure ≠ none
  staged : ∀ d ∈ r.diagnostics, d.stage = .lexer ∨ d.stage = .parser ∨ d.stage = .fatal
  failed : r.failure ≠ none → r.value = .lost
  noted : r.value = .lost → ∃ d ∈ r.diagnostics, d.stage ≠ .lexer

theorem stage_scan {file source : Text} {d : Diagnostic}
    (member : d ∈ (scan file source).diagnostics) : d.stage = .lexer := by
  rw [scan_eq] at member
  obtain ⟨⟨x, span⟩, _, note⟩ := List.mem_filterMap.mp member
  cases x <;> cases note
  rfl

/-- Behind diagnostics of the scanner, those of one evaluation make a coherent
report. -/
theorem Evaluator.coherent (e : Evaluator) {r : Report} {scanned : List Diagnostic}
    (lexer : ∀ d ∈ scanned, d.stage = .lexer) (diagnostics : r.diagnostics = scanned ++ e.added)
    (value : r.value = e.next.1.value) (failure : r.failure = e.next.1.abort.map .aborted) :
    r.Coherent := by
  have failed : r.failure ≠ none ↔ ∃ a, e.next.1.abort = some a := by
    simp [failure, Option.ne_none_iff_exists']
  have later : ∀ d ∈ e.added, d ∈ r.diagnostics := by
    intro d member
    rw [diagnostics]
    exact List.mem_append_right scanned member
  have staged : ∀ d ∈ e.added,
      d.stage = .parser ∨ d.stage = .fatal ∧ ∃ a, e.next.1.abort = some a := by
    intro d member
    rcases mem_added member with ⟨parser, _⟩ | ⟨a, aborts, rfl⟩
    · exact Or.inl parser
    · exact Or.inr ⟨rfl, a, aborts⟩
  constructor
  case fatal =>
    rw [failed, diagnostics]
    constructor
    · rintro ⟨d, member, fatal⟩
      rcases List.mem_append.mp member with first | second
      · simp [lexer d first] at fatal
      · rcases staged d second with parser | ⟨_, aborts⟩
        · simp [parser] at fatal
        · exact aborts
    · rintro ⟨a, aborts⟩
      exact ⟨_, List.mem_append_right scanned (next_aborts aborts).2.2, rfl⟩
  case staged =>
    intro d member
    rw [diagnostics] at member
    rcases List.mem_append.mp member with first | second
    · exact Or.inl (lexer d first)
    · exact Or.inr ((staged d second).imp_right And.left)
  case failed =>
    intro failure
    obtain ⟨a, aborts⟩ := failed.mp failure
    rw [value]
    exact (next_aborts aborts).1
  case noted =>
    intro lost
    have added : ∃ d, d ∈ e.added := by
      cases aborts : e.next.1.abort with
      | none =>
        rw [value] at lost
        obtain ⟨d, member, _⟩ := (lost_iff_noted aborts).mp lost
        rw [(next_finished aborts).2.2]
        exact ⟨d, (Descent.Parsed.prefix_ended _).subset member⟩
      | some a => exact ⟨_, (next_aborts aborts).2.2⟩
    obtain ⟨d, member⟩ := added
    refine ⟨d, later d member, ?_⟩
    rcases staged d member with parser | ⟨fatal, _⟩
    · simp [parser]
    · simp [fatal]

theorem compileAt_coherent (file source : Text) : (compileAt file source).Coherent :=
  (Evaluator.start file (scan file source).tokens).coherent
    (fun _ member => stage_scan member) rfl rfl rfl

namespace Report

/-! ## The last line -/

section Lines
variable {r : Report}

theorem ok_iff : r.ok = true ↔ r.failure = none ∧ r.value ≠ .lost := by
  unfold ok
  cases r.value <;> simp [Value.isNumber]

theorem getLast?_lines_fatal (fatal : ∃ d ∈ r.diagnostics, d.stage = .fatal) :
    ∃ d : Diagnostic, d.stage = .fatal ∧ r.lines.getLast? = some ⟨.fatal, d.text⟩ := by
  have nonempty : r.diagnostics.filter (fun d => d.stage = .fatal) ≠ [] := by
    obtain ⟨d, member, stage⟩ := fatal
    exact List.ne_nil_of_mem (List.mem_filter.mpr ⟨member, decide_eq_true stage⟩)
  obtain ⟨init, d, split⟩ := List.eq_nil_or_concat _ |>.resolve_left nonempty
  have stage : d.stage = .fatal := by
    have member : d ∈ r.diagnostics.filter (fun d => d.stage = .fatal) := by simp [split]
    exact of_decide_eq_true (List.mem_filter.mp member).2
  refine ⟨d, stage, ?_⟩
  have lines : r.stageLines .fatal .fatal =
      init.map (fun d => ⟨.fatal, d.text⟩) ++ [⟨.fatal, d.text⟩] := by
    rw [stageLines, split, List.concat_eq_append, List.map_append]
    rfl
  unfold Report.lines
  split
  next absent => simp [lines] at absent
  next => rw [lines, ← List.append_assoc, List.getLast?_concat]

theorem getLast?_lines_outcome (calm : ¬ ∃ d ∈ r.diagnostics, d.stage = .fatal) :
    r.lines.getLast? = some r.outcomeLine := by
  have lines : r.stageLines .fatal .fatal = [] := by
    rw [stageLines, List.map_eq_nil_iff, List.filter_eq_nil_iff]
    intro d member fatal
    exact calm ⟨d, member, of_decide_eq_true fatal⟩
  unfold Report.lines
  rw [lines, List.getLast?_concat]

/-- The three ways in which a coherent report ends. -/
theorem Coherent.ending (coherent : r.Coherent) :
    (r.ok = true ∧
      r.lines.getLast? = some ⟨.success, utf8 "Compilation successful: " ++ r.value.text⟩) ∨
    (r.ok = false ∧ r.failure ≠ none ∧
      ∃ d : Diagnostic, d.stage = .fatal ∧ r.lines.getLast? = some ⟨.fatal, d.text⟩) ∨
    (r.ok = false ∧ r.failure = none ∧ r.lines.getLast? =
      some ⟨.failure, utf8 "Compilation failed: no value after error recovery"⟩) := by
  by_cases failed : r.failure = none
  · have quiet : ¬ ∃ d ∈ r.diagnostics, d.stage = .fatal := fun fatal =>
      coherent.fatal.mp fatal failed
    rw [getLast?_lines_outcome quiet]
    cases value : r.value with
    | lost => exact Or.inr (Or.inr (by simp [ok, value, failed, outcomeLine, Value.isNumber]))
    | number q => exact Or.inl (by simp [ok, value, failed, outcomeLine, Value.isNumber])
  · have lost := coherent.failed failed
    refine Or.inr (Or.inl ⟨?_, failed, getLast?_lines_fatal (coherent.fatal.mpr failed)⟩)
    simp [ok, lost, Value.isNumber]

theorem Coherent.success_line (coherent : r.Coherent) :
    (∃ l ∈ r.lines.getLast?, l.kind = .success) ↔ r.ok = true := by
  rcases coherent.ending with ⟨ok, last⟩ | ⟨ok, _, d, _, last⟩ | ⟨ok, _, last⟩
  · simp [ok, last]
  · simp [ok, last]
  · simp [ok, last]

theorem Coherent.success_text (coherent : r.Coherent) :
    r.lines.getLast? = some ⟨.success, utf8 "Compilation successful: " ++ r.value.text⟩ ↔
      r.ok = true := by
  rcases coherent.ending with ⟨ok, last⟩ | ⟨ok, _, d, _, last⟩ | ⟨ok, _, last⟩
  · simp [ok, last]
  · simp [ok, last]
  · simp [ok, last]

theorem Coherent.fatal_line (coherent : r.Coherent) (failed : r.failure ≠ none) :
    ∃ l ∈ r.lines.getLast?, l.kind = .fatal := by
  rcases coherent.ending with ⟨ok, _⟩ | ⟨_, _, d, _, last⟩ | ⟨_, finishes, _⟩
  · exact absurd (ok_iff.mp ok).1 failed
  · exact ⟨_, last, rfl⟩
  · exact absurd finishes failed

theorem Coherent.failure_line (coherent : r.Coherent) (finishes : r.failure = none)
    (bad : r.ok = false) : ∃ l ∈ r.lines.getLast?, l.kind = .failure := by
  rcases coherent.ending with ⟨ok, _⟩ | ⟨_, failed, _⟩ | ⟨_, _, last⟩
  · simp [ok] at bad
  · exact absurd finishes failed
  · exact ⟨_, last, rfl⟩

theorem Coherent.hover (coherent : r.Coherent) :
    utf8 "Compilation successful: " <+: Editor.hoverText r ↔ r.ok = true := by
  unfold Editor.hoverText
  rcases coherent.ending with ⟨ok, last⟩ | ⟨ok, _, d, fatal, last⟩ | ⟨ok, _, last⟩
  · simp [ok, last]
  · have heading : utf8 "Parsing failed: " <+: d.text := by
      rw [Diagnostic.text, fatal]
      exact List.prefix_append _ _
    -- Of two prefixes of one text the shorter begins the longer: these two differ.
    have other : ¬ utf8 "Compilation successful: " <+: d.text := by
      intro success
      rcases List.prefix_or_prefix_of_prefix success heading with first | second
      · exact absurd first (by decide)
      · exact absurd second (by decide)
    simp [ok, last, other]
  · have other : ¬ utf8 "Compilation successful: " <+:
        utf8 "Compilation failed: no value after error recovery" := by decide
    simp [ok, last, other]

end Lines

/-! ## The editor -/

theorem Coherent.warnings {r : Report} (coherent : r.Coherent) :
    (∀ p ∈ r.diagnostics.zip (Editor.diagnosticsOf r), p.1.stage ≠ .lexer →
      p.2.severity = .warning) ↔ r.ok = true := by
  have pairs : ∀ p, p ∈ r.diagnostics.zip (Editor.diagnosticsOf r) ↔ ∃ d ∈ r.diagnostics,
      (d, ⟨Editor.rangeOf d.span, Editor.severityOf r d, d.text⟩) = p := by
    intro p
    rw [Editor.diagnosticsOf, ← List.map_prod_left_eq_zip, List.mem_map]
  constructor
  -- A lost value has left a note, and then that note is shown as an error.
  · intro warned
    by_contra bad
    have lost : r.value = .lost := by
      by_contra value
      exact bad (ok_iff.mpr ⟨by_contra fun failed => value (coherent.failed failed), value⟩)
    obtain ⟨d, member, stage⟩ := coherent.noted lost
    have severity := warned _ ((pairs _).mpr ⟨d, member, rfl⟩) stage
    simp [Editor.severityOf, lost, Value.isNumber] at severity
  · intro good p inside stage
    obtain ⟨finishes, value⟩ := ok_iff.mp good
    obtain ⟨d, member, rfl⟩ := (pairs p).mp inside
    have parser : d.stage = .parser := by
      rcases coherent.staged d member with lexer | parser | fatal
      · exact absurd lexer stage
      · exact parser
      · exact absurd finishes (coherent.fatal.mp ⟨d, member, fatal⟩)
    cases found : r.value with
    | lost => exact absurd found value
    | number q => simp [Editor.severityOf, parser, found, Value.isNumber]

end Report

/-! ## The document -/

/-- The first member of an object with a name. -/
def Json.member? (name : String) : Json → Option Json
  | .object members => members.lookup (utf8 name)
  | _ => none

section Documents
variable {name other : String}

theorem lookup_nonEmpty (different : (utf8 name == utf8 other) = false) (t : Text) :
    (nonEmpty other t).lookup (utf8 name) = none := by
  unfold nonEmpty
  split
  · rfl
  · simp [List.lookup_cons, different]

theorem lookup_value_ok (v : Value) : v.document.lookup (utf8 "ok") = none := by
  have value : (utf8 "ok" == utf8 "value") = false := by decide
  have display : (utf8 "ok" == utf8 "display") = false := by decide
  unfold Value.document
  split
  · simp only
    split <;> simp [List.lookup_cons, value, display]
  · rfl

theorem lookup_value_display (v : Value) : v.document.lookup (utf8 "display") =
    if v.isNumber then some (.string v.text) else none := by
  have value : (utf8 "display" == utf8 "value") = false := by decide
  unfold Value.document
  split
  · simp only
    split <;> simp [List.lookup_cons, value]
  · rfl

/-- A member that is none of the others is in the value's part or is `ok`. -/
theorem member?_document (r : Report)
    (different : ∀ other ∈ ["file", "source", "tokens", "diagnostics", "error"],
      (utf8 name == utf8 other) = false) :
    r.document.member? name = (r.value.document.lookup (utf8 name)).or
      ([(utf8 "ok", Json.bool r.ok)].lookup (utf8 name)) := by
  simp only [List.forall_mem_cons] at different
  obtain ⟨file, source, tokens, diagnostics, error, _⟩ := different
  have notes : (if r.diagnostics.isEmpty then []
      else [(utf8 "diagnostics", Json.array (r.diagnostics.map Diagnostic.document))]).lookup
        (utf8 name) = none := by
    split
    · rfl
    · simp [List.lookup_cons, diagnostics]
  cases failure : r.failure with
  | none =>
    simp only [Json.member?, Report.document, failure, List.lookup_append, lookup_nonEmpty file,
      notes, List.lookup_cons, List.lookup_nil, source, tokens, Option.or_none, Option.none_or]
  | some f =>
    simp only [Json.member?, Report.document, failure, List.lookup_append, lookup_nonEmpty file,
      lookup_nonEmpty error, notes, List.lookup_cons, List.lookup_nil, source, tokens,
      Option.or_none, Option.none_or]

end Documents

theorem Report.document_success (r : Report) :
    (r.document.member? "ok" = some (.bool true) ∧
      ∃ text, r.document.member? "display" = some (.string text)) ↔ r.ok = true := by
  have ok : r.document.member? "ok" = some (.bool r.ok) := by
    rw [member?_document r (by decide), lookup_value_ok]
    simp
  have display : r.ok = true → r.document.member? "display" = some (.string r.value.text) := by
    intro good
    have number : r.value.isNumber = true := (Bool.and_eq_true_iff.mp good).2
    rw [member?_document r (by decide), lookup_value_display, if_pos number]
    rfl
  constructor
  · rintro ⟨good, _⟩
    rw [ok] at good
    simpa using good
  · intro good
    exact ⟨by rw [ok, good], _, display good⟩

/-! ## The web server -/

namespace Web

/-- A POST to `/eval` that brings the source, as JSON or in a form. -/
def Request.Delivers (r : Request) (source : Text) : Prop :=
  r.method = Request.post ∧ r.target.path = utf8 "/eval" ∧
    (if r.contentType = jsonType then jsonSource r else formSource r) = .ok source

theorem respond_delivered {r : Request} {source : Text} (delivers : r.Delivers source) :
    respond r = .evaluated (compile source) := by
  obtain ⟨method, path, content⟩ := delivers
  have written : (utf8 "/eval").all Target.isWrittenByte = true := by decide
  have clean : (Target.cleanPath (utf8 "/eval") != utf8 "/eval") = false := by decide
  have evaluation : isEvaluationPath (utf8 "/eval") = true := by decide
  simp only [respond, Target.escapedPath, path, written, if_true, clean, Bool.and_false,
    Bool.false_eq_true, if_false, route, method, decide_true, evaluation, Bool.and_self,
    answerEvaluation]
  rw [content]

theorem status_delivered {r : Request} {source : Text} (delivers : r.Delivers source) :
    (respond r).status = if (compile source).ok then 200 else 422 := by
  rw [respond_delivered delivers]
  rfl

/-- A POST with the source in its query. -/
def Request.asking (path source : Text) : Request :=
  { method := Request.post, target := ⟨path, Form.written (utf8 sourceName) source⟩ }

theorem contentType_asking (path source : Text) : (Request.asking path source).contentType = [] :=
  rfl

theorem formSource_asking (path source : Text) :
    formSource (Request.asking path source) = .ok source := by
  have query : (Request.asking path source).target.query = Form.written (utf8 sourceName) source :=
    rfl
  simp [formSource, bodyFields, contentType_asking, query, Form.fields?_written, Form.first]

/-- Every source can be sent, however long it is: the query has no limit. -/
theorem exists_delivers (source : Text) : ∃ r : Request, r.Delivers source := by
  have other : ([] : Text) ≠ jsonType := by decide
  refine ⟨.asking (utf8 "/eval") source, rfl, rfl, ?_⟩
  rw [contentType_asking, if_neg other, formSource_asking]

theorem evaluation_succeeds (source : Text) :
    (∀ r : Request, r.Delivers source → (respond r).status = 200) ↔
      (compile source).ok = true := by
  constructor
  · intro all
    obtain ⟨r, delivers⟩ := exists_delivers source
    have status := all r delivers
    rw [status_delivered delivers] at status
    simpa using status
  · intro good r delivers
    rw [status_delivered delivers, if_pos good]

end Web

/-! ## The command line -/

section Sinks
variable {s : Sink}

theorem Sink.write_open (unfailing : s.failAt = none) (c : Text) :
    s.write c = (true, { s with calls := s.calls + 1, chunks := s.chunks.push c }) := by
  simp [write, unfailing]

theorem Sink.writeAll_open (unfailing : s.failAt = none) (chunks : List Text) :
    (s.writeAll chunks).1 = true ∧ (s.writeAll chunks).2.failAt = none := by
  induction chunks generalizing s with
  | nil => exact ⟨rfl, unfailing⟩
  | cons c rest ih =>
    rw [writeAll, write_open unfailing]
    exact ih unfailing

theorem Sink.output_writeAll (unfailing : s.failAt = none) (chunks : List Text) :
    (s.writeAll chunks).2.output = s.output ++ chunks.flatten := by
  induction chunks generalizing s with
  | nil => simp [writeAll]
  | cons c rest ih =>
    have later := ih (s := { s with calls := s.calls + 1, chunks := s.chunks.push c }) unfailing
    rw [writeAll, write_open unfailing]
    refine later.trans ?_
    simp [output]

theorem Encoder.encode_open (e : Encoder) (unfailing : s.failAt = none) (r : Report) :
    e.encode r s = (true, { e with last := some r }, (s.writeAll (e.chunks r)).2) := by
  simp [encode, (s.writeAll_open unfailing (e.chunks r)).1]

namespace Command

theorem encodeEach_open {α : Type} (report : α → Report) (e : Encoder)
    (unfailing : s.failAt = none) (items : List α) : (encodeEach report e s items).1 = none := by
  induction items generalizing e s with
  | nil => rfl
  | cons a rest ih =>
    rw [encodeEach, e.encode_open unfailing]
    exact ih _ (s.writeAll_open unfailing _).2

/-- No file is named, and the format is known. -/
def Options.Direct (o : Options) : Prop := o.file = [] ∧ Format.ofName? o.format ≠ none

theorem runSources_direct {disk : Disk} {o : Options} {sources : List Text} (direct : o.Direct)
    (unfailing : s.failAt = none) (nonempty : sources ≠ []) :
    (runSources disk o s sources).1 =
      if ∀ source ∈ sources, (compile source).ok = true then .done else .failed .notOk := by
  obtain ⟨file, known⟩ := direct
  obtain ⟨format, found⟩ := Option.ne_none_iff_exists'.mp known
  have reports : runReports disk o sources = .ok (sources.map compile) := by
    simp [runReports, file, nonempty]
  have encoded :=
    encodeEach_open id { format := format, colored := o.colored } unfailing (sources.map compile)
  rw [runSources, found]
  simp only [reports, encodeReports]
  split
  next a s' fails => simp [fails] at encoded
  next s' _ => simp

theorem runSources_succeeds (source : Text) :
    (∀ (disk : Disk) (o : Options) (s : Sink), o.Direct → s.failAt = none →
      (runSources disk o s [source]).1 = .done) ↔ (compile source).ok = true := by
  constructor
  · intro all
    have direct : ({} : Options).Direct := ⟨rfl, by decide⟩
    have done := all default {} {} direct rfl
    rw [runSources_direct direct rfl (by simp)] at done
    simpa using done
  · intro good disk o s direct unfailing
    rw [runSources_direct direct unfailing (by simp)]
    simp [good]

end Command
end Sinks

/-! ## All of them -/

/-- For every source, what the front ends show agrees on whether it has a
value, and the command line says of several sources whether all have one. -/
theorem compile_success_agrees (source : Text) :
    [(compile source).ok = true,
      ∃ l ∈ (compile source).lines.getLast?, l.kind = .success,
      (compile source).lines.getLast? =
        some ⟨.success, utf8 "Compilation successful: " ++ (compile source).value.text⟩,
      (compile source).document.member? "ok" = some (.bool true) ∧
        ∃ text, (compile source).document.member? "display" = some (.string text),
      ∀ r : Web.Request, r.Delivers source → (Web.respond r).status = 200,
      utf8 "Compilation successful: " <+: Editor.hoverText (compile source),
      ∀ p ∈ (compile source).diagnostics.zip (Editor.diagnosticsOf (compile source)),
        p.1.stage ≠ .lexer → p.2.severity = .warning,
      ∀ (disk : Disk) (o : Command.Options) (s : Sink), o.Direct → s.failAt = none →
        (Command.runSources disk o s [source]).1 = .done].TFAE ∧
    (∃ r : Web.Request, r.Delivers source) ∧
    (∀ r : Web.Request, r.Delivers source → (compile source).ok = false →
      (Web.respond r).status = 422) ∧
    ((compile source).failure ≠ none → ∃ l ∈ (compile source).lines.getLast?, l.kind = .fatal) ∧
    ((compile source).failure = none → (compile source).ok = false →
      ∃ l ∈ (compile source).lines.getLast?, l.kind = .failure) ∧
    ∀ (disk : Disk) (o : Command.Options) (s : Sink), o.Direct → s.failAt = none →
      ∀ sources ≠ [], (Command.runSources disk o s sources).1 =
        if ∀ t ∈ sources, (compile t).ok = true then .done else .failed .notOk := by
  have coherent : (compile source).Coherent := compileAt_coherent [] source
  refine ⟨?_, Web.exists_delivers source, ?_, coherent.fatal_line, coherent.failure_line, ?_⟩
  · tfae_have 2 ↔ 1 := coherent.success_line
    tfae_have 3 ↔ 1 := coherent.success_text
    tfae_have 4 ↔ 1 := (compile source).document_success
    tfae_have 5 ↔ 1 := Web.evaluation_succeeds source
    tfae_have 6 ↔ 1 := coherent.hover
    tfae_have 7 ↔ 1 := coherent.warnings
    tfae_have 8 ↔ 1 := Command.runSources_succeeds source
    tfae_finish
  · intro r delivers bad
    rw [Web.status_delivered delivers, bad]
    rfl
  · intro disk o s direct unfailing sources nonempty
    exact Command.runSources_direct direct unfailing nonempty

/-- Nothing to evaluate is a complaint, although all of nothing has a value. -/
theorem Command.runSources_nothing :
    ¬ ((Command.runSources default {} {} []).1 = .done ↔
      ∀ source ∈ ([] : List Text), (compile source).ok = true) := by
  intro agrees
  have done := agrees.mpr (by simp)
  have failed : (Command.runSources default {} {} []).1 = .failed .nothingGiven := by decide
  rw [failed] at done
  cases done

end Reckoner
