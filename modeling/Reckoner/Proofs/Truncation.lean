import Mathlib.Data.List.Basic
import Reckoner.Command.Execution

/-! # Output that a failed write cuts off

A sink whose write number `k` fails has taken the first `k` chunks of those that
were meant for it, and no write came after the failed one (`Sink.Cut`).  A single
write keeps this (`Cut.write`), and so does every sequence of writes that ends at
the failure: the lines of a report, the reports of a command and the sources of a
listing. -/
set_option autoImplicit false
namespace Reckoner

/-- The state of a sink whose `k`th write fails, where nobody writes on behind the failure. -/
structure Sink.Cut (k : Nat) (meant : List Text) (s : Sink) : Prop where
  failAt : s.failAt = some k
  chunks : s.chunks.toList = meant.take k
  calls : s.calls = min (k + 1) meant.length

section Writes
variable {k : Nat} {meant : List Text} {s : Sink}

namespace Sink

theorem cut_start (k : Nat) : Cut k [] { failAt := some k } := by
  refine ⟨rfl, ?_, ?_⟩
  · simp
  · simp

/-- Behind the failure nothing counts that was meant to be written. -/
theorem Cut.append (cut : s.Cut k meant) (failed : k < meant.length) (more : List Text) :
    s.Cut k (meant ++ more) := by
  refine ⟨cut.failAt, ?_, ?_⟩
  · rw [cut.chunks, List.take_append_of_le_length (by omega)]
  · rw [cut.calls, List.length_append]
    omega

theorem Cut.write (cut : s.Cut k meant) (intact : meant.length ≤ k) (c : Text) :
    (s.write c).1 = decide (meant.length < k) ∧ (s.write c).2.Cut k (meant ++ [c]) := by
  have count : s.calls = meant.length := by
    rw [cut.calls]
    omega
  have taken : s.chunks.toList = meant := by
    rw [cut.chunks, List.take_of_length_le intact]
  have longer : (meant ++ [c]).length = meant.length + 1 := by simp
  have counted : s.calls + 1 = min (k + 1) (meant ++ [c]).length := by omega
  by_cases room : meant.length < k
  · have writes : s.write c =
        (true, { s with calls := s.calls + 1, chunks := s.chunks.push c }) := by
      rw [Sink.write, cut.failAt, count, if_neg (by simp; omega)]
    rw [writes, decide_eq_true room]
    refine ⟨rfl, cut.failAt, ?_, counted⟩
    rw [Array.toList_push, taken, List.take_of_length_le (by omega)]
  · have now : k = meant.length := by omega
    have fails : s.write c = (false, { s with calls := s.calls + 1 }) := by
      rw [Sink.write, cut.failAt, count, if_pos (by rw [now])]
    rw [fails, decide_eq_false room]
    refine ⟨rfl, cut.failAt, ?_, counted⟩
    rw [cut.chunks, List.take_append_of_le_length (by omega)]

theorem Cut.writeAll (cut : s.Cut k meant) (intact : meant.length ≤ k) (chunks : List Text) :
    (s.writeAll chunks).1 = decide ((meant ++ chunks).length ≤ k) ∧
      (s.writeAll chunks).2.Cut k (meant ++ chunks) := by
  induction chunks generalizing s meant with
  | nil =>
    rw [List.append_nil]
    exact ⟨by simp [Sink.writeAll, intact], cut⟩
  | cons c rest ih =>
    obtain ⟨written, after⟩ := cut.write intact c
    have longer : (meant ++ [c]).length = meant.length + 1 := by simp
    rw [Sink.writeAll, List.append_cons]
    generalize s.write c = r at written after
    obtain ⟨_, s'⟩ := r
    subst written
    by_cases room : meant.length < k
    · rw [decide_eq_true room]
      exact ih after (by omega)
    · rw [decide_eq_false room]
      refine ⟨(decide_eq_false ?_).symm, after.append (by omega) rest⟩
      rw [List.length_append]
      omega

end Sink

/-! ## Reports and sources -/

/-- The writes that encode a report: its lines in one text, behind the name of the file
if there is one; or the document and a line end. -/
def Report.pieces (format : Format) (colored : Bool) (r : Report) : List Text :=
  match format with
  | .text => [(if r.file = [] then [] else utf8 "== " ++ r.file ++ [10]) ++
      r.lines.flatMap fun l => (if colored then l.painted else l.text) ++ [10]]
  | .json => [r.document.indented 0, [10]]

theorem Encoder.chunks_eq (e : Encoder) : e.chunks = Report.pieces e.format e.colored := by
  funext r
  unfold chunks render Report.pieces Report.linesText Report.header
  cases e.format with
  | text => simp only [List.isEmpty_iff]
  | json => rfl

theorem Encoder.cut_encode (e : Encoder) (cut : s.Cut k meant) (intact : meant.length ≤ k)
    (r : Report) :
    (e.encode r s).1 = decide ((meant ++ e.chunks r).length ≤ k) ∧
      (e.encode r s).2.2.Cut k (meant ++ e.chunks r) := cut.writeAll intact (e.chunks r)

theorem Command.cut_encodeEach {α : Type} (report : α → Report) (e : Encoder) (cut : s.Cut k meant)
    (intact : meant.length ≤ k) (items : List α) :
    let all := meant ++ items.flatMap fun a => e.chunks (report a)
    ((encodeEach report e s items).1 = none ↔ all.length ≤ k) ∧
      (encodeEach report e s items).2.Cut k all := by
  induction items generalizing e s meant with
  | nil =>
    simp only [List.flatMap_nil, List.append_nil]
    exact ⟨by simp [encodeEach, intact], cut⟩
  | cons a rest ih =>
    intro all
    -- What an encoder writes does not depend on the reports that it was given before.
    have split : all = meant ++ e.chunks (report a) ++ rest.flatMap fun b =>
        Encoder.chunks { e with last := some (report a) } (report b) := by
      simp only [all, List.flatMap_cons, List.append_assoc]
      rfl
    have shorter : (meant ++ e.chunks (report a)).length ≤ all.length := by simp [split]
    obtain ⟨written, after⟩ := e.cut_encode cut intact (report a)
    rw [encodeEach]
    by_cases room : (meant ++ e.chunks (report a)).length ≤ k
    · have encodes : e.encode (report a) s = (true, { e with last := some (report a) },
          (e.encode (report a) s).2.2) := Prod.ext (written.trans (decide_eq_true room)) rfl
      rw [encodes, split]
      exact ih { e with last := some (report a) } after room
    · have fails : e.encode (report a) s = (false, { e with last := some (report a) },
          (e.encode (report a) s).2.2) := Prod.ext (written.trans (decide_eq_false room)) rfl
      rw [fails]
      refine ⟨?_, ?_⟩
      · simp only [reduceCtorEq, false_iff]
        omega
      · rw [split]
        exact after.append (by omega) _

/-- A failed write is the complaint, whether all reports have a value or not. -/
theorem Sink.Cut.encodeReports (cut : s.Cut k []) (e : Encoder) (reports : List Report) :
    let chunks := reports.flatMap (Encoder.chunks e)
    let (ending, after) := Command.encodeReports e s reports
    after.chunks.toList = chunks.take k ∧ after.calls = min (k + 1) chunks.length ∧
    (ending = .failed (.unwritten none) ↔ k < chunks.length) ∧
    (chunks.length ≤ k → ending = if reports.all Report.ok then .done else .failed .notOk) := by
  intro chunks
  have encoded := Command.cut_encodeEach id e cut (Nat.zero_le k) reports
  have all : [] ++ reports.flatMap (fun r => e.chunks (id r)) = chunks := rfl
  simp only [all] at encoded
  obtain ⟨result, after⟩ := encoded
  unfold Command.encodeReports
  generalize Command.encodeEach id e s reports = r at result after
  obtain ⟨unwritten, s'⟩ := r
  cases unwritten with
  | some r =>
    have lost : k < chunks.length := by simpa using result
    refine ⟨after.chunks, after.calls, iff_of_true rfl lost, fun fits => ?_⟩
    omega
  | none =>
    have fits : chunks.length ≤ k := result.mp rfl
    have other : (if reports.all Report.ok then Command.Ending.done else .failed .notOk) ≠
        .failed (.unwritten none) := by
      split <;> simp
    refine ⟨after.chunks, after.calls, iff_of_false other ?_, fun _ => rfl⟩
    omega

theorem cut_writeSources (cut : s.Cut k meant) (intact : meant.length ≤ k) (sources : List Text) :
    let all := meant ++ sources.flatMap fun source => (compile source).lineChunks
    (writeSources s sources).1 = decide (all.length ≤ k) ∧
      (writeSources s sources).2.1 <+: sources.map compile ∧
      ((writeSources s sources).1 = true → (writeSources s sources).2.1 = sources.map compile) ∧
      (writeSources s sources).2.2.Cut k all := by
  induction sources generalizing s meant with
  | nil =>
    simp only [List.flatMap_nil, List.append_nil]
    exact ⟨by simp [writeSources, intact], List.nil_prefix, fun _ => rfl, cut⟩
  | cons source rest ih =>
    intro all
    have split : all = meant ++ (compile source).lineChunks ++
        rest.flatMap fun source => (compile source).lineChunks := by
      simp only [all, List.flatMap_cons, List.append_assoc]
    have shorter : (meant ++ (compile source).lineChunks).length ≤ all.length := by simp [split]
    obtain ⟨written, after⟩ := cut.writeAll intact (compile source).lineChunks
    have writes : writeSource s [] source =
        (decide ((meant ++ (compile source).lineChunks).length ≤ k), compile source,
          (s.writeAll (compile source).lineChunks).2) := by
      rw [← written]
      rfl
    rw [writeSources, writes]
    by_cases room : (meant ++ (compile source).lineChunks).length ≤ k
    · obtain ⟨result, begun, complete, later⟩ := ih after room
      rw [decide_eq_true room, split]
      refine ⟨result, ?_, ?_, later⟩
      · rw [List.map_cons]
        exact List.cons_prefix_cons.mpr ⟨rfl, begun⟩
      · intro all
        exact congrArg (compile source :: ·) (complete all)
    · rw [decide_eq_false room]
      refine ⟨(decide_eq_false ?_).symm, ?_, ?_, ?_⟩
      · omega
      · exact List.cons_prefix_cons.mpr ⟨rfl, List.nil_prefix⟩
      · simp
      · rw [split]
        exact after.append (by omega) _

end Writes

/-! ## Whole runs -/

/-- On a sink whose write number `k` fails, for every `k`.  A source has its
first `k` lines written, each with its end, its report is complete, and an error says exactly that
it has more lines; sources one after the other have the first `k` of all their
lines written.  Reports have the first `k` of their chunks written, and a write
that failed is what the command complains about, whatever their values.  In
every case no write comes after the one that failed. -/
theorem output_cut (k : Nat) :
    let sink : Sink := { failAt := some k }
    (∀ file source,
      let lines := (compileAt file source).lines.map fun l => l.text ++ [10]
      let (written, report, after) := writeSource sink file source
      report = compileAt file source ∧
      after.chunks.toList = lines.take k ∧ after.calls = min (k + 1) lines.length ∧
      (written = false ↔ k < lines.length)) ∧
    (∀ sources,
      let lines := sources.flatMap fun source =>
        (compile source).lines.map fun l => l.text ++ [10]
      let (written, reports, after) := writeSources sink sources
      reports <+: sources.map compile ∧ (written = true → reports = sources.map compile) ∧
      after.chunks.toList = lines.take k ∧ after.calls = min (k + 1) lines.length ∧
      (written = false ↔ k < lines.length)) ∧
    (∀ (e : Encoder) reports,
      let chunks := reports.flatMap (Report.pieces e.format e.colored)
      let (ending, after) := Command.encodeReports e sink reports
      after.chunks.toList = chunks.take k ∧ after.calls = min (k + 1) chunks.length ∧
      (ending = .failed (.unwritten none) ↔ k < chunks.length) ∧
      (chunks.length ≤ k → ending = if reports.all Report.ok then .done else .failed .notOk)) ∧
    ∀ disk o sources format reports, Format.ofName? o.format = some format →
      Command.runReports disk o sources = .ok reports →
      Command.runSources disk o sink sources =
        Command.encodeReports { format := format, colored := o.colored } sink reports := by
  intro sink
  have start : sink.Cut k [] := Sink.cut_start k
  have failed : ∀ {written : Bool} {n : Nat}, written = decide (n ≤ k) →
      (written = false ↔ k < n) := by
    rintro _ n rfl
    rw [decide_eq_false_iff_not, Nat.not_le]
  refine ⟨?_, ?_, ?_, ?_⟩
  · intro file source
    obtain ⟨written, after⟩ := start.writeAll (Nat.zero_le k) (compileAt file source).lineChunks
    rw [List.nil_append] at written after
    exact ⟨rfl, after.chunks, after.calls, failed written⟩
  · intro sources
    obtain ⟨written, begun, complete, after⟩ := cut_writeSources start (Nat.zero_le k) sources
    rw [List.nil_append] at written after
    exact ⟨begun, complete, after.chunks, after.calls, failed written⟩
  · intro e reports
    rw [← e.chunks_eq]
    exact start.encodeReports e reports
  · intro disk o sources format reports known given
    rw [Command.runSources, known]
    simp only [given]

end Reckoner
