import Reckoner.Report
import Reckoner.Proofs.Accounting
import Reckoner.Proofs.Progress
import Reckoner.Proofs.Tokenization

/-! # Diagnostics in the order of the source

Scanning goes through a source once, so its diagnostics and its tokens begin at
growing offsets.  Evaluation goes through the tokens once and blames each of
them at most once (`Outcome.Accounts.along`), so its notes at tokens grow as
well.  What it notes at the end of input comes behind them, and no token has
that empty span. -/
set_option autoImplicit false
namespace Reckoner

theorem increasing_placed {α : Type} {file source : Text} {f : Piece × Span → Option α}
    {span : α → Span} (spanned : ∀ y a, f y = some a → span a = y.2) :
    ((place (.origin file) (pieces source)).filterMap f).Pairwise fun a b =>
      (span a).start.offset < (span b).start.offset := by
  apply List.pairwise_filterMap.mpr
  apply (ordered_place (.origin file) (pieces source)).imp_of_mem
  intro x y first _ before a found b also
  have within := within_of_mem_place first
  rw [spanned x a found, spanned y b also]
  exact Int.lt_of_lt_of_le within.2.1 before

theorem increasing_tokens (file source : Text) :
    (scan file source).tokens.Pairwise fun a b => a.span.start.offset < b.span.start.offset := by
  rw [scan_eq]
  exact increasing_placed fun y t token => span_tokenOf token

theorem increasing_notes (file source : Text) :
    (scan file source).diagnostics.Pairwise fun a b =>
      a.span.start.offset < b.span.start.offset := by
  rw [scan_eq]
  exact increasing_placed fun y d note => span_noteOf note

theorem nonempty_token {file source : Text} {t : Token} (member : t ∈ (scan file source).tokens) :
    t.span.start.offset < t.span.stop.offset := by
  rw [scan_eq] at member
  obtain ⟨y, placed, token⟩ := List.mem_filterMap.mp member
  have within := within_of_mem_place placed
  rw [span_tokenOf token]
  exact within.2.1

/-- Notes along tokens have the spans of some of them, in the same order. -/
theorem spans_of_along {notes : List Diagnostic} {ts : List Token}
    (along : List.SublistForall₂ Diagnostic.Faults notes ts) :
    ∃ blamed, List.Sublist blamed ts ∧ notes.map Diagnostic.span = blamed.map Token.span := by
  obtain ⟨blamed, faults, part⟩ := List.sublistForall₂_iff.mp along
  refine ⟨blamed, part, ?_⟩
  clear along part
  induction faults with
  | nil => rfl
  | cons first _ ih => rw [List.map_cons, List.map_cons, first.span, ih]

theorem increasing_of_along {notes : List Diagnostic} {ts : List Token}
    (along : List.SublistForall₂ Diagnostic.Faults notes ts)
    (increasing : ts.Pairwise fun a b => a.span.start.offset < b.span.start.offset) :
    notes.Pairwise fun a b => a.span.start.offset < b.span.start.offset := by
  obtain ⟨blamed, part, spans⟩ := spans_of_along along
  have ordered : (blamed.map Token.span).Pairwise fun a b => a.start.offset < b.start.offset :=
    List.pairwise_map.mpr (increasing.sublist part)
  rw [← spans] at ordered
  exact (List.pairwise_map (f := Diagnostic.span)).mp ordered

theorem Outcome.Accounts.at_end {atEnd : Span} {seen : Array Diagnostic} {depth : Nat}
    {ts : List Token} {o : Outcome} {notes missing : List Diagnostic} {unclosed : Nat}
    (accounts : o.Accounts atEnd seen depth ts notes missing unclosed) :
    ∀ d ∈ missing ++ List.replicate unclosed (.unclosed atEnd),
      d.stage = .parser ∧ d.span = atEnd := by
  intro d member
  rcases List.mem_append.mp member with first | behind
  · rcases accounts.alone with clean | ⟨found, _, _⟩
    · rw [clean] at first
      cases first
    · rw [found] at first
      rw [List.mem_singleton.mp first]
      exact ⟨rfl, rfl⟩
  · rw [List.eq_of_mem_replicate behind]
    exact ⟨rfl, rfl⟩

/-- Scanner diagnostics with growing offsets; notes at tokens with growing
offsets; notes at the end of input, which no token covers; and perhaps one
fatal diagnostic. -/
structure Report.Sequenced (file : Text) (r : Report)
    (lexical atTokens atEnd fatal : List Diagnostic) : Prop where
  parts : r.diagnostics = lexical ++ (atTokens ++ (atEnd ++ fatal))
  lexical_stage : ∀ d ∈ lexical, d.stage = .lexer
  lexical_increasing : lexical.Pairwise fun a b => a.span.start.offset < b.span.start.offset
  token_stage : ∀ d ∈ atTokens, d.stage = .parser
  token_span : ∀ d ∈ atTokens, ∃ t ∈ r.tokens, d.span = t.span
  token_increasing : atTokens.Pairwise fun a b => a.span.start.offset < b.span.start.offset
  end_stage : ∀ d ∈ atEnd, d.stage = .parser
  end_span : ∃ p, p.EndsInput file r.tokens ∧ ∀ d ∈ atEnd, d.span = ⟨p, p⟩
  end_apart : ∀ d ∈ atEnd, ∀ t ∈ r.tokens, d.span ≠ t.span
  fatal_stage : ∀ d ∈ fatal, d.stage = .fatal
  fatal_once : fatal.length ≤ 1

theorem compileAt_sequenced (file source : Text) : ∃ lexical atTokens atEnd fatal,
    (compileAt file source).Sequenced file lexical atTokens atEnd fatal := by
  obtain ⟨notes, missing, unclosed, accounts⟩ :=
    (Evaluator.start file (scan file source).tokens).next_accounts
  obtain ⟨p, isEnd, spanned⟩ := Evaluator.exists_endOf file (scan file source).tokens
  replace spanned : (Evaluator.start file (scan file source).tokens).atEnd = ⟨p, p⟩ := spanned
  rw [spanned] at accounts
  have ending := accounts.at_end
  refine ⟨(scan file source).diagnostics, notes,
    missing ++ List.replicate unclosed (.unclosed ⟨p, p⟩),
    ((evaluate file (scan file source).tokens).abort.map Abort.diagnostic).toList, ?_⟩
  constructor
  case parts =>
    have whole := congrArg ((scan file source).diagnostics ++ ·) accounts.noted
    simp only [Evaluator.start, List.nil_append] at whole
    rw [List.append_assoc]
    exact whole
  case lexical_stage =>
    intro d member
    rw [scan_eq] at member
    obtain ⟨y, placed, note⟩ := List.mem_filterMap.mp member
    exact (shows_of_mem_place placed note).1
  case lexical_increasing => exact increasing_notes file source
  case token_stage =>
    intro d member
    obtain ⟨t, _, faults⟩ := exists_of_mem_along accounts.along member
    exact faults.stage
  case token_span =>
    intro d member
    obtain ⟨t, inside, faults⟩ := exists_of_mem_along accounts.along member
    exact ⟨t, inside, faults.span⟩
  case token_increasing => exact increasing_of_along accounts.along (increasing_tokens file source)
  case end_stage => exact fun d member => (ending d member).1
  case end_span => exact ⟨p, isEnd, fun d member => (ending d member).2⟩
  case end_apart =>
    intro d member t inside same
    have wide := nonempty_token inside
    rw [← same, (ending d member).2] at wide
    exact Int.lt_irrefl _ wide
  case fatal_stage =>
    intro d member
    obtain ⟨a, _, rfl⟩ := Option.map_eq_some_iff.mp (Option.mem_toList.mp member)
    rfl
  case fatal_once =>
    cases (evaluate file (scan file source).tokens).abort <;> simp

end Reckoner
