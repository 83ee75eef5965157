import Reckoner.Proofs.Grammar

/-! # Tokens behind a sentence

A sentence is read the same way whatever follows it, unless an operator does:
descent stops in front of the first token that continues nothing, at every level
of nesting it has left (`chain_sentence`).  So what follows a sentence neither
changes its value nor its abort.  It is left where it is, and its first token is
noted (`Evaluator.next_sentence`). -/
set_option autoImplicit false
namespace Reckoner

open Descent

theorem stops_of_other {t : Token} (other : ∀ op : Operator, t.lexeme ≠ .symbol op.symbol)
    (rank : Rank) (rest : List Token) : Stops rank (t :: rest) := by
  intro u head
  cases head
  apply Option.eq_none_iff_forall_ne_some.mpr
  intro op sign
  exact other op (Rank.operator?_eq_some.mp sign).1

theorem chain_sentence {atEnd : Span} {ts rest : List Token} {e : Tree Int Span}
    (sentence : Derives .expression ts e) (stops : ∀ rank, Stops rank rest) :
    chain atEnd .sum (ts ++ rest) = ⟨e.read, rest, []⟩ := by
  have reads : Reads atEnd .expression ts e := reads_of_derives sentence
  rw [reads rest (stops .product), extend_stops atEnd (stops .sum)]

/-- An evaluator in front of a sentence evaluates it, whatever was noted before
and whatever follows. -/
theorem Evaluator.next_sentence (evaluator : Evaluator) {ts : List Token} {t : Token}
    {rest : List Token} {e : Tree Int Span} (sentence : Derives .expression ts e)
    (other : ∀ op : Operator, t.lexeme ≠ .symbol op.symbol)
    (ahead : evaluator.rest = ts ++ t :: rest) :
    match e.fault Int.cast with
    | none => evaluator.next.1 = ⟨.number (e.denote Int.cast), none, t :: rest,
        evaluator.diagnostics.push (.unexpected t)⟩
    | some d => ∃ behind, evaluator.next.1 =
        .aborted ⟨.divisionByZero, d.1⟩ behind evaluator.diagnostics := by
  have follows := evaluator.next_follows
  have read := @chain_sentence evaluator.atEnd ts (t :: rest) e sentence
    fun rank => stops_of_other other rank rest
  have value : e.read.value = _ := Tree.value_number Int.cast e
  rw [ahead, read] at follows
  simp only [Reader.Follows, value] at follows
  cases fault : e.fault Int.cast with
  | none =>
    simp only [fault, Parsed.ended, List.nil_append] at follows
    simpa using follows
  | some d =>
    simp only [fault] at follows
    obtain ⟨behind, notes, begins, aborts⟩ := follows
    rw [List.prefix_nil.mp begins] at aborts
    exact ⟨behind, by simpa using aborts⟩

/-- Tokens behind a sentence, if the first is no operator, change neither its
value nor its abort.  Without an abort the first of them is noted, nothing else
is, and the evaluator stands in front of it; with one, nothing is noted of them. -/
theorem evaluate_leftover (file : Text) {es : List Token} {e : Tree Int Span}
    (sentence : Derives .expression es e) (t : Token) (rest : List Token)
    (other : t.lexeme ≠ .symbol .plus ∧ t.lexeme ≠ .symbol .minus ∧ t.lexeme ≠ .symbol .star ∧
      t.lexeme ≠ .symbol .slash) :
    (evaluate file (es ++ t :: rest)).value = (evaluate file es).value ∧
      (evaluate file (es ++ t :: rest)).abort = (evaluate file es).abort ∧
      ((evaluate file (es ++ t :: rest)).abort = none →
        (evaluate file (es ++ t :: rest)).diagnostics.toList =
          [⟨.parser, utf8 "Unexpected token '" ++ t.quote ++ utf8 "'", t.span⟩] ∧
        (Evaluator.start file (es ++ t :: rest)).next.2.rest = t :: rest) ∧
      ((evaluate file (es ++ t :: rest)).abort ≠ none →
        (evaluate file (es ++ t :: rest)).diagnostics = (evaluate file es).diagnostics) := by
  have unsigned : ∀ op : Operator, t.lexeme ≠ .symbol op.symbol := by
    obtain ⟨plus, minus, star, slash⟩ := other
    intro op
    cases op with
    | add => exact plus
    | sub => exact minus
    | mul => exact star
    | div => exact slash
  have alone := evaluate_derives file sentence
  have followed := (Evaluator.start file (es ++ t :: rest)).next_sentence sentence unsigned rfl
  have first : (Evaluator.start file (es ++ t :: rest)).next.1 = evaluate file (es ++ t :: rest) := rfl
  have behind : (Evaluator.start file (es ++ t :: rest)).next.2.rest =
      (evaluate file (es ++ t :: rest)).rest := rfl
  rw [first] at followed
  rw [behind]
  cases fault : e.fault Int.cast with
  | none =>
    simp only [fault] at alone followed
    rw [alone, followed]
    exact ⟨rfl, rfl, fun _ => ⟨rfl, rfl⟩, fun aborts => absurd rfl aborts⟩
  | some d =>
    simp only [fault] at alone followed
    obtain ⟨_, alone⟩ := alone
    obtain ⟨_, followed⟩ := followed
    rw [alone, followed]
    exact ⟨rfl, rfl, nofun, fun _ => rfl⟩

/-- `(2 - 3) ) + 1`: the second closing parenthesis is left, and all behind it. -/
theorem evaluate_leftover_closing :
    let token : Lexeme → Int → Token := fun l i => ⟨l, ⟨⟨[], i, 1, i + 1⟩, ⟨[], i + 1, 1, i + 2⟩⟩⟩
    let es := [token (.symbol .lparen) 0, token (.number 2) 1, token (.symbol .minus) 2,
      token (.number 3) 3, token (.symbol .rparen) 4]
    let ts := [token (.symbol .plus) 6, token (.number 1) 7]
    (evaluate [] es).value = .number (-1) ∧
      (evaluate [] (es ++ token (.symbol .rparen) 5 :: ts)).value = .number (-1) ∧
      (evaluate [] (es ++ token (.symbol .rparen) 5 :: ts)).diagnostics.toList =
        [⟨.parser, utf8 "Unexpected token ')'", ⟨⟨[], 5, 1, 6⟩, ⟨[], 6, 1, 7⟩⟩⟩] := by
  intro token es ts
  have alone : (evaluate [] es).value = .number (-1) := by decide +kernel
  have finishes : (evaluate [] es).abort = none := by decide
  obtain ⟨e, sentence⟩ := evaluate_clean finishes (by decide)
  obtain ⟨value, abort, noted, _⟩ :=
    evaluate_leftover [] sentence (token (.symbol .rparen) 5) ts (by decide)
  have message : utf8 "Unexpected token '" ++ (token (.symbol .rparen) 5).quote ++ utf8 "'" =
      utf8 "Unexpected token ')'" := by decide
  have diagnostics := (noted (abort.trans finishes)).1
  rw [message] at diagnostics
  exact ⟨alone, value.trans alone, diagnostics⟩

end Reckoner
