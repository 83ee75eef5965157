import Reckoner.Proofs.Grammar
import Reckoner.Proofs.Progress

/-! # Parentheses that the end of input closes

A sentence may lose closing parentheses at its end.  The cut goes through the
last factor of every term and the last term of every expression on its way, so
all groups that it opens up end where the tokens end.  Descent then builds the
tree of the whole sentence and notes each missing parenthesis, from the
innermost outwards (`read_unclosed`). -/
set_option autoImplicit false
namespace Reckoner

open Descent

theorem Derives.begins {n : Nonterminal} {ts : List Token} {e : Tree Int Span}
    (derivation : Derives n ts e) : ∃ t rest, ts = t :: rest ∧ t.lexeme ≠ .symbol .rparen := by
  induction derivation with
  | @number t n lexeme => exact ⟨t, [], rfl, by simp [lexeme]⟩
  | @group opening closing ts e opens closes inner ih =>
    exact ⟨opening, ts ++ [closing], rfl, by simp [opens]⟩
  | factor first ih => exact ih
  | term first ih => exact ih
  | @product ts us left right sign op first lexeme rank next ihFirst ihNext =>
    obtain ⟨t, rest, rfl, other⟩ := ihFirst
    exact ⟨t, rest ++ sign :: us, rfl, other⟩
  | @sum ts us left right sign op first lexeme rank next ihFirst ihNext =>
    obtain ⟨t, rest, rfl, other⟩ := ihFirst
    exact ⟨t, rest ++ sign :: us, rfl, other⟩

/-! ## Cutting off parentheses -/

def Closings (ts : List Token) : Prop := ∀ t ∈ ts, t.lexeme = .symbol .rparen

/-- A cut that takes parentheses only is behind every other token. -/
theorem exists_split (before : List Token) {behind ts closings : List Token} {t : Token}
    (other : t.lexeme ≠ .symbol .rparen) (closes : Closings closings)
    (cut : before ++ t :: behind = ts ++ closings) :
    ∃ more, ts = before ++ t :: more ∧ behind = more ++ closings := by
  have outside : t ∉ closings := fun member => other (closes t member)
  rcases List.append_eq_append_iff.mp cut with ⟨front, whole, rest⟩ | ⟨front, whole, rest⟩
  · cases front with
    | nil =>
      rw [List.nil_append] at rest
      rw [← rest] at outside
      exact absurd (List.mem_cons_self ..) outside
    | cons u more =>
      rw [List.cons_append] at rest
      obtain ⟨rfl, tail⟩ := List.cons.inj rest
      exact ⟨more, whole, tail⟩
  · rw [rest] at outside
    exact absurd (List.mem_append_right front (List.mem_cons_self ..)) outside

section Open
variable (atEnd : Span)

/-- What is read of a tree that lacks so many parentheses. -/
def lacking (e : Tree Int Span) (missing : Nat) : Parsed :=
  ⟨e.read, [], List.replicate missing (.unclosed atEnd)⟩

/-- What descent reads as a nonterminal. -/
def Nonterminal.read : Nonterminal → List Token → Parsed
  | .factor => Descent.factor atEnd
  | .term => chain atEnd .product
  | .expression => chain atEnd .sum

variable {atEnd}

theorem not_closing {sign : Token} {op : Operator} (lexeme : sign.lexeme = .symbol op.symbol) :
    sign.lexeme ≠ .symbol .rparen := by
  rw [lexeme]
  cases op <;> simp [Operator.symbol]

theorem extend_nil (rank : Rank) (e : Tree Value Span) (notes : List Diagnostic) :
    (extend atEnd rank e []).behind notes = ⟨e, [], notes⟩ := by
  have stops : Stops rank [] := fun t head => by cases head
  rw [extend_stops atEnd stops]
  simp [Parsed.behind]

theorem grouped_lacking (e : Tree Int Span) (missing : Nat) :
    (lacking atEnd e missing).grouped atEnd = lacking atEnd e (missing + 1) := by
  simp only [lacking, Parsed.grouped, List.replicate_succ']

theorem read_unclosed {n : Nonterminal} {us : List Token} {e : Tree Int Span}
    (derivation : Derives n us e) : ∀ ts closings, us = ts ++ closings → Closings closings →
      n.read atEnd ts = lacking atEnd e closings.length := by
  -- The cut can only go through the last part of a derivation; the parts before it are read whole.
  induction derivation with
  | @number t n lexeme =>
    intro ts closings cut closes
    have other : t.lexeme ≠ .symbol .rparen := by simp [lexeme]
    obtain ⟨more, rfl, rest⟩ := exists_split [] other closes cut
    obtain ⟨rfl, rfl⟩ := List.append_eq_nil_iff.mp rest.symm
    exact factor_number atEnd lexeme []
  | @group opening closing us e opens closed inner ih =>
    intro ts closings cut closes
    have other : opening.lexeme ≠ .symbol .rparen := by simp [opens]
    obtain ⟨more, rfl, rest⟩ := exists_split [] other closes cut
    rcases List.eq_nil_or_concat closings with rfl | ⟨others, last, rfl⟩
    · have whole : Reads atEnd .factor (opening :: (us ++ [closing])) e :=
        reads_of_derives (.group opens closed inner)
      have read := whole []
      rw [List.append_nil] at read rest
      rw [← rest]
      exact read
    · rw [List.concat_eq_append, ← List.append_assoc] at rest
      obtain ⟨split, _⟩ := List.append_inj' rest rfl
      have fewer : Closings others := fun t member => closes t (by simp [member])
      have read : chain atEnd .sum more = _ := ih more others split fewer
      rw [List.length_concat, ← grouped_lacking, ← read]
      exact factor_group atEnd opens more
  | factor first ih =>
    intro ts closings cut closes
    have read : factor atEnd ts = _ := ih ts closings cut closes
    rw [Nonterminal.read, chain_eq, operand_product, read]
    exact extend_nil .product _ _
  | @product ts us left right sign op first lexeme rank next ihFirst ihNext =>
    intro vs closings cut closes
    obtain ⟨more, rfl, rest⟩ := exists_split ts (not_closing lexeme) closes cut
    have sound : Rank.product.operator? sign = some op := Rank.operator?_eq_some.mpr ⟨lexeme, rank⟩
    have whole : Reads atEnd .term ts left := reads_of_derives first
    have read : factor atEnd more = _ := ihNext more closings rest closes
    rw [Nonterminal.read, whole, extend_operator atEnd sound, operand_product, read]
    exact extend_nil .product _ _
  | term first ih =>
    intro ts closings cut closes
    have read : chain atEnd .product ts = _ := ih ts closings cut closes
    rw [Nonterminal.read, chain_eq, operand_sum, read]
    exact extend_nil .sum _ _
  | @sum ts us left right sign op first lexeme rank next ihFirst ihNext =>
    intro vs closings cut closes
    obtain ⟨more, rfl, rest⟩ := exists_split ts (not_closing lexeme) closes cut
    have sound : Rank.sum.operator? sign = some op := Rank.operator?_eq_some.mpr ⟨lexeme, rank⟩
    have whole : Reads atEnd .expression ts left := reads_of_derives first
    have read : chain atEnd .product more = _ := ihNext more closings rest closes
    rw [Nonterminal.read, whole _ (stops_of_sign lexeme rank more), extend_operator atEnd sound,
      operand_sum, read]
    exact extend_nil .sum _ _

end Open

/-! ## Evaluating what is not closed -/

/-- Without its last parentheses a sentence still evaluates to its meaning, or
to its first division by zero. -/
theorem evaluate_lacking (file : Text) {ts closings : List Token} {e : Tree Int Span}
    (closes : Closings closings) (sentence : Derives .expression (ts ++ closings) e) :
    match e.fault Int.cast with
    | none => evaluate file ts = ⟨.number (e.denote Int.cast), none, [],
        (List.replicate closings.length (.unclosed (Evaluator.endOf file ts))).toArray⟩
    | some d => ∃ rest notes, evaluate file ts = .aborted ⟨.divisionByZero, d.1⟩ rest notes := by
  have follows := (Evaluator.start file ts).next_follows
  have value : e.read.value = _ := Tree.value_number Int.cast e
  have read : chain (Evaluator.endOf file ts) .sum ts = _ :=
    read_unclosed sentence ts closings rfl closes
  simp only [Evaluator.start, read, lacking, Reader.Follows, value] at follows
  cases fault : e.fault Int.cast with
  | none =>
    simp only [fault] at follows
    rw [Parsed.ended_of_nil rfl, Array.empty_append] at follows
    exact follows
  | some d =>
    simp only [fault] at follows
    obtain ⟨rest, notes, _, aborts⟩ := follows
    exact ⟨rest, _, aborts⟩

/-- A sentence without its last closing parentheses has the value and the abort
of the sentence.  If there is no abort, each parenthesis is noted as missing at
the end of the last token, and nothing else is noted. -/
theorem evaluate_unclosed (file : Text) {ts closings : List Token} {e : Tree Int Span}
    (closes : ∀ t ∈ closings, t.lexeme = .symbol .rparen)
    (sentence : Derives .expression (ts ++ closings) e) :
    (evaluate file ts).value = (evaluate file (ts ++ closings)).value ∧
      (evaluate file ts).abort = (evaluate file (ts ++ closings)).abort ∧
      ((evaluate file ts).abort = none → ∃ last, ts.getLast? = some last ∧
        (evaluate file ts).diagnostics.toList = List.replicate closings.length
          ⟨.parser, utf8 "Expected ')'", ⟨last.span.stop, last.span.stop⟩⟩) := by
  have whole := evaluate_derives file sentence
  have part := evaluate_lacking file closes sentence
  cases fault : e.fault Int.cast with
  | some d =>
    simp only [fault] at whole part
    obtain ⟨rest, whole⟩ := whole
    obtain ⟨others, notes, part⟩ := part
    rw [whole, part]
    exact ⟨rfl, rfl, nofun⟩
  | none =>
    simp only [fault] at whole part
    rw [whole, part]
    refine ⟨rfl, rfl, fun _ => ?_⟩
    cases last : ts.getLast? with
    | none =>
      -- Parentheses alone begin no sentence.
      obtain ⟨t, rest, split, other⟩ := sentence.begins
      rw [List.getLast?_eq_none_iff.mp last, List.nil_append] at split
      exact absurd (closes t (by simp [split])) other
    | some t =>
      refine ⟨t, rfl, ?_⟩
      obtain ⟨p, isEnd, spanned⟩ := Evaluator.exists_endOf file ts
      rw [spanned, isEnd.last t last]
      rfl

/-- `6 * (1 - (2`, with two parentheses cut off: the value is that of the whole. -/
theorem evaluate_unclosed_pair :
    let token : Lexeme → Int → Token := fun l i => ⟨l, ⟨⟨[], i, 1, i + 1⟩, ⟨[], i + 1, 1, i + 2⟩⟩⟩
    let ts := [token (.number 6) 0, token (.symbol .star) 1, token (.symbol .lparen) 2,
      token (.number 1) 3, token (.symbol .minus) 4, token (.symbol .lparen) 5,
      token (.number 2) 6]
    let closings := [token (.symbol .rparen) 7, token (.symbol .rparen) 8]
    (evaluate [] (ts ++ closings)).value = .number (-6) ∧ (evaluate [] ts).value = .number (-6) ∧
      (evaluate [] ts).abort = none ∧
      (evaluate [] ts).diagnostics.toList = List.replicate 2
        ⟨.parser, utf8 "Expected ')'", ⟨⟨[], 7, 1, 8⟩, ⟨[], 7, 1, 8⟩⟩⟩ := by
  intro token ts closings
  have whole : (evaluate [] (ts ++ closings)).value = .number (-6) := by
    decide +kernel
  have finishes : (evaluate [] (ts ++ closings)).abort = none := by decide
  have closes : ∀ t ∈ closings, t.lexeme = .symbol .rparen := by decide
  obtain ⟨e, sentence⟩ := evaluate_clean finishes (by decide)
  obtain ⟨value, abort, noted⟩ := evaluate_unclosed [] closes sentence
  obtain ⟨last, found, notes⟩ := noted (abort.trans finishes)
  cases found
  exact ⟨whole, value.trans whole, abort.trans finishes, notes⟩

end Reckoner
