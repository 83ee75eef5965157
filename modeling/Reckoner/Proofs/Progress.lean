import Reckoner.Proofs.Poison

/-! # Every call takes a token, until none is left

Recursive descent reads an operand before it looks for a sign, and an operand
takes the token it begins at, whatever that is: a number, an opening
parenthesis, or a token that recovery skips.  So each of its calls returns after
finitely many calls and rounds of its loops (`Descent.returns_chain`), an
evaluator with tokens before it takes one at least (`Evaluator.next_takes`), and
one without can only say that an operand is missing
(`Evaluator.next_drained`). -/
set_option autoImplicit false
namespace Reckoner

/-! ## Calls that return -/

namespace Descent

/-- Recovery ends: the loop leaves these tokens, with one premise for a round. -/
inductive Recovers : List Token → List Token → Prop where
  | nothing : Recovers [] []
  | last {t : Token} (ends : t.endsRecovery = true) (rest : List Token) : Recovers (t :: rest) rest
  | skip {t : Token} {rest behind : List Token} (other : t.endsRecovery = false)
      (more : Recovers rest behind) : Recovers (t :: rest) behind

/-- A call of a reader.  `extend` is also the next round of its own loop. -/
inductive Call where
  | factor (ts : List Token)
  | operand (rank : Rank) (ts : List Token)
  | chain (rank : Rank) (ts : List Token)
  | extend (rank : Rank) (left : Tree Value Span) (ts : List Token)

-- No rule bounds the tokens that its premises are about, so a call with an
-- endless sequence of calls or rounds behind it would have no derivation.
/-- A call returns: its calls and rounds, the premises, do. -/
inductive Returns (atEnd : Span) : Call → Parsed → Prop where
  | nothing : Returns atEnd (.factor []) ⟨.leaf .lost, [], [.unexpectedEnd atEnd]⟩
  | number {t : Token} {n : Int} (lexeme : t.lexeme = .number n) (rest : List Token) :
      Returns atEnd (.factor (t :: rest)) ⟨.leaf (.ofInt n), rest, []⟩
  | closed {t closing : Token} {rest behind : List Token} {p : Parsed}
      (opens : t.lexeme = .symbol .lparen) (inner : Returns atEnd (.chain .sum rest) p)
      (found : p.rest = closing :: behind) (closes : closing.lexeme = .symbol .rparen) :
      Returns atEnd (.factor (t :: rest)) { p with rest := behind }
  | unclosed {t other : Token} {rest more behind : List Token} {p : Parsed}
      (opens : t.lexeme = .symbol .lparen) (inner : Returns atEnd (.chain .sum rest) p)
      (found : p.rest = other :: more) (differs : other.lexeme ≠ .symbol .rparen)
      (recovers : Recovers (other :: more) behind) :
      Returns atEnd (.factor (t :: rest)) ⟨p.tree, behind, p.notes ++ [.unclosed other.span]⟩
  | ended {t : Token} {rest : List Token} {p : Parsed} (opens : t.lexeme = .symbol .lparen)
      (inner : Returns atEnd (.chain .sum rest) p) (drained : p.rest = []) :
      Returns atEnd (.factor (t :: rest)) { p with notes := p.notes ++ [.unclosed atEnd] }
  | lost {t : Token} {rest behind : List Token} (number : ∀ n, t.lexeme ≠ .number n)
      (opens : t.lexeme ≠ .symbol .lparen) (recovers : Recovers (t :: rest) behind) :
      Returns atEnd (.factor (t :: rest)) ⟨.leaf .lost, behind, [.unexpected t]⟩
  | product {ts : List Token} {p : Parsed} (first : Returns atEnd (.factor ts) p) :
      Returns atEnd (.operand .product ts) p
  | sum {ts : List Token} {p : Parsed} (first : Returns atEnd (.chain .product ts) p) :
      Returns atEnd (.operand .sum ts) p
  | begins {rank : Rank} {ts : List Token} {p q : Parsed}
      (first : Returns atEnd (.operand rank ts) p)
      (more : Returns atEnd (.extend rank p.tree p.rest) q) :
      Returns atEnd (.chain rank ts) (q.behind p.notes)
  | stops {rank : Rank} {ts : List Token} (stops : Stops rank ts) (left : Tree Value Span) :
      Returns atEnd (.extend rank left ts) ⟨left, ts, []⟩
  | joins {rank : Rank} {t : Token} {op : Operator} {left : Tree Value Span} {rest : List Token}
      {p q : Parsed} (sign : rank.operator? t = some op)
      (right : Returns atEnd (.operand rank rest) p)
      (more : Returns atEnd (.extend rank (.node op t.span left p.tree) p.rest) q) :
      Returns atEnd (.extend rank left (t :: rest)) (q.behind p.notes)

theorem recovers (ts : List Token) : Recovers ts (recover ts) := by
  induction ts with
  | nil => exact .nothing
  | cons t rest ih =>
    rw [recover]
    by_cases ends : t.endsRecovery = true
    · rw [if_pos ends]
      exact .last ends rest
    · rw [if_neg ends]
      exact .skip (Bool.eq_false_iff.mpr ends) ih

theorem returns_group {atEnd : Span} {t : Token} {rest : List Token} {p : Parsed}
    (opens : t.lexeme = .symbol .lparen) (inner : Returns atEnd (.chain .sum rest) p) :
    Returns atEnd (.factor (t :: rest)) (p.grouped atEnd) := by
  unfold Parsed.grouped
  split
  next drained => exact .ended opens inner drained
  next c more found =>
    by_cases closes : c.lexeme = .symbol .rparen
    · rw [if_pos closes]
      exact .closed opens inner found closes
    · rw [if_neg closes]
      exact .unclosed opens inner found closes (recovers (c :: more))

theorem returns_chain (atEnd : Span) (rank : Rank) (ts : List Token) :
    Returns atEnd (.chain rank ts) (chain atEnd rank ts) := by
  refine (reader_induction atEnd (fun ts => Returns atEnd (.factor ts) (factor atEnd ts))
    (fun rank ts => Returns atEnd (.operand rank ts) (operand atEnd rank ts))
    (fun rank ts => Returns atEnd (.chain rank ts) (chain atEnd rank ts))
    (fun rank left ts => Returns atEnd (.extend rank left ts) (extend atEnd rank left ts))
    ?nothing ?number ?group ?other ?product ?sum ?begins ?ends ?joins).2.1 rank ts
  case nothing =>
    rw [factor_nil]
    exact .nothing
  case number =>
    intro t rest n lexeme
    rw [factor_number atEnd lexeme]
    exact .number lexeme rest
  case group =>
    intro t rest opens inner
    rw [factor_group atEnd opens]
    exact returns_group opens inner
  case other =>
    intro t rest number opens
    rw [factor_other atEnd number opens]
    exact .lost number opens (recovers (t :: rest))
  case product =>
    intro ts first
    rw [operand_product]
    exact .product first
  case sum =>
    intro ts first
    rw [operand_sum]
    exact .sum first
  case begins =>
    intro rank ts first more
    rw [chain_eq]
    exact .begins first more
  case ends =>
    intro rank left ts stops
    rw [extend_stops atEnd stops]
    exact .stops stops left
  case joins =>
    intro rank left t rest op sign right more
    rw [extend_operator atEnd sign]
    exact .joins sign right more

end Descent

/-! ## One call of an evaluator -/

/-- Before anything waits, every token is read. -/
theorem Reader.exists_read (seen : Array Diagnostic) (t : Token) :
    ∃ next, ({ diagnostics := seen } : Reader).step t = .read next := by
  simp only [step, operand]
  split
  · exact ⟨_, rfl⟩
  · exact ⟨_, rfl⟩
  · simp only [skip]
    split
    · exact ⟨_, rfl⟩
    · exact ⟨_, rfl⟩

namespace Evaluator

theorem next_takes {e : Evaluator} {t : Token} {rest : List Token} (found : e.rest = t :: rest) :
    ∃ used, rest = used ++ e.next.1.rest := by
  have signed : ({ diagnostics := e.diagnostics } : Reader).Signed [] :=
    ⟨Level.signed_empty, by simp⟩
  obtain ⟨next, move⟩ := Reader.exists_read e.diagnostics t
  have obeys := Reader.step_obeys signed t
  rw [move] at obeys
  obtain ⟨used, notes, run⟩ := Reader.run_obeys e.atEnd obeys.1 rest
  refine ⟨used, ?_⟩
  have same : e.next.1 = next.run e.atEnd rest := by
    simp only [Evaluator.next, found, Reader.run, move]
  rw [same]
  exact run.taken

theorem next_drained {e : Evaluator} (drained : e.rest = []) :
    e.next.1 = ⟨.lost, .none, [], e.diagnostics.push (.unexpectedEnd e.atEnd)⟩ := by
  simp only [next, drained, Reader.run, Reader.finish]
  rfl

theorem after_atEnd (e : Evaluator) (calls : Nat) : (e.after calls).atEnd = e.atEnd := by
  induction calls with
  | zero => rfl
  | succ calls ih => exact ih

/-- So many calls have taken so many tokens, or all. -/
theorem after_takes (e : Evaluator) (calls : Nat) :
    (e.after calls).rest.length ≤ e.rest.length - calls := by
  induction calls with
  | zero => exact Nat.le_refl _
  | succ calls ih =>
    have next : (e.after (calls + 1)).rest = (e.after calls).next.1.rest := rfl
    rw [next]
    cases found : (e.after calls).rest with
    | nil =>
      rw [next_drained found]
      exact Nat.zero_le _
    | cons t rest =>
      obtain ⟨used, split⟩ := next_takes found
      have size := congrArg List.length split
      rw [found] at ih
      simp only [List.length_append, List.length_cons] at size ih
      omega

end Evaluator

/-! ## Call after call -/

/-- The end of the last token, or the beginning of a file without tokens. -/
structure Position.EndsInput (file : Text) (ts : List Token) (p : Position) : Prop where
  last : ∀ t, ts.getLast? = some t → p = t.span.stop
  empty : ts = [] → p = ⟨file, 0, 1, 1⟩

theorem Evaluator.exists_endOf (file : Text) (ts : List Token) :
    ∃ p, p.EndsInput file ts ∧ endOf file ts = ⟨p, p⟩ := by
  unfold endOf
  split
  next t last =>
    refine ⟨t.span.stop, ⟨?_, ?_⟩, rfl⟩
    · intro u other
      rw [Option.some.inj (last.symm.trans other)]
    · rintro rfl
      cases last
  next tokenless =>
    refine ⟨.origin file, ⟨?_, ?_⟩, rfl⟩
    · intro t last
      rw [tokenless] at last
      cases last
    · intro _
      rfl

/-- Behind so many calls an evaluator stands at least so far in the tokens, or
at their end.  While tokens remain the next call takes one at least.  Its descent
returns, and a call that does not abort has read what descent reads.  At the end
of the tokens it finds nothing, stays there, and notes just that an operand is
missing. -/
structure Evaluator.Drains (file : Text) (ts : List Token) (calls : Nat) (e : Evaluator) :
    Prop where
  stands : ∃ past, ts = past ++ e.rest ∧ min calls ts.length ≤ past.length ∧
    past.length ≤ ts.length
  takes : e.rest ≠ [] → ∃ used, used ≠ [] ∧ e.rest = used ++ e.next.2.rest
  returns : ∃ p, Descent.Returns e.atEnd (.chain .sum e.rest) p ∧
    (e.next.1.abort = none → p.tree.value = .ok e.next.1.value ∧ p.rest = e.next.2.rest)
  drained : e.rest = [] → e.next.1.abort = none ∧ e.next.1.value = .lost ∧ e.next.2.rest = [] ∧
    ∃ p, p.EndsInput file ts ∧ e.next.2.diagnostics.toList =
      e.diagnostics.toList ++ [⟨.parser, utf8 "Unexpected token 'EOF'", ⟨p, p⟩⟩]

theorem Evaluator.after_drains (file : Text) (ts : List Token) (calls : Nat) :
    ((Evaluator.start file ts).after calls).Drains file ts calls := by
  have far := (Evaluator.start file ts).after_takes calls
  have atEnd := (Evaluator.start file ts).after_atEnd calls
  obtain ⟨past, split⟩ := (Evaluator.start file ts).after_rest calls
  generalize (Evaluator.start file ts).after calls = e at far atEnd split ⊢
  replace split : ts = past ++ e.rest := split
  replace far : e.rest.length ≤ ts.length - calls := far
  constructor
  case stands =>
    refine ⟨past, split, ?_, ?_⟩
    all_goals
      have size := congrArg List.length split
      rw [List.length_append] at size
      omega
  case takes =>
    intro more
    obtain ⟨t, rest, found⟩ := List.exists_cons_of_ne_nil more
    obtain ⟨used, taken⟩ := next_takes found
    refine ⟨t :: used, List.cons_ne_nil t used, ?_⟩
    rw [found, List.cons_append]
    exact congrArg (t :: ·) taken
  case returns =>
    refine ⟨_, Descent.returns_chain e.atEnd .sum e.rest, ?_⟩
    intro finishes
    obtain ⟨value, rest, _⟩ := next_finished finishes
    exact ⟨value, rest.symm⟩
  case drained =>
    intro drained
    have outcome := next_drained drained
    obtain ⟨p, isEnd, spanned⟩ := exists_endOf file ts
    refine ⟨by rw [outcome], by rw [outcome], ?_, p, isEnd, ?_⟩
    · exact congrArg Outcome.rest outcome
    · have noted : e.next.2.diagnostics = e.diagnostics.push (.unexpectedEnd e.atEnd) :=
        congrArg Outcome.diagnostics outcome
      have span : e.atEnd = ⟨p, p⟩ := atEnd.trans spanned
      rw [noted, Array.toList_push, span]
      rfl

-- `) ) )`: each call takes one token and no more.
example : ((Evaluator.start [] (List.replicate 3 ⟨.symbol .rparen, {}⟩)).after 2).rest.length = 1 := by
  decide

end Reckoner
