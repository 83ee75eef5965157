import Reckoner.Proofs.Discipline

/-! # Lost factors

An operation on a lost operand is lost, so the value of a tree is lost exactly
when one of its leaves is (`Tree.value_lost`).  Descent makes a lost leaf
exactly where it notes an unexpected token (`traced_chain`); a group that is
not closed keeps its tree.  Hence the notes of an evaluation tell whether it
has a value. -/
set_option autoImplicit false
namespace Reckoner

open Descent

/-! ## Leaves -/

namespace Tree

section Leaves
variable {Leaf Tag : Type}

def leaves : Tree Leaf Tag → List Leaf
  | .leaf v => [v]
  | .node _ _ left right => left.leaves ++ right.leaves

end Leaves

theorem combine_lost {op : Operator} {a b v : Value} (combined : op.combine a b = some v) :
    v = .lost ↔ a = .lost ∨ b = .lost := by
  cases a with
  | lost =>
    cases combined
    simp
  | number a =>
    cases b with
    | lost =>
      cases combined
      simp
    | number b =>
      simp only [Operator.combine] at combined
      split at combined
      · cases combined
      · cases combined
        simp

theorem value_lost {Tag : Type} {t : Tree Value Tag} {v : Value} (value : t.value = .ok v) :
    v = .lost ↔ .lost ∈ t.leaves := by
  induction t generalizing v with
  | leaf w =>
    cases value
    simp [leaves, eq_comm]
  | node op tag left right leftLost rightLost =>
    simp only [Tree.value] at value
    cases leftValue : left.value with
    | error tag => simp [leftValue] at value
    | ok a =>
      cases rightValue : right.value with
      | error tag => simp [leftValue, rightValue] at value
      | ok b =>
        cases combined : op.combine a b with
        | none => simp [leftValue, rightValue, combined] at value
        | some w =>
          simp only [leftValue, rightValue, combined, Except.ok.injEq] at value
          subst value
          rw [combine_lost combined, leftLost leftValue, rightLost rightValue, leaves,
            List.mem_append]

end Tree

/-! ## Notes -/

def Diagnostic.IsUnexpected (d : Diagnostic) : Prop := utf8 "Unexpected token" <+: d.message

theorem isUnexpected_unexpected (t : Token) : (Diagnostic.unexpected t).IsUnexpected := by
  have begins : utf8 "Unexpected token" <+: utf8 "Unexpected token '" := by decide
  simp only [Diagnostic.IsUnexpected, Diagnostic.unexpected, List.append_assoc]
  exact begins.trans (List.prefix_append _ _)

theorem isUnexpected_unexpectedEnd (span : Span) :
    (Diagnostic.unexpectedEnd span).IsUnexpected := by
  have begins : utf8 "Unexpected token" <+: utf8 "Unexpected token 'EOF'" := by decide
  exact begins

theorem not_isUnexpected_of_expected {d : Diagnostic} (expected : d.message = utf8 "Expected ')'") :
    ¬ d.IsUnexpected := by
  unfold Diagnostic.IsUnexpected
  rw [expected]
  decide

/-- What was read has a lost leaf exactly if some leaves before had one or an
unexpected token is noted. -/
def Traced (before : List Value) (p : Parsed) : Prop :=
  .lost ∈ p.tree.leaves ↔ .lost ∈ before ∨ ∃ d ∈ p.notes, d.IsUnexpected

section Tracing
variable {atEnd : Span} {before left : List Value} {p : Parsed}

theorem traced_leaf {v : Value} {rest : List Token} (number : v ≠ .lost) :
    Traced [] ⟨.leaf v, rest, []⟩ := by
  simp [Traced, Tree.leaves, number.symm]

theorem traced_lost {d : Diagnostic} {rest : List Token} (unexpected : d.IsUnexpected) :
    Traced [] ⟨.leaf .lost, rest, [d]⟩ := by
  simp [Traced, Tree.leaves, unexpected]

theorem Traced.grouped (traced : Traced before p) : Traced before (p.grouped atEnd) := by
  have unclosed : ∀ span, ¬ (Diagnostic.unclosed span).IsUnexpected := fun span =>
    not_isUnexpected_of_expected rfl
  unfold Parsed.grouped
  split
  · simpa [Traced, or_and_right, exists_or, unclosed] using traced
  · split
    · exact traced
    · simpa [Traced, or_and_right, exists_or, unclosed] using traced

theorem Traced.behind {notes : List Diagnostic} (traced : Traced left p)
    (first : .lost ∈ left ↔ .lost ∈ before ∨ ∃ d ∈ notes, d.IsUnexpected) :
    Traced before (p.behind notes) := by
  unfold Traced at traced ⊢
  simp only [Parsed.behind, List.mem_append, or_and_right, exists_or]
  rw [traced, first, or_assoc]

theorem traced_chain (atEnd : Span) (rank : Rank) (ts : List Token) :
    Traced [] (chain atEnd rank ts) := by
  refine (reader_induction atEnd (fun ts => Traced [] (factor atEnd ts))
    (fun rank ts => Traced [] (operand atEnd rank ts))
    (fun rank ts => Traced [] (chain atEnd rank ts))
    (fun rank left ts => Traced left.leaves (extend atEnd rank left ts))
    ?nothing ?number ?group ?other ?product ?sum ?begins ?ends ?joins).2.1 rank ts
  case nothing =>
    rw [factor_nil]
    exact traced_lost (isUnexpected_unexpectedEnd atEnd)
  case number =>
    intro t rest n lexeme
    rw [factor_number atEnd lexeme]
    exact traced_leaf (by simp [Value.ofInt])
  case group =>
    intro t rest opens inner
    rw [factor_group atEnd opens]
    exact inner.grouped
  case other =>
    intro t rest number opens
    rw [factor_other atEnd number opens]
    exact traced_lost (isUnexpected_unexpected t)
  case product =>
    intro ts first
    rwa [operand_product]
  case sum =>
    intro ts first
    rwa [operand_sum]
  case begins =>
    intro rank ts first more
    rw [chain_eq]
    exact more.behind first
  case ends =>
    intro rank left ts stops
    rw [extend_stops atEnd stops]
    simp [Traced]
  case joins =>
    intro rank left t rest op sign right more
    rw [extend_operator atEnd sign]
    -- The new left side has the old leaves and those of the operand just read.
    refine more.behind ?_
    unfold Traced at right
    simp only [List.not_mem_nil, false_or] at right
    rw [Tree.leaves, List.mem_append, right]

end Tracing

/-! ## Evaluations that finish -/

theorem Descent.Parsed.notes_ended (p : Parsed) :
    p.ended.notes = p.notes ++ (p.rest.head?.map Diagnostic.unexpected).toList := by
  unfold Parsed.ended
  split
  next empty => simp [empty]
  next t rest found => simp [found]

/-- An evaluation that finishes has the value, the rest and the notes of
descent. -/
theorem Evaluator.next_finished {e : Evaluator} (finishes : e.next.1.abort = none) :
    (chain e.atEnd .sum e.rest).tree.value = .ok e.next.1.value ∧
      e.next.1.rest = (chain e.atEnd .sum e.rest).rest ∧
      e.added = (chain e.atEnd .sum e.rest).ended.notes := by
  have follows := e.next_follows
  unfold Reader.Follows at follows
  split at follows
  next v value =>
    have noted : e.next.1.diagnostics.toList =
        e.diagnostics.toList ++ (chain e.atEnd .sum e.rest).ended.notes := by
      rw [follows]
      simp
    refine ⟨?_, ?_, added_eq noted⟩
    · rw [value, follows]
    · rw [follows]
  next span value =>
    obtain ⟨rest, notes, _, aborts⟩ := follows
    rw [aborts] at finishes
    cases finishes

theorem Evaluator.lost_iff_noted {e : Evaluator} (finishes : e.next.1.abort = none) :
    e.next.1.value = .lost ↔ ∃ d ∈ (chain e.atEnd .sum e.rest).notes, d.IsUnexpected := by
  have traced := traced_chain e.atEnd .sum e.rest
  simp only [Traced, List.not_mem_nil, false_or] at traced
  exact (Tree.value_lost (next_finished finishes).1).trans traced

/-- A call that finishes adds notes, and behind them the report of a token left
over.  Its value is lost exactly when an unexpected token is among the former,
so exactly when descent loses a factor anywhere in the expression.  A missing
`)` or a token left over loses nothing, and nothing is lost in silence. -/
theorem Evaluator.lost_iff_unexpected (e : Evaluator) (finishes : e.next.1.abort = none) :
    ∃ notes, e.added = notes ++ (e.next.1.rest.head?.map Diagnostic.unexpected).toList ∧
      (e.next.1.value = .lost ↔ ∃ d ∈ notes, d.IsUnexpected) ∧
      (e.next.1.value = .lost ↔ .lost ∈ (chain e.atEnd .sum e.rest).tree.leaves) ∧
      ((∀ d ∈ notes, d.message = utf8 "Expected ')'") → e.next.1.value ≠ .lost) ∧
      (e.next.1.value = .lost → e.added ≠ []) := by
  obtain ⟨value, rest, added⟩ := next_finished finishes
  have noted := lost_iff_noted finishes
  rw [Parsed.notes_ended, ← rest] at added
  refine ⟨_, added, noted, Tree.value_lost value, ?_, ?_⟩
  · intro expected poisoned
    obtain ⟨d, member, unexpected⟩ := noted.mp poisoned
    exact not_isUnexpected_of_expected (expected d member) unexpected
  · intro poisoned clean
    obtain ⟨d, member, _⟩ := noted.mp poisoned
    rw [added] at clean
    rw [(List.append_eq_nil_iff.mp clean).1] at member
    cases member

/-- `(+;)*2 3`: a factor is lost in the group, and the 3 is left over. -/
theorem Evaluator.lost_iff_unexpected_group :
    let e := Evaluator.start [] ((([.symbol .lparen, .symbol .plus, .symbol .semi, .symbol .rparen,
      .symbol .star, .number 2, .number 3] : List Lexeme)).map fun l => ⟨l, {}⟩)
    e.next.1.abort = none ∧ e.next.1.value = .lost ∧ e.next.1.rest = [⟨.number 3, {}⟩] ∧
      ∃ notes, e.added = notes ++ [.unexpected ⟨.number 3, {}⟩] ∧ ∃ d ∈ notes, d.IsUnexpected := by
  intro e
  have finishes : e.next.1.abort = none := by decide
  have value : e.next.1.value = .lost := by decide
  have rest : e.next.1.rest = [⟨.number 3, {}⟩] := by decide
  obtain ⟨notes, added, lost, _⟩ := Evaluator.lost_iff_unexpected e finishes
  rw [rest] at added
  exact ⟨finishes, value, rest, notes, added, lost.mp value⟩

end Reckoner
