import Reckoner.Evaluation
import Reckoner.Proofs.Tree

/-! # Reading tokens into a tree by recursive descent

    expression := term (('+' | '-') term)*
    term       := factor (('*' | '/') factor)*
    factor     := NUMBER | '(' expression ')'

Nothing is computed here.  A token that begins no factor is noted, and the
tokens up to and including the next `;` or `)` are skipped: the factor is a
lost leaf.  A group that is not closed is noted and skipped in the same way,
but keeps its tree.  `chain` reads both an expression and a term: operands
joined by the operators of one rank, grouped to the left. -/
set_option autoImplicit false
namespace Reckoner

/-- The operation that a token signs. -/
def Token.operator? (t : Token) : Option Operator :=
  match t.lexeme with
  | .symbol .plus => some .add
  | .symbol .minus => some .sub
  | .symbol .star => some .mul
  | .symbol .slash => some .div
  | _ => none

def Rank.operator? (rank : Rank) (t : Token) : Option Operator :=
  t.operator?.filter fun op => op.rank = rank

namespace Descent

/-- What was read: a tree, the tokens behind it and what was noted on the way. -/
structure Parsed where
  tree : Tree Value Span
  rest : List Token
  notes : List Diagnostic
  deriving Repr

/-- The tokens behind the next `;` or `)`. -/
def recover : List Token → List Token
  | [] => []
  | t :: rest => if t.endsRecovery then rest else recover rest

theorem length_recover (ts : List Token) : (recover ts).length ≤ ts.length := by
  induction ts with
  | nil => exact Nat.le_refl 0
  | cons t rest ih =>
    simp only [recover, List.length_cons]
    split
    · omega
    · omega

namespace Parsed

/-- The same, with earlier notes in front. -/
def behind (p : Parsed) (notes : List Diagnostic) : Parsed := { p with notes := notes ++ p.notes }

/-- The group around an expression, up to its closing parenthesis. -/
def grouped (atEnd : Span) (p : Parsed) : Parsed :=
  match p.rest with
  | [] => { p with notes := p.notes ++ [.unclosed atEnd] }
  | t :: rest =>
    if t.lexeme = .symbol .rparen then { p with rest := rest }
    else { p with rest := recover (t :: rest), notes := p.notes ++ [.unclosed t.span] }

theorem length_grouped (atEnd : Span) (p : Parsed) :
    (p.grouped atEnd).rest.length ≤ p.rest.length := by
  unfold grouped
  split
  next empty => simp [empty]
  next t rest found =>
    split
    · simp [found]
    · simpa only [found] using length_recover (t :: rest)

end Parsed

-- The bound on the rest is what the recursion ends by: a chain calls its
-- operand on the same tokens, and every other call is behind one token more.
mutual

def factorWithin (atEnd : Span) (ts : List Token) : { p : Parsed // p.rest.length ≤ ts.length } :=
  match ts with
  | [] => ⟨⟨.leaf .lost, [], [.unexpectedEnd atEnd]⟩, Nat.le_refl 0⟩
  | t :: rest =>
    match t.lexeme with
    | .number n => ⟨⟨.leaf (.ofInt n), rest, []⟩, Nat.le_succ rest.length⟩
    | .symbol .lparen =>
      let ⟨inner, short⟩ := chainWithin atEnd .sum rest
      ⟨inner.grouped atEnd,
        Nat.le_succ_of_le (Nat.le_trans (inner.length_grouped atEnd) short)⟩
    | _ => ⟨⟨.leaf .lost, recover (t :: rest), [.unexpected t]⟩, length_recover (t :: rest)⟩
termination_by 5 * ts.length

def operandWithin (atEnd : Span) (rank : Rank) (ts : List Token) :
    { p : Parsed // p.rest.length ≤ ts.length } :=
  match rank with
  | .product => factorWithin atEnd ts
  | .sum => chainWithin atEnd .product ts
termination_by 5 * ts.length + (match rank with | .product => 1 | .sum => 3)

def chainWithin (atEnd : Span) (rank : Rank) (ts : List Token) :
    { p : Parsed // p.rest.length ≤ ts.length } :=
  let ⟨first, short⟩ := operandWithin atEnd rank ts
  let ⟨more, shorter⟩ := extendWithin atEnd rank first.tree first.rest
  ⟨more.behind first.notes, Nat.le_trans shorter short⟩
termination_by 5 * ts.length + (match rank with | .product => 2 | .sum => 4)
decreasing_by all_goals cases rank <;> simp only [] <;> omega

def extendWithin (atEnd : Span) (rank : Rank) (left : Tree Value Span) (ts : List Token) :
    { p : Parsed // p.rest.length ≤ ts.length } :=
  match ts with
  | [] => ⟨⟨left, [], []⟩, Nat.le_refl 0⟩
  | t :: rest =>
    match rank.operator? t with
    | none => ⟨⟨left, t :: rest, []⟩, Nat.le_refl _⟩
    | some op =>
      let ⟨right, short⟩ := operandWithin atEnd rank rest
      let ⟨more, shorter⟩ := extendWithin atEnd rank (.node op t.span left right.tree) right.rest
      ⟨more.behind right.notes, Nat.le_succ_of_le (Nat.le_trans shorter short)⟩
termination_by 5 * ts.length
decreasing_by
  · cases rank <;> simp only [List.length_cons] <;> omega
  · simp only [List.length_cons]
    omega

end

/-! ## The readers without their bounds -/

section Readers
variable (atEnd : Span)

def factor (ts : List Token) : Parsed := (factorWithin atEnd ts).val

def operand (rank : Rank) (ts : List Token) : Parsed := (operandWithin atEnd rank ts).val

def chain (rank : Rank) (ts : List Token) : Parsed := (chainWithin atEnd rank ts).val

/-- Reads on behind a left operand while operators of the rank follow. -/
def extend (rank : Rank) (left : Tree Value Span) (ts : List Token) : Parsed :=
  (extendWithin atEnd rank left ts).val

theorem factor_nil : factor atEnd [] = ⟨.leaf .lost, [], [.unexpectedEnd atEnd]⟩ := by
  rw [factor, factorWithin]

theorem factor_number {t : Token} {n : Int} (number : t.lexeme = .number n) (rest : List Token) :
    factor atEnd (t :: rest) = ⟨.leaf (.ofInt n), rest, []⟩ := by
  rw [factor, factorWithin]
  split <;> simp_all

theorem factor_group {t : Token} (opens : t.lexeme = .symbol .lparen) (rest : List Token) :
    factor atEnd (t :: rest) = (chain atEnd .sum rest).grouped atEnd := by
  rw [factor, factorWithin, chain]
  split <;> simp_all

theorem factor_other {t : Token} (number : ∀ n, t.lexeme ≠ .number n)
    (opens : t.lexeme ≠ .symbol .lparen) (rest : List Token) :
    factor atEnd (t :: rest) = ⟨.leaf .lost, recover (t :: rest), [.unexpected t]⟩ := by
  rw [factor, factorWithin]
  split <;> simp_all

theorem operand_product (ts : List Token) : operand atEnd .product ts = factor atEnd ts := by
  rw [operand, operandWithin, factor]

theorem operand_sum (ts : List Token) : operand atEnd .sum ts = chain atEnd .product ts := by
  rw [operand, operandWithin, chain]

theorem chain_eq (rank : Rank) (ts : List Token) : chain atEnd rank ts =
    (extend atEnd rank (operand atEnd rank ts).tree (operand atEnd rank ts).rest).behind
      (operand atEnd rank ts).notes := by
  rw [chain, chainWithin]
  rfl

end Readers

/-- No operator of the rank comes next. -/
def Stops (rank : Rank) (ts : List Token) : Prop := ∀ t ∈ ts.head?, rank.operator? t = none

section Readers
variable (atEnd : Span)

theorem extend_stops {rank : Rank} {ts : List Token} (stops : Stops rank ts)
    (left : Tree Value Span) : extend atEnd rank left ts = ⟨left, ts, []⟩ := by
  cases ts with
  | nil => rw [extend, extendWithin]
  | cons t rest =>
    have other : rank.operator? t = none := stops t rfl
    rw [extend, extendWithin]
    split <;> simp_all

theorem extend_operator {rank : Rank} {t : Token} {op : Operator}
    (sign : rank.operator? t = some op) (left : Tree Value Span) (rest : List Token) :
    extend atEnd rank left (t :: rest) =
      (extend atEnd rank (.node op t.span left (operand atEnd rank rest).tree)
        (operand atEnd rank rest).rest).behind (operand atEnd rank rest).notes := by
  rw [extend, extendWithin]
  split
  · simp_all
  · simp_all [extend, operand]

/-- Induction along the readers: what each does, from what it calls. -/
theorem reader_induction (Factor : List Token → Prop) (Operand Chain : Rank → List Token → Prop)
    (Extend : Rank → Tree Value Span → List Token → Prop)
    (nothing : Factor [])
    (number : ∀ t rest n, t.lexeme = .number n → Factor (t :: rest))
    (group : ∀ t rest, t.lexeme = .symbol .lparen → Chain .sum rest → Factor (t :: rest))
    (other : ∀ t rest, (∀ n, t.lexeme ≠ .number n) → t.lexeme ≠ .symbol .lparen →
      Factor (t :: rest))
    (product : ∀ ts, Factor ts → Operand .product ts)
    (sum : ∀ ts, Chain .product ts → Operand .sum ts)
    (begins : ∀ rank ts, Operand rank ts →
      Extend rank (operand atEnd rank ts).tree (operand atEnd rank ts).rest → Chain rank ts)
    (ends : ∀ rank left ts, Stops rank ts → Extend rank left ts)
    (joins : ∀ rank left t rest op, rank.operator? t = some op → Operand rank rest →
      Extend rank (.node op t.span left (operand atEnd rank rest).tree)
        (operand atEnd rank rest).rest → Extend rank left (t :: rest)) :
    (∀ ts, Factor ts) ∧ (∀ rank ts, Chain rank ts) ∧ ∀ rank left ts, Extend rank left ts := by
  have all := factorWithin.mutual_induct atEnd Factor Chain Extend Operand nothing
    (fun t rest n => number t rest n)
    (fun t rest opens _ _ _ => group t rest opens)
    other
    (fun rank ts first short read _ _ _ => by
      have := begins rank ts
      simpa only [operand, read] using this)
    (fun rank left => ends rank left [] (by simp [Stops]))
    (fun rank left t rest stop => ends rank left (t :: rest) (by simpa [Stops] using stop))
    (fun rank left t rest op sign right short read _ _ _ => by
      have := joins rank left t rest op sign
      simpa only [operand, read] using this)
    product sum
  exact ⟨all.1, all.2.1, all.2.2.1⟩

/-- Behind a chain comes no operator of its rank and none that binds tighter. -/
theorem stops_chain (rank : Rank) (ts : List Token) :
    Stops rank (chain atEnd rank ts).rest ∧ Stops .product (chain atEnd rank ts).rest := by
  refine (reader_induction atEnd (fun _ => True)
    (fun rank ts => rank = .sum → Stops .product (operand atEnd rank ts).rest)
    (fun rank ts => Stops rank (chain atEnd rank ts).rest ∧
      Stops .product (chain atEnd rank ts).rest)
    (fun rank left ts => (rank = .sum → Stops .product ts) →
      Stops rank (extend atEnd rank left ts).rest ∧
        Stops .product (extend atEnd rank left ts).rest)
    trivial (fun _ _ _ _ => trivial) (fun _ _ _ _ => trivial) (fun _ _ _ _ => trivial)
    ?product ?sum ?begins ?ends ?joins).2.1 rank ts
  case product =>
    intro ts _ sum
    cases sum
  case sum =>
    intro ts stops _
    rw [operand_sum]
    exact stops.2
  case begins =>
    intro rank ts first more
    rw [chain_eq]
    exact more first
  case ends =>
    intro rank left ts stops tight
    rw [extend_stops atEnd stops]
    cases rank with
    | sum => exact ⟨stops, tight rfl⟩
    | product => exact ⟨stops, stops⟩
  case joins =>
    intro rank left t rest op sign right more _
    rw [extend_operator atEnd sign]
    exact more right

end Readers

/-- A token left over is noted. -/
def Parsed.ended (p : Parsed) : Parsed :=
  match p.rest with
  | [] => p
  | t :: _ => { p with notes := p.notes ++ [.unexpected t] }

/-- Reads the expression that begins a token list. -/
def parse (file : Text) (ts : List Token) : Parsed :=
  (chain (Evaluator.endOf file ts) .sum ts).ended

end Descent
end Reckoner
