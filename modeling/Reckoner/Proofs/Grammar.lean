import Reckoner.Proofs.Fusion

/-! # The grammar of expressions

`Derives` gives the grammar without a reader: a repetition is derived from the
left, so every derivation comes with the tree that its operators group to.
Recursive descent notes nothing and leaves nothing exactly on the sentences of
the grammar, and then returns the tree of the derivation (`chain_derives`,
`derives_of_clean`).  With `Evaluator.next_follows` this settles what evaluation
says of sentences and of everything else. -/
set_option autoImplicit false
namespace Reckoner

open Descent

inductive Nonterminal where
  | expression | term | factor
  deriving DecidableEq, Repr

/-- A derivation of tokens, with its tree. -/
inductive Derives : Nonterminal → List Token → Tree Int Span → Prop where
  | number {t : Token} {n : Int} (lexeme : t.lexeme = .number n) : Derives .factor [t] (.leaf n)
  | group {opening closing : Token} {ts : List Token} {e : Tree Int Span}
      (opens : opening.lexeme = .symbol .lparen) (closes : closing.lexeme = .symbol .rparen)
      (inner : Derives .expression ts e) : Derives .factor (opening :: (ts ++ [closing])) e
  | factor {ts : List Token} {e : Tree Int Span} (first : Derives .factor ts e) :
      Derives .term ts e
  | product {ts us : List Token} {left right : Tree Int Span} {sign : Token} {op : Operator}
      (first : Derives .term ts left) (lexeme : sign.lexeme = .symbol op.symbol)
      (rank : op.rank = .product) (next : Derives .factor us right) :
      Derives .term (ts ++ sign :: us) (.node op sign.span left right)
  | term {ts : List Token} {e : Tree Int Span} (first : Derives .term ts e) :
      Derives .expression ts e
  | sum {ts us : List Token} {left right : Tree Int Span} {sign : Token} {op : Operator}
      (first : Derives .expression ts left) (lexeme : sign.lexeme = .symbol op.symbol)
      (rank : op.rank = .sum) (next : Derives .term us right) :
      Derives .expression (ts ++ sign :: us) (.node op sign.span left right)

namespace Rank

/-- What a chain of the rank derives. -/
def whole : Rank → Nonterminal
  | .sum => .expression
  | .product => .term

/-- What an operand of the rank derives. -/
def part : Rank → Nonterminal
  | .sum => .term
  | .product => .factor

end Rank

theorem Derives.only {rank : Rank} {ts : List Token} {e : Tree Int Span}
    (first : Derives rank.part ts e) : Derives rank.whole ts e := by
  cases rank with
  | sum => exact .term first
  | product => exact .factor first

theorem Derives.joined {rank : Rank} {ts us : List Token} {left right : Tree Int Span}
    {sign : Token} {op : Operator} (first : Derives rank.whole ts left)
    (sound : rank.operator? sign = some op) (next : Derives rank.part us right) :
    Derives rank.whole (ts ++ sign :: us) (.node op sign.span left right) := by
  obtain ⟨lexeme, ranked⟩ := Rank.operator?_eq_some.mp sound
  cases rank with
  | sum => exact .sum first lexeme ranked next
  | product => exact .product first lexeme ranked next

/-- The tree as descent builds it. -/
def Tree.read (e : Tree Int Span) : Tree Value Span := e.map (fun n : Int => Value.number n) id

theorem Tree.read_node (op : Operator) (span : Span) (left right : Tree Int Span) :
    (Tree.node op span left right).read = .node op span left.read right.read := rfl

/-! ## Descent reads every sentence -/

section Complete
variable (atEnd : Span)

/-- Descent over the tokens of a derivation, whatever follows them. -/
def Reads : Nonterminal → List Token → Tree Int Span → Prop
  | .factor, ts, e => ∀ rest, factor atEnd (ts ++ rest) = ⟨e.read, rest, []⟩
  | .term, ts, e =>
    ∀ rest, chain atEnd .product (ts ++ rest) = extend atEnd .product e.read rest
  | .expression, ts, e =>
    ∀ rest, Stops .product rest → chain atEnd .sum (ts ++ rest) = extend atEnd .sum e.read rest

variable {atEnd}

theorem behind_nil (p : Parsed) : p.behind [] = p := rfl

theorem stops_of_sign {sign : Token} {op : Operator} (lexeme : sign.lexeme = .symbol op.symbol)
    (rank : op.rank = .sum) (rest : List Token) : Stops .product (sign :: rest) := by
  intro t head
  cases head
  cases found : Rank.product.operator? sign with
  | none => rfl
  | some other =>
    obtain ⟨same, ranked⟩ := Rank.operator?_eq_some.mp found
    cases op <;> cases other <;> simp_all [Operator.symbol, Operator.rank]

theorem stops_of_closing {closing : Token} (closes : closing.lexeme = .symbol .rparen) (rank : Rank)
    (rest : List Token) : Stops rank (closing :: rest) := by
  intro t head
  cases head
  simp [Rank.operator?, Token.operator?, closes]

theorem reads_of_derives {n : Nonterminal} {ts : List Token} {e : Tree Int Span}
    (derivation : Derives n ts e) : Reads atEnd n ts e := by
  induction derivation with
  | number lexeme =>
    intro rest
    exact factor_number atEnd lexeme rest
  | @group opening closing ts e opens closes inner ih =>
    intro rest
    have shape : opening :: (ts ++ [closing]) ++ rest = opening :: (ts ++ closing :: rest) := by
      simp
    rw [shape, factor_group atEnd opens, ih _ (stops_of_closing closes .product rest),
      extend_stops atEnd (stops_of_closing closes .sum rest)]
    simp only [Parsed.grouped, if_pos closes]
  | factor first ih =>
    intro rest
    rw [chain_eq, operand_product, ih rest, behind_nil]
  | @product ts us left right sign op first lexeme rank next ihFirst ihNext =>
    intro rest
    have sound : Rank.product.operator? sign = some op :=
      Rank.operator?_eq_some.mpr ⟨lexeme, rank⟩
    rw [List.append_assoc, List.cons_append, ihFirst, extend_operator atEnd sound,
      operand_product, ihNext rest, behind_nil, Tree.read_node]
  | term first ih =>
    intro rest stops
    rw [chain_eq, operand_sum, ih rest, extend_stops atEnd stops, behind_nil]
  | @sum ts us left right sign op first lexeme rank next ihFirst ihNext =>
    intro rest stops
    have sound : Rank.sum.operator? sign = some op :=
      Rank.operator?_eq_some.mpr ⟨lexeme, rank⟩
    rw [List.append_assoc, List.cons_append, ihFirst _ (stops_of_sign lexeme rank _),
      extend_operator atEnd sound, operand_sum, ihNext rest, extend_stops atEnd stops, behind_nil,
      Tree.read_node]

/-- A sentence is read to its end and without a note. -/
theorem chain_derives {ts : List Token} {e : Tree Int Span}
    (derivation : Derives .expression ts e) : chain atEnd .sum ts = ⟨e.read, [], []⟩ := by
  have stops : ∀ rank, Stops rank [] := fun rank t head => by cases head
  have whole : Reads atEnd .expression ts e := reads_of_derives derivation
  have reads := whole [] (stops .product)
  rw [List.append_nil] at reads
  rw [reads, extend_stops atEnd (stops .sum)]

end Complete

/-! ## What descent reads without a note is a sentence -/

section Sound
variable (atEnd : Span)

/-- The tokens up to the rest, and the tree, are a derivation's. -/
def Clean (n : Nonterminal) (before ts : List Token) (p : Parsed) : Prop :=
  p.notes = [] → ∃ used e, ts = used ++ p.rest ∧ p.tree = e.read ∧ Derives n (before ++ used) e

variable {atEnd}

theorem clean_group {t : Token} (opens : t.lexeme = .symbol .lparen) {rest : List Token}
    (inner : Clean .expression [] rest (chain atEnd .sum rest)) :
    Clean .factor [] (t :: rest) (factor atEnd (t :: rest)) := by
  intro quiet
  rw [factor_group atEnd opens] at quiet ⊢
  unfold Parsed.grouped at quiet ⊢
  cases found : (chain atEnd .sum rest).rest with
  | nil => simp [found] at quiet
  | cons closing more =>
    by_cases closes : closing.lexeme = .symbol .rparen
    · simp only [found, if_pos closes] at quiet ⊢
      obtain ⟨used, e, split, tree, derivation⟩ := inner quiet
      refine ⟨t :: (used ++ [closing]), e, ?_, tree, .group opens closes derivation⟩
      rw [split, found]
      simp
    · simp [found, closes] at quiet

theorem clean_begins {rank : Rank} {ts : List Token}
    (first : Clean rank.part [] ts (operand atEnd rank ts))
    (more : ∀ before e, (operand atEnd rank ts).tree = Tree.read e →
      Derives rank.whole before e → Clean rank.whole before (operand atEnd rank ts).rest
        (extend atEnd rank (operand atEnd rank ts).tree (operand atEnd rank ts).rest)) :
    Clean rank.whole [] ts (chain atEnd rank ts) := by
  intro quiet
  rw [chain_eq] at quiet ⊢
  obtain ⟨quietFirst, quietMore⟩ := List.append_eq_nil_iff.mp quiet
  obtain ⟨used, e, split, tree, derivation⟩ := first quietFirst
  obtain ⟨usedMore, whole, splitMore, treeMore, derivationMore⟩ :=
    more used e tree derivation.only quietMore
  refine ⟨used ++ usedMore, whole, ?_, treeMore, derivationMore⟩
  rw [List.append_assoc]
  exact split.trans (congrArg (used ++ ·) splitMore)

theorem clean_joins {rank : Rank} {t : Token} {op : Operator} {rest before : List Token}
    {left : Tree Int Span} (sign : rank.operator? t = some op)
    (right : Clean rank.part [] rest (operand atEnd rank rest))
    (more : ∀ before e, Tree.node op t.span left.read (operand atEnd rank rest).tree = Tree.read e →
      Derives rank.whole before e → Clean rank.whole before (operand atEnd rank rest).rest
        (extend atEnd rank (.node op t.span left.read (operand atEnd rank rest).tree)
          (operand atEnd rank rest).rest))
    (derivation : Derives rank.whole before left) :
    Clean rank.whole before (t :: rest) (extend atEnd rank left.read (t :: rest)) := by
  intro quiet
  rw [extend_operator atEnd sign] at quiet ⊢
  obtain ⟨quietRight, quietMore⟩ := List.append_eq_nil_iff.mp quiet
  obtain ⟨used, e, split, tree, next⟩ := right quietRight
  obtain ⟨usedMore, whole, splitMore, treeMore, derivationMore⟩ :=
    more (before ++ t :: used) (.node op t.span left e) (by rw [tree, Tree.read_node])
      (derivation.joined sign next) quietMore
  refine ⟨t :: (used ++ usedMore), whole, ?_, treeMore, ?_⟩
  · rw [List.cons_append, List.append_assoc]
    exact congrArg (t :: ·) (split.trans (congrArg (used ++ ·) splitMore))
  · simpa using derivationMore

theorem clean_chain (rank : Rank) (ts : List Token) :
    Clean rank.whole [] ts (chain atEnd rank ts) := by
  refine (reader_induction atEnd (fun ts => Clean .factor [] ts (factor atEnd ts))
    (fun rank ts => Clean rank.part [] ts (operand atEnd rank ts))
    (fun rank ts => Clean rank.whole [] ts (chain atEnd rank ts))
    (fun rank left ts => ∀ before e, left = Tree.read e → Derives rank.whole before e →
      Clean rank.whole before ts (extend atEnd rank left ts))
    ?nothing ?number (fun _ _ opens inner => clean_group opens inner) ?other ?product ?sum
    (fun _ _ => clean_begins) ?ends ?joins).2.1 rank ts
  case nothing =>
    intro quiet
    simp [factor_nil] at quiet
  case number =>
    intro t rest n lexeme _
    rw [factor_number atEnd lexeme]
    exact ⟨[t], .leaf n, rfl, rfl, .number lexeme⟩
  case other =>
    intro t rest number opens quiet
    simp [factor_other atEnd number opens] at quiet
  case product =>
    intro ts factor
    rw [operand_product]
    exact factor
  case sum =>
    intro ts chain
    rw [operand_sum]
    exact chain
  case ends =>
    intro rank left ts stops before e tree derivation _
    rw [extend_stops atEnd stops]
    exact ⟨[], e, rfl, tree, by rwa [List.append_nil]⟩
  case joins =>
    intro rank left t rest op sign right more before e tree derivation
    subst tree
    exact clean_joins sign right more derivation

theorem derives_of_clean {ts : List Token} (quiet : (chain atEnd .sum ts).ended.notes = []) :
    ∃ e, Derives .expression ts e ∧ (chain atEnd .sum ts).tree = e.read := by
  have early : (chain atEnd .sum ts).notes = [] := by
    have begins := (chain atEnd .sum ts).prefix_ended
    rw [quiet] at begins
    exact List.prefix_nil.mp begins
  obtain ⟨used, e, split, tree, derivation⟩ := clean_chain .sum ts early
  have consumed : (chain atEnd .sum ts).rest = [] := by
    unfold Parsed.ended at quiet
    split at quiet
    · assumption
    · simp at quiet
  rw [consumed, List.append_nil] at split
  exact ⟨e, split ▸ derivation, tree⟩

end Sound

/-! ## Evaluating sentences -/

/-- A sentence evaluates to its meaning, or to its first division by zero. -/
theorem evaluate_derives (file : Text) {ts : List Token} {e : Tree Int Span}
    (derivation : Derives .expression ts e) :
    match e.fault Int.cast with
    | none => evaluate file ts = ⟨.number (e.denote Int.cast), none, [], #[]⟩
    | some d => ∃ rest, evaluate file ts = .aborted ⟨.divisionByZero, d.1⟩ rest #[] := by
  have follows := (Evaluator.start file ts).next_follows
  have value : e.read.value = _ := Tree.value_number Int.cast e
  simp only [Evaluator.start, chain_derives derivation, Reader.Follows, value] at follows
  cases fault : e.fault Int.cast with
  | none =>
    simp only [fault] at follows
    exact follows
  | some d =>
    simp only [fault] at follows
    obtain ⟨rest, notes, begins, aborts⟩ := follows
    rw [List.prefix_nil.mp begins] at aborts
    exact ⟨rest, aborts⟩

theorem evaluate_clean {file : Text} {ts : List Token} (finishes : (evaluate file ts).abort = none)
    (quiet : (evaluate file ts).diagnostics = #[]) : ∃ e, Derives .expression ts e := by
  have follows := (Evaluator.start file ts).next_follows
  unfold Reader.Follows at follows
  split at follows
  · have notes := congrArg Outcome.diagnostics follows
    rw [show (Evaluator.start file ts).next.1 = evaluate file ts from rfl, quiet] at notes
    have silent : (chain (Evaluator.endOf file ts) .sum ts).ended.notes = [] := by
      simpa [Evaluator.start] using notes.symm
    obtain ⟨e, derivation, _⟩ := derives_of_clean silent
    exact ⟨e, derivation⟩
  · obtain ⟨rest, notes, _, aborts⟩ := follows
    rw [show evaluate file ts = _ from aborts] at finishes
    cases finishes

/-- Evaluation has nothing to say exactly about the sentences of the grammar in
which nothing is divided by zero, and gives them their meaning. -/
theorem evaluate_clean_iff_sentence (file : Text) (ts : List Token) :
    (((evaluate file ts).abort = none ∧ (evaluate file ts).diagnostics = #[]) ↔
      ∃ e, Derives .expression ts e ∧ ∀ d ∈ e.divisions Int.cast, d.2 ≠ 0) ∧
    ∀ e, Derives .expression ts e →
      (evaluate file ts).abort = none ∧ (evaluate file ts).diagnostics = #[] →
        (∀ d ∈ e.divisions Int.cast, d.2 ≠ 0) ∧
          (evaluate file ts).value = .number (e.denote Int.cast) := by
  have sentence : ∀ e, Derives .expression ts e →
      (evaluate file ts).abort = none ∧ (evaluate file ts).diagnostics = #[] →
        (∀ d ∈ e.divisions Int.cast, d.2 ≠ 0) ∧
          (evaluate file ts).value = .number (e.denote Int.cast) := by
    rintro e derivation ⟨finishes, _⟩
    have outcome := evaluate_derives file derivation
    cases fault : e.fault Int.cast with
    | none =>
      simp only [fault] at outcome
      exact ⟨Tree.fault_eq_none.mp fault, by rw [outcome]⟩
    | some d =>
      simp only [fault] at outcome
      obtain ⟨rest, aborts⟩ := outcome
      rw [aborts] at finishes
      cases finishes
  refine ⟨⟨?_, ?_⟩, sentence⟩
  · rintro ⟨finishes, quiet⟩
    obtain ⟨e, derivation⟩ := evaluate_clean finishes quiet
    exact ⟨e, derivation, (sentence e derivation ⟨finishes, quiet⟩).1⟩
  · rintro ⟨e, derivation, divisors⟩
    have outcome := evaluate_derives file derivation
    rw [Tree.fault_eq_none.mpr divisors] at outcome
    simp only at outcome
    rw [outcome]
    exact ⟨rfl, rfl⟩

end Reckoner
