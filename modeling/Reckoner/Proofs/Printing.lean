import Reckoner.Report
import Reckoner.Proofs.Grammar
import Reckoner.Proofs.Spacing

/-! # Printing expressions

An expression is printed with parentheses only where the ranks of its operators
need them: around a sum that is an operand of a product, and around a right
operand of the same rank.  The printed words derive the expression, with every
operation at the place of its sign (`derives_print`), and no layout of them runs
two numerals together.  So compiling any layout of a printed expression gives
its meaning or names its first division by zero (`compileAt_print`). -/
set_option autoImplicit false
namespace Reckoner

namespace Tree
variable {Tag : Type}

def rank? : Tree Nat Tag → Option Rank
  | .leaf _ => none
  | .node op _ _ _ => some op.rank

/-- A sum is parenthesized as the operand of a product. -/
def wrapsLeft (op : Operator) (e : Tree Nat Tag) : Bool :=
  e.rank? = some .sum && op.rank = .product

/-- A right operand is also parenthesized when it is of the operator's rank. -/
def wrapsRight (op : Operator) (e : Tree Nat Tag) : Bool :=
  e.wrapsLeft op || e.rank? = some op.rank

end Tree

def enclose (wrapped : Bool) (ws : List Word) : List Word :=
  if wrapped then .sign .lparen :: (ws ++ [.sign .rparen]) else ws

namespace Tree
variable {Tag : Type}

def print : Tree Nat Tag → List Word
  | .leaf n => [.numeral n]
  | .node op _ left right =>
    enclose (left.wrapsLeft op) left.print ++
      .sign op.symbol :: enclose (right.wrapsRight op) right.print

/-- The expression with every operation tagged by the place of its sign among
the printed words, counted from a number on. -/
def places (k : Nat) : Tree Nat Tag → Tree Nat Nat
  | .leaf n => .leaf n
  | .node op _ left right =>
    let sign := k + (enclose (left.wrapsLeft op) left.print).length
    .node op sign (left.places (k + (left.wrapsLeft op).toNat))
      (right.places (sign + 1 + (right.wrapsRight op).toNat))

/-- What the printed words of an expression derive. -/
def goal : Tree Nat Tag → Nonterminal
  | .leaf _ => .factor
  | .node op _ _ _ => op.rank.whole

end Tree

/-! ## Printed words derive the expression -/

theorem Derives.ofFactor {n : Nonterminal} {ts : List Token} {e : Tree Int Span}
    (factor : Derives .factor ts e) : Derives n ts e := by
  cases n with
  | factor => exact factor
  | term => exact .factor factor
  | expression => exact .term (.factor factor)

theorem Derives.toExpression {n : Nonterminal} {ts : List Token} {e : Tree Int Span}
    (derives : Derives n ts e) : Derives .expression ts e := by
  cases n with
  | factor => exact derives.ofFactor
  | term => exact .term derives
  | expression => exact derives

section Derivation
variable {Tag : Type} (spans : Nat → Span)

theorem derives_enclose {m n : Nonterminal} {wrapped : Bool} {ws : List Word}
    {e : Nat → Tree Int Span} (inner : ∀ k, Derives m (Word.tokens spans k ws) (e k))
    (bare : wrapped = false → ∀ {ts t}, Derives m ts t → Derives n ts t) (k : Nat) :
    Derives n (Word.tokens spans k (enclose wrapped ws)) (e (k + wrapped.toNat)) := by
  cases wrapped with
  | false => exact bare rfl (inner k)
  | true =>
    have shape : Word.tokens spans k (enclose true ws) =
        ⟨.symbol .lparen, spans k⟩ :: (Word.tokens spans (k + 1) ws ++
          [⟨.symbol .rparen, spans (k + 1 + ws.length)⟩]) := by
      rw [enclose, if_pos rfl, Word.tokens, Word.tokens_append]
      rfl
    rw [shape]
    exact (Derives.group rfl rfl (inner (k + 1)).toExpression).ofFactor

theorem derives_left (op : Operator) {left : Tree Nat Tag} (bare : left.wrapsLeft op = false)
    {ts : List Token} {e : Tree Int Span} (derivation : Derives left.goal ts e) :
    Derives op.rank.whole ts e := by
  cases left with
  | leaf n => exact derivation.ofFactor
  | node inner tag left right =>
    cases outerRank : op.rank with
    | sum => exact derivation.toExpression
    | product =>
      cases innerRank : inner.rank with
      | sum => simp [Tree.wrapsLeft, Tree.rank?, outerRank, innerRank] at bare
      | product =>
        rw [Tree.goal, innerRank] at derivation
        exact derivation

theorem derives_right (op : Operator) {right : Tree Nat Tag} (bare : right.wrapsRight op = false)
    {ts : List Token} {e : Tree Int Span} (derivation : Derives right.goal ts e) :
    Derives op.rank.part ts e := by
  cases right with
  | leaf n => exact derivation.ofFactor
  | node inner tag left right =>
    cases outerRank : op.rank with
    | sum =>
      cases innerRank : inner.rank with
      | sum => simp [Tree.wrapsRight, Tree.rank?, outerRank, innerRank] at bare
      | product =>
        rw [Tree.goal, innerRank] at derivation
        exact derivation
    | product =>
      cases innerRank : inner.rank <;>
        simp [Tree.wrapsRight, Tree.wrapsLeft, Tree.rank?, outerRank, innerRank] at bare

theorem derives_print (e : Tree Nat Tag) (k : Nat) :
    Derives e.goal (Word.tokens spans k e.print) ((e.places k).map Int.ofNat spans) := by
  induction e generalizing k with
  | leaf n => exact .number rfl
  | node op tag left right leftDerives rightDerives =>
    let sign : Token := ⟨.symbol op.symbol,
      spans (k + (enclose (left.wrapsLeft op) left.print).length)⟩
    have sound : op.rank.operator? sign = some op := Rank.operator?_eq_some.mpr ⟨rfl, rfl⟩
    have first := derives_enclose spans leftDerives (derives_left op) k
    have next := derives_enclose spans rightDerives (derives_right op)
      (k + (enclose (left.wrapsLeft op) left.print).length + 1)
    rw [Tree.print, Word.tokens_append]
    exact first.joined sound next

end Derivation

/-! ## Printed words stand apart -/

/-- Two words are not both numerals. -/
def Word.Apart (w v : Word) : Prop := ¬ (w.isNumeral = true ∧ v.isNumeral = true)

theorem Spacing.separates_of_apart (spacing : Spacing) {ws : List Word}
    (apart : ws.IsChain Word.Apart) (i : Nat) : spacing.Separates i ws := by
  induction apart generalizing i with
  | nil => trivial
  | singleton w => trivial
  | cons_cons apart more ih => exact ⟨fun both => absurd both apart, ih (i + 1)⟩

theorem apart_sign {ws more : List Word} (s : Symbol) (first : ws.IsChain Word.Apart)
    (next : more.IsChain Word.Apart) : (ws ++ .sign s :: more).IsChain Word.Apart := by
  refine List.isChain_append.mpr ⟨first, ?_, ?_⟩
  · refine next.cons fun v _ both => ?_
    cases both.1
  · intro w _ v head both
    cases head
    cases both.2

theorem apart_enclose (wrapped : Bool) {ws : List Word} (apart : ws.IsChain Word.Apart) :
    (enclose wrapped ws).IsChain Word.Apart := by
  cases wrapped with
  | false => exact apart
  | true => exact apart_sign .lparen .nil (apart_sign .rparen apart .nil)

theorem apart_print {Tag : Type} (e : Tree Nat Tag) : e.print.IsChain Word.Apart := by
  induction e with
  | leaf n => exact .singleton _
  | node op tag left right leftApart rightApart =>
    exact apart_sign op.symbol (apart_enclose _ leftApart) (apart_enclose _ rightApart)

/-! ## Places of divisions -/

theorem split_enclose (wrapped : Bool) (before behind : List Word) (w : Word) :
    ∃ outer rest, enclose wrapped (before ++ w :: behind) = outer ++ w :: rest ∧
      outer.length = wrapped.toNat + before.length := by
  cases wrapped with
  | false => exact ⟨before, behind, rfl, (Nat.zero_add _).symm⟩
  | true =>
    refine ⟨.sign .lparen :: before, behind ++ [.sign .rparen], ?_, Nat.add_comm _ 1⟩
    simp [enclose]

/-- A slash stands at the place of every division. -/
theorem slash_of_mem_divisions {Tag : Type} {number : Nat → Rat} {e : Tree Nat Tag} {k : Nat}
    {d : Nat × Rat} (member : d ∈ (e.places k).divisions number) :
    ∃ before behind, e.print = before ++ .sign .slash :: behind ∧ d.1 = k + before.length := by
  induction e generalizing k with
  | leaf n => cases member
  | node op tag left right leftSlash rightSlash =>
    rcases List.mem_append.mp member with inside | here
    · rcases List.mem_append.mp inside with first | next
      · obtain ⟨before, behind, print, place⟩ := leftSlash first
        obtain ⟨outer, rest, split, count⟩ :=
          split_enclose (left.wrapsLeft op) before behind (.sign .slash)
        refine ⟨outer, rest ++ .sign op.symbol :: enclose (right.wrapsRight op) right.print, ?_, ?_⟩
        · rw [Tree.print, print, split, List.append_assoc, List.cons_append]
        · omega
      · obtain ⟨before, behind, print, place⟩ := rightSlash next
        obtain ⟨outer, rest, split, count⟩ :=
          split_enclose (right.wrapsRight op) before behind (.sign .slash)
        refine ⟨enclose (left.wrapsLeft op) left.print ++ .sign op.symbol :: outer, rest, ?_, ?_⟩
        · rw [Tree.print, print, split, List.append_assoc, List.cons_append]
        · rw [List.length_append, List.length_cons]
          omega
    · split at here
      next division =>
        cases List.mem_singleton.mp here
        subst division
        exact ⟨_, _, rfl, rfl⟩
      next => cases here

theorem Tree.map_places {Tag : Type} (e : Tree Nat Tag) (k : Nat) :
    (e.places k).map id (fun _ => ()) = e.map id fun _ => () := by
  induction e generalizing k with
  | leaf n => rfl
  | node op tag left right leftMap rightMap => simp only [places, map, leftMap, rightMap]

theorem Tree.denote_places {Tag : Type} (number : Nat → Rat) (e : Tree Nat Tag) (k : Nat) :
    (e.places k).denote number = e.denote number := by
  have same := congrArg (denote number) (e.map_places k)
  rwa [denote_map, denote_map] at same

/-! ## Compiling printed expressions -/

/-- Compiling a printed expression, however it is spaced, finds its meaning
and nothing else, or its first division by zero at the slash in the text. -/
theorem compileAt_print (spacing : Spacing) (file : Text) (e : Tree Nat Unit) :
    let report := compileAt file (spacing.text 0 e.print)
    match (e.places 0).fault Nat.cast with
    | none =>
      report.diagnostics = [] ∧ report.failure = none ∧ report.value = .number (e.denote Nat.cast)
    | some (place, _) =>
      let before := spacing.text 0 (e.print.take place)
      let span : Span :=
        ⟨(Position.origin file).behind before, (Position.origin file).behind (before ++ utf8 "/")⟩
      (∃ behind, spacing.text 0 e.print = before ++ (utf8 "/" ++ behind)) ∧
        report.diagnostics = [⟨.fatal, utf8 "division by zero", span⟩] ∧
        report.failure = some (.aborted ⟨.divisionByZero, span⟩) ∧ report.value = .lost := by
  intro report
  let spans := spacing.span (.origin file) e.print
  have scanned : scan file (spacing.text 0 e.print) = ⟨Word.tokens spans 0 e.print, []⟩ :=
    scan_text spacing file (spacing.separates_of_apart (apart_print e) 0)
  have numbers : (Int.cast ∘ Int.ofNat : Nat → Rat) = Nat.cast := rfl
  have outcome := evaluate_derives file (derives_print spans e 0).toExpression
  rw [Tree.fault_map, numbers] at outcome
  cases fault : (e.places 0).fault Nat.cast with
  | none =>
    simp only [fault, Option.map_none, Tree.denote_map, numbers, Tree.denote_places] at outcome
    simp only [report, compileAt, scanned, outcome, List.append_nil, Option.map_none, and_self]
  | some d =>
    obtain ⟨place, divisor⟩ := d
    simp only [fault, Option.map_some] at outcome
    obtain ⟨rest, aborts⟩ := outcome
    obtain ⟨before, behind, print, here⟩ :=
      slash_of_mem_divisions (List.mem_of_find?_eq_some fault)
    obtain rfl : place = before.length := here.trans (Nat.zero_add _)
    have took : e.print.take before.length = before := by rw [print, List.take_left]
    have slash : spacing.spell before.length (.sign .slash) = utf8 "/" := rfl
    have span : spans before.length = ⟨(Position.origin file).behind (spacing.text 0 before),
        (Position.origin file).behind (spacing.text 0 before ++ utf8 "/")⟩ := by
      simp [spans, Spacing.span, print, slash]
    rw [span] at aborts
    simp only [took, report, compileAt, scanned, aborts]
    refine ⟨⟨spacing.text (before.length + 1) behind, ?_⟩, rfl, rfl, rfl⟩
    rw [print, Spacing.text_append, Nat.zero_add, slash]

end Reckoner
