import Reckoner.Proofs.Descent

/-! # Reading and computing at once

The reader computes while it reads.  Here its runs are compared with recursive
descent, which reads first: over the tokens of an operand, a run goes on with
the value of the operand's tree, or it stops at the tree's first failing
division with a beginning of the operand's notes.  No step of the reader looks
at a value, so this holds of every token list. -/
set_option autoImplicit false
namespace Reckoner

open Descent

/-! ## Signs and the reader's operations -/

theorem Rank.operator?_eq_some {rank : Rank} {t : Token} {op : Operator} :
    rank.operator? t = some op ↔ t.lexeme = .symbol op.symbol ∧ op.rank = rank := by
  simp only [Rank.operator?, Option.filter_eq_some_iff, decide_eq_true_eq]
  refine and_congr_left fun _ => ?_
  unfold Token.operator?
  split
  all_goals cases op <;> simp_all [Operator.symbol]

theorem complete_none (v : Value) : complete none v = .ok v := rfl

/-- An operation of the reader is the operator's, at the sign's span. -/
theorem complete_sign {t : Token} {op : Operator} (sign : t.lexeme = .symbol op.symbol)
    (a b : Value) : complete (some (a, t)) b =
      match op.combine a b with
      | none => .error ⟨.divisionByZero, t.span⟩
      | some v => .ok v := by
  have kind : t.kind = .symbol op.symbol := by simp [Token.kind, sign, Lexeme.kind]
  cases a with
  | lost => simp [complete, Value.apply, Operator.combine]
  | number a =>
    cases b with
    | lost => simp [complete, Value.apply, Operator.combine]
    | number b =>
      by_cases zero : b = 0 <;>
        cases op <;> simp [complete, Value.apply, Value.operate, Operator.combine, kind,
          Operator.symbol, Operator.compute, zero, Except.map]

/-! ## Reader states between operands -/

/-- Nothing waits in a level for an operand of the rank or of a tighter one. -/
def Level.Idle (level : Level) : Rank → Prop
  | .sum => level.sum = none ∧ level.product = none
  | .product => level.product = none

def Level.await (level : Level) (waiting : Option (Value × Token)) : Rank → Level
  | .sum => { level with sum := waiting }
  | .product => { level with product := waiting }

namespace Reader

def noteAll (r : Reader) (notes : List Diagnostic) : Reader :=
  { r with diagnostics := r.diagnostics ++ notes.toArray }

/-- An operand of the rank is due, and this waits for it. -/
def await (r : Reader) (rank : Rank) (waiting : Option (Value × Token)) : Reader :=
  { r with level := r.level.await waiting rank, phase := .operand }

/-- An operand with this value is complete. -/
def holding (r : Reader) (v : Value) : Reader := { r with phase := .operator v }

/-- The run behind a factor. -/
def resume (atEnd : Span) (r : Reader) (v : Value) (rest : List Token) : Outcome :=
  match complete r.level.product v with
  | .ok w => run atEnd ({ r with level := { r.level with product := none } }.holding w) rest
  | .error a => .aborted a rest r.diagnostics

section Steps
variable {atEnd : Span} {r : Reader}

theorem run_factor_move {s : Reader} {v : Value} {t : Token} (rest : List Token)
    (move : r.step t = s.factor v) : run atEnd r (t :: rest) = resume atEnd s v rest := by
  rw [run, move, factor, resume]
  cases complete s.level.product v <;> rfl

theorem resume_nil (v : Value) : resume atEnd r v [] = factorAtEnd atEnd r v := by
  rw [resume, factorAtEnd]
  cases complete r.level.product v <;> rfl

theorem run_skipping (r : Reader) (kept : Value) (ts : List Token) :
    run atEnd { r with phase := .skipping kept } ts = resume atEnd r kept (recover ts) := by
  induction ts with
  | nil => rw [recover, resume_nil]; rfl
  | cons t rest ih =>
    by_cases ends : t.endsRecovery = true
    · have move : { r with phase := .skipping kept }.step t = r.factor kept := by
        simp only [step, skip, if_pos ends, factor]
      rw [run_factor_move rest move, recover, if_pos ends]
    · rw [run, recover, if_neg ends]
      simp only [step, skip, if_neg ends]
      exact ih

/-- Reading a token that is skipped. -/
theorem run_skip {s : Reader} {kept : Value} {t : Token} (rest : List Token)
    (move : r.step t = s.skip kept t) :
    run atEnd r (t :: rest) = resume atEnd s kept (recover (t :: rest)) := by
  by_cases ends : t.endsRecovery = true
  · rw [recover, if_pos ends]
    exact run_factor_move rest (by rw [move, skip, if_pos ends])
  · rw [run, move, skip, if_neg ends, recover, if_neg ends]
    exact run_skipping s kept rest

/-- A sign leaves what is complete waiting for the sign's right operand. -/
theorem run_sign {rank : Rank} {t : Token} {op : Operator} (idle : r.level.Idle rank)
    (sign : rank.operator? t = some op) (v : Value) (rest : List Token) :
    run atEnd (r.holding v) (t :: rest) = run atEnd (r.await rank (some (v, t))) rest := by
  obtain ⟨lexeme, ranked⟩ := Rank.operator?_eq_some.mp sign
  subst ranked
  rw [run]
  cases op with
  | add | sub =>
    have free : r.level.sum = none := idle.1
    simp [step, operator, holding, lexeme, Operator.symbol, free, complete, await, Level.await,
      Operator.rank]
  | mul | div =>
    simp [step, operator, holding, lexeme, Operator.symbol, await, Level.await, Operator.rank]

theorem not_product_sign {t : Token} (stop : Rank.product.operator? t = none) :
    ¬(t.lexeme = .symbol .star ∨ t.lexeme = .symbol .slash) := by
  rintro (sign | sign)
  · simp [Rank.operator?, Token.operator?, sign, Operator.rank] at stop
  · simp [Rank.operator?, Token.operator?, sign, Operator.rank] at stop

theorem not_sum_sign {t : Token} (stop : Rank.sum.operator? t = none) :
    ¬(t.lexeme = .symbol .plus ∨ t.lexeme = .symbol .minus) := by
  rintro (sign | sign)
  · simp [Rank.operator?, Token.operator?, sign, Operator.rank] at stop
  · simp [Rank.operator?, Token.operator?, sign, Operator.rank] at stop

/-- Closing a level takes nothing from it but the value. -/
theorem close_congr {s : Reader} (outer : s.outer = r.outer)
    (diagnostics : s.diagnostics = r.diagnostics) (v : Value) (t : Token) :
    s.close v t = r.close v t := by
  unfold close
  rw [outer, diagnostics]
  split
  · rfl
  · split
    · rfl
    · simp only [skip, factor, note]

/-- Before a token that extends no product, a sum that waits may as well be
complete. -/
theorem run_sum {waiting : Option (Value × Token)} {v w : Value} {rest : List Token}
    (done : complete waiting v = .ok w) (free : r.level.sum = none) (stops : Stops .product rest) :
    run atEnd ({ r with level := r.level.await waiting .sum }.holding v) rest =
      run atEnd (r.holding w) rest := by
  cases rest with
  | nil =>
    simp only [run, finish, holding, Level.await]
    cases r.outer with
    | nil => simp [unwind, done, free, complete_none]
    | cons level outer => simp [unwind, done, free, complete_none]
  | cons t rest =>
    have other := not_product_sign (stops t rfl)
    have closes : ({ r with level := r.level.await waiting .sum }.holding v).close w t =
        (r.holding w).close w t := close_congr rfl rfl w t
    simp only [holding, Level.await] at closes
    simp only [run, step, holding, operator, Level.await, if_neg other, done, free,
      complete_none, closes]

/-- The run behind the expression of a group. -/
theorem run_group (level : Level) {p : Parsed} (sum : Stops .sum p.rest)
    (product : Stops .product p.rest) (v : Value) :
    run atEnd (({ r with level := {}, outer := level :: r.outer }.noteAll p.notes).holding v)
        p.rest =
      resume atEnd ({ r with level := level }.noteAll (p.grouped atEnd).notes) v
        (p.grouped atEnd).rest := by
  cases found : p.rest with
  | nil =>
    simp only [Parsed.grouped, found, resume_nil]
    simp only [run, finish, holding, noteAll, unwind, complete_none, factorAtEnd]
    simp
  | cons t rest =>
    rw [found] at sum product
    have tight := not_product_sign (product t rfl)
    have loose := not_sum_sign (sum t rfl)
    by_cases closes : t.lexeme = .symbol .rparen
    · have move :
          (({ r with level := {}, outer := level :: r.outer }.noteAll p.notes).holding v).step t =
            ({ r with level := level }.noteAll p.notes).factor v := by
        simp only [step, holding, noteAll, operator, if_neg tight, if_neg loose, complete_none,
          close, if_pos closes]
        rfl
      simp only [Parsed.grouped, found, if_pos closes]
      exact run_factor_move rest move
    · have move :
          (({ r with level := {}, outer := level :: r.outer }.noteAll p.notes).holding v).step t =
            ({ r with level := level }.noteAll (p.notes ++ [Diagnostic.unclosed t.span])).skip v
              t := by
        simp only [step, holding, noteAll, operator, if_neg tight, if_neg loose, complete_none,
          close, if_neg closes, note, skip, factor]
        simp
      simp only [Parsed.grouped, found, if_neg closes]
      exact run_skip rest move

end Steps

/-! ## Runs that follow a parse -/

/-- An outcome goes on with the value of what was read, or is the abort of its
first failing division, behind a beginning of its notes. -/
def Follows (o : Outcome) (seen : Array Diagnostic) (p : Parsed) (onward : Value → Outcome) :
    Prop :=
  match p.tree.value with
  | .ok v => o = onward v
  | .error span => ∃ rest notes, notes <+: p.notes ∧
      o = .aborted ⟨.divisionByZero, span⟩ rest (seen ++ notes.toArray)

section Following
variable {o : Outcome} {seen : Array Diagnostic} {p q : Parsed} {onward next : Value → Outcome}

theorem Follows.mono (follows : Follows o seen p onward) (tree : q.tree = p.tree)
    (notes : p.notes <+: q.notes) (goes : ∀ v, onward v = next v) : Follows o seen q next := by
  unfold Follows at follows ⊢
  rw [tree]
  split at follows
  · exact follows.trans (goes _)
  · obtain ⟨rest, early, begins, aborts⟩ := follows
    exact ⟨rest, early, begins.trans notes, aborts⟩

theorem Follows.behind {notes : List Diagnostic}
    (follows : Follows o (seen ++ notes.toArray) p onward) :
    Follows o seen (p.behind notes) onward := by
  unfold Follows at follows ⊢
  simp only [Parsed.behind]
  split at follows
  · exact follows
  · obtain ⟨rest, early, begins, aborts⟩ := follows
    refine ⟨rest, notes ++ early, (List.prefix_append_right_inj notes).mpr begins, ?_⟩
    simp [aborts]

/-- A failed division fails every tree that is built upon it. -/
theorem value_extend_error (atEnd : Span) {rank : Rank} {left : Tree Value Span} {span : Span}
    (ts : List Token) (fails : left.value = .error span) :
    (extend atEnd rank left ts).tree.value = .error span := by
  refine (reader_induction atEnd (fun _ => True) (fun _ _ => True) (fun _ _ => True)
    (fun rank left ts => left.value = .error span →
      (extend atEnd rank left ts).tree.value = .error span)
    trivial (fun _ _ _ _ => trivial) (fun _ _ _ _ => trivial) (fun _ _ _ _ => trivial)
    (fun _ _ => trivial) (fun _ _ => trivial) (fun _ _ _ _ => trivial)
    ?ends ?joins).2.2 rank left ts fails
  case ends =>
    intro rank left ts stops fails
    rw [extend_stops atEnd stops]
    exact fails
  case joins =>
    intro rank left t rest op sign _ more fails
    rw [extend_operator atEnd sign]
    exact more (by simp only [Tree.value, fails])

end Following

/-! ## The readers, one after the other -/

section Readers
variable (atEnd : Span)

def FactorRuns (ts : List Token) : Prop :=
  ∀ r : Reader, r.phase = .operand →
    Follows (run atEnd r ts) r.diagnostics (Descent.factor atEnd ts) fun v =>
      resume atEnd (r.noteAll (Descent.factor atEnd ts).notes) v (Descent.factor atEnd ts).rest

/-- Behind an operand, what waits for it is completed. -/
def OperandRuns (rank : Rank) (ts : List Token) : Prop :=
  ∀ (r : Reader) (waiting : Option (Value × Token)), r.level.Idle rank →
    (rank = .sum → ∀ v, ∃ w, complete waiting v = .ok w) →
    Follows (run atEnd (r.await rank waiting) ts) r.diagnostics (Descent.operand atEnd rank ts)
      fun v =>
        match complete waiting v with
        | .ok w => run atEnd ((r.noteAll (Descent.operand atEnd rank ts).notes).holding w)
            (Descent.operand atEnd rank ts).rest
        | .error a => .aborted a (Descent.operand atEnd rank ts).rest
            (r.noteAll (Descent.operand atEnd rank ts).notes).diagnostics

def ChainRuns (rank : Rank) (ts : List Token) : Prop :=
  ∀ r : Reader, r.level.Idle rank →
    Follows (run atEnd { r with phase := .operand } ts) r.diagnostics (chain atEnd rank ts) fun v =>
      run atEnd ((r.noteAll (chain atEnd rank ts).notes).holding v) (chain atEnd rank ts).rest

def ExtendRuns (rank : Rank) (left : Tree Value Span) (ts : List Token) : Prop :=
  ∀ (r : Reader) (v : Value), r.level.Idle rank → left.value = .ok v →
    Follows (run atEnd (r.holding v) ts) r.diagnostics (extend atEnd rank left ts) fun w =>
      run atEnd ((r.noteAll (extend atEnd rank left ts).notes).holding w)
        (extend atEnd rank left ts).rest

variable {atEnd}

theorem factorRuns_nil : FactorRuns atEnd [] := by
  intro r ready
  simp only [Follows, factor_nil, Tree.value]
  rw [resume_nil, run, finish, ready]
  simp [note, noteAll]

theorem factorRuns_number {t : Token} {n : Int} (number : t.lexeme = .number n)
    (rest : List Token) : FactorRuns atEnd (t :: rest) := by
  intro r ready
  simp only [Follows, factor_number atEnd number, Tree.value]
  have move : r.step t = r.factor (.ofInt n) := by
    simp only [step, ready, Reader.operand, number]
  rw [run_factor_move rest move]
  simp [noteAll]

theorem factorRuns_other {t : Token} (number : ∀ n, t.lexeme ≠ .number n)
    (opens : t.lexeme ≠ .symbol .lparen) (rest : List Token) : FactorRuns atEnd (t :: rest) := by
  intro r ready
  simp only [Follows, factor_other atEnd number opens, Tree.value]
  have move : r.step t = (r.note (.unexpected t)).skip .lost t := by
    simp only [step, ready, Reader.operand]
  rw [run_skip rest move]
  simp [note, noteAll]

theorem factorRuns_group {t : Token} (opens : t.lexeme = .symbol .lparen) {rest : List Token}
    (inner : ChainRuns atEnd .sum rest) : FactorRuns atEnd (t :: rest) := by
  intro r ready
  have move : run atEnd r (t :: rest) =
      run atEnd { r with level := {}, outer := r.level :: r.outer, phase := .operand } rest := by
    simp only [run, step, ready, Reader.operand, opens]
  rw [move, factor_group atEnd opens]
  have follows := inner { r with level := {}, outer := r.level :: r.outer } ⟨rfl, rfl⟩
  refine follows.mono ?_ ?_ ?_
  · unfold Parsed.grouped
    split
    · rfl
    · split <;> rfl
  · unfold Parsed.grouped
    split
    · exact List.prefix_append _ _
    · split
      · exact List.prefix_refl _
      · exact List.prefix_append _ _
  · intro v
    have stops := stops_chain atEnd .sum rest
    exact run_group r.level stops.1 stops.2 v

theorem operandRuns_product {ts : List Token} (factor : FactorRuns atEnd ts) :
    OperandRuns atEnd .product ts := by
  intro r waiting idle _
  have level : { r.level with product := none } = r.level := by
    rw [← show r.level.product = none from idle]
  rw [operand_product]
  refine (factor (r.await .product waiting) rfl).mono rfl (List.prefix_refl _) ?_
  intro v
  simp only [resume, noteAll, await, Level.await]
  cases complete waiting v with
  | error a => rfl
  | ok w => simp only [level]; rfl

theorem operandRuns_sum {ts : List Token} (chain : ChainRuns atEnd .product ts) :
    OperandRuns atEnd .sum ts := by
  intro r waiting idle settles
  rw [operand_sum]
  have follows := chain { r with level := r.level.await waiting .sum } idle.2
  refine follows.mono rfl (List.prefix_refl _) ?_
  intro v
  obtain ⟨w, done⟩ := settles rfl v
  rw [done]
  have stops := (stops_chain atEnd .product ts).1
  exact run_sum (r := r.noteAll (Descent.chain atEnd .product ts).notes) done idle.1 stops

theorem chainRuns_begins {rank : Rank} {ts : List Token} (first : OperandRuns atEnd rank ts)
    (more : ExtendRuns atEnd rank (Descent.operand atEnd rank ts).tree
      (Descent.operand atEnd rank ts).rest) : ChainRuns atEnd rank ts := by
  intro r idle
  have level : r.level.await none rank = r.level := by
    cases rank with
    | sum => rw [Level.await, ← idle.1]
    | product => rw [Level.await, ← show r.level.product = none from idle]
  have follows := first r none idle (fun _ v => ⟨v, rfl⟩)
  simp only [await, level, complete_none] at follows
  rw [chain_eq]
  cases value : (Descent.operand atEnd rank ts).tree.value with
  | ok v =>
    simp only [Follows, value] at follows
    rw [follows]
    refine Follows.behind
      ((more (r.noteAll (Descent.operand atEnd rank ts).notes) v idle value).mono
        rfl (List.prefix_refl _) ?_)
    intro w
    simp [noteAll, Parsed.behind]
  | error span =>
    simp only [Follows, value] at follows
    obtain ⟨rest, notes, begins, aborts⟩ := follows
    simp only [Follows, Parsed.behind, value_extend_error atEnd _ value]
    exact ⟨rest, notes, begins.trans (List.prefix_append _ _), aborts⟩

theorem extendRuns_ends {rank : Rank} {ts : List Token} (stops : Stops rank ts)
    (left : Tree Value Span) : ExtendRuns atEnd rank left ts := by
  intro r v _ value
  simp only [extend_stops atEnd stops, Follows, value]
  simp [noteAll]

theorem extendRuns_joins {rank : Rank} {t : Token} {op : Operator} {left : Tree Value Span}
    {rest : List Token} (sign : rank.operator? t = some op) (right : OperandRuns atEnd rank rest)
    (more : ExtendRuns atEnd rank (.node op t.span left (Descent.operand atEnd rank rest).tree)
      (Descent.operand atEnd rank rest).rest) : ExtendRuns atEnd rank left (t :: rest) := by
  intro r v idle leftValue
  obtain ⟨lexeme, ranked⟩ := Rank.operator?_eq_some.mp sign
  have settles : rank = .sum → ∀ b, ∃ w, complete (some (v, t)) b = .ok w := by
    intro sum b
    obtain ⟨w, combined⟩ := Operator.combine_sum (ranked.trans sum) v b
    exact ⟨w, by rw [complete_sign lexeme, combined]⟩
  have follows := right r (some (v, t)) idle settles
  rw [run_sign idle sign, extend_operator atEnd sign]
  cases rightValue : (Descent.operand atEnd rank rest).tree.value with
  | error span =>
    simp only [Follows, rightValue] at follows
    obtain ⟨later, notes, begins, aborts⟩ := follows
    have fails : (Tree.node op t.span left (Descent.operand atEnd rank rest).tree).value =
        .error span := by
      simp only [Tree.value, leftValue, rightValue]
    simp only [Follows, Parsed.behind, value_extend_error atEnd _ fails]
    exact ⟨later, notes, begins.trans (List.prefix_append _ _), aborts⟩
  | ok b =>
    simp only [Follows, rightValue, complete_sign lexeme] at follows
    cases combined : op.combine v b with
    | none =>
      have fails : (Tree.node op t.span left (Descent.operand atEnd rank rest).tree).value =
          .error t.span := by
        simp only [Tree.value, leftValue, rightValue, combined]
      simp only [combined] at follows
      simp only [Follows, Parsed.behind, value_extend_error atEnd _ fails]
      exact ⟨_, _, List.prefix_append _ _, follows⟩
    | some w =>
      have value : (Tree.node op t.span left (Descent.operand atEnd rank rest).tree).value =
          .ok w := by
        simp only [Tree.value, leftValue, rightValue, combined]
      simp only [combined] at follows
      rw [follows]
      refine Follows.behind
        ((more (r.noteAll (Descent.operand atEnd rank rest).notes) w idle value).mono
          rfl (List.prefix_refl _) ?_)
      intro u
      simp [noteAll, Parsed.behind]

/-- Every run over the tokens of a chain follows the chain. -/
theorem run_chain (rank : Rank) (ts : List Token) : ChainRuns atEnd rank ts :=
  (reader_induction atEnd (FactorRuns atEnd) (OperandRuns atEnd) (ChainRuns atEnd)
    (ExtendRuns atEnd) factorRuns_nil (fun _ rest _ number => factorRuns_number number rest)
    (fun _ _ opens inner => factorRuns_group opens inner)
    (fun _ rest number opens => factorRuns_other number opens rest)
    (fun _ => operandRuns_product) (fun _ => operandRuns_sum)
    (fun _ _ => chainRuns_begins) (fun _ left _ stops => extendRuns_ends stops left)
    (fun _ _ _ _ _ => extendRuns_joins)).2.1 rank ts

end Readers
end Reader

/-! ## Whole expressions -/

theorem Descent.Parsed.ended_of_nil {p : Parsed} (drained : p.rest = []) : p.ended = p := by
  rw [Parsed.ended]
  split <;> simp_all

theorem Descent.Parsed.prefix_ended (p : Parsed) : p.notes <+: p.ended.notes := by
  rw [Parsed.ended]
  split
  · exact List.prefix_refl _
  · exact List.prefix_append _ _

/-- What an evaluator makes of its next expression, whatever went before. -/
theorem Evaluator.next_follows (e : Evaluator) :
    Reader.Follows e.next.1 e.diagnostics (chain e.atEnd .sum e.rest) fun v =>
      ⟨v, none, (chain e.atEnd .sum e.rest).rest,
        e.diagnostics ++ (chain e.atEnd .sum e.rest).ended.notes.toArray⟩ := by
  have runs : Reader.ChainRuns e.atEnd .sum e.rest := Reader.run_chain .sum e.rest
  have follows := runs { diagnostics := e.diagnostics } ⟨rfl, rfl⟩
  refine follows.mono rfl (List.prefix_refl _) ?_
  intro v
  have stops := stops_chain e.atEnd .sum e.rest
  cases found : (chain e.atEnd .sum e.rest).rest with
  | nil =>
    rw [Parsed.ended_of_nil found]
    simp only [Reader.run, Reader.finish, Reader.holding, Reader.noteAll, Reader.unwind,
      complete_none]
  | cons t rest =>
    rw [found] at stops
    have tight := Reader.not_product_sign (stops.2 t rfl)
    have loose := Reader.not_sum_sign (stops.1 t rfl)
    simp only [Reader.run, Reader.step, Reader.holding, Reader.noteAll, Reader.operator,
      if_neg tight, if_neg loose, complete_none, Reader.close, Parsed.ended, found]
    simp

/-- Evaluating while reading is reading first and computing afterwards.  If
the computation fails at a sign, evaluation stops there, with a beginning of
the notes and one fatal diagnostic. -/
theorem evaluate_refines_parse (file : Text) (ts : List Token) :
    match (parse file ts).tree.value with
    | .ok v =>
        (evaluate file ts).abort = none ∧ (evaluate file ts).value = v ∧
          (evaluate file ts).diagnostics.toList = (parse file ts).notes
    | .error span =>
        (evaluate file ts).abort = some ⟨.divisionByZero, span⟩ ∧
          (evaluate file ts).value = .lost ∧
          ∃ notes, notes <+: (parse file ts).notes ∧
            (evaluate file ts).diagnostics.toList =
              notes ++ [⟨.fatal, utf8 "division by zero", span⟩] := by
  have follows := (Evaluator.start file ts).next_follows
  have tree : (parse file ts).tree = (chain (Evaluator.endOf file ts) .sum ts).tree := by
    rw [parse, Parsed.ended]
    split <;> rfl
  rw [tree]
  unfold Reader.Follows at follows
  simp only [Evaluator.start] at follows
  split at follows
  next v value =>
    simp only [evaluate, Evaluator.start, follows, parse]
    simp
  next span value =>
    obtain ⟨rest, notes, begins, aborts⟩ := follows
    simp only [evaluate, Evaluator.start, aborts]
    refine ⟨rfl, rfl, notes, begins.trans (Parsed.prefix_ended _), ?_⟩
    simp [Outcome.aborted, Abort.diagnostic, Abort.message, Fault.message]

end Reckoner
