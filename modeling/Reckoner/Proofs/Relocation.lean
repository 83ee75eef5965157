import Reckoner.Report
import Reckoner.Proofs.Discipline
import Reckoner.Proofs.Pieces

/-! # Evaluation does not look at positions

Moving the spans of all tokens moves the spans of what an evaluation says about
them, and nothing else changes: `moved` commutes with one step (`step_moved`),
with a run (`run_moved`) and with one call after another (`after_moved`).

Every token list is moved from its lexemes, whose spans tell their index
(`start_eq_moved`).  So two token lists with the same lexemes are evaluated
alike, call by call, and what is said is about the same token of both.  The
name of a file moves spans too. -/
set_option autoImplicit false
namespace Reckoner

/-! ## Moving spans -/

section Moving
variable (move : Span → Span)

def Token.moved (t : Token) : Token := { t with span := move t.span }

def Diagnostic.moved (d : Diagnostic) : Diagnostic := { d with span := move d.span }

def Abort.moved (a : Abort) : Abort := { a with span := move a.span }

def Level.moved (l : Level) : Level :=
  ⟨l.sum.map (Prod.map id (Token.moved move)), l.product.map (Prod.map id (Token.moved move))⟩

def Reader.moved (r : Reader) : Reader :=
  ⟨r.level.moved move, r.outer.map (Level.moved move), r.phase,
    r.diagnostics.map (Diagnostic.moved move)⟩

def Move.moved : Move → Move
  | .read next => .read (next.moved move)
  | .leave v => .leave v
  | .abort a diagnostics => .abort (a.moved move) (diagnostics.map (Diagnostic.moved move))

def Outcome.moved (o : Outcome) : Outcome :=
  ⟨o.value, o.abort.map (Abort.moved move), o.rest.map (Token.moved move),
    o.diagnostics.map (Diagnostic.moved move)⟩

def Evaluator.moved (e : Evaluator) : Evaluator :=
  ⟨move e.atEnd, e.rest.map (Token.moved move), e.diagnostics.map (Diagnostic.moved move)⟩

/-! ## One step -/

theorem complete_moved (waiting : Option (Value × Token)) (v : Value) :
    complete (waiting.map (Prod.map id (Token.moved move))) v =
      (complete waiting v).mapError (Abort.moved move) := by
  cases waiting with
  | none => rfl
  | some w =>
    obtain ⟨left, op⟩ := w
    have kind : (op.moved move).kind = op.kind := rfl
    simp only [complete, Option.map_some, Prod.map, id, kind]
    cases Value.apply op.kind left v <;> rfl

namespace Reader

theorem factor_moved (r : Reader) (v : Value) :
    (r.moved move).factor v = (r.factor v).moved move := by
  simp only [factor, Reader.moved, Level.moved, complete_moved]
  cases complete r.level.product v with
  | ok w => rfl
  | error a => rfl

theorem note_moved (r : Reader) (d : Diagnostic) :
    (r.moved move).note (d.moved move) = (r.note d).moved move := by
  simp only [Reader.moved, note, Array.map_push]

theorem skip_moved (r : Reader) (kept : Value) (t : Token) :
    (r.moved move).skip kept (t.moved move) = (r.skip kept t).moved move := by
  have same : (t.moved move).endsRecovery = t.endsRecovery := rfl
  unfold skip
  rw [same]
  split
  · exact factor_moved move r kept
  · rfl

theorem close_moved (r : Reader) (v : Value) (t : Token) :
    (r.moved move).close v (t.moved move) = (r.close v t).moved move := by
  have lexeme : (t.moved move).lexeme = t.lexeme := rfl
  unfold close
  cases outer : r.outer with
  | nil => simp only [Reader.moved, outer, List.map_nil, Move.moved]
  | cons level more =>
    simp only [Reader.moved, outer, List.map_cons, lexeme]
    split
    · exact factor_moved move { r with level := level, outer := more } v
    · have noted := note_moved move { r with level := level, outer := more } (.unclosed t.span)
      have skipped := skip_moved move
        (({ r with level := level, outer := more } : Reader).note (.unclosed t.span)) v t
      rw [← noted] at skipped
      exact skipped

theorem operand_moved (r : Reader) (t : Token) :
    (r.moved move).operand (t.moved move) = (r.operand t).moved move := by
  have lost : ((r.moved move).note (.unexpected (t.moved move))).skip .lost (t.moved move) =
      ((r.note (.unexpected t)).skip .lost t).moved move := by
    rw [← skip_moved, ← note_moved]
    rfl
  have lexeme : (t.moved move).lexeme = t.lexeme := rfl
  unfold operand
  rw [lexeme]
  split
  next n _ => exact factor_moved move r (.ofInt n)
  next => rfl
  next => exact lost

theorem operator_moved (r : Reader) (v : Value) (t : Token) :
    (r.moved move).operator v (t.moved move) = (r.operator v t).moved move := by
  have lexeme : (t.moved move).lexeme = t.lexeme := rfl
  unfold operator
  rw [lexeme]
  split
  · rfl
  · simp only [Reader.moved, Level.moved, complete_moved]
    cases complete r.level.sum v with
    | error a => rfl
    | ok w =>
      simp only [Except.mapError]
      split
      · rfl
      · exact close_moved move r w t

theorem step_moved (r : Reader) (t : Token) :
    (r.moved move).step (t.moved move) = (r.step t).moved move := by
  have phase : (r.moved move).phase = r.phase := rfl
  unfold step
  rw [phase]
  split
  next => exact operand_moved move r t
  next v _ => exact operator_moved move r v t
  next kept _ => exact skip_moved move r kept t

/-! ## A whole run -/

theorem aborted_moved (a : Abort) (rest : List Token) (diagnostics : Array Diagnostic) :
    Outcome.aborted (a.moved move) (rest.map (Token.moved move))
        (diagnostics.map (Diagnostic.moved move)) =
      (Outcome.aborted a rest diagnostics).moved move := by
  simp only [Outcome.aborted, Outcome.moved, Array.map_push]
  rfl

theorem unwind_moved (atEnd : Span) (level : Level) (v : Value) (diagnostics : Array Diagnostic)
    (outer : List Level) :
    unwind (move atEnd) (level.moved move) v (diagnostics.map (Diagnostic.moved move))
        (outer.map (Level.moved move)) =
      (unwind atEnd level v diagnostics outer).moved move := by
  induction outer generalizing level v diagnostics with
  | nil =>
    simp only [List.map_nil, unwind, Level.moved, complete_moved]
    cases complete level.sum v with
    | ok w => rfl
    | error a => exact aborted_moved move a [] diagnostics
  | cons next more ih =>
    have noted : (diagnostics.map (Diagnostic.moved move)).push (.unclosed (move atEnd)) =
        (diagnostics.push (.unclosed atEnd)).map (Diagnostic.moved move) := by
      rw [Array.map_push]
      rfl
    simp only [List.map_cons, unwind, Level.moved, complete_moved, noted]
    cases complete level.sum v with
    | error a => exact aborted_moved move a [] diagnostics
    | ok w =>
      simp only [Except.mapError]
      cases complete next.product w with
      | ok u => exact ih { next with product := none } u (diagnostics.push (.unclosed atEnd))
      | error a => exact aborted_moved move a [] (diagnostics.push (.unclosed atEnd))

theorem factorAtEnd_moved (atEnd : Span) (r : Reader) (v : Value) :
    (r.moved move).factorAtEnd (move atEnd) v = (r.factorAtEnd atEnd v).moved move := by
  simp only [factorAtEnd, Reader.moved, Level.moved, complete_moved]
  cases complete r.level.product v with
  | ok w => exact unwind_moved move atEnd { r.level with product := none } w r.diagnostics r.outer
  | error a => exact aborted_moved move a [] r.diagnostics

theorem finish_moved (atEnd : Span) (r : Reader) :
    (r.moved move).finish (move atEnd) = (r.finish atEnd).moved move := by
  have phase : (r.moved move).phase = r.phase := rfl
  unfold finish
  rw [phase]
  split
  next =>
    rw [← factorAtEnd_moved, ← note_moved]
    rfl
  next v _ => exact unwind_moved move atEnd r.level v r.diagnostics r.outer
  next kept _ => exact factorAtEnd_moved move atEnd r kept

theorem run_moved (atEnd : Span) (r : Reader) (ts : List Token) :
    (r.moved move).run (move atEnd) (ts.map (Token.moved move)) =
      (r.run atEnd ts).moved move := by
  induction ts generalizing r with
  | nil => exact finish_moved move atEnd r
  | cons t rest ih =>
    rw [List.map_cons, run, run, step_moved]
    cases r.step t with
    | read next => exact ih next
    | leave v =>
      simp only [Move.moved, Outcome.moved, Array.map_push]
      rfl
    | abort a diagnostics => exact aborted_moved move a rest diagnostics

end Reader

/-! ## One call after another -/

namespace Evaluator

theorem next_moved (e : Evaluator) :
    (e.moved move).next = (e.next.1.moved move, e.next.2.moved move) := by
  have run := Reader.run_moved move e.atEnd { diagnostics := e.diagnostics } e.rest
  have outcome : (e.moved move).next.1 = e.next.1.moved move := run
  refine Prod.ext outcome ?_
  have state : (e.moved move).next.2 =
      { e.moved move with rest := (e.moved move).next.1.rest,
                          diagnostics := (e.moved move).next.1.diagnostics } := rfl
  rw [state, outcome]
  rfl

theorem after_moved (e : Evaluator) (calls : Nat) :
    (e.moved move).after calls = (e.after calls).moved move := by
  induction calls with
  | zero => rfl
  | succ calls ih =>
    have step := congrArg Prod.snd (next_moved move (e.after calls))
    rw [after, ih, step]
    rfl

theorem added_moved (e : Evaluator) :
    (e.moved move).added = e.added.map (Diagnostic.moved move) := by
  have outcome := congrArg Prod.fst (next_moved move e)
  rw [added, outcome, added, List.map_drop]
  simp only [Outcome.moved, Evaluator.moved, Array.toList_map, Array.size_map]

theorem length_used (e : Evaluator) : e.used.length = e.rest.length - e.next.1.rest.length := by
  rw [used, List.length_take]
  omega

theorem used_moved (e : Evaluator) : (e.moved move).used.length = e.used.length := by
  have outcome := congrArg Prod.fst (next_moved move e)
  rw [length_used, length_used, outcome]
  simp only [Outcome.moved, Evaluator.moved, List.length_map]

end Evaluator
end Moving

/-! ## Lexemes that know their index -/

/-- A span that tells an index. -/
def Span.index (i : Nat) : Span := { start := { offset := i } }

/-- The span of the token that a span tells the index of; any other index tells
the end of input. -/
def Span.lookedUp (atEnd : Span) (ts : List Token) (s : Span) : Span :=
  (ts[s.start.offset.toNat]?.map Token.span).getD atEnd

/-- Lexemes as tokens, the span of each telling its index. -/
def indexed (lexemes : List Lexeme) : List Token :=
  lexemes.mapIdx fun i lexeme => ⟨lexeme, .index i⟩

theorem indexed_moved (atEnd : Span) (ts : List Token) :
    (indexed (ts.map Token.lexeme)).map (Token.moved (.lookedUp atEnd ts)) = ts := by
  refine List.ext_getElem? fun i => ?_
  cases found : ts[i]? with
  | none => simp [indexed, found]
  | some t => simp [indexed, found, Token.moved, Span.lookedUp, Span.index]

namespace Evaluator

/-- An evaluator of lexemes; the span of the end of input tells their number. -/
def ofLexemes (lexemes : List Lexeme) : Evaluator :=
  ⟨.index lexemes.length, indexed lexemes, #[]⟩

theorem start_eq_moved (file : Text) (ts : List Token) :
    start file ts = (ofLexemes (ts.map Token.lexeme)).moved (.lookedUp (endOf file ts) ts) := by
  have atEnd : Span.lookedUp (endOf file ts) ts (.index (ts.map Token.lexeme).length) =
      endOf file ts := by
    simp [Span.lookedUp, Span.index]
  simp only [start, ofLexemes, Evaluator.moved, indexed_moved, atEnd, Array.map_empty]

end Evaluator

/-! ## Two runs -/

/-- Two diagnostics say the same, each about the token of the same index in its
list or each about the end of input. -/
structure Diagnostic.Matches (f g : Text) (ts us : List Token) (d e : Diagnostic) : Prop where
  stage : d.stage = e.stage
  message : d.message = e.message
  place : (∃ i : Nat, ∃ t u : Token, ts[i]? = some t ∧ us[i]? = some u ∧
      d.span = t.span ∧ e.span = u.span) ∨
    (d.span = Evaluator.endOf f ts ∧ e.span = Evaluator.endOf g us)

/-- The next calls of two evaluators over token lists come to the same. -/
structure Evaluator.Matches (f g : Text) (ts us : List Token) (a b : Evaluator) : Prop where
  used : a.used.length = b.used.length
  value : a.next.1.value = b.next.1.value
  failure : a.next.1.abort.map Abort.message = b.next.1.abort.map Abort.message
  added : List.Forall₂ (Diagnostic.Matches f g ts us) a.added b.added

section Runs
variable {f g : Text} {ts us : List Token}

theorem Diagnostic.matches_moved (alike : ts.map Token.lexeme = us.map Token.lexeme)
    (d : Diagnostic) :
    Diagnostic.Matches f g ts us (d.moved (.lookedUp (Evaluator.endOf f ts) ts))
      (d.moved (.lookedUp (Evaluator.endOf g us) us)) := by
  refine ⟨rfl, rfl, ?_⟩
  have same := congrArg (fun l : List Lexeme => l[d.span.start.offset.toNat]?) alike
  simp only [List.getElem?_map] at same
  simp only [Diagnostic.moved, Span.lookedUp]
  cases first : ts[d.span.start.offset.toNat]? with
  | none =>
    have second : us[d.span.start.offset.toNat]? = none := by simpa [first] using same.symm
    exact Or.inr ⟨rfl, by rw [second]; rfl⟩
  | some t =>
    obtain ⟨u, second, _⟩ : ∃ u, us[d.span.start.offset.toNat]? = some u ∧ u.lexeme = t.lexeme := by
      simpa [first] using same.symm
    exact Or.inl ⟨_, t, u, first, second, rfl, by rw [second]; rfl⟩

theorem Evaluator.after_matches (f g : Text) (alike : ts.map Token.lexeme = us.map Token.lexeme)
    (calls : Nat) :
    Matches f g ts us ((start f ts).after calls) ((start g us).after calls) := by
  -- Both evaluators are moved from the one over the common lexemes.
  rw [start_eq_moved f ts, start_eq_moved g us, after_moved, after_moved, ← alike]
  generalize (ofLexemes (ts.map Token.lexeme)).after calls = e
  constructor
  case used => rw [used_moved, used_moved]
  case value => rw [next_moved, next_moved]; rfl
  case failure =>
    rw [next_moved, next_moved]
    simp only [Outcome.moved, Option.map_map]
    rfl
  case added =>
    rw [added_moved, added_moved, List.forall₂_map_left_iff, List.forall₂_map_right_iff]
    exact List.forall₂_same.mpr fun d _ => Diagnostic.matches_moved alike d

end Runs

/-! ## File names -/

def Position.named (file : Text) (p : Position) : Position := { p with file := file }

def Span.named (file : Text) (s : Span) : Span := ⟨s.start.named file, s.stop.named file⟩

def Failure.named (file : Text) : Failure → Failure
  | .aborted a => .aborted (a.moved (.named file))
  | .other m => .other m

/-- The report with a name in all fields that hold a file name. -/
def Report.named (file : Text) (r : Report) : Report :=
  { r with
    file := file
    tokens := r.tokens.map (Token.moved (.named file))
    diagnostics := r.diagnostics.map (Diagnostic.moved (.named file))
    failure := r.failure.map (Failure.named file) }

section Naming
variable (f g source : Text)

theorem stop_named (p : Position) (x : Piece) : x.stop (p.named g) = (x.stop p).named g := by
  have after : ∀ r : Rune, (p.named g).after r = (p.after r).named g := by
    intro r
    unfold Position.after
    split <;> rfl
  cases x with
  | blank r => exact after r
  | number digits => rfl
  | symbol s => exact after (.scalar s.char)
  | illegal r => exact after r

theorem place_named (p : Position) (xs : List Piece) :
    place (p.named g) xs = (place p xs).map (Prod.map id (.named g)) := by
  induction xs generalizing p with
  | nil => rfl
  | cons x more ih =>
    rw [place, place, stop_named, ih]
    rfl

theorem filterMap_moved (move : Span → Span) (ys : List (Piece × Span)) :
    (ys.map (Prod.map id move)).filterMap tokenOf = (ys.filterMap tokenOf).map (Token.moved move) ∧
    (ys.map (Prod.map id move)).filterMap noteOf =
      (ys.filterMap noteOf).map (Diagnostic.moved move) := by
  simp only [List.filterMap_map, List.map_filterMap]
  constructor
  · congr 1
    funext y
    obtain ⟨x, span⟩ := y
    cases x <;> rfl
  · congr 1
    funext y
    obtain ⟨x, span⟩ := y
    cases x <;> rfl

theorem scan_named :
    scan g source = ⟨(scan f source).tokens.map (Token.moved (.named g)),
      (scan f source).diagnostics.map (Diagnostic.moved (.named g))⟩ := by
  have placed := place_named g (.origin f) (pieces source)
  have origin : (Position.origin f).named g = .origin g := rfl
  obtain ⟨tokens, notes⟩ := filterMap_moved (.named g) (place (.origin f) (pieces source))
  rw [origin] at placed
  rw [scan_eq, scan_eq, placed, tokens, notes]

theorem evaluate_named (ts : List Token) :
    evaluate g (ts.map (Token.moved (.named g))) = (evaluate f ts).moved (.named g) := by
  have start : Evaluator.start g (ts.map (Token.moved (.named g))) =
      (Evaluator.start f ts).moved (.named g) := by
    simp only [Evaluator.start, Evaluator.moved, Evaluator.endOf, List.getLast?_map,
      Array.map_empty]
    cases ts.getLast? with
    | none => rfl
    | some t => rfl
  rw [evaluate, start, Evaluator.next_moved]
  rfl

theorem compileFile_named : (compileFile f source).named g = compileFile g source := by
  have failure (a : Option Abort) : (a.map Failure.aborted).map (Failure.named g) =
      (a.map (Abort.moved (.named g))).map Failure.aborted := by
    cases a <;> rfl
  simp only [compileFile, compileAt, Report.named, scan_named f g source, evaluate_named f g,
    Outcome.moved, List.map_append, Array.toList_map, failure]

end Naming

/-- Token lists with the same lexemes are evaluated alike, call by call, wherever
their tokens stand and whatever the files are called.  So the reports about one
source under two names differ in the names only. -/
theorem evaluation_unmoved (f g : Text) :
    (∀ ts us : List Token, ts.map Token.lexeme = us.map Token.lexeme → ∀ calls,
      Evaluator.Matches f g ts us ((Evaluator.start f ts).after calls)
        ((Evaluator.start g us).after calls)) ∧
    ∀ source, (compileFile f source).named g = compileFile g source :=
  ⟨fun _ _ alike calls => Evaluator.after_matches f g alike calls, compileFile_named f g⟩

/-- `+ ; 6 / 0` with and without positions: the first call loses a factor, the
second fails. -/
theorem evaluation_unmoved_again :
    let lexemes : List Lexeme := [.symbol .plus, .symbol .semi, .number 6, .symbol .slash, .number 0]
    let ts := indexed lexemes
    let us := lexemes.map fun l => (⟨l, {}⟩ : Token)
    let e := (Evaluator.start [] ts).after 1
    ts.map Token.lexeme = us.map Token.lexeme ∧ e.next.1.abort = some ⟨.divisionByZero, .index 3⟩ ∧
      Evaluator.Matches [] (utf8 "a") ts us e ((Evaluator.start (utf8 "a") us).after 1) := by
  intro lexemes ts us e
  have alike : ts.map Token.lexeme = us.map Token.lexeme := by decide
  have fails : e.next.1.abort = some ⟨.divisionByZero, .index 3⟩ := by decide
  exact ⟨alike, fails, (evaluation_unmoved [] (utf8 "a")).1 ts us alike 1⟩

end Reckoner
