import Mathlib.Data.List.Forall2
import Reckoner.Proofs.Discipline

/-! # Every diagnostic is paid for by a token

A step notes at most one fault, at the token it reads.  Opening a parenthesis
notes nothing, so that token can pay for the note that its partner is missing:
notes and open parentheses together grow by one at most (`Reader.step_charges`).
Over a whole run the notes at tokens follow the order of the tokens, those at
the end of input come behind them, and all of them together are one more than
the tokens taken at most (`Reader.run_accounts`).

That one is the missing operand at the end, the token left over, or the fatal
diagnostic.  They exclude each other: behind a missing operand everything that
waits takes a lost value, and that never fails. -/
set_option autoImplicit false
namespace Reckoner

/-- A note that blames the token. -/
def Diagnostic.Faults (d : Diagnostic) (t : Token) : Prop := d = .unexpected t ∨ d = .unclosed t.span

theorem Diagnostic.Faults.span {d : Diagnostic} {t : Token} (faults : d.Faults t) :
    d.span = t.span := by
  rcases faults with rfl | rfl
  · rfl
  · rfl

theorem Diagnostic.Faults.stage {d : Diagnostic} {t : Token} (faults : d.Faults t) :
    d.stage = .parser := by
  rcases faults with rfl | rfl
  · rfl
  · rfl

theorem exists_of_mem_along {notes : List Diagnostic} {ts : List Token}
    (along : List.SublistForall₂ Diagnostic.Faults notes ts) {d : Diagnostic} (member : d ∈ notes) :
    ∃ t ∈ ts, d.Faults t := by
  induction along with
  | nil => cases member
  | @cons a t notes ts faults more ih =>
    rcases List.mem_cons.mp member with rfl | member
    · exact ⟨t, List.mem_cons_self .., faults⟩
    · obtain ⟨u, inside, faults⟩ := ih member
      exact ⟨u, List.mem_cons_of_mem t inside, faults⟩
  | @cons_right t notes ts more ih =>
    obtain ⟨u, inside, faults⟩ := ih member
    exact ⟨u, List.mem_cons_of_mem t inside, faults⟩

/-! ## One step -/

/-- At most one note more, which blames the token. -/
structure Charged (t : Token) (seen now : Array Diagnostic) (note : Option Diagnostic) : Prop where
  noted : now.toList = seen.toList ++ note.toList
  faults : ∀ d ∈ note, d.Faults t

/-- The token pays for the note, or for one more open parenthesis. -/
structure Reader.Paid (t : Token) (seen : Array Diagnostic) (depth : Nat) (r : Reader)
    (note : Option Diagnostic) : Prop extends Charged t seen r.diagnostics note where
  paid : note.toList.length + r.outer.length ≤ depth + 1

/-- What a token may cost, with so many parentheses open before it. -/
def Move.Charges (t : Token) (seen : Array Diagnostic) (depth : Nat) : Move → Prop
  | .read next => ∃ note, next.Paid t seen depth note
  | .leave _ => True
  | .abort _ now => ∃ note, Charged t seen now note

namespace Reader

section Steps
variable {t : Token} {seen : Array Diagnostic} {depth : Nat} {r : Reader}

theorem paid_nothing (same : r.diagnostics = seen) (few : r.outer.length ≤ depth + 1) :
    r.Paid t seen depth none where
  noted := by simp [same]
  faults := by simp
  paid := by
    simp only [Option.toList_none, List.length_nil]
    omega

theorem paid_note {d : Diagnostic} (faults : d.Faults t) (same : r.diagnostics = seen)
    (few : r.outer.length ≤ depth) : (r.note d).Paid t seen depth (some d) where
  noted := by simp [note, same]
  faults := by
    intro e found
    cases found
    exact faults
  paid := by
    simp only [note, Option.toList_some, List.length_singleton]
    omega

theorem factor_charges {note : Option Diagnostic} (paid : r.Paid t seen depth note) (v : Value) :
    (r.factor v).Charges t seen depth := by
  unfold factor
  split
  · exact ⟨note, paid.toCharged, paid.paid⟩
  · exact ⟨note, paid.toCharged⟩

theorem skip_charges {note : Option Diagnostic} (paid : r.Paid t seen depth note) (kept : Value) :
    (r.skip kept t).Charges t seen depth := by
  unfold skip
  split
  · exact factor_charges paid kept
  · exact ⟨note, paid.toCharged, paid.paid⟩

theorem close_charges (v : Value) : (r.close v t).Charges t r.diagnostics r.outer.length := by
  unfold close
  split
  next => trivial
  next level outer found =>
    -- The level that ends has been paid for, so a note in its place costs nothing.
    have depth : outer.length ≤ r.outer.length := by
      rw [found, List.length_cons]
      omega
    simp only
    split
    · exact factor_charges (paid_nothing rfl (Nat.le_succ_of_le depth)) v
    · exact skip_charges (paid_note (Or.inr rfl) rfl depth) v

theorem operand_charges : (r.operand t).Charges t r.diagnostics r.outer.length := by
  unfold operand
  split
  next n lexeme => exact factor_charges (paid_nothing rfl (Nat.le_succ _)) (.ofInt n)
  next => exact ⟨none, paid_nothing rfl (Nat.le_refl _)⟩
  next => exact skip_charges (paid_note (Or.inl rfl) rfl (Nat.le_refl _)) .lost

theorem operator_charges (v : Value) :
    (r.operator v t).Charges t r.diagnostics r.outer.length := by
  have free : r.Paid t r.diagnostics r.outer.length none := paid_nothing rfl (Nat.le_succ _)
  unfold operator
  split
  next => exact ⟨none, free.toCharged, free.paid⟩
  next =>
    split
    next => exact ⟨none, free.toCharged⟩
    next w done =>
      split
      next => exact ⟨none, free.toCharged, free.paid⟩
      next => exact close_charges w

theorem step_charges (r : Reader) (t : Token) :
    (r.step t).Charges t r.diagnostics r.outer.length := by
  unfold step
  split
  next => exact operand_charges
  next v phase => exact operator_charges v
  next kept phase => exact skip_charges (paid_nothing rfl (Nat.le_succ _)) kept

end Steps
end Reader

/-! ## A whole run -/

/-- What a run adds: notes at tokens, in their order; perhaps the missing
operand, but only without an abort and with no token left; a note for so many
open parentheses; and the diagnostic of an abort. -/
structure Outcome.Accounts (atEnd : Span) (seen : Array Diagnostic) (depth : Nat)
    (ts : List Token) (o : Outcome) (notes missing : List Diagnostic) (unclosed : Nat) : Prop where
  noted : o.diagnostics.toList = seen.toList ++ (notes ++ (missing ++
    (List.replicate unclosed (.unclosed atEnd) ++ (o.abort.map Abort.diagnostic).toList)))
  along : List.SublistForall₂ Diagnostic.Faults notes ts
  few : notes.length + missing.length + unclosed + o.abort.toList.length + o.rest.length ≤
    ts.length + depth + 1
  alone : missing = [] ∨ missing = [.unexpectedEnd atEnd] ∧ o.abort = none ∧ o.rest = []

theorem complete_lost (waiting : Option (Value × Token)) : complete waiting .lost = .ok .lost := by
  unfold complete
  split
  · rfl
  · simp [Value.apply]

section Accounts
variable {atEnd : Span} {seen now : Array Diagnostic} {depth : Nat} {ts : List Token} {o : Outcome}
  {notes missing : List Diagnostic} {unclosed : Nat}

theorem Outcome.accounts_aborted (atEnd : Span) (a : Abort) (rest : List Token)
    (seen : Array Diagnostic) (depth : Nat) :
    (Outcome.aborted a rest seen).Accounts atEnd seen depth rest [] [] 0 where
  noted := by simp [Outcome.aborted]
  along := .nil
  few := by
    simp only [Outcome.aborted, Option.toList_some, List.length_nil, List.length_singleton]
    omega
  alone := Or.inl rfl

theorem Outcome.Accounts.unclose
    (accounts : o.Accounts atEnd (seen.push (.unclosed atEnd)) depth [] [] [] unclosed) :
    o.Accounts atEnd seen (depth + 1) [] [] [] (unclosed + 1) where
  noted := by rw [accounts.noted, List.replicate_succ]; simp
  along := accounts.along
  few := by
    have few := accounts.few
    omega
  alone := accounts.alone

theorem Outcome.Accounts.charge {t : Token} {inner : Nat} {note : Option Diagnostic}
    (accounts : o.Accounts atEnd now inner ts notes missing unclosed)
    (charged : Charged t seen now note) (paid : note.toList.length + inner ≤ depth + 1) :
    o.Accounts atEnd seen depth (t :: ts) (note.toList ++ notes) missing unclosed where
  noted := by rw [accounts.noted, charged.noted]; simp
  along := by
    cases note with
    | none => exact .cons_right accounts.along
    | some d => exact .cons (charged.faults d rfl) accounts.along
  few := by
    have few := accounts.few
    rw [List.length_append, List.length_cons]
    omega
  alone := accounts.alone

end Accounts

namespace Reader

section Runs
variable (atEnd : Span)

theorem unwind_lost (level : Level) (seen : Array Diagnostic) (outer : List Level) :
    unwind atEnd level .lost seen outer =
      ⟨.lost, none, [], seen ++ (List.replicate outer.length (.unclosed atEnd)).toArray⟩ := by
  induction outer generalizing level seen with
  | nil => simp [unwind, complete_lost]
  | cons next outer ih =>
    simp only [unwind, complete_lost, ih, List.length_cons]
    congr 1
    apply Array.toList_inj.mp
    simp [List.replicate_succ]

theorem unwind_accounts (level : Level) (v : Value) (seen : Array Diagnostic)
    (outer : List Level) :
    ∃ unclosed, (unwind atEnd level v seen outer).Accounts atEnd seen outer.length [] [] []
      unclosed := by
  induction outer generalizing level v seen with
  | nil =>
    unfold unwind
    split
    next w done => exact ⟨0, by simp, .nil, by simp, Or.inl rfl⟩
    next a fails => exact ⟨0, Outcome.accounts_aborted atEnd a [] seen 0⟩
  | cons next outer ih =>
    unfold unwind
    split
    next a fails => exact ⟨0, Outcome.accounts_aborted atEnd a [] seen _⟩
    next w done =>
      simp only
      split
      next u settled =>
        obtain ⟨unclosed, accounts⟩ :=
          ih { next with product := none } u (seen.push (.unclosed atEnd))
        exact ⟨unclosed + 1, accounts.unclose⟩
      next a fails => exact ⟨1, (Outcome.accounts_aborted atEnd a [] _ outer.length).unclose⟩

theorem factorAtEnd_accounts (r : Reader) (v : Value) :
    ∃ unclosed, (r.factorAtEnd atEnd v).Accounts atEnd r.diagnostics r.outer.length [] [] []
      unclosed := by
  unfold factorAtEnd
  split
  next w done => exact unwind_accounts atEnd _ w r.diagnostics r.outer
  next a fails => exact ⟨0, Outcome.accounts_aborted atEnd a [] r.diagnostics _⟩

theorem finish_accounts (r : Reader) :
    ∃ missing unclosed, (r.finish atEnd).Accounts atEnd r.diagnostics r.outer.length [] [] missing
      unclosed := by
  unfold finish
  split
  next =>
    refine ⟨[.unexpectedEnd atEnd], r.outer.length, ?_⟩
    simp only [factorAtEnd, note, complete_lost, unwind_lost]
    refine ⟨by simp, .nil, ?_, Or.inr ⟨rfl, rfl, rfl⟩⟩
    simp only [Option.toList_none, List.length_nil, List.length_singleton]
    omega
  next v phase =>
    obtain ⟨unclosed, accounts⟩ := unwind_accounts atEnd r.level v r.diagnostics r.outer
    exact ⟨[], unclosed, accounts⟩
  next kept phase =>
    obtain ⟨unclosed, accounts⟩ := factorAtEnd_accounts atEnd r kept
    exact ⟨[], unclosed, accounts⟩

theorem run_accounts (r : Reader) (ts : List Token) :
    ∃ notes missing unclosed, (run atEnd r ts).Accounts atEnd r.diagnostics r.outer.length ts notes
      missing unclosed := by
  induction ts generalizing r with
  | nil =>
    obtain ⟨missing, unclosed, accounts⟩ := finish_accounts atEnd r
    exact ⟨[], missing, unclosed, accounts⟩
  | cons t rest ih =>
    have charges := step_charges r t
    unfold run
    split
    next next move =>
      rw [move] at charges
      obtain ⟨note, paid⟩ := charges
      obtain ⟨notes, missing, unclosed, accounts⟩ := ih next
      exact ⟨note.toList ++ notes, missing, unclosed, accounts.charge paid.toCharged paid.paid⟩
    next v move =>
      refine ⟨[.unexpected t], [], 0, by simp, .cons (Or.inl rfl) .nil, ?_, Or.inl rfl⟩
      simp only [Option.toList_none, List.length_nil, List.length_singleton]
      omega
    next a now move =>
      rw [move] at charges
      obtain ⟨note, charged⟩ := charges
      have one : note.toList.length ≤ 1 := by cases note <;> simp
      have accounts := Outcome.accounts_aborted atEnd a rest now 0
      refine ⟨note.toList ++ [], [], 0, accounts.charge charged ?_⟩
      omega

end Runs
end Reader

/-! ## One call -/

theorem Kind.sign_ne_eof (k : Kind) : utf8 k.sign ≠ utf8 "EOF" := by
  cases k with
  | number => decide
  | symbol s => cases s <;> decide
  | unknown => decide

theorem Token.quote_ne_eof (t : Token) : t.quote ≠ utf8 "EOF" := by
  unfold quote
  split
  next n number =>
    intro same
    have heads := congrArg List.head? same
    cases heads
  next => exact Kind.sign_ne_eof _

/-- Neither about a missing operand nor fatal. -/
def Diagnostic.Minor (d : Diagnostic) : Prop :=
  d.message ≠ utf8 "Unexpected token 'EOF'" ∧ d.stage ≠ .fatal

theorem Diagnostic.minor_unclosed (span : Span) : (Diagnostic.unclosed span).Minor := by
  have other : utf8 "Expected ')'" ≠ utf8 "Unexpected token 'EOF'" := by decide
  exact ⟨other, nofun⟩

theorem Diagnostic.Faults.minor {d : Diagnostic} {t : Token} (faults : d.Faults t) : d.Minor := by
  have shape : utf8 "Unexpected token 'EOF'" =
      utf8 "Unexpected token '" ++ utf8 "EOF" ++ utf8 "'" := by decide
  rcases faults with rfl | rfl
  · refine ⟨?_, nofun⟩
    intro same
    rw [shape] at same
    exact t.quote_ne_eof (List.append_cancel_left (List.append_cancel_right same))
  · exact minor_unclosed t.span

theorem Fault.message_ne_missing (f : Fault) : f.message ≠ utf8 "Unexpected token 'EOF'" := by
  cases f with
  | divisionByZero => decide
  | unsupported k =>
    intro same
    have heads := congrArg List.head? same
    cases heads

namespace Evaluator

theorem next_accounts (e : Evaluator) : ∃ notes missing unclosed,
    e.next.1.Accounts e.atEnd e.diagnostics 0 e.rest notes missing unclosed :=
  Reader.run_accounts e.atEnd { diagnostics := e.diagnostics } e.rest

theorem length_added (e : Evaluator) : e.added.length ≤ e.used.length + 1 := by
  obtain ⟨_, obeys⟩ := e.next_obeys
  obtain ⟨notes, missing, unclosed, accounts⟩ := e.next_accounts
  have few := accounts.few
  have size := congrArg List.length obeys.taken
  have fatal : (e.next.1.abort.map Abort.diagnostic).toList.length =
      e.next.1.abort.toList.length := by
    cases e.next.1.abort <;> rfl
  rw [added_eq accounts.noted]
  simp only [List.length_append, List.length_replicate, fatal] at size ⊢
  omega

/-- The diagnostics of a call, cut at the missing operand if there is one. -/
theorem missing_of_added (e : Evaluator) :
    (∀ d ∈ e.added, d.message ≠ utf8 "Unexpected token 'EOF'") ∨
      e.next.1.abort = none ∧ e.next.1.rest = [] ∧ ∃ notes unclosed,
        e.added = notes ++ .unexpectedEnd e.atEnd :: List.replicate unclosed (.unclosed e.atEnd) ∧
        ∀ d ∈ notes ++ List.replicate unclosed (.unclosed e.atEnd), d.Minor := by
  obtain ⟨notes, missing, unclosed, accounts⟩ := e.next_accounts
  have added := added_eq accounts.noted
  have minor : ∀ d ∈ notes ++ List.replicate unclosed (.unclosed e.atEnd), d.Minor := by
    intro d member
    rcases List.mem_append.mp member with note | behind
    · obtain ⟨t, _, faults⟩ := exists_of_mem_along accounts.along note
      exact faults.minor
    · rw [List.eq_of_mem_replicate behind]
      exact Diagnostic.minor_unclosed e.atEnd
  rcases accounts.alone with clean | ⟨found, finishes, nothing⟩
  · left
    intro d member
    rw [added, clean, List.nil_append, ← List.append_assoc] at member
    rcases List.mem_append.mp member with note | fatal
    · exact (minor d note).1
    · obtain ⟨a, _, rfl⟩ := Option.map_eq_some_iff.mp (Option.mem_toList.mp fatal)
      exact a.fault.message_ne_missing
  · right
    refine ⟨finishes, nothing, notes, unclosed, ?_, minor⟩
    rw [added, found, finishes]
    simp

theorem count_missing (e : Evaluator) :
    e.added.countP (fun d => d.message = utf8 "Unexpected token 'EOF'") ≤ 1 := by
  have silent : ∀ ds : List Diagnostic, (∀ d ∈ ds, d.message ≠ utf8 "Unexpected token 'EOF'") →
      ds.countP (fun d => d.message = utf8 "Unexpected token 'EOF'") = 0 := by
    intro ds other
    apply List.countP_eq_zero.mpr
    intro d member
    simpa using other d member
  rcases e.missing_of_added with paired | ⟨_, _, notes, unclosed, added, minor⟩
  · have zero := silent e.added paired
    omega
  · have zero := silent _ fun d member => (minor d member).1
    rw [List.countP_append] at zero
    rw [added, List.countP_append, List.countP_cons]
    split <;> omega

end Evaluator

/-- A call adds one diagnostic more than it takes tokens at most.  A missing
operand at the end of input is noted once at most, without a fatal diagnostic
and with no token left over, and only parentheses that are not closed are noted
behind it. -/
structure Evaluator.Sparing (e : Evaluator) : Prop where
  takes : e.rest = e.used ++ e.next.2.rest
  keeps : e.next.2.diagnostics.toList = e.diagnostics.toList ++ e.added
  few : e.added.length ≤ e.used.length + 1
  once : e.added.countP (fun d => d.message = utf8 "Unexpected token 'EOF'") ≤ 1
  alone : ∀ d ∈ e.added, d.message = utf8 "Unexpected token 'EOF'" →
    e.next.1.abort = none ∧ (∀ other ∈ e.added, other.stage ≠ .fatal) ∧ e.next.1.rest = [] ∧
      ∃ notes unclosed, e.added = notes ++ d :: List.replicate unclosed (.unclosed e.atEnd)

theorem Evaluator.next_sparing (e : Evaluator) : e.Sparing := by
  obtain ⟨_, obeys⟩ := e.next_obeys
  have keeps : e.next.2.diagnostics.toList = e.diagnostics.toList ++ e.added := by
    rw [added_eq obeys.noted]
    exact obeys.noted
  refine ⟨obeys.taken, keeps, e.length_added, e.count_missing, ?_⟩
  intro d member missing
  rcases e.missing_of_added with silent | ⟨finishes, nothing, notes, unclosed, added, minor⟩
  · exact absurd missing (silent d member)
  have others : ∀ other ∈ e.added, other = .unexpectedEnd e.atEnd ∨ other.Minor := by
    intro other inside
    rw [added] at inside
    rcases List.mem_append.mp inside with note | behind
    · exact Or.inr (minor other (List.mem_append_left _ note))
    · rcases List.mem_cons.mp behind with same | unclosed
      · exact Or.inl same
      · exact Or.inr (minor other (List.mem_append_right _ unclosed))
  rcases others d member with rfl | plain
  · refine ⟨finishes, ?_, nothing, notes, unclosed, added⟩
    intro other inside
    rcases others other inside with rfl | plain
    · nofun
    · exact plain.2
  · exact absurd missing plain.1

-- `( (`: two tokens, and a note for each of them behind the missing operand.
example : (Evaluator.start [] [⟨.symbol .lparen, {}⟩, ⟨.symbol .lparen, {}⟩]).added.length = 3 := by
  decide

end Reckoner
