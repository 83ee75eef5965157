import Reckoner.Proofs.Fusion

/-! # What an evaluation takes, notes and blames

Whatever waits in a reader is signed by a token that has been read, with a
sign of its slot's rank.  A step keeps that (`step_obeys`), so a run does
(`run_obeys`): it takes a beginning of its tokens, adds notes that concern
these tokens or the end of input, and can give up only at a `/` it has taken.
An evaluator that is called again and again obeys the same rules from every
state it gets into (`Evaluator.next_obeys`, `Evaluator.after_rest`). -/
set_option autoImplicit false
namespace Reckoner

open Descent

/-- A division by zero at a `/` among the tokens. -/
def Abort.Blames (a : Abort) (ts : List Token) : Prop :=
  a.fault = .divisionByZero ∧ ∃ t ∈ ts, t.lexeme = .symbol .slash ∧ a.span = t.span

/-- A note at one of the tokens or at the end of input. -/
def Diagnostic.Concerns (d : Diagnostic) (atEnd : Span) (ts : List Token) : Prop :=
  d.stage = .parser ∧ (d.span = atEnd ∨ ∃ t ∈ ts, d.span = t.span)

theorem Abort.Blames.mono {a : Abort} {ts us : List Token} (blames : a.Blames ts)
    (more : ts ⊆ us) : a.Blames us := by
  obtain ⟨fault, t, member, slash, span⟩ := blames
  exact ⟨fault, t, more member, slash, span⟩

theorem Diagnostic.Concerns.mono {d : Diagnostic} {atEnd : Span} {ts us : List Token}
    (concerns : d.Concerns atEnd ts) (more : ts ⊆ us) : d.Concerns atEnd us := by
  obtain ⟨stage, atEnd | ⟨t, member, span⟩⟩ := concerns
  · exact ⟨stage, Or.inl atEnd⟩
  · exact ⟨stage, Or.inr ⟨t, more member, span⟩⟩

/-! ## Signs that wait -/

def SignedBy (ts : List Token) (rank : Rank) (waiting : Option (Value × Token)) : Prop :=
  ∀ w ∈ waiting, w.2 ∈ ts ∧ ∃ op, rank.operator? w.2 = some op

structure Level.Signed (ts : List Token) (level : Level) : Prop where
  sum : SignedBy ts .sum level.sum
  product : SignedBy ts .product level.product

structure Reader.Signed (ts : List Token) (r : Reader) : Prop where
  level : r.level.Signed ts
  outer : ∀ level ∈ r.outer, level.Signed ts

section Signs
variable {ts us : List Token} {rank : Rank} {waiting : Option (Value × Token)}

theorem signed_none : SignedBy ts rank none := by
  intro w member
  cases member

theorem signed_sign {t : Token} (op : Operator) (v : Value) (member : t ∈ ts)
    (sign : t.lexeme = .symbol op.symbol) : SignedBy ts op.rank (some (v, t)) := by
  intro w found
  cases found
  exact ⟨member, op, Rank.operator?_eq_some.mpr ⟨sign, rfl⟩⟩

theorem SignedBy.mono (signed : SignedBy ts rank waiting) (more : ts ⊆ us) :
    SignedBy us rank waiting := by
  intro w member
  obtain ⟨found, sign⟩ := signed w member
  exact ⟨more found, sign⟩

theorem Level.Signed.mono {level : Level} (signed : level.Signed ts) (more : ts ⊆ us) :
    level.Signed us := ⟨signed.sum.mono more, signed.product.mono more⟩

theorem Reader.Signed.mono {r : Reader} (signed : r.Signed ts) (more : ts ⊆ us) : r.Signed us :=
  ⟨signed.level.mono more, fun level member => (signed.outer level member).mono more⟩

theorem Reader.Signed.note {r : Reader} (signed : r.Signed ts) (d : Diagnostic) :
    (r.note d).Signed ts := ⟨signed.level, signed.outer⟩

theorem Level.signed_empty : ({} : Level).Signed ts := ⟨signed_none, signed_none⟩

theorem Operator.eq_div_of_combine {op : Operator} {a b : Value} (fails : op.combine a b = none) :
    op = .div := by
  cases a with
  | lost => cases fails
  | number a =>
    cases b with
    | lost => cases fails
    | number b =>
      simp only [combine] at fails
      split at fails
      next division => exact division.1
      next => cases fails

/-- Only a division that waits can fail. -/
theorem blames_of_complete {v : Value} {a : Abort} (signed : SignedBy ts rank waiting)
    (fails : complete waiting v = .error a) : a.Blames ts := by
  cases waiting with
  | none => cases fails
  | some w =>
    obtain ⟨left, t⟩ := w
    obtain ⟨member, op, sign⟩ := signed _ rfl
    have lexeme := (Rank.operator?_eq_some.mp sign).1
    rw [complete_sign lexeme] at fails
    cases combined : op.combine left v with
    | some w => simp [combined] at fails
    | none =>
      have division := Operator.eq_div_of_combine combined
      subst division
      simp only [combined, Except.error.injEq] at fails
      subst fails
      exact ⟨rfl, t, member, lexeme, rfl⟩

end Signs

/-! ## One step -/

/-- At most one note more, and that at the token. -/
def Noted (t : Token) (seen now : Array Diagnostic) : Prop :=
  now = seen ∨ ∃ d, d.stage = .parser ∧ d.span = t.span ∧ now = seen.push d

/-- What reading a token behind others may come to. -/
def Move.Obeys (ts : List Token) (t : Token) (seen : Array Diagnostic) : Move → Prop
  | .read next => next.Signed (ts ++ [t]) ∧ Noted t seen next.diagnostics
  | .leave _ => True
  | .abort a diagnostics => a.Blames ts ∧ Noted t seen diagnostics

namespace Reader

section Steps
variable {ts : List Token} {t : Token} {seen : Array Diagnostic} {r : Reader}

theorem Signed.ahead (signed : r.Signed ts) (t : Token) : r.Signed (ts ++ [t]) :=
  signed.mono (List.subset_append_left ts [t])

theorem factor_obeys (signed : r.Signed ts) (noted : Noted t seen r.diagnostics) (v : Value) :
    (r.factor v).Obeys ts t seen := by
  unfold factor
  split
  next w done =>
    have ahead := signed.ahead t
    exact ⟨⟨⟨ahead.level.sum, signed_none⟩, ahead.outer⟩, noted⟩
  next a fails => exact ⟨blames_of_complete signed.level.product fails, noted⟩

theorem skip_obeys (signed : r.Signed ts) (noted : Noted t seen r.diagnostics) (kept : Value) :
    (r.skip kept t).Obeys ts t seen := by
  unfold skip
  split
  · exact factor_obeys signed noted kept
  · have ahead := signed.ahead t
    exact ⟨⟨ahead.level, ahead.outer⟩, noted⟩

theorem close_obeys (signed : r.Signed ts) (noted : r.diagnostics = seen) (v : Value) :
    (r.close v t).Obeys ts t seen := by
  unfold close
  split
  next => trivial
  next level outer found =>
    have member : ∀ l ∈ level :: outer, l.Signed ts := by
      intro l inside
      exact signed.outer l (by rw [found]; exact inside)
    obtain ⟨first, others⟩ := List.forall_mem_cons.mp member
    have inner : { r with level := level, outer := outer }.Signed ts := ⟨first, others⟩
    simp only
    split
    · exact factor_obeys inner (Or.inl noted) v
    · refine skip_obeys (inner.note _) (Or.inr ⟨.unclosed t.span, rfl, rfl, ?_⟩) v
      simp only [note, noted]

theorem operand_obeys (signed : r.Signed ts) : (r.operand t).Obeys ts t r.diagnostics := by
  unfold operand
  split
  next n lexeme => exact factor_obeys signed (Or.inl rfl) (.ofInt n)
  next =>
    have ahead := signed.ahead t
    have outer := List.forall_mem_cons.mpr ⟨ahead.level, ahead.outer⟩
    exact ⟨⟨Level.signed_empty, outer⟩, Or.inl rfl⟩
  next =>
    exact skip_obeys (signed.note _) (Or.inr ⟨.unexpected t, rfl, rfl, rfl⟩) .lost

theorem operator_obeys (signed : r.Signed ts) (v : Value) :
    (r.operator v t).Obeys ts t r.diagnostics := by
  have ahead := signed.ahead t
  have last : t ∈ ts ++ [t] := List.mem_append_right ts (List.mem_singleton_self t)
  unfold operator
  split
  next tight =>
    have waits : SignedBy (ts ++ [t]) .product (some (v, t)) := by
      rcases tight with star | slash
      · exact signed_sign .mul v last star
      · exact signed_sign .div v last slash
    exact ⟨⟨⟨ahead.level.sum, waits⟩, ahead.outer⟩, Or.inl rfl⟩
  next =>
    split
    next a fails => exact ⟨blames_of_complete signed.level.sum fails, Or.inl rfl⟩
    next w done =>
      split
      next loose =>
        have waits : SignedBy (ts ++ [t]) .sum (some (w, t)) := by
          rcases loose with plus | minus
          · exact signed_sign .add w last plus
          · exact signed_sign .sub w last minus
        exact ⟨⟨⟨waits, ahead.level.product⟩, ahead.outer⟩, Or.inl rfl⟩
      next => exact close_obeys signed rfl w

theorem step_obeys (signed : r.Signed ts) (t : Token) : (r.step t).Obeys ts t r.diagnostics := by
  unfold step
  split
  next => exact operand_obeys signed
  next v phase => exact operator_obeys signed v
  next kept phase => exact skip_obeys signed (Or.inl rfl) kept

end Steps
end Reader

/-! ## A whole run -/

/-- What evaluating tokens behind others may come to: the tokens that are not
left have been taken, and a fatal diagnostic comes last, exactly after an
abort. -/
structure Outcome.Obeys (atEnd : Span) (before ts : List Token) (seen : Array Diagnostic)
    (o : Outcome) (used : List Token) (notes : List Diagnostic) : Prop where
  taken : ts = used ++ o.rest
  noted : o.diagnostics.toList =
    seen.toList ++ (notes ++ (o.abort.map Abort.diagnostic).toList)
  concerns : ∀ d ∈ notes, d.Concerns atEnd ts
  aborted : ∀ a ∈ o.abort, o.value = .lost ∧ a.Blames (before ++ used)

section Runs
variable (atEnd : Span) {before ts used : List Token} {seen now : Array Diagnostic} {o : Outcome}
  {notes : List Diagnostic}

theorem Outcome.obeys_aborted {a : Abort} (blames : a.Blames before) (ts : List Token)
    (seen : Array Diagnostic) :
    (Outcome.aborted a ts seen).Obeys atEnd before ts seen [] [] where
  taken := rfl
  noted := by simp [Outcome.aborted]
  concerns := by simp
  aborted := by
    intro b same
    cases same
    exact ⟨rfl, by rwa [List.append_nil]⟩

variable {atEnd}

/-- A note in front of those of the rest. -/
theorem Outcome.Obeys.note {d : Diagnostic}
    (obeys : o.Obeys atEnd before ts (seen.push d) used notes) (concerns : d.Concerns atEnd ts) :
    o.Obeys atEnd before ts seen used (d :: notes) where
  taken := obeys.taken
  noted := by rw [obeys.noted]; simp
  concerns := List.forall_mem_cons.mpr ⟨concerns, obeys.concerns⟩
  aborted := obeys.aborted

/-- A token in front of those of the rest. -/
theorem Outcome.Obeys.cons {t : Token} (obeys : o.Obeys atEnd (before ++ [t]) ts seen used notes) :
    o.Obeys atEnd before (t :: ts) seen (t :: used) notes where
  taken := by rw [obeys.taken]; rfl
  noted := obeys.noted
  concerns := fun d member => (obeys.concerns d member).mono (List.subset_cons_self t ts)
  aborted := by
    intro a member
    obtain ⟨value, blames⟩ := obeys.aborted a member
    exact ⟨value, by rwa [List.append_assoc] at blames⟩

theorem Outcome.Obeys.noted_cons {t : Token} (noted : Noted t seen now)
    (obeys : o.Obeys atEnd (before ++ [t]) ts now used notes) :
    ∃ notes, o.Obeys atEnd before (t :: ts) seen (t :: used) notes := by
  rcases noted with rfl | ⟨d, stage, span, rfl⟩
  · exact ⟨notes, obeys.cons⟩
  · have concerns : d.Concerns atEnd (t :: ts) :=
      ⟨stage, Or.inr ⟨t, List.mem_cons_self .., span⟩⟩
    exact ⟨d :: notes, obeys.cons.note concerns⟩

namespace Reader

variable (atEnd)

theorem unwind_obeys {level : Level} {outer : List Level} (signed : level.Signed before)
    (others : ∀ l ∈ outer, l.Signed before) (v : Value) (seen : Array Diagnostic) :
    ∃ notes, (unwind atEnd level v seen outer).Obeys atEnd before [] seen [] notes := by
  induction outer generalizing level v seen with
  | nil =>
    unfold unwind
    split
    next w done => exact ⟨[], rfl, by simp, by simp, by simp⟩
    next a fails =>
      exact ⟨[], Outcome.obeys_aborted atEnd (blames_of_complete signed.sum fails) [] seen⟩
  | cons next outer ih =>
    obtain ⟨first, others⟩ := List.forall_mem_cons.mp others
    have concerns : (Diagnostic.unclosed atEnd).Concerns atEnd [] := ⟨rfl, Or.inl rfl⟩
    unfold unwind
    split
    next a fails =>
      exact ⟨[], Outcome.obeys_aborted atEnd (blames_of_complete signed.sum fails) [] seen⟩
    next w done =>
      simp only
      split
      next u settled =>
        have idle : { next with product := none }.Signed before := ⟨first.sum, signed_none⟩
        obtain ⟨notes, obeys⟩ := ih idle others u (seen.push (.unclosed atEnd))
        exact ⟨_, obeys.note concerns⟩
      next a fails =>
        have obeys := Outcome.obeys_aborted atEnd (blames_of_complete first.product fails) []
          (seen.push (.unclosed atEnd))
        exact ⟨_, obeys.note concerns⟩

theorem factorAtEnd_obeys {r : Reader} (signed : r.Signed before) (v : Value) :
    ∃ notes, (r.factorAtEnd atEnd v).Obeys atEnd before [] r.diagnostics [] notes := by
  unfold factorAtEnd
  split
  next w done =>
    have idle : { r.level with product := none }.Signed before :=
      ⟨signed.level.sum, signed_none⟩
    exact unwind_obeys atEnd idle signed.outer w r.diagnostics
  next a fails =>
    exact ⟨[], Outcome.obeys_aborted atEnd (blames_of_complete signed.level.product fails) [] _⟩

theorem finish_obeys {r : Reader} (signed : r.Signed before) :
    ∃ notes, (r.finish atEnd).Obeys atEnd before [] r.diagnostics [] notes := by
  unfold finish
  split
  next =>
    obtain ⟨notes, obeys⟩ := factorAtEnd_obeys atEnd (signed.note (.unexpectedEnd atEnd)) .lost
    exact ⟨_, Outcome.Obeys.note obeys ⟨rfl, Or.inl rfl⟩⟩
  next v phase => exact unwind_obeys atEnd signed.level signed.outer v r.diagnostics
  next kept phase => exact factorAtEnd_obeys atEnd signed kept

theorem run_obeys {r : Reader} (signed : r.Signed before) (ts : List Token) :
    ∃ used notes, (run atEnd r ts).Obeys atEnd before ts r.diagnostics used notes := by
  -- `before` grows with the tokens read: an operator that waits may be any of them.
  induction ts generalizing r before with
  | nil =>
    obtain ⟨notes, obeys⟩ := finish_obeys atEnd signed
    exact ⟨[], notes, obeys⟩
  | cons t rest ih =>
    have obeys := step_obeys signed t
    unfold run
    split
    next next move =>
      rw [move] at obeys
      obtain ⟨used, notes, later⟩ := ih obeys.1
      exact ⟨t :: used, later.noted_cons obeys.2⟩
    next v move =>
      -- The token that ends the expression is reported, but not taken.
      refine ⟨[], [.unexpected t], rfl, by simp, ?_, by simp⟩
      intro d member
      cases List.mem_singleton.mp member
      exact ⟨rfl, Or.inr ⟨t, List.mem_cons_self .., rfl⟩⟩
    next a diagnostics move =>
      rw [move] at obeys
      have blames := obeys.1.mono (List.subset_append_left before [t])
      exact ⟨[t], (Outcome.obeys_aborted atEnd blames rest diagnostics).noted_cons obeys.2⟩

end Reader
end Runs

/-! ## One call after another -/

namespace Evaluator

/-- The evaluator behind so many expressions. -/
def after (e : Evaluator) : Nat → Evaluator
  | 0 => e
  | calls + 1 => (e.after calls).next.2

/-- The tokens that the next expression takes. -/
def used (e : Evaluator) : List Token := e.rest.take (e.rest.length - e.next.1.rest.length)

/-- The diagnostics that the next expression adds. -/
def added (e : Evaluator) : List Diagnostic := e.next.1.diagnostics.toList.drop e.diagnostics.size

theorem next_obeys (e : Evaluator) :
    ∃ notes, e.next.1.Obeys e.atEnd [] e.rest e.diagnostics e.used notes := by
  have signed : ({ diagnostics := e.diagnostics } : Reader).Signed [] :=
    ⟨Level.signed_empty, by simp⟩
  obtain ⟨used, notes, obeys⟩ := Reader.run_obeys e.atEnd signed e.rest
  have taken : e.rest = used ++ e.next.1.rest := obeys.taken
  have same : e.used = used := by
    have size := congrArg List.length taken
    rw [List.length_append] at size
    have count : e.rest.length - e.next.1.rest.length = used.length := by omega
    rw [Evaluator.used, count, taken, List.take_left]
  exact ⟨notes, same ▸ obeys⟩

theorem added_eq {e : Evaluator} {more : List Diagnostic}
    (noted : e.next.1.diagnostics.toList = e.diagnostics.toList ++ more) : e.added = more := by
  rw [added, noted, ← Array.length_toList, List.drop_left]

theorem mem_added {e : Evaluator} {d : Diagnostic} (member : d ∈ e.added) :
    d.Concerns e.atEnd e.rest ∨ ∃ a, e.next.1.abort = some a ∧ d = a.diagnostic := by
  obtain ⟨notes, obeys⟩ := e.next_obeys
  rw [added_eq obeys.noted] at member
  rcases List.mem_append.mp member with note | fatal
  · exact Or.inl (obeys.concerns d note)
  · rw [Option.mem_toList] at fatal
    obtain ⟨a, aborts, rfl⟩ := Option.map_eq_some_iff.mp fatal
    exact Or.inr ⟨a, aborts, rfl⟩

theorem next_aborts {e : Evaluator} {a : Abort} (aborts : e.next.1.abort = some a) :
    e.next.1.value = .lost ∧ a.Blames e.rest ∧ a.diagnostic ∈ e.added := by
  obtain ⟨notes, obeys⟩ := e.next_obeys
  obtain ⟨value, blames⟩ := obeys.aborted a aborts
  refine ⟨value, blames.mono ?_, ?_⟩
  · rw [List.nil_append]
    exact List.take_subset _ _
  · rw [added_eq obeys.noted, aborts]
    simp

theorem after_rest (e : Evaluator) (calls : Nat) :
    ∃ past, e.rest = past ++ (e.after calls).rest := by
  induction calls with
  | zero => exact ⟨[], rfl⟩
  | succ calls ih =>
    obtain ⟨past, split⟩ := ih
    obtain ⟨notes, obeys⟩ := (e.after calls).next_obeys
    refine ⟨past ++ (e.after calls).used, ?_⟩
    rw [List.append_assoc, split]
    exact congrArg (past ++ ·) obeys.taken

end Evaluator

/-- An evaluator over the tokens stands at a rest of them.  Its next call takes
tokens from there and adds to the diagnostics.  It fails only with a division
by zero at a `/` it has taken; then there is no value, and the last diagnostic
and no other is the fatal one. -/
structure Evaluator.Disciplined (ts : List Token) (e : Evaluator) : Prop where
  stands : ∃ past, ts = past ++ e.rest
  takes : e.rest = e.used ++ e.next.2.rest
  keeps : e.next.2.diagnostics.toList = e.diagnostics.toList ++ e.added
  fails : ∀ a, e.next.1.abort = some a →
    a.fault = .divisionByZero ∧ a.message = utf8 "division by zero" ∧
      (∃ t ∈ e.used, t.lexeme = .symbol .slash ∧ a.span = t.span) ∧
      e.next.1.value = .lost ∧
      ∃ notes, e.added = notes ++ [⟨.fatal, a.message, a.span⟩] ∧ ∀ d ∈ notes, d.stage ≠ .fatal
  finishes : e.next.1.abort = none → ∀ d ∈ e.added, d.stage ≠ .fatal

/-- Every call is disciplined, whatever the tokens are and however many calls
went before. -/
theorem Evaluator.after_disciplined (file : Text) (ts : List Token) (calls : Nat) :
    ((Evaluator.start file ts).after calls).Disciplined ts := by
  have stands := (Evaluator.start file ts).after_rest calls
  -- Nothing else about the earlier calls matters from here on.
  generalize (Evaluator.start file ts).after calls = e at stands ⊢
  obtain ⟨notes, obeys⟩ := e.next_obeys
  have added := added_eq obeys.noted
  have harmless : ∀ d ∈ notes, d.stage ≠ .fatal := by
    intro d member fatal
    rw [(obeys.concerns d member).1] at fatal
    cases fatal
  refine ⟨stands, obeys.taken, ?_, ?_, ?_⟩
  · rw [added]
    exact obeys.noted
  · intro a aborts
    obtain ⟨value, fault, t, member, slash, span⟩ := obeys.aborted a aborts
    refine ⟨fault, ?_, ⟨t, member, slash, span⟩, value, notes, ?_, harmless⟩
    · rw [Abort.message, fault]
      rfl
    · rw [added, aborts]
      rfl
  · intro clean
    rw [added, clean]
    simpa using harmless

-- `1 ; 6 / 0`: the second call recovers behind the semicolon, the third fails.
example :
    let e := Evaluator.start [] (([.number 1, .symbol .semi, .number 6, .symbol .slash,
      .number 0] : List Lexeme).map fun l => ⟨l, {}⟩)
    (e.after 1).next.1.abort = none ∧ (e.after 2).next.1.abort = some ⟨.divisionByZero, {}⟩ := by
  decide

end Reckoner
