import Reckoner.Report
import Reckoner.Proofs.Discipline
import Reckoner.Proofs.Spacing

/-! # What texts are made of

Names, numerals, displayed values and the messages about tokens consist of
printable ASCII characters (`Value.visible_text`, `Token.visible_listing`,
`visible_of_mem_evaluate`).  So whatever else is in a report comes from a file
name or from an illegal rune of the source. -/
set_option autoImplicit false
namespace Reckoner

open Descent

/-! ## Visible texts -/

namespace Text

/-- All bytes are printable ASCII characters. -/
def Visible (t : Text) : Prop := ∀ b ∈ t, 32 ≤ b.toNat ∧ b.toNat < 127

instance (t : Text) : Decidable t.Visible :=
  List.decidableBAll (fun b : UInt8 => 32 ≤ b.toNat ∧ b.toNat < 127) t

theorem visible_nil : Visible [] := by simp [Visible]

theorem visible_append {t u : Text} : (t ++ u).Visible ↔ t.Visible ∧ u.Visible :=
  List.forall_mem_append

theorem visible_cons {b : UInt8} {t : Text} :
    Visible (b :: t) ↔ (32 ≤ b.toNat ∧ b.toNat < 127) ∧ t.Visible := List.forall_mem_cons

theorem Visible.of_digits {t : Text} (digit : ∀ b ∈ t, isDigit b = true) : t.Visible := by
  intro b member
  have := isDigit_iff.mp (digit b member)
  omega

theorem visible_join {separator : Text} (visible : separator.Visible) {pieces : List Text}
    (all : ∀ t ∈ pieces, t.Visible) : (join separator pieces).Visible := by
  induction pieces with
  | nil => exact visible_nil
  | cons t more ih =>
    obtain ⟨first, later⟩ := List.forall_mem_cons.mp all
    cases more with
    | nil => simpa [join] using first
    | cons u rest =>
      rw [join, List.intercalate_cons_cons, visible_append, visible_append]
      exact ⟨⟨first, visible⟩, ih later⟩

/-! ## Numerals -/

theorem visible_ofNat (n : Nat) : (ofNat n).Visible := .of_digits fun _ => digit_of_mem_ofNat

theorem visible_ofInt (i : Int) : (ofInt i).Visible := by
  unfold ofInt
  split
  · exact visible_cons.mpr ⟨by decide, visible_ofNat _⟩
  · exact visible_ofNat _

end Text

open Text

theorem visible_zeros (n : Nat) : (zeros n).Visible := by
  intro b member
  rw [List.eq_of_mem_replicate member]
  decide

theorem visible_padded (width n : Nat) : (padded width n).Visible :=
  visible_append.mpr ⟨visible_zeros _, visible_ofNat n⟩

theorem visible_fixedPoint (places n : Nat) : (fixedPoint places n).Visible := by
  unfold fixedPoint
  split
  · exact visible_ofNat n
  · refine visible_append.mpr ⟨visible_ofNat _, ?_⟩
    exact visible_cons.mpr ⟨by decide, visible_padded _ _⟩

namespace Decimal

theorem visible_positional (d : Decimal) : d.positional.Visible := by
  unfold positional
  split
  · exact visible_append.mpr ⟨visible_ofNat _, visible_zeros _⟩
  · exact visible_fixedPoint _ _

theorem visible_scientific (width : Nat) (d : Decimal) : (d.scientific width).Visible := by
  have digits := visible_ofNat d.coefficient
  have exponent : ∀ x : Int,
      Visible (101 :: (if x < 0 then 45 else 43) :: padded width x.natAbs) := by
    intro x
    refine visible_cons.mpr ⟨by decide, visible_cons.mpr ⟨?_, visible_padded _ _⟩⟩
    split <;> decide
  unfold scientific
  generalize d.leading = x
  cases shape : Text.ofNat d.coefficient with
  | nil => exact exponent x
  | cons c more =>
    rw [shape] at digits
    obtain ⟨first, later⟩ := visible_cons.mp digits
    refine visible_append.mpr ⟨?_, exponent x⟩
    cases more with
    | nil => exact digits
    | cons next rest => exact visible_cons.mpr ⟨first, visible_cons.mpr ⟨by decide, later⟩⟩

theorem visible_render (layout : Layout) (d : Decimal) : (d.render layout).Visible := by
  unfold render
  split
  · decide
  · split
    · exact visible_scientific _ d
    · exact visible_positional d

end Decimal

theorem Binary64.visible_render (layout : Layout) (x : Binary64) : (x.render layout).Visible := by
  cases x with
  | infinite negative =>
    have words : (utf8 "-Inf").Visible ∧ (utf8 "+Inf").Visible := by decide
    cases negative with
    | false => exact words.2
    | true => exact words.1
  | finite negative m e =>
    cases negative with
    | false => exact Decimal.visible_render layout _
    | true => exact visible_cons.mpr ⟨by decide, Decimal.visible_render layout _⟩

theorem Value.visible_text (v : Value) : v.text.Visible := by
  cases v with
  | lost => decide
  | number q =>
    unfold Value.text
    simp only
    split
    · exact visible_ofInt _
    · split
      next places _ =>
        unfold Value.exact
        simp only
        split
        · exact visible_cons.mpr ⟨by decide, visible_fixedPoint _ _⟩
        · exact visible_fixedPoint _ _
      next => exact Binary64.visible_render _ _

/-! ## Tokens and messages -/

theorem Kind.visible_name (k : Kind) : (utf8 k.name).Visible := by
  cases k with
  | number => decide
  | symbol s => cases s <;> decide
  | unknown => decide

theorem Kind.visible_sign (k : Kind) : (utf8 k.sign).Visible := by
  cases k with
  | number => decide
  | symbol s => cases s <;> decide
  | unknown => decide

namespace Token

theorem visible_text (t : Token) : t.text.Visible := by
  unfold Token.text
  split
  · exact visible_append.mpr ⟨by decide, visible_ofInt _⟩
  · exact Kind.visible_name _

theorem visible_quote (t : Token) : t.quote.Visible := by
  unfold Token.quote
  split
  · exact visible_append.mpr ⟨by decide, visible_ofInt _⟩
  · exact Kind.visible_sign _

theorem visible_listing (ts : List Token) : (Token.listing ts).Visible := by
  refine visible_append.mpr ⟨visible_append.mpr ⟨by decide, visible_join (by decide) ?_⟩, by decide⟩
  intro t member
  obtain ⟨token, _, rfl⟩ := List.mem_map.mp member
  exact visible_text token

end Token

theorem Fault.visible_message (f : Fault) : f.message.Visible := by
  cases f with
  | divisionByZero => decide
  | unsupported k => exact visible_append.mpr ⟨by decide, Kind.visible_name k⟩

theorem Stage.visible_heading (s : Stage) : (utf8 s.heading).Visible := by
  cases s <;> decide

theorem Diagnostic.visible_unexpected (t : Token) : (Diagnostic.unexpected t).message.Visible := by
  refine visible_append.mpr ⟨visible_append.mpr ⟨by decide, t.visible_quote⟩, by decide⟩

/-! ## What evaluation notes -/

/-- What descent notes are the three kinds of notes. -/
def Diagnostic.IsNote (d : Diagnostic) : Prop :=
  (∃ t, d = .unexpected t) ∨ (∃ span, d = .unexpectedEnd span) ∨ ∃ span, d = .unclosed span

section Notes
variable {atEnd : Span} {p : Parsed}

/-- All notes are of the three kinds. -/
def Descent.Parsed.Noted (p : Parsed) : Prop := ∀ d ∈ p.notes, d.IsNote

theorem noted_single {d : Diagnostic} (note : d.IsNote) (tree : Tree Value Span)
    (rest : List Token) : Parsed.Noted ⟨tree, rest, [d]⟩ := by
  intro e member
  rw [List.mem_singleton.mp member]
  exact note

theorem Descent.Parsed.Noted.grouped (noted : p.Noted) : (p.grouped atEnd).Noted := by
  have unclosed : ∀ span, ∀ d ∈ p.notes ++ [.unclosed span], d.IsNote := fun span =>
    List.forall_mem_append.mpr ⟨noted, List.forall_mem_singleton.mpr (.inr (.inr ⟨span, rfl⟩))⟩
  unfold Parsed.grouped
  split
  · exact unclosed atEnd
  next t rest _ =>
    split
    · exact noted
    · exact unclosed t.span

theorem noted_chain (atEnd : Span) (rank : Rank) (ts : List Token) : (chain atEnd rank ts).Noted := by
  refine (reader_induction atEnd (fun ts => (factor atEnd ts).Noted)
    (fun rank ts => (operand atEnd rank ts).Noted) (fun rank ts => (chain atEnd rank ts).Noted)
    (fun rank left ts => (extend atEnd rank left ts).Noted)
    ?nothing ?number ?group ?other ?product ?sum ?begins ?ends ?joins).2.1 rank ts
  case nothing =>
    rw [factor_nil]
    exact noted_single (.inr (.inl ⟨atEnd, rfl⟩)) _ _
  case number =>
    intro t rest n lexeme
    rw [factor_number atEnd lexeme]
    simp [Parsed.Noted]
  case group =>
    intro t rest opens inner
    rw [factor_group atEnd opens]
    exact inner.grouped
  case other =>
    intro t rest number opens
    rw [factor_other atEnd number opens]
    exact noted_single (.inl ⟨t, rfl⟩) _ _
  case product =>
    intro ts first
    rwa [operand_product]
  case sum =>
    intro ts first
    rwa [operand_sum]
  case begins =>
    intro rank ts first more
    rw [chain_eq]
    exact List.forall_mem_append.mpr ⟨first, more⟩
  case ends =>
    intro rank left ts stops
    rw [extend_stops atEnd stops]
    simp [Parsed.Noted]
  case joins =>
    intro rank left t rest op sign right more
    rw [extend_operator atEnd sign]
    exact List.forall_mem_append.mpr ⟨right, more⟩

theorem noted_ended (noted : p.Noted) : p.ended.Noted := by
  unfold Parsed.ended
  split
  · exact noted
  next t _ _ =>
    exact List.forall_mem_append.mpr ⟨noted, List.forall_mem_singleton.mpr (.inl ⟨t, rfl⟩)⟩

end Notes

/-- An evaluation adds notes, and the diagnostic of its abort if it aborts. -/
theorem Evaluator.isNote_of_mem_added {e : Evaluator} {d : Diagnostic} (member : d ∈ e.added) :
    d.IsNote ∨ ∃ a, e.next.1.abort = some a ∧ d = a.diagnostic := by
  have noted := noted_ended (noted_chain e.atEnd .sum e.rest)
  have follows := e.next_follows
  unfold Reader.Follows at follows
  split at follows
  next v value =>
    have all : e.next.1.diagnostics.toList =
        e.diagnostics.toList ++ (chain e.atEnd .sum e.rest).ended.notes := by
      rw [follows]
      simp
    rw [added_eq all] at member
    exact Or.inl (noted d member)
  next span value =>
    obtain ⟨rest, notes, begins, aborts⟩ := follows
    have all : e.next.1.diagnostics.toList =
        e.diagnostics.toList ++ (notes ++ [Abort.diagnostic ⟨.divisionByZero, span⟩]) := by
      rw [aborts]
      simp [Outcome.aborted]
    rw [added_eq all] at member
    rcases List.mem_append.mp member with note | fatal
    · exact Or.inl (noted d ((begins.trans (Parsed.prefix_ended _)).subset note))
    · exact Or.inr ⟨_, by rw [aborts]; rfl, List.mem_singleton.mp fatal⟩

theorem Diagnostic.IsNote.visible {d : Diagnostic} (note : d.IsNote) : d.message.Visible := by
  have fixed : (utf8 "Unexpected token 'EOF'").Visible ∧ (utf8 "Expected ')'").Visible := by decide
  rcases note with ⟨t, rfl⟩ | ⟨span, rfl⟩ | ⟨span, rfl⟩
  · exact visible_unexpected t
  · exact fixed.1
  · exact fixed.2

theorem visible_of_mem_evaluate {file : Text} {ts : List Token} {d : Diagnostic}
    (member : d ∈ (evaluate file ts).diagnostics) : d.message.Visible := by
  have added : d ∈ (Evaluator.start file ts).added := Array.mem_toList_iff.mpr member
  rcases Evaluator.isNote_of_mem_added added with note | ⟨a, _, rfl⟩
  · exact note.visible
  · exact a.fault.visible_message

end Reckoner
