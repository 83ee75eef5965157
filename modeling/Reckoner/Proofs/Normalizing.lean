import Reckoner.Proofs.Agreement
import Reckoner.Proofs.Joining

/-! # Sources written anew from their tokens

Tokens are written as a source holds them, with one blank between them.
Scanning that text gives the same lexemes and nothing to complain about
(`scan_normalText`).  An evaluation looks at the lexemes only
(`compileAt_alike`), so a source and the text of its tokens come to the same, but
for the illegal runes of the source. -/
set_option autoImplicit false
namespace Reckoner

namespace Token

def written (t : Token) : Text :=
  match t.lexeme with
  | .number n => Text.ofInt n
  | l => utf8 l.kind.sign

/-- Tokens as a source holds them, one blank between two of them. -/
def normalText (ts : List Token) : Text := Text.join [32] (ts.map written)

/-- A token that a source can hold: a symbol, or a number that is not negative. -/
def Legal : Token → Prop
  | ⟨.number n, _⟩ => 0 ≤ n
  | ⟨.symbol _, _⟩ => True
  | ⟨.unknown, _⟩ => False

instance : (t : Token) → Decidable t.Legal
  | ⟨.number n, _⟩ => inferInstanceAs (Decidable (0 ≤ n))
  | ⟨.symbol _, _⟩ => .isTrue trivial
  | ⟨.unknown, _⟩ => .isFalse id

end Token

/-! ## Written tokens are scanned back -/

/-- No blanks and no zeros in front. -/
def Spacing.tight : Spacing := ⟨fun _ => [], fun _ => 0⟩

theorem exists_word {t : Token} (legal : t.Legal) :
    ∃ w : Word, w.lexeme = t.lexeme ∧ Spacing.tight.text 0 [w] = t.written := by
  have single : ∀ w, Spacing.tight.text 0 [w] = Spacing.tight.spell 0 w := by
    intro w
    simp [Spacing.text, Spacing.space, Spacing.tight]
  obtain ⟨lexeme, span⟩ := t
  cases lexeme with
  | number n =>
    have natural : ((n.toNat : Nat) : Int) = n := Int.toNat_of_nonneg legal
    have unsigned : ¬ n < 0 := Int.not_lt.mpr legal
    have magnitude : n.natAbs = n.toNat := by omega
    have digits : Text.ofInt n = Text.ofNat n.toNat := by
      rw [Text.ofInt, if_neg unsigned, magnitude]
    refine ⟨.numeral n.toNat, congrArg Lexeme.number natural, ?_⟩
    rw [single]
    exact digits.symm
  | symbol s =>
    have sign : utf8 s.char.toString = String.utf8EncodeChar s.char := by
      simp [utf8, Char.toString]
    refine ⟨.sign s, rfl, ?_⟩
    rw [single]
    exact sign.symm
  | unknown => exact legal.elim

theorem scan_written (file : Text) {t : Token} (legal : t.Legal) :
    (scan file t.written).tokens.map Token.lexeme = [t.lexeme] ∧
      (scan file t.written).diagnostics = [] := by
  obtain ⟨w, lexeme, text⟩ := exists_word legal
  have separates : Spacing.tight.Separates 0 [w] := trivial
  have scanned := scan_text .tight file separates
  rw [text] at scanned
  rw [scanned, ← lexeme]
  exact ⟨rfl, rfl⟩

theorem scan_normalText (file : Text) {ts : List Token} (legal : ∀ t ∈ ts, t.Legal) :
    (scan file (Token.normalText ts)).tokens.map Token.lexeme = ts.map Token.lexeme ∧
      (scan file (Token.normalText ts)).diagnostics = [] := by
  obtain ⟨lexemes, lines⟩ := scan_join file (ts.map Token.written)
  rw [List.flatMap_map] at lexemes lines
  constructor
  · rw [Token.normalText, lexemes,
      List.flatMap_congr fun t member => (scan_written file (legal t member)).1]
    exact List.map_eq_flatMap.symm
  · have nothing : (scan file (Token.normalText ts)).diagnostics.map Diagnostic.text = [] := by
      rw [Token.normalText, lines]
      refine List.flatMap_eq_nil_iff.mpr fun t member => ?_
      rw [(scan_written file (legal t member)).2]
      rfl
    exact List.map_eq_nil_iff.mp nothing

theorem legal_of_mem_scan {file source : Text} {t : Token}
    (member : t ∈ (scan file source).tokens) : t.Legal := by
  rw [scan_eq] at member
  obtain ⟨⟨x, span⟩, _, token⟩ := List.mem_filterMap.mp member
  cases x with
  | blank r => cases token
  | illegal r => cases token
  | symbol s =>
    cases token
    trivial
  | number digits =>
    cases token
    exact Int.natCast_nonneg _

theorem Token.normalText_congr {ts us : List Token} (same : ts.map lexeme = us.map lexeme) :
    normalText ts = normalText us := by
  rw [normalText, normalText, map_congr (f := written) (fun _ => rfl) same]

/-! ## Compiling what is written anew -/

def Diagnostic.said (d : Diagnostic) : Stage × Text := (d.stage, d.message)

theorem diagnostics_compileAt (file source : Text) : (compileAt file source).diagnostics =
    (scan file source).diagnostics ++ (Evaluator.start file (scan file source).tokens).added := rfl

/-- The diagnostics of a report that are not about illegal runes are those of the
evaluation. -/
theorem filter_diagnostics (file source : Text) :
    (compileAt file source).diagnostics.filter (fun d => d.stage ≠ .lexer) =
      (Evaluator.start file (scan file source).tokens).added := by
  have scanned : (scan file source).diagnostics.filter (fun d => d.stage ≠ .lexer) = [] := by
    refine List.filter_eq_nil_iff.mpr fun d member => ?_
    simp [stage_scan member]
  have evaluated : ∀ d ∈ (Evaluator.start file (scan file source).tokens).added,
      d.stage ≠ .lexer := by
    intro d member
    rcases Evaluator.mem_added member with ⟨parser, _⟩ | ⟨a, _, rfl⟩
    · simp [parser]
    · simp [Abort.diagnostic]
  have kept := List.filter_eq_self.mpr fun d member => decide_eq_true (evaluated d member)
  rw [diagnostics_compileAt, List.filter_append, scanned, kept, List.nil_append]

theorem compileAt_alike (f g : Text) {s t : Text}
    (alike : (scan f s).tokens.map Token.lexeme = (scan g t).tokens.map Token.lexeme) :
    (compileAt f s).value = (compileAt g t).value ∧
    (compileAt f s).failure.map Failure.message = (compileAt g t).failure.map Failure.message ∧
    (Evaluator.start f (scan f s).tokens).added.map Diagnostic.said =
      (Evaluator.start g (scan g t).tokens).added.map Diagnostic.said := by
  have same := Evaluator.after_matches f g alike 0
  refine ⟨same.value, ?_, ?_⟩
  · simp only [compileAt, Option.map_map]
    exact same.failure
  · rw [← List.forall₂_eq_eq_eq, List.forall₂_map_left_iff, List.forall₂_map_right_iff]
    exact same.added.imp fun d e both => Prod.ext both.stage both.message

/-- Tokens that a source can hold are scanned back from their text.  So a source
and the text of its tokens have the same value, the same error and the same
diagnostics but for illegal runes, and writing the tokens once more changes
nothing. -/
theorem normalized_compiles_alike :
    (∀ (file : Text) (ts : List Token), (∀ t ∈ ts, t.Legal) →
      (scan file (Token.normalText ts)).diagnostics = [] ∧
      (scan file (Token.normalText ts)).tokens.map Token.lexeme = ts.map Token.lexeme) ∧
    ∀ f g source : Text,
      let before := compileAt f source
      let again := compileAt g (Token.normalText before.tokens)
      again.value = before.value ∧
      again.failure.map Failure.message = before.failure.map Failure.message ∧
      again.diagnostics.map Diagnostic.said =
        (before.diagnostics.filter fun d => d.stage ≠ .lexer).map Diagnostic.said ∧
      Token.normalText again.tokens = Token.normalText before.tokens := by
  refine ⟨fun file ts legal => (scan_normalText file legal).symm, ?_⟩
  intro f g source before again
  have legal : ∀ t ∈ before.tokens, t.Legal := fun t member => legal_of_mem_scan member
  obtain ⟨lexemes, clean⟩ := scan_normalText g legal
  obtain ⟨value, failure, said⟩ := compileAt_alike g f lexemes
  refine ⟨value, failure, ?_, Token.normalText_congr lexemes⟩
  rw [filter_diagnostics, diagnostics_compileAt, clean, List.nil_append]
  exact said

theorem normalized_compiles_alike_open :
    let ts := indexed [.number 12, .symbol .slash, .symbol .lparen, .number 0, .symbol .semi]
    (∀ t ∈ ts, t.Legal) ∧ Token.normalText ts = utf8 "12 / ( 0 ;" ∧
      (scan [] (Token.normalText ts)).tokens.map Token.lexeme = ts.map Token.lexeme := by
  intro ts
  have legal : ∀ t ∈ ts, t.Legal := by decide
  have text : Token.normalText ts = utf8 "12 / ( 0 ;" := by decide
  exact ⟨legal, text, (normalized_compiles_alike.1 [] ts legal).2⟩

end Reckoner
