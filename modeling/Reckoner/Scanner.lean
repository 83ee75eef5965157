import Reckoner.Diagnostic
import Reckoner.Text.Blank

/-! # Scanning a source into tokens

The scanner reads a source rune by rune.  Blanks are skipped, illegal runes
are noted and skipped, a digit begins the longest run of digits, and a
punctuation rune is a token of its own.  So scanning always reaches the end of
the source, whatever its bytes are. -/
set_option autoImplicit false
namespace Reckoner

inductive RuneClass where
  | blank
  | digit
  | symbol (s : Symbol)
  | illegal
  deriving DecidableEq, Repr

def Rune.isDigit : Rune → Bool
  | .scalar c => '0' ≤ c && c ≤ '9'
  | .stray _ => false

theorem Rune.bytes_of_isDigit {r : Rune} (digit : r.isDigit = true) :
    ∃ b, r.bytes = [b] ∧ Text.isDigit b = true := by
  cases r with
  | stray b => simp [Rune.isDigit] at digit
  | scalar c =>
    simp only [Rune.isDigit, Bool.and_eq_true, decide_eq_true_eq, Char.le_def] at digit
    simp only [UInt32.le_iff_toNat_le] at digit
    obtain ⟨low, high⟩ := digit
    replace low : 48 ≤ c.val.toNat := low
    replace high : c.val.toNat ≤ 57 := high
    refine ⟨c.val.toUInt8, ?_, ?_⟩
    · have : c.val.toNat ≤ 127 := by omega
      exact String.utf8EncodeChar_eq_singleton (Char.utf8Size_eq_one_iff.2 this)
    · simp only [Text.isDigit, Bool.and_eq_true, decide_eq_true_eq, UInt8.le_iff_toNat_le]
      rw [UInt32.toNat_toUInt8, Nat.mod_eq_of_lt (by omega)]
      exact ⟨low, high⟩

def Rune.symbol? : Rune → Option Symbol
  | .scalar c => Symbol.ofChar? c
  | .stray _ => none

def Rune.scanClass (r : Rune) : RuneClass :=
  if r.isBlank then .blank
  else if r.isDigit then .digit
  else match r.symbol? with
    | some s => .symbol s
    | none => .illegal

structure Scanner where
  here : Position
  rest : Text
  diagnostics : Array Diagnostic := #[]
  deriving Repr, Inhabited

namespace Scanner

def start (file source : Text) : Scanner := { here := .origin file, rest := source }

def past (s : Scanner) (r : Rune) (rest : Text) : Scanner :=
  { s with here := s.here.after r, rest := rest }

def number (s : Scanner) : Token × Scanner :=
  let digits := s.rest.takeWhile Text.isDigit
  let stop := s.here.advance digits.length
  (⟨.number (Text.toNat digits), ⟨s.here, stop⟩⟩,
    { s with here := stop, rest := s.rest.dropWhile Text.isDigit })

def next (s : Scanner) : Option Token × Scanner :=
  match _read : Rune.decode s.rest with
  | none => (none, s)
  | some (r, rest) =>
    let t := s.past r rest
    match r.scanClass with
    | .blank => t.next
    | .digit => (some s.number.1, s.number.2)
    | .symbol m => (some ⟨.symbol m, ⟨s.here, t.here⟩⟩, t)
    | .illegal =>
      next { t with diagnostics := t.diagnostics.push (.illegal r ⟨s.here, t.here⟩) }
termination_by s.rest.length
decreasing_by all_goals exact Rune.length_of_decode ‹_›

theorem length_of_next {s s' : Scanner} {t : Token} (found : s.next = (some t, s')) :
    s'.rest.length < s.rest.length := by
  fun_induction next s with
  | case1 s ended => simp at found
  | case2 s r rest read u blank ih =>
    exact Nat.lt_trans (ih found) (Rune.length_of_decode read)
  | case3 s r rest read digit =>
    simp only [Prod.mk.injEq, Option.some.injEq] at found
    obtain ⟨_, rfl⟩ := found
    have isDigit : r.isDigit = true := by
      unfold Rune.scanClass at digit
      split at digit <;> try contradiction
      split at digit
      · assumption
      · split at digit <;> contradiction
    obtain ⟨b, one, low⟩ := Rune.bytes_of_isDigit isDigit
    have shape := Rune.bytes_append_of_decode read
    rw [one] at shape
    simp only [number, shape, List.singleton_append, List.dropWhile_cons, low, if_true,
      List.length_cons]
    exact Nat.lt_succ_of_le (List.dropWhile_sublist _).length_le
  | case4 s r rest read u m symbol =>
    simp only [Prod.mk.injEq, Option.some.injEq] at found
    obtain ⟨_, rfl⟩ := found
    exact Rune.length_of_decode read
  | case5 s r rest read u illegal ih =>
    exact Nat.lt_trans (ih found) (Rune.length_of_decode read)

def drain (s : Scanner) (found : Array Token) : Array Token × Scanner :=
  match _step : s.next with
  | (none, s') => (found, s')
  | (some t, s') => s'.drain (found.push t)
termination_by s.rest.length
decreasing_by exact length_of_next ‹_›

end Scanner

/-- What scanning a source gives: its tokens and the diagnostics about the
runes that belong to none. -/
structure Scan where
  tokens : List Token
  diagnostics : List Diagnostic
  deriving Repr, Inhabited

def scan (file source : Text) : Scan :=
  let (tokens, s) := (Scanner.start file source).drain #[]
  ⟨tokens.toList, s.diagnostics.toList⟩

end Reckoner
