import Reckoner.Proofs.Pieces

/-! # Laying out words

A word is a numeral or a sign.  A spacing puts blanks in front of every word and
behind the last one, and zeros in front of every numeral.  Where it separates
the numerals, scanning the text gives the words back (`scan_text`), each token
with the span of its word. -/
set_option autoImplicit false
namespace Reckoner

inductive Word where
  | numeral (n : Nat)
  | sign (s : Symbol)
  deriving DecidableEq, Repr

namespace Word

def lexeme : Word → Lexeme
  | .numeral n => .number n
  | .sign s => .symbol s

def isNumeral : Word → Bool
  | .numeral _ => true
  | .sign _ => false

/-- The tokens of words that are counted from a number on. -/
def tokens (spans : Nat → Span) (i : Nat) : List Word → List Token
  | [] => []
  | w :: ws => ⟨w.lexeme, spans i⟩ :: tokens spans (i + 1) ws

theorem tokens_append (spans : Nat → Span) (i : Nat) (ws more : List Word) :
    tokens spans i (ws ++ more) = tokens spans i ws ++ tokens spans (i + ws.length) more := by
  induction ws generalizing i with
  | nil => rfl
  | cons w ws ih =>
    have count : i + (w :: ws).length = i + 1 + ws.length := by
      simp only [List.length_cons]
      omega
    rw [List.cons_append, tokens, ih, count]
    rfl

end Word

/-- A character that is white space. -/
abbrev Blank := { c : Char // isBlankCode c.toNat = true }

structure Spacing where
  /-- The blanks in front of a word, or behind them all. -/
  gap : Nat → List Blank
  /-- The leading zeros of a numeral. -/
  zeros : Nat → Nat

namespace Spacing
variable (spacing : Spacing)

def space (i : Nat) : Text := (spacing.gap i).flatMap fun c => String.utf8EncodeChar c.val

def spell (i : Nat) : Word → Text
  | .numeral n => List.replicate (spacing.zeros i) 48 ++ Text.ofNat n
  | .sign s => String.utf8EncodeChar s.char

def text (i : Nat) : List Word → Text
  | [] => spacing.space i
  | w :: ws => spacing.space i ++ (spacing.spell i w ++ text (i + 1) ws)

/-- No two numerals run together. -/
def Separates (i : Nat) : List Word → Prop
  | w :: v :: ws =>
    (w.isNumeral = true ∧ v.isNumeral = true → spacing.gap (i + 1) ≠ []) ∧
      Separates (i + 1) (v :: ws)
  | _ => True

/-- The span of a word of a text that starts at a position. -/
def span (p : Position) (ws : List Word) (k : Nat) : Span :=
  let before := spacing.text 0 (ws.take k)
  ⟨p.behind before, p.behind (before ++ (ws[k]?.map (spacing.spell k)).getD [])⟩

theorem text_append (i : Nat) (before behind : List Word) (w : Word) :
    spacing.text i (before ++ w :: behind) = spacing.text i before ++
      (spacing.spell (i + before.length) w ++ spacing.text (i + before.length + 1) behind) := by
  induction before generalizing i with
  | nil => rfl
  | cons v more ih =>
    have count : i + (v :: more).length = i + 1 + more.length := by
      simp only [List.length_cons]
      omega
    rw [List.cons_append, text, ih, text, count]
    simp only [List.append_assoc]

/-! ## The pieces of the text -/

def blanks (i : Nat) : List Piece := (spacing.gap i).map fun c => .blank (.scalar c.val)

def piece (i : Nat) : Word → Piece
  | .numeral n => .number (spacing.spell i (.numeral n))
  | .sign s => .symbol s

def cut (i : Nat) : List Word → List Piece
  | [] => spacing.blanks i
  | w :: ws => spacing.blanks i ++ spacing.piece i w :: cut (i + 1) ws

end Spacing

/-! ## Numerals -/

namespace Text

/-- The byte of a digit character. -/
theorem toNat_digitByte {c : Char} (digit : c.isDigit = true) :
    (UInt8.ofNat c.toNat).toNat = c.toNat ∧ 48 ≤ c.toNat ∧ c.toNat ≤ 57 := by
  have low : 48 ≤ c.toNat ∧ c.toNat ≤ 57 := by
    simpa [Char.isDigit, UInt32.le_iff_toNat_le] using digit
  refine ⟨?_, low⟩
  rw [UInt8.toNat_ofNat']
  omega

theorem digit_of_mem_ofNat {n : Nat} {b : UInt8} (member : b ∈ ofNat n) : isDigit b = true := by
  obtain ⟨c, inside, rfl⟩ := List.mem_map.mp member
  have digit := Nat.isDigit_of_mem_toDigits (by decide) (by decide) inside
  obtain ⟨same, low, high⟩ := toNat_digitByte digit
  rw [isDigit_iff, same]
  exact ⟨low, high⟩

theorem toNat_digits {digits : List Char} (digit : ∀ c ∈ digits, c.isDigit = true) (start : Nat) :
    (digits.map fun c => UInt8.ofNat c.toNat).foldl (fun n b => 10 * n + (b.toNat - 48)) start =
      Nat.ofDigitChars 10 digits start := by
  induction digits generalizing start with
  | nil => rfl
  | cons c more ih =>
    obtain ⟨first, later⟩ := List.forall_mem_cons.mp digit
    rw [List.map_cons, List.foldl_cons, ih later, (toNat_digitByte first).1, Nat.ofDigitChars_cons]
    rfl

theorem toNat_zeros (count : Nat) (rest : Text) :
    toNat (List.replicate count 48 ++ rest) = toNat rest := by
  induction count with
  | zero => rfl
  | succ count ih => exact ih

theorem toNat_ofNat (n : Nat) : (ofNat n).toNat = n := by
  have digit : ∀ c ∈ Nat.toDigits 10 n, c.isDigit = true := fun c inside =>
    Nat.isDigit_of_mem_toDigits (by decide) (by decide) inside
  exact (toNat_digits digit 0).trans Nat.ofDigitChars_ten_toDigits

end Text

namespace Spacing
variable (spacing : Spacing)

theorem written_piece (i : Nat) (w : Word) : (spacing.piece i w).Written := by
  cases w with
  | sign s => exact ⟨trivial, fun r inside => ⟨s.char, List.mem_singleton.mp inside⟩⟩
  | numeral n =>
    refine ⟨⟨?_, ?_⟩, ?_⟩
    · exact List.append_ne_nil_of_right_ne_nil _ (by simp [Text.ofNat])
    · intro b member
      rcases List.mem_append.mp member with zero | later
      · rw [List.eq_of_mem_replicate zero]
        decide
      · exact Text.digit_of_mem_ofNat later
    · intro r inside
      obtain ⟨b, _, rfl⟩ := List.mem_map.mp inside
      exact ⟨_, rfl⟩

theorem forall_mem_cut {P : Piece → Prop} (blank : ∀ c : Blank, P (.blank (.scalar c.val)))
    (word : ∀ i w, P (spacing.piece i w)) (i : Nat) (ws : List Word) :
    ∀ x ∈ spacing.cut i ws, P x := by
  have space : ∀ i, ∀ x ∈ spacing.blanks i, P x := by
    intro i x member
    obtain ⟨c, _, rfl⟩ := List.mem_map.mp member
    exact blank c
  induction ws generalizing i with
  | nil => exact space i
  | cons w ws ih =>
    refine List.forall_mem_append.mpr ⟨space i, ?_⟩
    exact List.forall_mem_cons.mpr ⟨word i w, ih (i + 1)⟩

theorem written_cut (i : Nat) (ws : List Word) : ∀ x ∈ spacing.cut i ws, x.Written := by
  refine spacing.forall_mem_cut ?_ spacing.written_piece i ws
  intro c
  exact ⟨c.property, fun r inside => ⟨c.val, List.mem_singleton.mp inside⟩⟩

theorem bytes_piece (i : Nat) (w : Word) : (spacing.piece i w).bytes = spacing.spell i w := by
  cases w <;> rfl

theorem bytes_blanks (i : Nat) : (spacing.blanks i).flatMap Piece.bytes = spacing.space i := by
  simp only [blanks, space, List.flatMap_map]
  rfl

theorem bytes_cut (i : Nat) (ws : List Word) :
    (spacing.cut i ws).flatMap Piece.bytes = spacing.text i ws := by
  induction ws generalizing i with
  | nil => exact spacing.bytes_blanks i
  | cons w ws ih =>
    rw [cut, List.flatMap_append, List.flatMap_cons, bytes_blanks, bytes_piece, ih]
    rfl

theorem apart_blanks (i : Nat) {xs : List Piece} (apart : xs.IsChain Apart) :
    (spacing.blanks i ++ xs).IsChain Apart := by
  unfold blanks
  induction spacing.gap i with
  | nil => exact apart
  | cons c more ih => exact ih.cons fun _ _ both => by cases both.1

theorem isNumber_piece (i : Nat) (w : Word) : (spacing.piece i w).isNumber = w.isNumeral := by
  cases w <;> rfl

/-- A text begins with a numeral only where no blank is in front of it. -/
theorem numeral_of_head {i : Nat} {ws : List Word} {x : Piece}
    (head : x ∈ (spacing.cut i ws).head?) (number : x.isNumber = true) :
    spacing.gap i = [] ∧ ∃ w ∈ ws.head?, w.isNumeral = true := by
  cases gap : spacing.gap i with
  | cons c more =>
    cases ws <;>
    · simp only [cut, blanks, gap, List.map_cons, List.cons_append, List.head?_cons] at head
      cases head
      cases number
  | nil =>
    cases ws with
    | nil =>
      simp only [cut, blanks, gap] at head
      cases head
    | cons w ws =>
      simp only [cut, blanks, gap, List.map_nil, List.nil_append, List.head?_cons] at head
      cases head
      exact ⟨rfl, w, rfl, (spacing.isNumber_piece i w).symm.trans number⟩

theorem apart_cut {i : Nat} {ws : List Word} (separates : spacing.Separates i ws) :
    (spacing.cut i ws).IsChain Apart := by
  induction ws generalizing i with
  | nil =>
    have apart := spacing.apart_blanks i .nil
    rwa [List.append_nil] at apart
  | cons w ws ih =>
    refine spacing.apart_blanks i ?_
    have later : spacing.Separates (i + 1) ws := by
      cases ws with
      | nil => trivial
      | cons v more => exact separates.2
    refine (ih later).cons fun x head both => ?_
    obtain ⟨touching, v, second, numeral⟩ := spacing.numeral_of_head head both.2
    have first := (spacing.isNumber_piece i w).symm.trans both.1
    cases ws with
    | nil => cases second
    | cons u more =>
      cases second
      exact separates.1 ⟨first, numeral⟩ touching

theorem pieces_text {i : Nat} {ws : List Word} (separates : spacing.Separates i ws) :
    pieces (spacing.text i ws) = spacing.cut i ws := by
  rw [← bytes_cut]
  exact pieces_bytes (spacing.written_cut i ws) (spacing.apart_cut separates)

/-! ## Scanning the text -/

theorem noteOf_cut (p : Position) (i : Nat) (ws : List Word) :
    (place p (spacing.cut i ws)).filterMap noteOf = [] := by
  have legal : ∀ x ∈ spacing.cut i ws, ∀ span, noteOf (x, span) = none := by
    refine spacing.forall_mem_cut (fun _ _ => rfl) ?_ i ws
    intro i w span
    cases w <;> rfl
  refine List.filterMap_eq_nil_iff.mpr ?_
  rintro ⟨x, span⟩ member
  exact legal x (mem_of_mem_place member) span

theorem tokenOf_blanks (p : Position) (i : Nat) :
    (place p (spacing.blanks i)).filterMap tokenOf = [] := by
  unfold blanks
  induction spacing.gap i generalizing p with
  | nil => rfl
  | cons c more ih => exact ih _

theorem tokenOf_piece (i : Nat) (w : Word) (span : Span) :
    tokenOf (spacing.piece i w, span) = some ⟨w.lexeme, span⟩ := by
  cases w with
  | sign s => rfl
  | numeral n =>
    have value : Text.toNat (spacing.spell i (.numeral n)) = n := by
      rw [spell, Text.toNat_zeros, Text.toNat_ofNat]
    simp only [piece, tokenOf, value, Word.lexeme]

/-- Every word makes one token, at the place of its piece. -/
theorem tokenOf_cut {p : Position} {i : Nat} {ws : List Word} {spans : Nat → Span}
    (placed : ∀ k w, ws[k]? = some w →
      spans (i + k) = ⟨p.across (spacing.cut i (ws.take k)),
        p.across (spacing.cut i (ws.take k) ++ [spacing.piece (i + k) w])⟩) :
    (place p (spacing.cut i ws)).filterMap tokenOf = Word.tokens spans i ws := by
  induction ws generalizing p i with
  | nil => exact spacing.tokenOf_blanks p i
  | cons w ws ih =>
    have first := placed 0 w rfl
    have later := ih (p := (spacing.piece i w).stop (p.across (spacing.blanks i))) (i := i + 1)
    rw [cut, place_append, List.filterMap_append, tokenOf_blanks, List.nil_append, place,
      List.filterMap_cons, tokenOf_piece]
    simp only
    rw [Word.tokens, later]
    · rw [Nat.add_zero] at first
      simp only [first, List.take_zero, cut, Position.across, List.foldl_append, List.foldl_cons,
        List.foldl_nil]
    · intro k v found
      have shift : i + 1 + k = i + (k + 1) := by omega
      rw [shift, placed (k + 1) v found]
      simp only [List.take_succ_cons, cut, Position.across, List.foldl_append, List.foldl_cons,
        List.foldl_nil]

theorem span_eq (p : Position) {ws : List Word} {k : Nat} {w : Word} (found : ws[k]? = some w) :
    spacing.span p ws k = ⟨p.across (spacing.cut 0 (ws.take k)),
      p.across (spacing.cut 0 (ws.take k) ++ [spacing.piece k w])⟩ := by
  have before := spacing.written_cut 0 (ws.take k)
  have through : ∀ x ∈ spacing.cut 0 (ws.take k) ++ [spacing.piece k w], x.Written :=
    List.forall_mem_append.mpr ⟨before, List.forall_mem_singleton.mpr (spacing.written_piece k w)⟩
  rw [across_written before, across_written through, List.flatMap_append, List.flatMap_singleton,
    bytes_cut, bytes_piece, span, found]
  rfl

end Spacing

/-- Scanning laid out words gives the words. -/
theorem scan_text (spacing : Spacing) (file : Text) {ws : List Word}
    (separates : spacing.Separates 0 ws) :
    scan file (spacing.text 0 ws) = ⟨Word.tokens (spacing.span (.origin file) ws) 0 ws, []⟩ := by
  rw [scan_eq, spacing.pieces_text separates, spacing.noteOf_cut]
  congr 1
  refine spacing.tokenOf_cut fun k w found => ?_
  rw [Nat.zero_add]
  exact spacing.span_eq (.origin file) found

end Reckoner
