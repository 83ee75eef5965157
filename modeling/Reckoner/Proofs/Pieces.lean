import Mathlib.Data.List.Chain
import Reckoner.Proofs.Reading

/-! # The pieces of a source

A source is cut into pieces: blank runes, runs of digits, symbols and illegal
runes.  `pieces` cuts, and `place` gives every piece its span.  Scanning keeps
the number and symbol pieces as tokens and the illegal ones as diagnostics
(`scan_eq`).

The cut loses nothing (`bytes_pieces`, `runes_pieces`), every piece is of its
class (`proper_pieces`), and no two runs of digits touch (`apart_pieces`). -/
set_option autoImplicit false
namespace Reckoner

inductive Piece where
  | blank (r : Rune)
  | number (digits : Text)
  | symbol (s : Symbol)
  | illegal (r : Rune)
  deriving DecidableEq, Repr

namespace Piece

def bytes : Piece → Text
  | .blank r => r.bytes
  | .number digits => digits
  | .symbol s => String.utf8EncodeChar s.char
  | .illegal r => r.bytes

def runes : Piece → List Rune
  | .blank r => [r]
  | .number digits => digits.map Rune.ascii
  | .symbol s => [.scalar s.char]
  | .illegal r => [r]

def isNumber : Piece → Bool
  | .number _ => true
  | _ => false

/-- A piece is of the class that its name says. -/
def Proper : Piece → Prop
  | .blank r => r.isBlank = true
  | .number digits => digits ≠ [] ∧ ∀ b ∈ digits, Text.isDigit b = true
  | .symbol _ => True
  | .illegal r => r.isBlank = false ∧ r.isDigit = false ∧ r.symbol? = none

/-- The position behind a piece. -/
def stop (p : Position) : Piece → Position
  | .blank r => p.after r
  | .number digits => p.advance digits.length
  | .symbol s => p.after (.scalar s.char)
  | .illegal r => p.after r

end Piece

namespace Symbol

theorem ofChar?_char (s : Symbol) : ofChar? s.char = some s := by
  cases s <;> decide

theorem char_of_ofChar? {c : Char} {s : Symbol} (found : ofChar? c = some s) : c = s.char := by
  have same := List.find?_some found
  simp only [beq_iff_eq] at same
  exact same.symm

end Symbol

namespace Rune

theorem scanClass_blank {r : Rune} : r.scanClass = .blank ↔ r.isBlank = true := by
  unfold scanClass
  split
  · simp_all
  · split
    · simp_all
    · split <;> simp_all

theorem scanClass_digit {r : Rune} (digit : r.scanClass = .digit) : r.isDigit = true := by
  unfold scanClass at digit
  split at digit
  · cases digit
  · split at digit
    · assumption
    · split at digit <;> cases digit

theorem scanClass_symbol {r : Rune} {s : Symbol} (symbol : r.scanClass = .symbol s) :
    r = .scalar s.char := by
  unfold scanClass at symbol
  split at symbol
  · cases symbol
  · split at symbol
    · cases symbol
    · split at symbol
      next m found =>
        cases symbol
        cases r with
        | scalar c => exact congrArg Rune.scalar (Symbol.char_of_ofChar? found)
        | stray b => cases found
      next => cases symbol

theorem scanClass_illegal {r : Rune} (illegal : r.scanClass = .illegal) :
    r.isBlank = false ∧ r.isDigit = false ∧ r.symbol? = none := by
  unfold scanClass at illegal
  split at illegal
  · cases illegal
  · split at illegal
    · cases illegal
    · split at illegal
      · cases illegal
      · simp_all

end Rune

/-- What begins with a digit rune begins with a digit byte. -/
theorem digit_of_decode {t rest : Text} {r : Rune} (read : Rune.decode t = some (r, rest))
    (digit : r.isDigit = true) : ∃ b, t = b :: rest ∧ Text.isDigit b = true := by
  obtain ⟨b, one, low⟩ := Rune.bytes_of_isDigit digit
  have shape := Rune.bytes_append_of_decode read
  rw [one] at shape
  exact ⟨b, shape, low⟩

theorem length_dropDigits {t rest : Text} {r : Rune} (read : Rune.decode t = some (r, rest))
    (digit : r.scanClass = .digit) : (t.dropWhile Text.isDigit).length < t.length := by
  obtain ⟨b, rfl, low⟩ := digit_of_decode read (Rune.scanClass_digit digit)
  rw [List.dropWhile_cons_of_pos low, List.length_cons]
  exact Nat.lt_succ_of_le (List.dropWhile_sublist _).length_le

def pieces (t : Text) : List Piece :=
  match _read : Rune.decode t with
  | none => []
  | some (r, rest) =>
    match _kind : r.scanClass with
    | .blank => .blank r :: pieces rest
    | .digit => .number (t.takeWhile Text.isDigit) :: pieces (t.dropWhile Text.isDigit)
    | .symbol s => .symbol s :: pieces rest
    | .illegal => .illegal r :: pieces rest
termination_by t.length
decreasing_by
  · exact Rune.length_of_decode ‹_›
  · exact length_dropDigits ‹_› ‹_›
  · exact Rune.length_of_decode ‹_›
  · exact Rune.length_of_decode ‹_›

@[simp] theorem pieces_nil : pieces [] = [] := by
  rw [pieces]
  rfl

theorem pieces_of_decode {t rest : Text} {r : Rune} (read : Rune.decode t = some (r, rest)) :
    pieces t =
      match r.scanClass with
      | .blank => .blank r :: pieces rest
      | .digit => .number (t.takeWhile Text.isDigit) :: pieces (t.dropWhile Text.isDigit)
      | .symbol s => .symbol s :: pieces rest
      | .illegal => .illegal r :: pieces rest := by
  rw [pieces]
  split
  next ended => simp [ended] at read
  next r' rest' found =>
    rw [read] at found
    cases found
    split <;> simp_all

/-- Every piece with its span, from a position on. -/
def place (p : Position) : List Piece → List (Piece × Span)
  | [] => []
  | x :: xs => (x, ⟨p, x.stop p⟩) :: place (x.stop p) xs

def tokenOf : Piece × Span → Option Token
  | (.number digits, span) => some ⟨.number (Text.toNat digits), span⟩
  | (.symbol s, span) => some ⟨.symbol s, span⟩
  | _ => none

def noteOf : Piece × Span → Option Diagnostic
  | (.illegal r, span) => some (.illegal r span)
  | _ => none

/-! ## The cut -/

theorem bytes_pieces (t : Text) : (pieces t).flatMap Piece.bytes = t := by
  fun_induction pieces t with
  | case1 t ended => exact (Rune.decode_eq_none.mp ended).symm
  | case2 t r rest read blank ih =>
    rw [List.flatMap_cons, ih]
    exact (Rune.bytes_append_of_decode read).symm
  | case3 t r rest read digit ih =>
    rw [List.flatMap_cons, ih]
    exact List.takeWhile_append_dropWhile
  | case4 t r rest read s symbol ih =>
    rw [List.flatMap_cons, ih, Rune.bytes_append_of_decode read, Rune.scanClass_symbol symbol]
    rfl
  | case5 t r rest read illegal ih =>
    rw [List.flatMap_cons, ih]
    exact (Rune.bytes_append_of_decode read).symm

theorem all_digits {digits : Text} (digit : ∀ b ∈ digits, Text.isDigit b = true) (rest : Text) :
    Rune.all (digits ++ rest) = digits.map Rune.ascii ++ Rune.all rest := by
  induction digits with
  | nil => rfl
  | cons b more ih =>
    have ascii := Text.ascii_of_isDigit (digit b (List.mem_cons_self ..))
    rw [List.cons_append, Rune.all_of_decode (decode_ascii ascii _),
      ih fun b member => digit b (List.mem_cons_of_mem _ member)]
    rfl

theorem isDigit_of_mem_takeWhile {t : Text} {b : UInt8} (member : b ∈ t.takeWhile Text.isDigit) :
    Text.isDigit b = true :=
  List.all_eq_true.mp (List.all_takeWhile (p := Text.isDigit) (l := t)) b member

theorem runes_pieces (t : Text) : (pieces t).flatMap Piece.runes = Rune.all t := by
  fun_induction pieces t with
  | case1 t ended => rw [Rune.decode_eq_none.mp ended, Rune.all_nil]; rfl
  | case2 t r rest read blank ih => rw [List.flatMap_cons, ih, Rune.all_of_decode read]; rfl
  | case3 t r rest read digit ih =>
    have split := all_digits (fun b => isDigit_of_mem_takeWhile (t := t) (b := b))
      (t.dropWhile Text.isDigit)
    rw [List.takeWhile_append_dropWhile] at split
    rw [List.flatMap_cons, ih, split]
    rfl
  | case4 t r rest read s symbol ih =>
    rw [List.flatMap_cons, ih, Rune.all_of_decode read, Rune.scanClass_symbol symbol]
    rfl
  | case5 t r rest read illegal ih => rw [List.flatMap_cons, ih, Rune.all_of_decode read]; rfl

theorem proper_pieces (t : Text) : ∀ x ∈ pieces t, x.Proper := by
  fun_induction pieces t with
  | case1 t ended => simp
  | case2 t r rest read blank ih =>
    exact List.forall_mem_cons.mpr ⟨Rune.scanClass_blank.mp blank, ih⟩
  | case3 t r rest read digit ih =>
    obtain ⟨b, rfl, low⟩ := digit_of_decode read (Rune.scanClass_digit digit)
    refine List.forall_mem_cons.mpr ⟨⟨?_, fun b => isDigit_of_mem_takeWhile⟩, ih⟩
    rw [List.takeWhile_cons_of_pos low]
    exact List.cons_ne_nil _ _
  | case4 t r rest read s symbol ih => exact List.forall_mem_cons.mpr ⟨trivial, ih⟩
  | case5 t r rest read illegal ih =>
    exact List.forall_mem_cons.mpr ⟨Rune.scanClass_illegal illegal, ih⟩

/-- Two pieces are not both runs of digits. -/
def Apart (x y : Piece) : Prop := ¬ (x.isNumber = true ∧ y.isNumber = true)

theorem digit_of_head_number {t : Text} {x : Piece} (head : x ∈ (pieces t).head?)
    (number : x.isNumber = true) : ∃ b ∈ t.head?, Text.isDigit b = true := by
  rw [pieces] at head
  split at head
  · cases head
  next r rest read =>
    split at head
    · cases head; cases number
    next digit =>
      obtain ⟨b, rfl, low⟩ := digit_of_decode read (Rune.scanClass_digit digit)
      exact ⟨b, rfl, low⟩
    · cases head; cases number
    · cases head; cases number

theorem apart_pieces (t : Text) : (pieces t).IsChain Apart := by
  fun_induction pieces t with
  | case1 t ended => exact .nil
  | case2 t r rest read blank ih => exact ih.cons fun _ _ both => by cases both.1
  | case3 t r rest read digit ih =>
    refine ih.cons fun y head both => ?_
    obtain ⟨b, first, low⟩ := digit_of_head_number head both.2
    have not := List.head?_dropWhile_not Text.isDigit t
    rw [Option.mem_def.mp first] at not
    simp [low] at not
  | case4 t r rest read s symbol ih => exact ih.cons fun _ _ both => by cases both.1
  | case5 t r rest read illegal ih => exact ih.cons fun _ _ both => by cases both.1

theorem not_blank_of_digit {b : UInt8} (digit : Text.isDigit b = true) :
    (Rune.ascii b).isBlank = false := by
  obtain ⟨low, high⟩ := Text.isDigit_iff.mp digit
  have code : (Char.ofNat b.toNat).toNat = b.toNat := toNat_ofNat_byte b
  simp only [Rune.ascii, Rune.isBlank, code, isBlankCode, blankRanges, List.any_cons, List.any_nil,
    Bool.or_false, Bool.or_eq_false_iff, Bool.and_eq_false_iff, decide_eq_false_iff_not]
  omega

/-- Digits are in runs of digits only. -/
theorem Piece.digitless {x : Piece} (proper : x.Proper) (sound : ∀ r ∈ x.runes, r.Sound)
    (plain : x.isNumber = false) : ∀ b ∈ x.bytes, Text.isDigit b = false := by
  intro b member
  refine Bool.eq_false_iff.mpr fun digit => ?_
  have ascii := Text.ascii_of_isDigit digit
  cases x with
  | number digits => cases plain
  | blank r =>
    have blank : r.isBlank = true := proper
    rw [sound r (List.mem_singleton_self r) b member ascii, not_blank_of_digit digit] at blank
    cases blank
  | symbol s =>
    have other : (Rune.scalar s.char).isDigit = false := by cases s <;> rfl
    rw [sound _ (List.mem_singleton_self _) b member ascii, Rune.isDigit_ascii, digit] at other
    cases other
  | illegal r =>
    have other := proper.2.1
    rw [sound r (List.mem_singleton_self r) b member ascii, Rune.isDigit_ascii, digit] at other
    cases other

theorem sound_pieces {t : Text} {x : Piece} (member : x ∈ pieces t) : ∀ r ∈ x.runes, r.Sound := by
  intro r inside
  refine sound_of_mem_reading (reading_all t) r ?_
  rw [← runes_pieces]
  exact List.mem_flatMap.mpr ⟨x, member, inside⟩

theorem digitless_of_mem_pieces {t : Text} {x : Piece} (member : x ∈ pieces t)
    (plain : ¬ x.isNumber = true) : ∀ b ∈ x.bytes, Text.isDigit b = false :=
  Piece.digitless (proper_pieces t x member) (sound_pieces member) (Bool.eq_false_iff.mpr plain)

/-! ## Cutting a text made of pieces -/

theorem Rune.bytes_ne_nil (r : Rune) : r.bytes ≠ [] := by
  cases r with
  | scalar c => exact String.utf8EncodeChar_ne_nil
  | stray b => exact List.cons_ne_nil _ _

theorem Piece.bytes_ne_nil {x : Piece} (proper : x.Proper) : x.bytes ≠ [] := by
  cases x with
  | blank r => exact r.bytes_ne_nil
  | number digits => exact proper.1
  | symbol s => exact String.utf8EncodeChar_ne_nil
  | illegal r => exact r.bytes_ne_nil

theorem Rune.scanClass_char (s : Symbol) : (Rune.scalar s.char).scanClass = .symbol s := by
  cases s <;> decide

theorem Rune.scanClass_ascii {b : UInt8} (digit : Text.isDigit b = true) :
    (Rune.ascii b).scanClass = .digit := by
  rw [Rune.scanClass, not_blank_of_digit digit, Rune.isDigit_ascii, digit]
  rfl

theorem pieces_number {digits rest : Text} (proper : (Piece.number digits).Proper)
    (stops : ∀ b ∈ rest.head?, Text.isDigit b = false) :
    pieces (digits ++ rest) = .number digits :: pieces rest := by
  obtain ⟨nonempty, digit⟩ := proper
  have stops : rest.takeWhile Text.isDigit = [] ∧ rest.dropWhile Text.isDigit = rest := by
    cases rest with
    | nil => exact ⟨rfl, rfl⟩
    | cons b more => simp [stops b rfl]
  have taken : (digits ++ rest).takeWhile Text.isDigit = digits := by
    rw [List.takeWhile_append_of_pos digit, stops.1, List.append_nil]
  have dropped : (digits ++ rest).dropWhile Text.isDigit = rest := by
    rw [List.dropWhile_append_of_pos digit, stops.2]
  obtain ⟨b, more, rfl⟩ := List.exists_cons_of_ne_nil nonempty
  have first := digit b (List.mem_cons_self ..)
  have read := decode_ascii (Text.ascii_of_isDigit first) (more ++ rest)
  rw [← List.cons_append] at read
  rw [pieces_of_decode read, Rune.scanClass_ascii first]
  simp only [taken, dropped]

/-- A proper piece without stray bytes. -/
def Piece.Written (x : Piece) : Prop := x.Proper ∧ ∀ r ∈ x.runes, ∃ c, r = .scalar c

theorem Piece.Written.sound {x : Piece} (written : x.Written) : ∀ r ∈ x.runes, r.Sound := by
  intro r inside
  obtain ⟨c, rfl⟩ := written.2 r inside
  exact sound_scalar c

/-- A text made of pieces is cut into these pieces. -/
theorem pieces_bytes {xs : List Piece} (written : ∀ x ∈ xs, x.Written) (apart : xs.IsChain Apart) :
    pieces (xs.flatMap Piece.bytes) = xs := by
  induction xs with
  | nil => exact pieces_nil
  | cons x more ih =>
    obtain ⟨⟨proper, scalar⟩, writtenMore⟩ := List.forall_mem_cons.mp written
    obtain ⟨next, apartMore⟩ := List.isChain_cons.mp apart
    replace ih := ih writtenMore apartMore
    rw [List.flatMap_cons]
    cases x with
    | blank r =>
      obtain ⟨c, rfl⟩ := scalar r (List.mem_singleton_self r)
      refine (pieces_of_decode (Rune.decode_scalar c _)).trans ?_
      rw [Rune.scanClass_blank.mpr proper]
      exact congrArg _ ih
    | symbol s =>
      refine (pieces_of_decode (Rune.decode_scalar s.char _)).trans ?_
      rw [Rune.scanClass_char]
      exact congrArg _ ih
    | illegal r =>
      obtain ⟨c, rfl⟩ := scalar r (List.mem_singleton_self r)
      obtain ⟨blank, digit, symbol⟩ := proper
      have kind : (Rune.scalar c).scanClass = .illegal := by
        simp [Rune.scanClass, blank, digit, symbol]
      refine (pieces_of_decode (Rune.decode_scalar c _)).trans ?_
      rw [kind]
      exact congrArg _ ih
    | number digits =>
      refine (pieces_number proper ?_).trans (congrArg _ ih)
      intro b first
      cases more with
      | nil => cases first
      | cons y rest =>
        have following := writtenMore y (List.mem_cons_self ..)
        have plain : y.isNumber = false := by
          refine Bool.eq_false_iff.mpr fun number => ?_
          exact next y rfl ⟨rfl, number⟩
        rw [List.flatMap_cons,
          List.head?_append_of_ne_nil _ (Piece.bytes_ne_nil following.1)] at first
        exact Piece.digitless following.1 following.sound plain b (List.mem_of_head? first)

theorem runes_bytes {xs : List Piece} (written : ∀ x ∈ xs, x.Written) :
    Rune.all (xs.flatMap Piece.bytes) = xs.flatMap Piece.runes := by
  induction xs with
  | nil => exact Rune.all_nil
  | cons x more ih =>
    obtain ⟨⟨proper, scalar⟩, writtenMore⟩ := List.forall_mem_cons.mp written
    rw [List.flatMap_cons, List.flatMap_cons, ← ih writtenMore]
    cases x with
    | blank r =>
      obtain ⟨c, rfl⟩ := scalar r (List.mem_singleton_self r)
      exact Rune.all_of_decode (Rune.decode_scalar c _)
    | symbol s => exact Rune.all_of_decode (Rune.decode_scalar s.char _)
    | illegal r =>
      obtain ⟨c, rfl⟩ := scalar r (List.mem_singleton_self r)
      exact Rune.all_of_decode (Rune.decode_scalar c _)
    | number digits => exact all_digits proper.2 _

/-! ## Places -/

/-- The position behind some pieces. -/
def Position.across (p : Position) (before : List Piece) : Position := before.foldl Piece.stop p

/-- The position behind some text. -/
def Position.behind (p : Position) (t : Text) : Position := (Rune.all t).foldl Position.after p

theorem Piece.stop_eq {x : Piece} (proper : x.Proper) (p : Position) :
    x.stop p = x.runes.foldl Position.after p := by
  cases x with
  | blank r => rfl
  | symbol s => rfl
  | illegal r => rfl
  | number digits =>
    have digit := proper.2
    clear proper
    simp only [Piece.stop, Piece.runes]
    induction digits generalizing p with
    | nil => simp [Position.advance]
    | cons b more ih =>
      obtain ⟨first, later⟩ := List.forall_mem_cons.mp digit
      have step : p.after (.ascii b) = p.advance 1 := by
        have line : Rune.ascii b ≠ .scalar '\n' := by
          intro same
          rw [← Rune.isDigit_ascii, same] at first
          exact absurd first (by decide)
        have width : (Rune.ascii b).width = 1 :=
          congrArg List.length (encode_ascii (Text.ascii_of_isDigit first))
        simp [Position.after, line, width, Position.advance]
      rw [List.map_cons, List.foldl_cons, step, ← ih (p.advance 1) later]
      simp only [Position.advance, List.length_cons]
      congr 1 <;> omega

theorem across_eq {xs : List Piece} (proper : ∀ x ∈ xs, x.Proper) (p : Position) :
    p.across xs = (xs.flatMap Piece.runes).foldl Position.after p := by
  induction xs generalizing p with
  | nil => rfl
  | cons x more ih =>
    obtain ⟨first, later⟩ := List.forall_mem_cons.mp proper
    rw [List.flatMap_cons, List.foldl_append, ← Piece.stop_eq first, ← ih later]
    rfl

theorem across_written {xs : List Piece} (written : ∀ x ∈ xs, x.Written) (p : Position) :
    p.across xs = p.behind (xs.flatMap Piece.bytes) := by
  rw [across_eq fun x member => (written x member).1, Position.behind, runes_bytes written]

theorem offset_after (p : Position) (r : Rune) :
    (p.after r).offset = p.offset + r.bytes.length := by
  unfold Position.after
  split <;> rfl

theorem offset_stop (p : Position) (x : Piece) :
    (x.stop p).offset = p.offset + x.bytes.length := by
  cases x with
  | blank r => exact offset_after p r
  | number digits => rfl
  | symbol s => exact offset_after p (.scalar s.char)
  | illegal r => exact offset_after p r

theorem offset_across (p : Position) (before : List Piece) :
    (p.across before).offset = p.offset + (before.flatMap Piece.bytes).length := by
  induction before generalizing p with
  | nil => simp [Position.across]
  | cons x more ih =>
    have step := ih (x.stop p)
    rw [offset_stop] at step
    rw [List.flatMap_cons, List.length_append, Int.natCast_add, ← Int.add_assoc]
    exact step

theorem place_append (p : Position) (xs ys : List Piece) :
    place p (xs ++ ys) = place p xs ++ place (p.across xs) ys := by
  induction xs generalizing p with
  | nil => rfl
  | cons x more ih => exact congrArg _ (ih (x.stop p))

/-- A placed piece stands behind the pieces before it. -/
theorem exists_of_mem_place {p : Position} {xs : List Piece} {x : Piece} {span : Span}
    (member : (x, span) ∈ place p xs) :
    ∃ before behind, xs = before ++ x :: behind ∧
      span = ⟨p.across before, x.stop (p.across before)⟩ := by
  induction xs generalizing p with
  | nil => cases member
  | cons y more ih =>
    rcases List.mem_cons.mp member with first | later
    · cases first
      exact ⟨[], more, rfl, rfl⟩
    · obtain ⟨before, behind, rfl, rfl⟩ := ih later
      exact ⟨y :: before, behind, rfl, rfl⟩

theorem mem_of_mem_place {p : Position} {xs : List Piece} {x : Piece} {span : Span}
    (member : (x, span) ∈ place p xs) : x ∈ xs := by
  obtain ⟨before, behind, rfl, _⟩ := exists_of_mem_place member
  exact List.mem_append_right before (List.mem_cons_self ..)

theorem le_offset_of_mem_place {p : Position} {xs : List Piece} {y : Piece × Span}
    (member : y ∈ place p xs) : p.offset ≤ y.2.start.offset := by
  obtain ⟨before, behind, rfl, span⟩ := exists_of_mem_place member
  rw [span]
  simp only [offset_across]
  omega

theorem ordered_place (p : Position) (xs : List Piece) :
    (place p xs).Pairwise fun a b => a.2.stop.offset ≤ b.2.start.offset := by
  induction xs generalizing p with
  | nil => exact .nil
  | cons x more ih => exact .cons (fun y member => le_offset_of_mem_place member) (ih (x.stop p))

/-! ## Scanning keeps pieces -/

namespace Scanner

/-- The tokens that are still to come. -/
def tokens (s : Scanner) : List Token := (place s.here (pieces s.rest)).filterMap tokenOf

/-- The diagnostics so far and those still to come. -/
def notes (s : Scanner) : List Diagnostic :=
  s.diagnostics.toList ++ (place s.here (pieces s.rest)).filterMap noteOf

theorem next_pieces (s : Scanner) :
    match s.next with
    | (none, last) => s.tokens = [] ∧ s.notes = last.diagnostics.toList
    | (some t, later) => s.tokens = t :: later.tokens ∧ s.notes = later.notes := by
  fun_induction next s with
  | case1 s ended =>
    have cut : pieces s.rest = [] := by rw [Rune.decode_eq_none.mp ended, pieces_nil]
    simp [tokens, notes, cut, place]
  | case2 s r rest read u blank ih =>
    have cut : pieces s.rest = .blank r :: pieces rest := by rw [pieces_of_decode read, blank]
    have tokens : s.tokens = u.tokens := by simp only [tokens, cut]; rfl
    have notes : s.notes = u.notes := by simp only [notes, cut]; rfl
    rw [tokens, notes]
    exact ih
  | case3 s r rest read digit =>
    have cut : pieces s.rest = .number (s.rest.takeWhile Text.isDigit) ::
        pieces (s.rest.dropWhile Text.isDigit) := by rw [pieces_of_decode read, digit]
    simp only [tokens, notes, cut]
    exact ⟨rfl, rfl⟩
  | case4 s r rest read u m symbol =>
    have cut : pieces s.rest = .symbol m :: pieces rest := by rw [pieces_of_decode read, symbol]
    have here : u.here = s.here.after (.scalar m.char) := by
      rw [← Rune.scanClass_symbol symbol]
      rfl
    simp only [tokens, notes, cut, here]
    exact ⟨rfl, rfl⟩
  | case5 s r rest read u illegal ih =>
    have cut : pieces s.rest = .illegal r :: pieces rest := by rw [pieces_of_decode read, illegal]
    have tokens : s.tokens =
        { u with diagnostics := u.diagnostics.push (.illegal r ⟨s.here, u.here⟩) }.tokens := by
      simp only [tokens, cut]
      rfl
    have notes : s.notes =
        { u with diagnostics := u.diagnostics.push (.illegal r ⟨s.here, u.here⟩) }.notes := by
      simp only [notes, cut, place, noteOf, List.filterMap_cons, Array.toList_push,
        List.append_assoc]
      rfl
    rw [tokens, notes]
    exact ih

theorem drain_pieces (s : Scanner) (found : Array Token) :
    (s.drain found).1.toList = found.toList ++ s.tokens ∧
      (s.drain found).2.diagnostics.toList = s.notes := by
  fun_induction drain s found with
  | case1 s found last step =>
    have read := s.next_pieces
    simp only [step] at read
    simp [read.1, read.2]
  | case2 s found t later step ih =>
    have read := s.next_pieces
    simp only [step] at read
    rw [ih.1, ih.2, read.1, read.2]
    simp

end Scanner

/-- Scanning a source keeps its pieces in order. -/
theorem scan_eq (file source : Text) :
    scan file source =
      ⟨(place (.origin file) (pieces source)).filterMap tokenOf,
        (place (.origin file) (pieces source)).filterMap noteOf⟩ := by
  obtain ⟨tokens, notes⟩ := (Scanner.start file source).drain_pieces #[]
  simp only [scan, tokens, notes]
  rfl

end Reckoner
