import Reckoner.Command.Execution
import Reckoner.Proofs.Location
import Reckoner.Proofs.Relocation
import Reckoner.Proofs.Spacing

/-! # Scanning what blanks divide

No rune runs across the first byte of another one, not even a rune that is cut
short, and no number runs across a blank.  So a text is cut at a blank into the
pieces of both sides (`pieces_append`), and scanning it gives what both sides
give by themselves, the second side pushed behind the first (`scan_divided`).
Joining texts with blanks therefore joins what scanning says about them
(`scan_join`). -/
set_option autoImplicit false
namespace Reckoner

/-! ## Runes end where another begins -/

/-- A text begins where a rune can begin, or is empty. -/
def Text.Begins (t : Text) : Prop := ∀ b ∈ t.head?, b.IsUTF8FirstByte

theorem begins_encode (c : Char) (rest : Text) :
    Text.Begins (String.utf8EncodeChar c ++ rest) := by
  intro b head
  have first := UInt8.isUTF8FirstByte_getElem_zero_utf8EncodeChar (c := c)
  cases encoding : String.utf8EncodeChar c with
  | nil => exact absurd encoding String.utf8EncodeChar_ne_nil
  | cons a more =>
    simp only [encoding, List.getElem_cons_zero] at first
    rw [encoding] at head
    cases head
    exact first

/-- An encoding that begins inside a text ends inside it. -/
theorem encode_prefix_of_begins {c : Char} {t u : Text} (begun : t ≠ []) (begins : u.Begins)
    (across : String.utf8EncodeChar c <+: t ++ u) : String.utf8EncodeChar c <+: t := by
  by_cases fits : (String.utf8EncodeChar c).length ≤ t.length
  · exact List.prefix_of_prefix_length_le across (List.prefix_append t u) fits
  · -- Its byte behind the text would be the first of the encoding.
    have inside : t.length < (String.utf8EncodeChar c).length := Nat.lt_of_not_le fits
    have head : u.head? = some (String.utf8EncodeChar c)[t.length] := by
      obtain ⟨more, whole⟩ := across
      have byte := congrArg (fun text : Text => text[t.length]?) whole
      simp only [List.getElem?_append_right (Nat.le_refl t.length), Nat.sub_self] at byte
      rw [List.head?_eq_getElem?, ← byte, List.getElem?_append_left inside,
        List.getElem?_eq_getElem inside]
    have start := UInt8.isUTF8FirstByte_getElem_utf8EncodeChar.mp (begins _ head)
    exact absurd (List.length_eq_zero_iff.mp start) begun

theorem decode_append {t rest u : Text} {r : Rune} (read : Rune.decode t = some (r, rest))
    (begins : u.Begins) : Rune.decode (t ++ u) = some (r, rest ++ u) := by
  have shape := Rune.bytes_append_of_decode read
  cases r with
  | scalar c =>
    rw [shape, List.append_assoc]
    exact Rune.decode_scalar c (rest ++ u)
  | stray b =>
    have undecodable := Rune.undecodable_of_stray read
    rw [shape] at undecodable ⊢
    apply Rune.decode_stray
    intro c across
    exact undecodable c (encode_prefix_of_begins (List.cons_ne_nil b rest) begins across)

/-! ## Pieces -/

theorem pieces_append {u : Text} (begins : u.Begins) (stops : ∀ b ∈ u.head?, Text.isDigit b = false)
    (t : Text) : pieces (t ++ u) = pieces t ++ pieces u := by
  fun_induction pieces t with
  | case1 t ended =>
    rw [Rune.decode_eq_none.mp ended]
    rfl
  | case2 t r rest read blank ih =>
    rw [pieces_of_decode (decode_append read begins), blank, List.cons_append, ← ih]
  | case3 t r rest read digit ih =>
    have proper : (Piece.number (t.takeWhile Text.isDigit)).Proper := by
      obtain ⟨b, rfl, low⟩ := digit_of_decode read (Rune.scanClass_digit digit)
      refine ⟨?_, fun b => isDigit_of_mem_takeWhile⟩
      rw [List.takeWhile_cons_of_pos low]
      exact List.cons_ne_nil _ _
    have behind : ∀ b ∈ (t.dropWhile Text.isDigit ++ u).head?, Text.isDigit b = false := by
      intro b head
      have not := List.head?_dropWhile_not Text.isDigit t
      cases dropped : t.dropWhile Text.isDigit with
      | nil =>
        rw [dropped] at head
        exact stops b head
      | cons a more =>
        rw [dropped] at head not
        cases head
        simpa using not
    have split : t ++ u = t.takeWhile Text.isDigit ++ (t.dropWhile Text.isDigit ++ u) := by
      rw [← List.append_assoc, List.takeWhile_append_dropWhile]
    rw [split, pieces_number proper behind, ih, List.cons_append]
  | case4 t r rest read s symbol ih =>
    rw [pieces_of_decode (decode_append read begins), symbol, List.cons_append, ← ih]
  | case5 t r rest read illegal ih =>
    rw [pieces_of_decode (decode_append read begins), illegal, List.cons_append, ← ih]

def Blank.bytes (w : Blank) : Text := String.utf8EncodeChar w.val

section Blanks
variable (w : Blank) (b : Text)

theorem begins_blank : Text.Begins (w.bytes ++ b) := begins_encode w.val b

theorem stops_blank : ∀ x ∈ (w.bytes ++ b).head?, Text.isDigit x = false := by
  intro x head
  have proper : (Piece.blank (.scalar w.val)).Proper := w.property
  have sound : ∀ r ∈ (Piece.blank (.scalar w.val)).runes, r.Sound := fun r inside =>
    List.mem_singleton.mp inside ▸ sound_scalar w.val
  have first : w.bytes.head? = some x := by
    rw [← List.head?_append_of_ne_nil w.bytes String.utf8EncodeChar_ne_nil]
    exact head
  exact Piece.digitless proper sound rfl x (List.mem_of_head? first)

theorem pieces_blank : pieces (w.bytes ++ b) = .blank (.scalar w.val) :: pieces b := by
  have blank : (Rune.scalar w.val).scanClass = .blank := Rune.scanClass_blank.mpr w.property
  refine (pieces_of_decode (Rune.decode_scalar w.val b)).trans ?_
  rw [blank]

theorem pieces_divided (a : Text) :
    pieces (a ++ (w.bytes ++ b)) = pieces a ++ .blank (.scalar w.val) :: pieces b := by
  rw [pieces_append (begins_blank w b) (stops_blank w b), pieces_blank]

theorem pieces_concat (a : Text) : pieces (a ++ w.bytes) = pieces a ++ [.blank (.scalar w.val)] := by
  have cut := pieces_divided w [] a
  rwa [List.append_nil, pieces_nil] at cut

end Blanks

/-! ## Positions pushed behind a text -/

/-- Where a position comes to be when a text is put in front: as many bytes and
lines further, and in the first line as many columns as that text leaves behind
its last newline. -/
def Position.pushed (front : Text) (p : Position) : Position where
  file := p.file
  offset := p.offset + front.length
  line := p.line + front.count Text.newline
  column :=
    if p.line = 1 then p.column + (((Position.origin p.file).behind front).column - 1)
    else p.column

def Span.pushed (front : Text) (s : Span) : Span := ⟨s.start.pushed front, s.stop.pushed front⟩

section Pushing
variable (front : Text)

theorem origin_pushed (file : Text) :
    (Position.origin file).pushed front = (Position.origin file).behind front := by
  have reading := reading_all front
  have bytes := reading.bytes
  have lines := count_newline (sound_of_mem_reading reading)
  rw [bytes] at lines
  have behind : (Position.origin file).behind front = ⟨file, front.length,
      1 + front.count Text.newline, 1 + (lastRunes (Rune.all front)).length⟩ := by
    rw [Position.behind, foldl_after, bytes, lines]
  simp only [Position.pushed, Position.origin] at behind ⊢
  rw [behind]
  simp

theorem after_pushed {p : Position} (low : 1 ≤ p.line) (r : Rune) :
    (p.pushed front).after r = (p.after r).pushed front ∧ 1 ≤ (p.after r).line := by
  by_cases ends : r = .newline
  · subst ends
    simp only [Position.after_newline, Position.pushed]
    refine ⟨?_, by omega⟩
    congr 1 <;> omega
  · simp only [Position.after_other ends, Position.pushed]
    refine ⟨?_, low⟩
    congr 1
    · omega
    · split <;> omega

theorem stop_pushed {p : Position} (low : 1 ≤ p.line) (x : Piece) :
    x.stop (p.pushed front) = (x.stop p).pushed front ∧ 1 ≤ (x.stop p).line := by
  cases x with
  | blank r => exact after_pushed front low r
  | symbol s => exact after_pushed front low (.scalar s.char)
  | illegal r => exact after_pushed front low r
  | number digits =>
    refine ⟨?_, low⟩
    simp only [Piece.stop, Position.advance, Position.pushed]
    congr 1
    · omega
    · split <;> omega

theorem place_pushed {p : Position} (low : 1 ≤ p.line) (xs : List Piece) :
    place (p.pushed front) xs = (place p xs).map (Prod.map id (.pushed front)) := by
  induction xs generalizing p with
  | nil => rfl
  | cons x more ih =>
    obtain ⟨stop, later⟩ := stop_pushed front low x
    rw [place, place, stop, ih later]
    rfl

end Pushing

/-! ## Scanning -/

theorem across_pieces (p : Position) (t : Text) : p.across (pieces t) = p.behind t := by
  rw [across_eq (proper_pieces t), runes_pieces, Position.behind]

theorem place_divided (file a b : Text) (w : Blank) :
    place (.origin file) (pieces (a ++ (w.bytes ++ b))) =
      place (.origin file) (pieces (a ++ w.bytes)) ++
        (place (.origin file) (pieces b)).map (Prod.map id (.pushed (a ++ w.bytes))) := by
  have whole : pieces (a ++ (w.bytes ++ b)) = pieces (a ++ w.bytes) ++ pieces b := by
    rw [pieces_divided, pieces_concat, List.append_assoc]
    rfl
  rw [whole, place_append, across_pieces, ← origin_pushed, place_pushed _ (Int.le_refl 1)]

/-- A blank at the end of a text adds nothing to a scan. -/
theorem scan_concat (file a : Text) (w : Blank) : scan file (a ++ w.bytes) = scan file a := by
  rw [scan_eq, scan_eq, pieces_concat, place_append, List.filterMap_append, List.filterMap_append]
  simp [place, tokenOf, noteOf]

theorem scan_divided (file a b : Text) (w : Blank) :
    scan file (a ++ (w.bytes ++ b)) =
      ⟨(scan file a).tokens ++
          (scan file b).tokens.map (Token.moved (.pushed (a ++ w.bytes))),
        (scan file a).diagnostics ++
          (scan file b).diagnostics.map (Diagnostic.moved (.pushed (a ++ w.bytes)))⟩ := by
  obtain ⟨tokens, notes⟩ :=
    filterMap_moved (.pushed (a ++ w.bytes)) (place (.origin file) (pieces b))
  rw [← scan_concat file a w, scan_eq, place_divided, List.filterMap_append, List.filterMap_append,
    tokens, notes, scan_eq file (a ++ w.bytes), scan_eq file b]

/-! ## Joined texts -/

def Blank.space : Blank := ⟨' ', by decide⟩

theorem scan_join (file : Text) (texts : List Text) :
    (scan file (Text.join [32] texts)).tokens.map Token.lexeme =
        texts.flatMap (fun t => (scan file t).tokens.map Token.lexeme) ∧
      (scan file (Text.join [32] texts)).diagnostics.map Diagnostic.text =
        texts.flatMap fun t => (scan file t).diagnostics.map Diagnostic.text := by
  induction texts with
  | nil =>
    have nothing : scan file [] = ⟨[], []⟩ := by
      rw [scan_eq, pieces_nil]
      rfl
    exact ⟨congrArg (fun s : Scan => s.tokens.map Token.lexeme) nothing,
      congrArg (fun s : Scan => s.diagnostics.map Diagnostic.text) nothing⟩
  | cons t more ih =>
    cases more with
    | nil => simp [Text.join]
    | cons u rest =>
      have joined : Text.join [32] (t :: u :: rest) =
          t ++ (Blank.space.bytes ++ Text.join [32] (u :: rest)) := by
        rw [Text.join, List.intercalate_cons_cons, List.append_assoc]
        rfl
      obtain ⟨lexemes, lines⟩ := ih
      rw [joined, scan_divided]
      constructor
      · rw [List.flatMap_cons, ← lexemes, List.map_append, List.map_map]
        rfl
      · rw [List.flatMap_cons, ← lines, List.map_append, List.map_map]
        rfl

/-- What does not look at spans is the same of tokens with the same lexemes. -/
theorem Token.map_congr {α : Type} {f : Token → α} (blind : ∀ t, f t = f ⟨t.lexeme, {}⟩)
    {ts us : List Token} (same : ts.map lexeme = us.map lexeme) : ts.map f = us.map f := by
  have seen : ∀ ts : List Token, ts.map f = (ts.map lexeme).map fun l => f ⟨l, {}⟩ := by
    intro ts
    rw [List.map_map]
    exact List.map_congr_left fun t _ => blind t
  rw [seen ts, seen us, same]

theorem Token.listing_congr {ts us : List Token} (same : ts.map lexeme = us.map lexeme) :
    listing ts = listing us := by
  rw [listing, listing, map_congr (f := text) (fun _ => rfl) same]

/-- The command that joins its arguments with blanks lists the tokens of each of
them, behind the diagnostics about each of them. -/
theorem Command.listTokens_eq (s : Sink) (arguments : List Text) :
    listTokens s arguments =
      s.pour (((arguments.flatMap fun t => (scan [] t).diagnostics).map fun d => d.text ++ [10]) ++
        [Token.listing (arguments.flatMap fun t => (scan [] t).tokens) ++ [10]]) := by
  obtain ⟨lexemes, lines⟩ := scan_join [] arguments
  rw [← List.map_flatMap] at lexemes lines
  have notes := congrArg (List.map (· ++ ([10] : Text))) lines
  rw [List.map_map, List.map_map] at notes
  rw [listTokens, Token.listing_congr lexemes]
  exact congrArg (fun chunks => s.pour (chunks ++ _)) notes

/-- A blank divides every text: its tokens and diagnostics are those of the
first side and, pushed behind the first side and the blank, those of the second.
So the command that joins its arguments with blanks lists the tokens of all of
them. -/
theorem scan_homomorphic :
    (∀ (file a b : Text) (w : Blank),
      (scan file (a ++ (w.bytes ++ b))).tokens = (scan file a).tokens ++
        (scan file b).tokens.map (Token.moved (.pushed (a ++ w.bytes))) ∧
      (scan file (a ++ (w.bytes ++ b))).diagnostics = (scan file a).diagnostics ++
        (scan file b).diagnostics.map (Diagnostic.moved (.pushed (a ++ w.bytes)))) ∧
    ∀ (s : Sink) (arguments : List Text), Command.listTokens s arguments =
      s.pour (((arguments.flatMap fun t => (scan [] t).diagnostics).map fun d => d.text ++ [10]) ++
        [Token.listing (arguments.flatMap fun t => (scan [] t).tokens) ++ [10]]) := by
  refine ⟨?_, Command.listTokens_eq⟩
  intro file a b w
  rw [scan_divided]
  exact ⟨rfl, rfl⟩

end Reckoner
