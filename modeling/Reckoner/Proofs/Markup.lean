import Reckoner.Proofs.Agreement

/-! # The page holds what was sent, and no more markup

Escaped text is plain bytes and character references (`Resolves`).  Such text
cannot leave an attribute in quotes and cannot open a tag, and resolving its
references gives back what was escaped (`resolves_escapedText`).  Around the
escaped source and the escaped lines the page is always the same
(`page_faithful`). -/
set_option autoImplicit false
namespace Reckoner.Web

/-! ## References -/

/-- The character references, each with the byte that it stands for. -/
def references : List (Text × UInt8) :=
  [(utf8 "&amp;", 38), (utf8 "&lt;", 60), (utf8 "&gt;", 62), (utf8 "&#34;", 34), (utf8 "&#39;", 39),
    (utf8 "&#43;", 43)]

/-- Bytes with a meaning in markup. -/
def isMarkup (b : UInt8) : Bool := (utf8 "<>\"'").contains b

/-- Text without markup, and what it shows: bytes stand for themselves, and every
ampersand begins a reference. -/
inductive Resolves : Text → Text → Prop
  | nil : Resolves [] []
  | plain {b : UInt8} {t shown : Text} (unmarked : isMarkup b = false) (ampersand : b ≠ 38)
    (rest : Resolves t shown) : Resolves (b :: t) (b :: shown)
  | reference {r : Text × UInt8} {t shown : Text} (member : r ∈ references)
    (rest : Resolves t shown) : Resolves (r.1 ++ t) (r.2 :: shown)

/-- The text with every reference replaced by its byte. -/
def resolved : Text → Text
  | [] => []
  | b :: rest =>
    match references.find? fun r => r.1.isPrefixOf (b :: rest) with
    | some r => r.2 :: resolved (rest.drop (r.1.length - 1))
    | none => b :: resolved rest
termination_by t => t.length
decreasing_by
  · simp only [List.length_drop, List.length_cons]
    omega
  · simp

section References
variable {r : Text × UInt8} (member : r ∈ references)
include member

theorem exists_reference : ∃ name, r.1 = 38 :: name ∧ ∀ b ∈ name, isMarkup b = false ∧ b ≠ 38 := by
  have all : ∀ r ∈ references, r.1.head? = some 38 ∧
      r.1.tail.all (fun b => !isMarkup b && b != 38) = true := by
    decide
  obtain ⟨first, name⟩ := all r member
  exact ⟨r.1.tail, List.eq_cons_of_mem_head? first, by simpa using name⟩

theorem find?_reference (t : Text) :
    (references.find? fun q => q.1.isPrefixOf (r.1 ++ t)) = some r := by
  have apart : ∀ q ∈ references, ∀ r ∈ references, q.1 <+: r.1 → q = r := by decide
  cases found : references.find? fun q => q.1.isPrefixOf (r.1 ++ t) with
  | none =>
    have unmatched := List.find?_eq_none.mp found r member
    simp at unmatched
  | some q =>
    have listed := List.mem_of_find?_eq_some found
    have begins : q.1 <+: r.1 ++ t := by simpa using List.find?_some found
    rcases List.prefix_or_prefix_of_prefix begins (List.prefix_append r.1 t) with one | other
    · rw [apart q listed r member one]
    · rw [apart r member q listed other]

end References

namespace Resolves
variable {t shown : Text}

theorem unmarked (resolves : Resolves t shown) : ∀ b ∈ t, isMarkup b = false := by
  induction resolves with
  | nil => simp
  | plain unmarked _ _ ih => exact List.forall_mem_cons.mpr ⟨unmarked, ih⟩
  | reference member _ ih =>
    obtain ⟨name, shape, inside⟩ := exists_reference member
    rw [shape]
    exact List.forall_mem_append.mpr
      ⟨List.forall_mem_cons.mpr ⟨by decide, fun b member => (inside b member).1⟩, ih⟩

theorem ampersand (resolves : Resolves t shown) {before behind : Text}
    (split : t = before ++ 38 :: behind) : ∃ r ∈ references, r.1 <+: 38 :: behind := by
  induction resolves generalizing before with
  | nil => simp at split
  | plain _ other _ ih =>
    cases before with
    | nil => exact absurd (List.head_eq_of_cons_eq split) other
    | cons _ before => exact ih (List.tail_eq_of_cons_eq split)
  | @reference r t _ member _ ih =>
    obtain ⟨name, shape, inside⟩ := exists_reference member
    rw [shape, List.cons_append] at split
    cases before with
    | nil => exact ⟨r, member, t, by rw [shape]; exact split⟩
    | cons _ before =>
      -- There is no other ampersand in the reference, so this one stands behind it.
      rcases List.append_eq_append_iff.mp (List.tail_eq_of_cons_eq split) with
        ⟨later, _, rest⟩ | ⟨part, cut, rest⟩
      · exact ih rest
      · cases part with
        | nil => exact @ih [] rest.symm
        | cons c part =>
          rw [List.cons_append, List.cons.injEq] at rest
          refine absurd rest.1.symm (inside c ?_).2
          rw [cut]
          simp

theorem resolved_eq (resolves : Resolves t shown) : resolved t = shown := by
  induction resolves with
  | nil => rw [resolved]
  | @plain b t _ _ other _ ih =>
    have unmarked : (references.find? fun r => r.1.isPrefixOf (b :: t)) = none := by
      refine List.find?_eq_none.mpr fun r member begins => other ?_
      obtain ⟨name, shape, _⟩ := exists_reference member
      rw [shape, List.isPrefixOf_iff_prefix] at begins
      exact (List.cons_prefix_cons.mp begins).1.symm
    rw [resolved, unmarked, ih]
  | @reference r t _ member _ ih =>
    obtain ⟨name, shape, _⟩ := exists_reference member
    have found := find?_reference member t
    rw [shape, List.cons_append] at found ⊢
    rw [resolved, found]
    simp [shape, ih]

end Resolves

/-- What a page shows of a byte: it cannot hold a null byte. -/
def shownByte (b : UInt8) : Text := if b = 0 then Rune.replacement else [b]

theorem Resolves.append {bytes t shown : Text} (plain : ∀ b ∈ bytes, isMarkup b = false ∧ b ≠ 38)
    (rest : Resolves t shown) : Resolves (bytes ++ t) (bytes ++ shown) := by
  induction bytes with
  | nil => exact rest
  | cons b more ih =>
    obtain ⟨first, later⟩ := List.forall_mem_cons.mp plain
    exact .plain first.1 first.2 (ih later)

theorem resolves_escapedByte (b : UInt8) {t shown : Text} (rest : Resolves t shown) :
    Resolves (escapedByte b ++ t) (shownByte b ++ shown) := by
  by_cases referenced : ∃ r ∈ references, r.2 = b
  · have all : ∀ r ∈ references, escapedByte r.2 = r.1 ∧ shownByte r.2 = [r.2] := by decide
    obtain ⟨r, member, rfl⟩ := referenced
    rw [(all r member).1, (all r member).2]
    exact .reference member rest
  by_cases null : b = 0
  · have same : escapedByte 0 = Rune.replacement ∧ shownByte 0 = Rune.replacement := by decide
    have plain : Rune.replacement.all (fun b => !isMarkup b && b != 38) = true := by decide
    rw [null, same.1, same.2]
    exact rest.append (by simpa using plain)
  · have others : b ≠ 38 ∧ b ≠ 60 ∧ b ≠ 62 ∧ b ≠ 34 ∧ b ≠ 39 ∧ b ≠ 43 := by
      simpa [references, eq_comm] using referenced
    obtain ⟨ampersand, less, greater, double, single, plus⟩ := others
    have stands : escapedByte b = [b] := by
      simp [escapedByte, reference?, ampersand, less, greater, double, single, plus, null]
    have unmarked : isMarkup b = false := by
      have marks : utf8 "<>\"'" = [60, 62, 34, 39] := by decide
      simp [isMarkup, marks, less, greater, double, single]
    rw [stands, shownByte, if_neg null]
    exact .plain unmarked ampersand rest

theorem resolves_escapedText (t : Text) : Resolves (escapedText t) (t.flatMap shownByte) := by
  induction t with
  | nil => exact .nil
  | cons b t ih => exact resolves_escapedByte b ih

/-! ## The page -/

/-- A POST to the page that brings the source. -/
structure Request.Submits (r : Request) (source : Text) : Prop where
  posted : r.method = Request.post
  clean : Target.cleanPath r.target.escapedPath = r.target.escapedPath
  page : isEvaluationPath r.target.escapedPath = false
  accepted : formSource r = .ok source

theorem respond_submitted {r : Request} {source : Text} (submits : r.Submits source) :
    respond r = .page source ((compile source).lines.map Line.text) := by
  have readable : isReadable Request.post = true := by decide
  simp only [respond, submits.clean, bne_self_eq_false, Bool.and_false, Bool.false_eq_true, if_false,
    route, submits.page, submits.posted, readable, if_true, answerIndex, submits.accepted]

theorem exists_submits (source : Text) :
    ∃ r : Request, r.target.path = [Path.slash] ∧ r.Submits source := by
  have escaped : (Request.asking [Path.slash] source).target.escapedPath = [Path.slash] := by
    have written : [Path.slash].all Target.isWrittenByte = true := by decide
    exact if_pos written
  refine ⟨.asking [Path.slash] source, rfl, rfl, ?_, ?_, formSource_asking _ source⟩
  · rw [escaped]
    decide
  · rw [escaped]
    decide

theorem flatten_chunks (source : Text) {lines : List Text} (nonempty : lines ≠ []) :
    (Page.chunks source lines).flatten = Page.head ++ escapedText source ++
      (Page.middle ++ utf8 "<pre>") ++ lines.flatMap (fun l => escapedText l ++ [10]) ++
      (utf8 "</pre>" ++ Page.foot) := by
  have listed : (Page.listing lines).flatten =
      utf8 "<pre>" ++ lines.flatMap (fun l => escapedText l ++ [10]) ++ utf8 "</pre>" := by
    have inside : (lines.flatMap fun l => [escapedText l, [10]]).flatten =
        lines.flatMap fun l => escapedText l ++ [10] := by
      rw [List.flatten_eq_flatMap, List.flatMap_assoc]
      simp
    simp [Page.listing, nonempty, inside]
  simp [Page.chunks, listed]

/-- The page about a source consists of fixed text, the escaped source between
quotation marks, and its escaped lines as preformatted text; every source can be
sent.  Escaped text holds no markup, and its references show all of what was
escaped, but for null bytes. -/
theorem page_faithful :
    (∃ head middle foot : Text, (utf8 "value=\"" <:+ head ∧ utf8 "\"" <+: middle ∧
        utf8 "<pre>" <:+ middle ∧ utf8 "</pre>" <+: foot) ∧
      ∀ (r : Request) (source : Text), r.Submits source →
        (respond r).status = 200 ∧ (respond r).contentType = some Response.html ∧
        (respond r).chunks.flatten = head ++ escapedText source ++ middle ++
          (compile source).lines.flatMap (fun l => escapedText l.text ++ [10]) ++ foot) ∧
    (∀ source, ∃ r : Request, r.target.path = [Path.slash] ∧ r.Submits source) ∧
    ∀ t, (∀ b ∈ escapedText t, b ∉ utf8 "<>\"'") ∧
      (∀ before behind, escapedText t = before ++ 38 :: behind →
        ∃ r ∈ references, r.1 <+: 38 :: behind) ∧
      resolved (escapedText t) = t.flatMap fun b => if b = 0 then utf8 "\uFFFD" else [b] := by
  refine ⟨?_, exists_submits, ?_⟩
  · refine ⟨Page.head, Page.middle ++ utf8 "<pre>", utf8 "</pre>" ++ Page.foot, ?_, ?_⟩
    · decide +kernel
    · intro r source submits
      have nonempty : (compile source).lines.map Line.text ≠ [] := by simp [Report.lines]
      rw [respond_submitted submits]
      refine ⟨rfl, rfl, (flatten_chunks source nonempty).trans ?_⟩
      rw [List.flatMap_map]
  · intro t
    have resolves := resolves_escapedText t
    refine ⟨?_, fun _ _ => resolves.ampersand, resolves.resolved_eq⟩
    intro b member markup
    have unmarked := resolves.unmarked b member
    simp [isMarkup, markup] at unmarked

end Reckoner.Web
