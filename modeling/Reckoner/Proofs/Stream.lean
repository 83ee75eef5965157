import Reckoner.Report.Encoder
import Reckoner.Proofs.Agreement
import Reckoner.Proofs.Nesting

/-! # The stream of documents

A document is a list of fields, the absent ones left out (`Report.document_eq`).
Reading it by its fields gives a record of the report in which the number is
rounded and every string is well-formed (`ofJson?_document`).  An encoder over
an unfailing sink writes one document and a line end for each report, and the
stream is read as the records in order. -/
set_option autoImplicit false
namespace Reckoner

/-! ## Fields -/

theorem utf8_inj {a b : String} : utf8 a = utf8 b ↔ a = b := by
  refine ⟨fun same => ?_, congrArg utf8⟩
  have first := (reading_scalars a.toList).unique
  have second := (reading_scalars b.toList).unique
  have runes : a.toList.map Rune.scalar = b.toList.map Rune.scalar :=
    first.trans ((congrArg Rune.all same).trans second.symm)
  have scalar : Function.Injective Rune.scalar := fun _ _ => Rune.scalar.inj
  exact String.ext (List.map_injective_iff.mpr scalar runes)

namespace Json

abbrev Fields := List (String × Option Json)

/-- The member of a field, unless it is absent. -/
def member (f : String × Option Json) : List (Text × Json) :=
  (f.2.map fun j => (utf8 f.1, j)).toList

/-- The object of the fields that are present. -/
def ofFields (fields : Fields) : Json := .object (fields.flatMap member)

section Fields
variable {fields : Fields}

theorem member?_ofFields (distinct : (fields.map Prod.fst).Nodup) (name : String) :
    (ofFields fields).member? name = (fields.lookup name).join := by
  rw [ofFields, member?]
  induction fields with
  | nil => rfl
  | cons f rest ih =>
    obtain ⟨key, value⟩ := f
    rw [List.map_cons, List.nodup_cons] at distinct
    obtain ⟨fresh, later⟩ := distinct
    rw [List.flatMap_cons, List.lookup_append, ih later]
    by_cases same : name = key
    · subst same
      have absent : rest.lookup name = none := by
        rw [List.lookup_eq_none_iff]
        intro p inside
        rw [bne_iff_ne]
        exact fun same => fresh (List.mem_map.mpr ⟨p, inside, same.symm⟩)
      cases value <;> simp [member, absent]
    · have differs : (name == key) = false := beq_eq_false_iff_ne.mpr same
      have other : (utf8 name == utf8 key) = false := by
        rw [beq_eq_false_iff_ne, Ne, utf8_inj]
        exact same
      cases value <;> simp [member, List.lookup_cons, differs, other]

theorem lookup_map (change : Json → Json) (fields : Fields) (name : String) :
    (fields.map fun f => (f.1, f.2.map change)).lookup name =
      (fields.lookup name).map (Option.map change) := by
  induction fields with
  | nil => rfl
  | cons f rest ih =>
    rw [List.map_cons, List.lookup_cons, List.lookup_cons, ih]
    cases name == f.1 <;> rfl

theorem wellFormed_ofFields (fields : Fields) :
    (ofFields fields).wellFormed = ofFields (fields.map fun f => (f.1, f.2.map wellFormed)) := by
  rw [ofFields, ofFields, wellFormed, List.map_flatMap, List.flatMap_map]
  congr 2
  funext f
  obtain ⟨key, value⟩ := f
  cases value <;> simp [member]

/-- A member of a document in well-formed form. -/
theorem member?_wellFormed (distinct : (fields.map Prod.fst).Nodup) (name : String) :
    (ofFields fields).wellFormed.member? name = (fields.lookup name).join.map wellFormed := by
  have names : ((fields.map fun f => (f.1, f.2.map wellFormed)).map Prod.fst).Nodup := by
    rwa [List.map_map]
  rw [wellFormed_ofFields, member?_ofFields names, lookup_map]
  cases fields.lookup name <;> rfl

theorem writable_ofFields {depth : Nat} (inside : ∀ f ∈ fields, ∀ j ∈ f.2, Writable depth j) :
    Writable (depth + 1) (ofFields fields) := by
  refine .object fun m found => ?_
  obtain ⟨f, present, shape⟩ := List.mem_flatMap.mp found
  obtain ⟨j, value, rfl⟩ : ∃ j, f.2 = some j ∧ (utf8 f.1, j) = m := by
    simpa [member] using shape
  exact inside f present j value

end Fields

/-! ## Reading by fields -/

section Readers
variable {α : Type}

/-- A member that has to be there. -/
def required? (name : String) (read : Json → Option α) (j : Json) : Option α :=
  (j.member? name).bind read

/-- What may be absent, but is well-typed if it is there. -/
def present? (read : Json → Option α) : Option Json → Option (Option α)
  | none => some none
  | some j => (read j).map some

/-- A member that may be absent. -/
def optional? (name : String) (read : Json → Option α) (j : Json) : Option (Option α) :=
  present? read (j.member? name)

def list? (read : Json → Option α) : Json → Option (List α)
  | .array items => items.mapM read
  | _ => none

def flag? : Json → Option Bool
  | .bool b => some b
  | _ => none

def int? : Json → Option Int
  | .number literal => integer? literal
  | _ => none

def binary64? : Json → Option Binary64
  | .number literal => some (.ofLiteral literal)
  | _ => none

section Lists
variable {β : Type} {read : Json → Option α} {write : β → Json} {value : β → α}
  (each : ∀ b, read (write b).wellFormed = some (value b))
include each

theorem mapM_wellFormed (bs : List β) :
    ((bs.map write).map wellFormed).mapM read = some (bs.map value) := by
  induction bs with
  | nil => rfl
  | cons b more ih =>
    rw [List.map_map] at ih
    simp [List.mapM_cons, each, ih]

theorem list?_wellFormed (bs : List β) :
    list? read (Json.array (bs.map write)).wellFormed = some (bs.map value) := by
  rw [wellFormed, list?, mapM_wellFormed each]

end Lists
end Readers
end Json

open Json

/-! ## Records -/

structure TokenRecord where
  kind : Text
  value : Option Text
  line : Int
  column : Int
  deriving DecidableEq, Repr

structure NoteRecord where
  stage : Text
  message : Text
  line : Int
  column : Int
  deriving DecidableEq, Repr

structure ReportRecord where
  file : Text
  source : Text
  tokens : List TokenRecord
  diagnostics : List NoteRecord
  value : Option Binary64
  display : Option Text
  ok : Bool
  error : Text
  deriving DecidableEq, Repr

def TokenRecord.ofJson? (j : Json) : Option TokenRecord := do
  let kind ← j.required? "kind" text?
  let value ← j.optional? "value" text?
  let line ← j.required? "line" int?
  let column ← j.required? "column" int?
  return ⟨kind, value, line, column⟩

def NoteRecord.ofJson? (j : Json) : Option NoteRecord := do
  let stage ← j.required? "stage" text?
  let message ← j.required? "message" text?
  let line ← j.required? "line" int?
  let column ← j.required? "column" int?
  return ⟨stage, message, line, column⟩

/-- Absent texts and lists are empty ones. -/
def ReportRecord.ofJson? (j : Json) : Option ReportRecord := do
  let file ← j.optional? "file" text?
  let source ← j.required? "source" text?
  let tokens ← j.required? "tokens" (list? TokenRecord.ofJson?)
  let diagnostics ← j.optional? "diagnostics" (list? NoteRecord.ofJson?)
  let value ← j.optional? "value" binary64?
  let display ← j.optional? "display" text?
  let ok ← j.required? "ok" flag?
  let error ← j.optional? "error" text?
  return ⟨file.getD [], source, tokens, diagnostics.getD [], value, display, ok, error.getD []⟩

/-- The number of a token that is one. -/
def Token.number? (t : Token) : Option Int :=
  match t.lexeme with
  | .number n => some n
  | _ => none

/-- The number itself, unless it is infinite. -/
def Binary64.finite? : Binary64 → Option Binary64
  | .infinite _ => none
  | x => some x

/-- The nearest binary64 number to a value that has a finite one. -/
def Value.binary64? (v : Value) : Option Binary64 :=
  if v.isNumber then v.toBinary64.finite? else none

def Value.display? (v : Value) : Option Text := if v.isNumber then some v.text else none

/-- What a failure says; nothing if there is none. -/
def Report.error (r : Report) : Text := (r.failure.map Failure.message).getD []

def Token.record (t : Token) : TokenRecord where
  kind := utf8 t.kind.name
  value := t.number?.map Text.ofInt
  line := t.span.start.line
  column := t.span.start.column

def Diagnostic.record (d : Diagnostic) : NoteRecord where
  stage := utf8 d.stage.name
  message := d.message.wellFormed
  line := d.span.start.line
  column := d.span.start.column

def Report.record (r : Report) : ReportRecord where
  file := r.file.wellFormed
  source := r.source.wellFormed
  tokens := r.tokens.map Token.record
  diagnostics := r.diagnostics.map Diagnostic.record
  value := r.value.binary64?
  display := r.value.display?
  ok := r.ok
  error := r.error.wellFormed

/-! ## Documents as fields -/

/-- A text as a field, absent if it is empty. -/
def textField (t : Text) : Option Json := if t.isEmpty then none else some (.string t)

def Token.fields (t : Token) : Fields :=
  [("kind", some (.word t.kind.name)), ("value", t.number?.map fun n => .string (Text.ofInt n)),
    ("line", some (.ofInt t.span.start.line)), ("column", some (.ofInt t.span.start.column))]

def Diagnostic.fields (d : Diagnostic) : Fields :=
  [("stage", some (.word d.stage.name)), ("message", some (.string d.message)),
    ("line", some (.ofInt d.span.start.line)), ("column", some (.ofInt d.span.start.column))]

def Report.fields (r : Report) : Fields :=
  [("file", textField r.file), ("source", some (.string r.source)),
    ("tokens", some (.array (r.tokens.map Token.document))),
    ("diagnostics", if r.diagnostics.isEmpty then none
      else some (.array (r.diagnostics.map Diagnostic.document))),
    ("value", r.value.binary64?.map fun x => .number (x.render Binary64.documentLayout)),
    ("display", r.value.display?.map .string), ("ok", some (.bool r.ok)),
    ("error", textField r.error)]

theorem Token.document_eq (t : Token) : t.document = ofFields t.fields := by
  unfold Token.document Token.fields Token.number?
  cases t.lexeme <;> rfl

theorem Diagnostic.document_eq (d : Diagnostic) : d.document = ofFields d.fields := rfl

theorem member_textField (name : String) (t : Text) : member (name, textField t) = nonEmpty name t := by
  unfold textField nonEmpty
  split <;> rfl

theorem Value.document_eq (v : Value) : v.document =
    member ("value", v.binary64?.map fun x => .number (x.render Binary64.documentLayout)) ++
      member ("display", v.display?.map .string) := by
  unfold Value.document Value.binary64? Value.display?
  split
  · cases v.toBinary64 <;> rfl
  · rfl

theorem Report.document_eq (r : Report) : r.document = ofFields r.fields := by
  have notes : member ("diagnostics", if r.diagnostics.isEmpty then none
      else some (.array (r.diagnostics.map Diagnostic.document))) =
      if r.diagnostics.isEmpty then []
      else [(utf8 "diagnostics", .array (r.diagnostics.map Diagnostic.document))] := by
    split <;> rfl
  rw [Report.document, Value.document_eq, ofFields, Report.fields, Report.error]
  simp only [List.flatMap_cons, List.flatMap_nil, notes, member_textField, List.append_assoc,
    List.append_nil]
  cases r.failure <;> rfl

/-! ## Documents as records -/

theorem text?_word (s : String) : (Json.word s).wellFormed.text? = some (utf8 s) := by
  rw [Json.word, wellFormed, Text.wellFormed_utf8, text?]

theorem text?_string (t : Text) : (Json.string t).wellFormed.text? = some t.wellFormed := by
  rw [wellFormed, text?]

theorem int?_ofInt (i : Int) : int? (Json.ofInt i).wellFormed = some i := by
  rw [Json.ofInt, wellFormed, int?, integer?_ofInt]

theorem flag?_bool (b : Bool) : flag? (Json.bool b).wellFormed = some b := by
  rw [wellFormed, flag?]

theorem present?_textField (t : Text) :
    ∃ found, present? text? ((textField t).map wellFormed) = some found ∧
      found.getD [] = t.wellFormed := by
  unfold textField
  split
  next empty =>
    refine ⟨none, rfl, ?_⟩
    rw [List.isEmpty_iff.mp empty]
    simp [Text.wellFormed]
  next => exact ⟨some t.wellFormed, by simp [present?, text?_string], rfl⟩

theorem Token.ofJson?_document (t : Token) :
    TokenRecord.ofJson? t.document.wellFormed = some t.record := by
  have distinct : (t.fields.map Prod.fst).Nodup := by simp [Token.fields]
  have kind : t.fields.lookup "kind" = some (some (.word t.kind.name)) := rfl
  have value : t.fields.lookup "value" =
    some (t.number?.map fun n => .string (Text.ofInt n)) := rfl
  have line : t.fields.lookup "line" = some (some (.ofInt t.span.start.line)) := rfl
  have column : t.fields.lookup "column" = some (some (.ofInt t.span.start.column)) := rfl
  rw [Token.document_eq]
  simp only [TokenRecord.ofJson?, required?, optional?, member?_wellFormed distinct, kind, value,
    line, column, Option.join_some, Option.map_some, Option.bind_some, text?_word, int?_ofInt]
  cases number : t.number? with
  | none => simp [Token.record, number, present?]
  | some n =>
    simp [Token.record, number, present?, text?_string,
      Text.wellFormed_of_visible (Text.visible_ofInt n)]

theorem Diagnostic.ofJson?_document (d : Diagnostic) :
    NoteRecord.ofJson? d.document.wellFormed = some d.record := by
  have distinct : (d.fields.map Prod.fst).Nodup := by simp [Diagnostic.fields]
  have stage : d.fields.lookup "stage" = some (some (.word d.stage.name)) := rfl
  have message : d.fields.lookup "message" = some (some (.string d.message)) := rfl
  have line : d.fields.lookup "line" = some (some (.ofInt d.span.start.line)) := rfl
  have column : d.fields.lookup "column" = some (some (.ofInt d.span.start.column)) := rfl
  rw [Diagnostic.document_eq]
  simp only [NoteRecord.ofJson?, required?, member?_wellFormed distinct, stage, message, line,
    column, Option.join_some, Option.map_some, Option.bind_some, text?_word, text?_string,
    int?_ofInt]
  rfl

theorem Value.exists_numeral (v : Value) {x : Binary64} (found : x ∈ v.binary64?) :
    ∃ n : Numeral, n.text = x.render Binary64.documentLayout ∧ Binary64.ofLiteral n.text = x := by
  cases v with
  | lost => simp [Value.binary64?, Value.isNumber] at found
  | number q =>
    have shape : (Value.number q).binary64? = (Binary64.nearest q).finite? := rfl
    rw [shape] at found
    cases rounded : Binary64.nearest q with
    | infinite negative => simp [rounded, Binary64.finite?] at found
    | finite negative m e =>
      rw [rounded] at found
      cases found
      exact Binary64.exists_numeral _ negative (Binary64.canonical_nearest rounded)

theorem Value.present?_binary64 (v : Value) :
    present? Json.binary64? ((v.binary64?.map fun x =>
      Json.number (x.render Binary64.documentLayout)).map wellFormed) = some v.binary64? := by
  cases found : v.binary64? with
  | none => rfl
  | some x =>
    obtain ⟨n, text, value⟩ := v.exists_numeral found
    rw [text] at value
    simp [present?, wellFormed, Json.binary64?, value]

theorem Value.present?_display (v : Value) :
    present? text? ((v.display?.map Json.string).map wellFormed) = some v.display? := by
  unfold Value.display?
  split
  · simp [present?, text?_string, Text.wellFormed_of_visible v.visible_text]
  · rfl

theorem Report.present?_diagnostics (ds : List Diagnostic) :
    ∃ found, present? (list? NoteRecord.ofJson?) ((if ds.isEmpty then none
        else some (Json.array (ds.map Diagnostic.document))).map wellFormed) = some found ∧
      found.getD [] = ds.map Diagnostic.record := by
  split
  next empty =>
    refine ⟨none, rfl, ?_⟩
    rw [List.isEmpty_iff.mp empty]
    rfl
  next =>
    refine ⟨some (ds.map Diagnostic.record), ?_, rfl⟩
    rw [Option.map_some, present?, list?_wellFormed Diagnostic.ofJson?_document]
    rfl

theorem Report.ofJson?_document (r : Report) :
    ReportRecord.ofJson? r.document.wellFormed = some r.record := by
  have distinct : (r.fields.map Prod.fst).Nodup := by simp [Report.fields]
  have file : r.fields.lookup "file" = some (textField r.file) := rfl
  have source : r.fields.lookup "source" = some (some (.string r.source)) := rfl
  have tokens : r.fields.lookup "tokens" =
    some (some (.array (r.tokens.map Token.document))) := rfl
  have diagnostics : r.fields.lookup "diagnostics" = some (if r.diagnostics.isEmpty then none
    else some (.array (r.diagnostics.map Diagnostic.document))) := rfl
  have value : r.fields.lookup "value" = some (r.value.binary64?.map fun x =>
    .number (x.render Binary64.documentLayout)) := rfl
  have display : r.fields.lookup "display" = some (r.value.display?.map .string) := rfl
  have ok : r.fields.lookup "ok" = some (some (.bool r.ok)) := rfl
  have error : r.fields.lookup "error" = some (textField r.error) := rfl
  obtain ⟨name, readName, sameName⟩ := present?_textField r.file
  obtain ⟨notes, readNotes, sameNotes⟩ := Report.present?_diagnostics r.diagnostics
  obtain ⟨reason, readReason, sameReason⟩ := present?_textField r.error
  have items := list?_wellFormed Token.ofJson?_document r.tokens
  rw [Report.document_eq]
  simp only [ReportRecord.ofJson?, required?, optional?, member?_wellFormed distinct, file, source,
    tokens, diagnostics, value, display, ok, error, Option.join_some, Option.map_some,
    Option.bind_some, readName, readNotes, readReason, items, text?_string, flag?_bool,
    Value.present?_binary64, Value.present?_display, Option.bind_eq_bind, sameName, sameNotes,
    sameReason]
  rfl

/-! ## Documents can be written -/

section Writing
variable {depth : Nat}

theorem writable_ofInt (i : Int) : Writable depth (.ofInt i) := by
  rw [Json.ofInt, ← Numeral.text_ofInt]
  exact .number depth _

theorem writable_some {j : Json} (writable : Writable depth j) : ∀ k ∈ some j, Writable depth k := by
  rintro k ⟨⟩
  exact writable

theorem writable_map {α : Type} {write : α → Json} {v : Option α}
    (each : ∀ x ∈ v, Writable depth (write x)) : ∀ k ∈ v.map write, Writable depth k := by
  intro k found
  obtain ⟨x, present, rfl⟩ := Option.map_eq_some_iff.mp found
  exact each x present

theorem writable_textField (t : Text) : ∀ j ∈ textField t, Writable depth j := by
  unfold textField
  split
  · simp
  · exact writable_some (.string depth t)

theorem Token.writable_document (t : Token) : Writable (depth + 1) t.document := by
  rw [Token.document_eq]
  refine writable_ofFields ?_
  simp only [Token.fields, List.forall_mem_cons]
  exact ⟨writable_some (.string depth _), writable_map fun _ _ => .string depth _,
    writable_some (writable_ofInt _), writable_some (writable_ofInt _), by simp⟩

theorem Diagnostic.writable_document (d : Diagnostic) : Writable (depth + 1) d.document := by
  rw [Diagnostic.document_eq]
  refine writable_ofFields ?_
  simp only [Diagnostic.fields, List.forall_mem_cons]
  exact ⟨writable_some (.string depth _), writable_some (.string depth _),
    writable_some (writable_ofInt _), writable_some (writable_ofInt _), by simp⟩

theorem writable_documents {α : Type} {document : α → Json}
    (each : ∀ x, Writable depth (document x)) (xs : List α) :
    Writable (depth + 1) (.array (xs.map document)) := by
  refine .array fun j member => ?_
  obtain ⟨x, _, rfl⟩ := List.mem_map.mp member
  exact each x

theorem Value.writable_binary64 (v : Value) {x : Binary64} (found : x ∈ v.binary64?) :
    Writable depth (.number (x.render Binary64.documentLayout)) := by
  obtain ⟨n, text, _⟩ := v.exists_numeral found
  rw [← text]
  exact .number depth n

theorem Report.writable_document (r : Report) : Writable (depth + 3) r.document := by
  rw [Report.document_eq]
  refine writable_ofFields ?_
  simp only [Report.fields, List.forall_mem_cons]
  refine ⟨writable_textField _, writable_some (.string _ _),
    writable_some (writable_documents Token.writable_document _), ?_,
    writable_map fun _ => r.value.writable_binary64, writable_map fun _ _ => .string _ _,
    writable_some (.bool _ _), writable_textField _, by simp⟩
  split
  · simp
  · exact writable_some (writable_documents Diagnostic.writable_document _)

end Writing

namespace Json

/-! ## Streams -/

/-- The values of a text that has nothing but blanks between them, as many as the fuel. -/
def valuesWithin : Nat → Text → Option (List Json)
  | 0, _ => none
  | fuel + 1, t =>
    match skipBlanks t with
    | [] => some []
    | b :: rest =>
      match value? (2 * (b :: rest).length + 2) depthLimit (b :: rest) with
      | none => none
      | some (j, behind) => (valuesWithin fuel behind).map (j :: ·)

def values? (t : Text) : Option (List Json) := valuesWithin (t.length + 1) t

/-- One value behind another, each with a line end. -/
def lines (js : List Json) : Text := js.flatMap fun j => j.indented 0 ++ [10]

theorem valuesWithin_cons {j : Json} (writable : Writable depthLimit j) {lead rest : Text}
    (blank : ∀ b ∈ lead, isBlankByte b = true) (stops : rest.Stops Numeral.goesOn) (fuel : Nat) :
    valuesWithin (fuel + 1) (lead ++ (j.indented 0 ++ rest)) =
      (valuesWithin fuel rest).map (j.wellFormed :: ·) := by
  obtain ⟨b, more, begins, dark, _⟩ := writable.begins 0
  have read := value?_indented writable 0 (2 * (j.indented 0 ++ rest).length + 2) rest (by
    rw [List.length_append]
    omega) stops
  rw [valuesWithin, skipBlanks_append blank]
  rw [begins, List.cons_append] at read ⊢
  rw [skipBlanks_cons dark]
  simp only [read]

theorem valuesWithin_lines {js : List Json} (writable : ∀ j ∈ js, Writable depthLimit j)
    {lead : Text} (blank : ∀ b ∈ lead, isBlankByte b = true) {fuel : Nat} (enough : js.length < fuel) :
    valuesWithin fuel (lead ++ lines js) = some (js.map wellFormed) := by
  -- The line end behind a value is a blank in front of the next.
  induction js generalizing lead fuel with
  | nil =>
    obtain ⟨fuel, rfl⟩ : ∃ f, fuel = f + 1 := ⟨fuel - 1, by omega⟩
    rw [valuesWithin, skipBlanks_append blank]
    rfl
  | cons j rest ih =>
    obtain ⟨fuel, rfl⟩ : ∃ f, fuel = f + 1 := ⟨fuel - 1, by omega⟩
    obtain ⟨first, later⟩ := List.forall_mem_cons.mp writable
    have shape : lines (j :: rest) = j.indented 0 ++ ([10] ++ lines rest) := by
      simp [lines]
    have line : ∀ b ∈ ([10] : Text), isBlankByte b = true := List.forall_mem_singleton.mpr rfl
    rw [shape, valuesWithin_cons first blank (by rintro b ⟨⟩; rfl),
      ih later line (by rw [List.length_cons] at enough; omega)]
    rfl

theorem values?_lines {js : List Json} (writable : ∀ j ∈ js, Writable depthLimit j) :
    values? (lines js) = some (js.map wellFormed) := by
  have enough : js.length ≤ (lines js).length := by
    induction js with
    | nil => simp
    | cons j rest ih =>
      have := ih fun k member => writable k (List.mem_cons_of_mem j member)
      simp only [lines, List.flatMap_cons, List.length_append, List.length_cons,
        List.length_nil] at this ⊢
      omega
  exact valuesWithin_lines writable blank_nil (Nat.lt_succ_of_le enough)

theorem values?_indented {j : Json} (writable : Writable depthLimit j) :
    values? (j.indented 0) = some [j.wellFormed] := by
  obtain ⟨b, more, begins, _⟩ := writable.begins 0
  have stops : Text.Stops Numeral.goesOn [] := by simp [Text.Stops]
  have read := valuesWithin_cons writable blank_nil stops (j.indented 0).length
  have ended : valuesWithin (j.indented 0).length [] = some [] := by
    rw [begins, List.length_cons, valuesWithin]
    rfl
  rw [List.nil_append, List.append_nil, ended] at read
  exact read

end Json

/-- The records of a text that holds one document behind another. -/
def ReportRecord.all? (t : Text) : Option (List ReportRecord) :=
  (values? t).bind fun js => js.mapM ReportRecord.ofJson?

theorem ReportRecord.all?_eq {t : Text} {reports : List Report}
    (values : values? t = some ((reports.map Report.document).map wellFormed)) :
    ReportRecord.all? t = some (reports.map Report.record) := by
  rw [ReportRecord.all?, values]
  exact mapM_wellFormed Report.ofJson?_document reports

/-! ## Encoding report after report -/

namespace Encoder

/-- Encodes reports in order, whatever becomes of each, and tells what became of them. -/
def encodeAll (e : Encoder) (s : Sink) : List Report → List Bool × Sink
  | [] => ([], s)
  | r :: rest =>
    let (written, e, s) := e.encode r s
    let (results, s) := encodeAll e s rest
    (written :: results, s)

section Unfailing
variable {e : Encoder} {s : Sink}

theorem encode_json (json : e.format = .json) (unfailing : s.failAt = none) (r : Report) :
    (e.encode r s).1 = true ∧ (e.encode r s).2.1.format = .json ∧
      (e.encode r s).2.2.failAt = none ∧
      (e.encode r s).2.2.output = s.output ++ (r.document.indented 0 ++ [10]) := by
  have chunks : e.chunks r = [r.document.indented 0, [10]] := by
    rw [Encoder.chunks, Encoder.render, json]
  obtain ⟨written, still⟩ := s.writeAll_open unfailing (e.chunks r)
  have output := s.output_writeAll unfailing (e.chunks r)
  refine ⟨written, json, still, output.trans ?_⟩
  rw [chunks]
  simp

theorem encodeAll_json (json : e.format = .json) (unfailing : s.failAt = none)
    (reports : List Report) :
    (e.encodeAll s reports).1 = reports.map (fun _ => true) ∧
      (e.encodeAll s reports).2.output = s.output ++ lines (reports.map Report.document) := by
  induction reports generalizing e s with
  | nil => simp [encodeAll, lines]
  | cons r rest ih =>
    obtain ⟨written, still, open', output⟩ := encode_json json unfailing r
    obtain ⟨results, later⟩ := ih still open'
    constructor
    · rw [encodeAll, List.map_cons, ← results, ← written]
    · refine later.trans ?_
      rw [output]
      simp [lines]

end Unfailing

/-- Over a sink that does not fail, every report is encoded.  What is written is
one document and a line end for each report, each document is read as the record
of its report, and the whole as all records in order.  A record holds texts as
they are, but for bytes that belong to no character. -/
theorem encodeAll_recorded (colored : Bool) (last : Option Report) (calls : Nat)
    (earlier : Array Text) (reports : List Report) :
    let sink : Sink := ⟨none, calls, earlier⟩
    let run := encodeAll ⟨.json, colored, last⟩ sink reports
    run.1 = reports.map (fun _ => true) ∧
    (∃ documents : List Text,
      run.2.output = sink.output ++ documents.flatMap (fun d => d ++ [10]) ∧
      documents.map ReportRecord.all? = reports.map (fun r => some [r.record]) ∧
      ReportRecord.all? (documents.flatMap fun d => d ++ [10]) =
        some (reports.map Report.record)) ∧
    ∀ s : String, (utf8 s).wellFormed = utf8 s := by
  intro sink run
  obtain ⟨results, output⟩ := encodeAll_json (e := ⟨.json, colored, last⟩) (s := sink) rfl rfl reports
  refine ⟨results, ⟨reports.map fun r => r.document.indented 0, ?_, ?_, ?_⟩, Text.wellFormed_utf8⟩
  · rw [output, lines, List.flatMap_map, List.flatMap_map]
  · rw [List.map_map]
    refine List.map_congr_left fun r _ => ?_
    have single : ReportRecord.all? (r.document.indented 0) = some ([r].map Report.record) :=
      ReportRecord.all?_eq (values?_indented r.writable_document)
    exact single
  · have writable : ∀ j ∈ reports.map Report.document, Writable depthLimit j := by
      intro j member
      obtain ⟨r, _, rfl⟩ := List.mem_map.mp member
      exact r.writable_document
    rw [List.flatMap_map]
    refine ReportRecord.all?_eq ?_
    rw [← values?_lines writable, lines, List.flatMap_map]

end Encoder
end Reckoner
