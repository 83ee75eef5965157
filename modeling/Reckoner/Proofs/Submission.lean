import Reckoner.Proofs.Agreement
import Reckoner.Proofs.Nesting

/-! # Both ways to send a source agree

A source is sent to `/eval` as a member of a JSON object or as a field of a
form.  However its characters were escaped, the same bytes reach the compiler
(`jsonSource_sent`, `formSource_sent`), so that the responses are the same
(`encodings_agree`). -/
set_option autoImplicit false
namespace Reckoner.Web

/-- A POST to `/eval` of a type, with a body within the limit. -/
structure Request.Posts (r : Request) (type : Text) : Prop where
  method : r.method = Request.post
  path : r.target.path = utf8 "/eval"
  typed : r.contentType = type
  small : r.body.length ≤ bodyLimit

/-- The body is an object, with blanks around it or not, and its one member that
names the source is a string of the characters of the source. -/
structure Request.SendsJson (r : Request) (source : String) : Prop extends r.Posts jsonType where
  object : ∃ (members : List (Text × Json)) (p : Json.Padded), r.body = p.text ∧
    Json.Written Json.depthLimit (.object members) p.body ∧
    (Json.object members).membersNamed sourceName = [.string (utf8 source)]

structure Request.SendsForm (r : Request) (source : String) : Prop extends r.Posts formType where
  query : r.target.query = []
  field : r.body = utf8 "source=" ++ Form.escaped (utf8 source)

section Sources
variable {r : Request} {source : String}

theorem jsonSource_sent (sends : r.SendsJson source) : jsonSource r = .ok (utf8 source) := by
  obtain ⟨members, p, body, written, named⟩ := sends.object
  have whole : r.body.take bodyLimit = p.text := by
    rw [List.take_of_length_le sends.small, body]
  have member : sourceMember? (.object members) = some (utf8 source) := by
    simp [sourceMember?, Json.memberText?, named, Json.text?]
  rw [jsonSource, whole, Json.first?_written written]
  simp only [member]

theorem formSource_sent (sends : r.SendsForm source) : formSource r = .ok (utf8 source) := by
  have typed : formType.isEmpty = false := by decide
  have media : mediaType? formType = some formType := by decide +kernel
  have read : Form.fields? r.body = some [⟨utf8 sourceName, utf8 source⟩] := by
    rw [sends.field]
    exact Form.fields?_written (utf8 sourceName) (utf8 source)
  have inBody : bodyFields r = .ok [⟨utf8 sourceName, utf8 source⟩] := by
    simp only [bodyFields, sends.typed, typed, Bool.false_eq_true, if_false, media, if_true,
      if_neg (not_lt.mpr sends.small), read]
  have inQuery : Form.fields? r.target.query = some [] := by
    rw [sends.query]
    decide
  simp [formSource, inBody, inQuery, Form.first]

theorem Request.SendsJson.delivers (sends : r.SendsJson source) : r.Delivers (utf8 source) := by
  refine ⟨sends.method, sends.path, ?_⟩
  rw [if_pos sends.typed, jsonSource_sent sends]

theorem Request.SendsForm.delivers (sends : r.SendsForm source) : r.Delivers (utf8 source) := by
  have other : formType ≠ jsonType := by decide
  refine ⟨sends.method, sends.path, ?_⟩
  rw [sends.typed, if_neg other, formSource_sent sends]

end Sources

/-- Whether a source is sent as JSON or in a form, and whichever way its string
is written there, the response is the document of its report and a line end. -/
theorem encodings_agree (source : String) (a b : Request) (json : a.SendsJson source)
    (form : b.SendsForm source) :
    respond a = respond b ∧
    (respond a).status = (if (compile (utf8 source)).ok then 200 else 422) ∧
    (respond a).contentType = some jsonType ∧
    (respond a).chunks.flatten = (compile (utf8 source)).document.indented 0 ++ [10] := by
  have first := respond_delivered json.delivers
  have second := respond_delivered form.delivers
  refine ⟨first.trans second.symm, status_delivered json.delivers, ?_, ?_⟩
  · rw [first]
    rfl
  · rw [first]
    simp [Response.evaluated, Encoder.chunks, Encoder.render]

/-! ## A source with four spellings -/

def Request.posting (type body : Text) : Request :=
  { method := Request.post, target := ⟨utf8 "/eval", []⟩,
    headers := [(utf8 "Content-Type", type)], body := body }

theorem posts_posting {type body : Text} (small : body.length ≤ bodyLimit) :
    (Request.posting type body).Posts type := ⟨rfl, rfl, rfl, small⟩

/-- Four characters: plain, by letter, by code, by surrogates. -/
def sentString : Text := utf8 "6\\/\\u0032\\uD83d\\uDE00"

def sentJson : Request := .posting jsonType
  (utf8 "\x7b\"id\":null, \"source\" : \"" ++ sentString ++ utf8 "\"\x7d\n")

def sentForm : Request := .posting formType (utf8 "source=6%2F2%F0%9F%98%80")

theorem spelled_sentString : Json.Spelled ['6', '/', '2', '😀'] sentString := by
  have six : Json.Spells '6' (utf8 "6") := .plain (by decide) (by decide) (by decide)
  have slash : Json.Spells '/' (utf8 "\\/") := .letter List.mem_cons_self
  have two : Json.Spells '2' (utf8 "\\u0032") := .code rfl
  have face : Json.Spells '😀' (utf8 "\\uD83d\\uDE00") := .surrogates (by decide) rfl rfl
  have pieces : sentString =
      utf8 "6" ++ (utf8 "\\/" ++ (utf8 "\\u0032" ++ (utf8 "\\uD83d\\uDE00" ++ []))) := by decide
  rw [pieces]
  exact .cons six (.cons slash (.cons two (.cons face .nil)))

theorem sentJson_sends : sentJson.SendsJson "6/2😀" where
  toPosts := posts_posting (by decide)
  object := by
    let other : Json.Entry :=
      { name := utf8 "id", label := { body := Json.quoted (utf8 "id") }
        value := .null, content := { body := utf8 "null" } }
    let source : Json.Entry :=
      { name := utf8 "source", value := .string (utf8 "6/2😀")
        label := { lead := [32], body := Json.quoted (utf8 "source"), trail := [32] }
        content := { lead := [32], body := 34 :: sentString ++ [34] } }
    have label (s : String) : Json.Written 9999 (.string (utf8 s)) (Json.quoted (utf8 s)) := by
      simpa using Json.written_quoted 9999 (utf8 s)
    have names : ∀ e ∈ [other, source], Json.Written 9999 (.string e.name) e.label.body :=
      List.forall_mem_cons.mpr ⟨label "id", List.forall_mem_singleton.mpr (label "source")⟩
    have values : ∀ e ∈ [other, source], Json.Written 9999 e.value e.content.body :=
      List.forall_mem_cons.mpr
        ⟨.null 9999, List.forall_mem_singleton.mpr (.string 9999 spelled_sentString)⟩
    refine ⟨[other, source].map fun e => (e.name, e.value),
      { body := Json.bracketed 123 125 ([other, source].map Json.Entry.text) [], trail := [10] },
      by decide +kernel, ?_, ?_⟩
    · exact .object names values Json.blank_nil
    · have unnamed : Json.names sourceName (utf8 "id") = false := by decide +kernel
      have named : Json.names sourceName (utf8 "source") = true := by decide +kernel
      simp [Json.membersNamed, other, source, unnamed, named]

theorem sentForm_sends : sentForm.SendsForm "6/2😀" where
  toPosts := posts_posting (by decide)
  query := rfl
  field := by decide

theorem encodings_agree_escaped : sentJson.SendsJson "6/2😀" ∧ sentForm.SendsForm "6/2😀" ∧
    respond sentJson = respond sentForm ∧ (respond sentJson).status = 200 := by
  obtain ⟨same, status, _⟩ :=
    encodings_agree "6/2😀" sentJson sentForm sentJson_sends sentForm_sends
  have good : (compile (utf8 "6/2😀")).ok = true := by decide +kernel
  refine ⟨sentJson_sends, sentForm_sends, same, ?_⟩
  rw [status, good]
  rfl

end Reckoner.Web
