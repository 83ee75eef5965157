import Reckoner.Editor.Session
import Reckoner.Proofs.History

/-! # What a session answers and publishes

Messages come one after the other, each with the disk as it is by then.  A
message edits a document if it brings content for it; what was found on disk
comes with `initialized`.  Hovering answers from the content that came to a path
last since the session was started (`Session.get?_run`), and the diagnostics
that were published for a document are those of the stored report until its path
gets new content. -/
set_option autoImplicit false
namespace Reckoner.Editor

/-- A message brings content to the path that the address of its document names. -/
inductive Message.Edits (disk : Disk) : Message → Text → Text → Text → Prop
  | opened {uri text path : Text} (named : FileUri.toPath uri = some path) :
    Edits disk (.didOpen uri text) uri path text
  | changed {uri path text : Text} {changes : List Change} (named : FileUri.toPath uri = some path)
    (last : changes.getLast? = some (.whole text)) :
    Edits disk (.didChange uri changes) uri path text
  | saved {uri text path : Text} (named : FileUri.toPath uri = some path) :
    Edits disk (.didSave uri (some text)) uri path text
  | savedOnDisk {uri path content : Text} (named : FileUri.toPath uri = some path)
    (read : disk.read path = .ok content) : Edits disk (.didSave uri none) uri path content

abbrev Turn := Disk × Message

namespace Turn

/-- A message brings content to a path: by an edit, or from the disk. -/
inductive Brings (root : Text) : Turn → Text → Text → Prop
  | edit {disk : Disk} {m : Message} {uri path content : Text}
    (edits : m.Edits disk uri path content) : Brings root (disk, m) path content
  | scan {disk : Disk} {paths : List Text} {path content : Text}
    (found : Workspace.sources disk root = .ok paths) (member : path ∈ paths)
    (read : disk.read path = .ok content) : Brings root (disk, .initialized) path content

def Restarts (t : Turn) : Prop := ∃ rootPath rootUri, t.2 = .start rootPath rootUri

theorem Restarts.not_brings {t : Turn} {root path content : Text} (restarts : t.Restarts) :
    ¬ t.Brings root path content := by
  obtain ⟨disk, m⟩ := t
  obtain ⟨rootPath, rootUri, rfl⟩ := restarts
  rintro (⟨edits⟩ | _)
  cases edits

end Turn

theorem Message.Edits.named {disk : Disk} {m : Message} {uri path content : Text}
    (edits : m.Edits disk uri path content) : FileUri.toPath uri = some path := by
  cases edits <;> assumption

namespace Session
variable {s : Session} {disk : Disk} {m : Message} {t : Turn} {uri p content : Text}

/-! ## One message -/

theorem handle_edits (s : Session) (edits : m.Edits disk uri p content) :
    s.handle disk m = s.accept uri p content := by
  cases edits with
  | opened named => simp [handle, named]
  | changed named last => simp [handle, named, last]
  | saved named => simp [handle, named, savedContent?]
  | savedOnDisk named read => simp [handle, named, savedContent?, read, Except.toOption]

/-- What a message comes to. -/
inductive Effect (disk : Disk) (s : Session) : Message → Prop
  | edited {m : Message} {uri path content : Text} (edits : m.Edits disk uri path content) :
    Effect disk s m
  | idle {m : Message} (same : (s.handle disk m).1 = s)
    (silent : (s.handle disk m).2.published = []) : Effect disk s m
  | closed (uri : Text) : Effect disk s (.didClose uri)
  | started (rootPath rootUri : Text) : Effect disk s (.start rootPath rootUri)
  | scanned : Effect disk s .initialized
  | stopped : Effect disk s .shutdown

theorem edits_of_savedContent? {path : Text} {text : Option Text}
    (named : FileUri.toPath uri = some path) (saved : savedContent? disk path text = some content) :
    (Message.didSave uri text).Edits disk uri path content := by
  cases text with
  | some text =>
    cases saved
    exact .saved named
  | none =>
    cases read : disk.read path with
    | ok found =>
      simp only [savedContent?, read, Except.toOption, Option.some.injEq] at saved
      subst saved
      exact .savedOnDisk named read
    | error cause => simp [savedContent?, read, Except.toOption] at saved

theorem effect (disk : Disk) (s : Session) (m : Message) : Effect disk s m := by
  by_cases edited : ∃ uri path content, m.Edits disk uri path content
  · obtain ⟨uri, path, content, edits⟩ := edited
    exact .edited edits
  have unedited : ∀ uri path content, ¬ m.Edits disk uri path content :=
    fun uri path content edits => edited ⟨uri, path, content, edits⟩
  cases m with
  | start rootPath rootUri => exact .started rootPath rootUri
  | initialized => exact .scanned
  | shutdown => exact .stopped
  | setTrace => exact .idle rfl rfl
  | didOpen uri text =>
    have does : s.handle disk (.didOpen uri text) = (s, {}) := by
      simp only [handle]
      split
      next path named => exact absurd (.opened named) (unedited uri path text)
      · rfl
    exact .idle (by rw [does]) (by rw [does])
  | didChange uri changes =>
    have does : s.handle disk (.didChange uri changes) = (s, {}) := by
      simp only [handle]
      split
      next path text named last => exact absurd (.changed named last) (unedited uri path text)
      · rfl
    exact .idle (by rw [does]) (by rw [does])
  | didClose uri => exact .closed uri
  | didSave uri text =>
    have does : s.handle disk (.didSave uri text) = (s, {}) := by
      simp only [handle]
      split
      · rfl
      next path named =>
        split
        next content saved =>
          exact absurd (edits_of_savedContent? named saved) (unedited uri path content)
        · rfl
    exact .idle (by rw [does]) (by rw [does])
  | hover uri =>
    apply Effect.idle
    · simp only [handle]
      split <;> rfl
    · simp only [handle]
      split <;> rfl

theorem get?_handle_brings (brings : t.Brings s.workspace.root p content) :
    (s.handle t.1 t.2).1.workspace.get? p = some (.ofContent p content) := by
  cases brings with
  | edit edits =>
    rw [handle_edits s edits]
    simp [accept]
  | scan found member read =>
    simp only [handle]
    rw [Workspace.get?_scanAll found, if_pos member, Disk.scanned?_of_ok read, Option.some_or]

theorem get?_handle_kept (continues : ¬ t.Restarts)
    (unbrought : ∀ content, ¬ t.Brings s.workspace.root p content) :
    (s.handle t.1 t.2).1.workspace.get? p = s.workspace.get? p := by
  obtain ⟨disk, m⟩ := t
  cases effect disk s m with
  | @edited _ uri path content edits =>
    have other : path ≠ p := by
      rintro rfl
      exact unbrought content (.edit edits)
    rw [handle_edits s edits]
    simp [accept, other]
  | idle same => rw [same]
  | closed uri => rfl
  | started rootPath rootUri => exact absurd ⟨rootPath, rootUri, rfl⟩ continues
  | scanned =>
    simp only [handle]
    cases found : Workspace.sources disk s.workspace.root with
    | error cause => rw [Workspace.scanAll_lost none found]
    | ok paths =>
      rw [Workspace.get?_scanAll found]
      split
      next member =>
        cases read : disk.read p with
        | ok content => exact absurd (.scan found member read) (unbrought content)
        | error cause => rw [Disk.scanned?_of_error read, Option.none_or]
      · rfl
  | stopped => rfl

theorem root_handle (continues : ¬ t.Restarts) :
    (s.handle t.1 t.2).1.workspace.root = s.workspace.root := by
  obtain ⟨disk, m⟩ := t
  cases effect disk s m with
  | edited edits =>
    rw [handle_edits s edits]
    rfl
  | idle same => rw [same]
  | closed uri => rfl
  | started rootPath rootUri => exact absurd ⟨rootPath, rootUri, rfl⟩ continues
  | scanned => exact Workspace.root_scanAll none
  | stopped => rfl

theorem sound_handle (t : Turn) (sound : s.workspace.Sound) :
    (s.handle t.1 t.2).1.workspace.Sound := by
  obtain ⟨disk, m⟩ := t
  cases effect disk s m with
  | edited edits =>
    rw [handle_edits s edits]
    exact sound.update _ _
  | idle same =>
    rw [same]
    exact sound
  | closed uri => exact sound
  | started rootPath rootUri => exact Workspace.sound_empty _
  | scanned => exact sound.scanAll none
  | stopped => exact sound

/-- A message that brings nothing leaves the session as it is, but for its end
and its beginning. -/
theorem handle_same (sound : s.workspace.Sound) (continues : ¬ t.Restarts)
    (running : t.2 ≠ .shutdown)
    (unbrought : ∀ p content, ¬ t.Brings s.workspace.root p content) :
    (s.handle t.1 t.2).1 = s := by
  have workspace : (s.handle t.1 t.2).1.workspace = s.workspace :=
    (sound_handle t sound).ext sound (root_handle continues) fun p =>
      get?_handle_kept continues (unbrought p)
  obtain ⟨disk, m⟩ := t
  cases effect disk s m with
  | edited edits => exact absurd (.edit edits) (unbrought _ _)
  | idle same => exact same
  | closed uri => rfl
  | started rootPath rootUri => exact absurd ⟨rootPath, rootUri, rfl⟩ continues
  | scanned =>
    simp only [handle] at workspace ⊢
    rw [workspace]
  | stopped => exact absurd rfl running

/-- The scan that comes with `initialized` stores the same under every schedule. -/
theorem handle_initialized {crew : Crew} {paths : List Text} {sweep : Sweep}
    (sound : s.workspace.Sound) (found : Workspace.sources disk s.workspace.root = .ok paths)
    (ends : Sweep.Ends disk crew (.start s.workspace none paths) sweep)
    (calm : sweep.context = none) :
    (s.handle disk .initialized).1.workspace = sweep.workspace := by
  obtain ⟨workspace, _⟩ := ends.steady sound calm
  rw [workspace]
  exact Workspace.scanAll_found none found

/-! ## A whole conversation -/

/-- The session after messages that came in this order. -/
def run (s : Session) (turns : List Turn) : Session :=
  turns.foldl (fun s t => (s.handle t.1 t.2).1) s

def opened (s : Session) (disk : Disk) (rootPath rootUri : Text) : Session :=
  (s.handle disk (.start rootPath rootUri)).1

theorem run_concat (s : Session) (turns : List Turn) (t : Turn) :
    s.run (turns ++ [t]) = ((s.run turns).handle t.1 t.2).1 := by
  simp [run]

theorem sound_run (sound : s.workspace.Sound) (turns : List Turn) :
    (s.run turns).workspace.Sound := by
  induction turns using List.reverseRecOn with
  | nil => exact sound
  | append_singleton turns t ih =>
    rw [run_concat]
    exact sound_handle t ih

/-- The content that came to a path last since the session was started.  The
root is the present one: a message that changes it starts the session anew. -/
def Current (s : Session) (history : List Turn) (p content : Text) : Prop :=
  Latest (fun t : Turn => t.Brings (s.run history).workspace.root p) Turn.Restarts history
    content

/-- A session that began with nothing holds of a path what came there last. -/
theorem get?_run (empty : s.workspace.files = []) (history : List Turn) (f : SourceFile) :
    (s.run history).workspace.get? p = some f ↔
      ∃ content, f = .ofContent p content ∧ s.Current history p content := by
  unfold Current
  induction history using List.reverseRecOn generalizing f with
  | nil => simp [run, Workspace.get?, empty, not_latest_nil]
  | append_singleton history t ih =>
    rw [run_concat]
    by_cases restarts : t.Restarts
    · -- Nothing is left, and a start brings nothing.
      have forgotten : ((s.run history).handle t.1 t.2).1.workspace.get? p = none := by
        obtain ⟨rootPath, rootUri, start⟩ := restarts
        rw [start]
        rfl
      simp [forgotten, latest_concat, restarts, restarts.not_brings]
    · rw [root_handle restarts]
      apply latest_view ih
      · intro content brings
        exact get?_handle_brings brings
      · intro restarting
        exact absurd restarting restarts
      · intro _ unbrought
        exact get?_handle_kept restarts unbrought

/-! ## Hovering -/

theorem exists_hoverText (r : Report) :
    ∃ line, r.lines.getLast? = some line ∧ hoverText r = line.text := by
  have nonempty : r.lines ≠ [] := by simp [Report.lines]
  obtain ⟨line, last⟩ := Option.isSome_iff_exists.mp (List.getLast?_isSome.mpr nonempty)
  exact ⟨line, last, by simp [hoverText, last]⟩

theorem hover_found {f : SourceFile} (named : FileUri.toPath uri = some p)
    (found : s.workspace.get? p = some f) :
    (s.handle disk (.hover uri)).2.answer = .hover (hoverText f.report) := by
  simp [handle, named, found]

theorem hover_nothing : (s.handle disk (.hover uri)).2.answer = .nothing ↔
    ∀ p, FileUri.toPath uri = some p → s.workspace.get? p = none := by
  cases named : FileUri.toPath uri with
  | none => simp [handle, named]
  | some p => cases found : s.workspace.get? p <;> simp [handle, named, found]

/-- Whatever messages a session has handled since it was first opened: hovering
over a document answers nothing exactly if its address names no path or nothing
came to the path since the last start; else it shows the last line about the
content that came last.  The disk is scanned under any schedule, and messages
that bring nothing change nothing. -/
theorem hover_latest (fresh : Session) (first : Disk) (rootPath rootUri : Text)
    (history : List Turn) :
    let began := fresh.opened first rootPath rootUri
    let now := began.run history
    (∀ disk uri, (now.handle disk (.hover uri)).2.answer = .nothing ↔
      FileUri.toPath uri = none ∨ ∃ p, FileUri.toPath uri = some p ∧
        ¬ ∃ before t behind, history = before ++ t :: behind ∧
          (∃ content, t.Brings now.workspace.root p content) ∧
          ∀ later ∈ behind, ¬ later.Restarts) ∧
    (∀ disk uri p content, FileUri.toPath uri = some p → began.Current history p content →
      ∃ line, (compileFile (Path.base p) content).lines.getLast? = some line ∧
        (now.handle disk (.hover uri)).2.answer = .hover line.text) ∧
    (∀ disk crew paths sweep, Workspace.sources disk now.workspace.root = .ok paths →
      Sweep.Ends disk crew (.start now.workspace none paths) sweep → sweep.context = none →
      (now.handle disk .initialized).1.workspace = sweep.workspace) ∧
    ∀ t : Turn, ¬ t.Restarts → t.2 ≠ .shutdown →
      (∀ p content, ¬ t.Brings now.workspace.root p content) → (now.handle t.1 t.2).1 = now := by
  intro began now
  have empty : began.workspace.files = [] := rfl
  have sound : now.workspace.Sound := sound_run (Workspace.sound_empty _) history
  refine ⟨?_, ?_, ?_, ?_⟩
  · intro disk uri
    rw [hover_nothing]
    cases FileUri.toPath uri with
    | none => simp
    | some p =>
      simp only [Option.some.injEq, forall_eq', reduceCtorEq, false_or, exists_eq_left']
      rw [← exists_latest]
      exact view_eq_none (get?_run empty history)
  · intro disk uri p content named current
    have found := (get?_run empty history _).mpr ⟨content, rfl, current⟩
    obtain ⟨line, last, text⟩ := exists_hoverText (compileFile (Path.base p) content)
    refine ⟨line, last, ?_⟩
    rw [hover_found named found, ← text]
    rfl
  · intro disk crew paths sweep found ends calm
    exact handle_initialized sound found ends calm
  · intro t continues running unbrought
    exact handle_same sound continues running unbrought

def savedUri : Text := utf8 "file:///w/a.arith"

/-- A document that is changed, then saved in its file, and again when that is gone. -/
def changedSaved : List Turn :=
  [(.pair, .didChange savedUri [.ranged, .whole (utf8 "1/0")]), (.pair, .didSave savedUri none),
    (default, .didSave savedUri none)]

theorem toPath_savedUri : FileUri.toPath savedUri = some (utf8 "/w/a.arith") := by cbv

theorem read_savedUri : Disk.pair.read (utf8 "/w/a.arith") = .ok (utf8 "1+2") := by cbv

/-- A save that reads no file neither brings anything nor starts a session. -/
theorem unsaved_idle (root p : Text) :
    ∀ later ∈ [((default, .didSave savedUri none) : Turn)],
      ¬ Turn.Restarts later ∧ ∀ content, ¬ Turn.Brings root later p content := by
  have missing : Disk.read default (utf8 "/w/a.arith") =
      .error ⟨"open", utf8 "/w/a.arith", .notFound⟩ := by cbv
  simp only [List.forall_mem_singleton]
  refine ⟨by simp [Turn.Restarts], ?_⟩
  rintro content (⟨edits⟩ | _)
  cases edits with
  | savedOnDisk named read =>
    cases toPath_savedUri.symm.trans named
    cases missing.symm.trans read

theorem hover_latest_saved :
    let now := (Session.opened { version := [] } default [] []).run changedSaved
    ∃ line, (compileFile (Path.base (utf8 "/w/a.arith")) (utf8 "1+2")).lines.getLast? = some line ∧
      (now.handle default (.hover savedUri)).2.answer = .hover line.text := by
  apply (hover_latest { version := [] } default [] [] changedSaved).2.1 _ _ _ _ toPath_savedUri
  exact ⟨[_], _, [_], rfl, .edit (.savedOnDisk toPath_savedUri read_savedUri), unsaved_idle _ _⟩

/-! ## Diagnostics -/

/-- A message publishes because it closes a document or because it edits one. -/
theorem of_mem_published {pub : Publication} (member : pub ∈ (s.handle disk m).2.published) :
    m = .didClose pub.uri ∨ ∃ p content, m.Edits disk pub.uri p content ∧
      pub.diagnostics = diagnosticsOf (SourceFile.ofContent p content).report := by
  cases effect disk s m with
  | @edited _ uri p content edits =>
    rw [handle_edits s edits] at member
    cases List.mem_singleton.mp member
    exact Or.inr ⟨p, content, edits, rfl⟩
  | idle _ silent =>
    rw [silent] at member
    cases member
  | closed uri =>
    cases List.mem_singleton.mp member
    exact Or.inl rfl
  | started => cases member
  | scanned => cases member
  | stopped => cases member

/-- Whatever messages a session has handled: an edit publishes once, for the
document it names, what is now stored about it; closing a document publishes
an empty list; no other message publishes.  So what was published for a
document is what is stored about it, until it is closed, its path gets content
or the session is started anew. -/
theorem published_stored (fresh : Session) (first : Disk) (rootPath rootUri : Text)
    (history : List Turn) :
    let began := fresh.opened first rootPath rootUri
    let now := began.run history
    (∀ disk m uri p content, m.Edits disk uri p content →
      ∃ f, (now.handle disk m).1.workspace.get? p = some f ∧
        (now.handle disk m).2.published = [⟨uri, diagnosticsOf f.report⟩] ∧
        List.Forall₂ (fun d e => e = ⟨rangeOf d.span, severityOf f.report d, d.text⟩)
          f.report.diagnostics (diagnosticsOf f.report)) ∧
    (∀ disk uri, (now.handle disk (.didClose uri)).2.published = [⟨uri, []⟩]) ∧
    (∀ disk m, (∀ uri p content, ¬ m.Edits disk uri p content) → (∀ uri, m ≠ .didClose uri) →
      (now.handle disk m).2.published = []) ∧
    ∀ before t behind, history = before ++ t :: behind →
      ∀ pub ∈ ((began.run before).handle t.1 t.2).2.published, t.2 ≠ .didClose pub.uri →
      ∀ p, FileUri.toPath pub.uri = some p →
      (∀ later ∈ behind, ¬ later.Restarts ∧
        ∀ content, ¬ later.Brings now.workspace.root p content) →
      ∃ f, now.workspace.get? p = some f ∧ pub.diagnostics = diagnosticsOf f.report := by
  intro began now
  refine ⟨?_, fun _ _ => rfl, ?_, ?_⟩
  · intro disk m uri p content edits
    refine ⟨.ofContent p content, get?_handle_brings (t := (disk, m)) (.edit edits), ?_, ?_⟩
    · rw [handle_edits now edits]
      rfl
    · exact List.forall₂_map_right_iff.mpr (List.forall₂_same.mpr fun _ _ => rfl)
  · intro disk m unedited unclosed
    apply List.eq_nil_iff_forall_not_mem.mpr
    intro pub member
    rcases of_mem_published member with closes | ⟨p, content, edits, _⟩
    · exact unclosed pub.uri closes
    · exact unedited pub.uri p content edits
  · rintro before ⟨disk, m⟩ behind split pub member unclosed p named unwritten
    rcases of_mem_published member with closes | ⟨q, content, edits, diagnostics⟩
    · exact absurd closes unclosed
    · cases edits.named.symm.trans named
      refine ⟨.ofContent p content, ?_, diagnostics⟩
      exact (get?_run rfl history _).mpr
        ⟨content, rfl, before, (disk, m), behind, split, .edit edits, unwritten⟩

theorem published_stored_saved :
    ∃ pub, (((opened { version := [] } default [] []).run (changedSaved.take 1)).handle .pair
        (.didSave savedUri none)).2.published = [pub] ∧
      ∃ f, ((opened { version := [] } default [] []).run changedSaved).workspace.get?
          (utf8 "/w/a.arith") = some f ∧
        pub.diagnostics = diagnosticsOf f.report := by
  obtain ⟨edited, _⟩ := published_stored { version := [] } default [] [] (changedSaved.take 1)
  obtain ⟨_, _, _, lasting⟩ := published_stored { version := [] } default [] [] changedSaved
  obtain ⟨f, _, published, _⟩ := edited .pair (.didSave savedUri none) _ _ _
    (.savedOnDisk toPath_savedUri read_savedUri)
  have kept := lasting (changedSaved.take 1) (.pair, .didSave savedUri none)
    [(default, .didSave savedUri none)] rfl
  dsimp only at kept
  rw [published] at kept
  exact ⟨_, published, kept _ (List.mem_singleton_self _) (by simp) _ toPath_savedUri
    (unsaved_idle _ _)⟩

/-- Opening a document whose address names no path publishes nothing, and what
was published for another is stored no more once the session is started anew. -/
theorem published_lost :
    let began : Session := Session.opened { version := [] } default [] []
    let a : Turn := (default, .didOpen (utf8 "a") (utf8 "1"))
    let again : Turn := (default, .start [] [])
    (FileUri.toPath (utf8 "file:///%zz") = none ∧
      (began.handle default (.didOpen (utf8 "file:///%zz") (utf8 "1"))).2.published = []) ∧
    FileUri.toPath (utf8 "a") = some (utf8 "a") ∧
    (∃ diagnostics, (began.handle a.1 a.2).2.published = [⟨utf8 "a", diagnostics⟩]) ∧
    (∀ root p content, ¬ again.Brings root p content) ∧
    (began.run [a, again]).workspace.get? (utf8 "a") = none := by
  have named : FileUri.toPath (utf8 "a") = some (utf8 "a") := by cbv
  have unnamed : FileUri.toPath (utf8 "file:///%zz") = none := by cbv
  intro began a again
  refine ⟨⟨unnamed, ?_⟩, named, ?_, ?_, rfl⟩
  · simp [handle, unnamed]
  · exact ⟨_, congrArg (fun does => does.2.published) (began.handle_edits (.opened named))⟩
  · intro root p content
    exact Turn.Restarts.not_brings ⟨[], [], rfl⟩

end Session
end Reckoner.Editor
