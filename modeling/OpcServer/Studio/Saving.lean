import OpcServer.Lib.SegmentPath
import OpcServer.Lib.Transition
import OpcServer.Lib.Traverse
import OpcServer.Studio.Document
import Mathlib.Logic.Function.Basic

/-! The document of the studio on the desktop and its files; the adapter for a browser is
left out. Saving and opening take time: the text that is saved is the one at the start, and
the user can go on in between, also with other saves and opens. As long as the answers
about one file arrive in the order in which its commands ran, a document that is not marked
as changed is what its file holds. -/

namespace OpcServer.Studio

/-! ### The project files -/

inductive Entry where
  | file (bytes : ByteArray)
  | symlink
  | other

/-- What is at a path without links; two names are two files, as on a file system that tells
small letters from capitals. -/
abbrev Disk := String → Option Entry

/-- What the back end asks the JSON parser, `std::path` and `std::fs`; the answers are any.
`jsonError` is what `from_str` says against a text, and `pathExists` follows links. -/
structure Host where
  jsonError : String → Option String
  canonicalize : Disk → String → Except String String
  pathExists : Disk → String → Bool
  symlinkMetadata : Disk → String → Except String Entry

structure ProjectFile where
  path : String
  content : String
  deriving DecidableEq, Repr

def maxProjectBytes : ℕ := 16 * 1024 * 1024

/-- `Path::components` but for the root. -/
def components (path : String) : List (List Char) :=
  (SegmentPath.split '/' path.toList).filter fun part => part ≠ [] ∧ part ≠ ['.']

/-- `Path::file_name`. -/
def fileName (path : String) : Option (List Char) :=
  match (components path).getLast? with
  | some ['.', '.'] => none
  | name => name

/-- `Path::parent`, and `.` where that is empty. -/
def parent (path : String) : String :=
  let root := if path.toList.head? = some '/' then "/" else ""
  let value := root ++ "/".intercalate ((components path).dropLast.map String.ofList)
  if value = "" then "." else value

/-- `Path::join` of a file name. -/
def joinName (directory : String) (name : List Char) : String :=
  if directory.toList.getLast? = some '/' then directory ++ String.ofList name
  else directory ++ "/" ++ String.ofList name

def validateProjectPath (path : String) : Except String Unit :=
  match fileName path with
  | none => .error "Project path must have a UTF-8 file name"
  | some name =>
    if ".modbusproj.json".toList.isSuffixOf name || ".json".toList.isSuffixOf name then .ok ()
    else .error "Project file must end in .modbusproj.json or .json"

/-- `failure` is what the device says against reading. -/
def readProject (host : Host) (disk : Disk) (failure : Option String) (path : String) :
    Except String ProjectFile := do
  validateProjectPath path
  let canonical ← host.canonicalize disk path
  match disk canonical with
  | none => throw "No such file or directory (os error 2)"
  | some (.file bytes) =>
    if bytes.size > maxProjectBytes then throw "Project exceeds the 16 MiB safety limit"
    else match failure, String.fromUTF8? bytes with
    | some error, _ => throw error
    | none, none => throw "stream did not contain valid UTF-8"
    | none, some content => return { path := canonical, content := content }
  | some _ => throw "Selected project is not a regular file"

/-- A path that exists must be that of a regular file; that of a link to nothing does not
exist, and the link is replaced. -/
def checkDestination (host : Host) (disk : Disk) (path : String) : Except String Unit :=
  if host.pathExists disk path then
    match host.symlinkMetadata disk path with
    | .error error => .error error
    | .ok (.file _) => .ok ()
    | .ok _ => .error "Refusing to overwrite a symlink or non-regular file"
  else .ok ()

/-- `failure` is what the device says against the temporary file or its renaming. -/
def writeProject (host : Host) (disk : Disk) (failure : Option String) (path content : String) :
    Except String (String × Disk) :=
  if content.utf8ByteSize > maxProjectBytes then throw "Project exceeds the 16 MiB safety limit"
  else match host.jsonError content with
  | some error => throw ("Refusing to save invalid JSON: " ++ error)
  | none => do
    validateProjectPath path
    checkDestination host disk path
    let canonicalParent ← host.canonicalize disk (parent path)
    match fileName path, failure with
    | none, _ => throw "Destination has no file name"
    | some _, some error => throw error
    | some name, none =>
      let destination := joinName canonicalParent name
      return (destination, Function.update disk destination (some (.file content.toUTF8)))

section Files

variable {host : Host} {disk disk' : Disk} {failure : Option String} {path path' content : String}

/-- A save that succeeds writes its text to one path, which it answers. -/
theorem writeProject_ok (h : writeProject host disk failure path content = .ok (path', disk')) :
    disk' = Function.update disk path' (some (.file content.toUTF8)) := by
  unfold writeProject at h
  split at h
  · cases h
  · split at h
    · cases h
    · obtain ⟨_, -, h⟩ := Traverse.bind_eq_ok h
      obtain ⟨_, -, h⟩ := Traverse.bind_eq_ok h
      obtain ⟨canonicalParent, -, h⟩ := Traverse.bind_eq_ok h
      split at h
      · cases h
      · cases h
      · cases h
        rfl

theorem toUTF8_of_fromUTF8 {bytes : ByteArray} (h : String.fromUTF8? bytes = some content) :
    content.toUTF8 = bytes := by
  unfold String.fromUTF8? at h
  split at h
  · cases h
    rfl
  · cases h

/-- What is opened is in the file under the path that is answered. -/
theorem readProject_ok {file : ProjectFile} (h : readProject host disk failure path = .ok file) :
    disk file.path = some (.file file.content.toUTF8) := by
  unfold readProject at h
  obtain ⟨_, -, h⟩ := Traverse.bind_eq_ok h
  obtain ⟨canonical, -, h⟩ := Traverse.bind_eq_ok h
  split at h
  · cases h
  · rename_i bytes hbytes
    split at h
    · cases h
    · cases failure with
      | some error => cases h
      | none =>
        cases hcontent : String.fromUTF8? bytes with
        | none =>
          rw [hcontent] at h
          cases h
        | some content =>
          rw [hcontent] at h
          cases h
          rw [hbytes, toUTF8_of_fromUTF8 hcontent]
  · cases h

end Files

/-! ### Saving and opening -/

/-- A save whose file is not written yet: the text at its start, and its path once the
dialog has given one. -/
structure Save where
  content : String
  path : Option String
  deriving DecidableEq, Repr

/-- What a command on the files answers when it succeeds. -/
inductive Answer where
  | opened (file : ProjectFile)
  | saved (path content : String)
  deriving DecidableEq, Repr

/-- The file that an answer is about. -/
def Answer.path : Answer → String
  | .opened file => file.path
  | .saved path _ => path

def Answer.content : Answer → String
  | .opened file => file.content
  | .saved _ content => content

def Answer.arrive : Answer → Document → Document
  | .opened file, d => d.resetDocument file.content (some file.path)
  | .saved path content, d => d.saved path content

/-- The document and what is in progress: `opens` counts the dialogs that ask what to
open, and `answers` are those on their way, in the order in which the commands ran. -/
structure Workspace where
  document : Document
  disk : Disk := fun _ => none
  saves : List Save := []
  opens : ℕ := 0
  answers : List Answer := []

/-- Commands run one at a time; any of the answers on their way may be the next to arrive. -/
inductive WorkspaceAction where
  | edit (next : String)
  | undo
  | redo
  | newProject (confirmed : Bool)
  | openStart (confirmed : Bool)
  | openFile (path failure : Option String)
  | saveStart (saveAs : Bool)
  | choose (save : ℕ) (path : Option String)
  | write (save : ℕ) (failure : Option String)
  | answer (index : ℕ)
  deriving DecidableEq, Repr

namespace Workspace

/-- A document that is not changed is left without asking. -/
def confirmDiscard (s : Workspace) (confirmed : Bool) : Bool := !s.document.dirty || confirmed

/-- `empty` is the text of a new project. -/
def step (host : Host) (empty : String) : WorkspaceAction → Workspace → Option Workspace
  | .edit next, s => some { s with document := s.document.applyContent next }
  | .undo, s => some { s with document := s.document.undo }
  | .redo, s => some { s with document := s.document.redo }
  | .newProject confirmed, s =>
    some (if s.confirmDiscard confirmed then
      { s with document := s.document.resetDocument empty none }
    else s)
  | .openStart confirmed, s =>
    some (if s.confirmDiscard confirmed then { s with opens := s.opens + 1 } else s)
  | .openFile path failure, s =>
    if s.opens = 0 then none
    else
      let closed := { s with opens := s.opens - 1 }
      match path with
      | none => some closed
      | some path =>
        match readProject host s.disk failure path with
        | .error _ => some closed
        | .ok file => some { closed with answers := s.answers ++ [.opened file] }
  | .saveStart saveAs, s =>
    let save : Save := ⟨s.document.content, if saveAs then none else s.document.path⟩
    some { s with saves := s.saves ++ [save] }
  | .choose i path, s =>
    match s.saves[i]? with
    | some ⟨content, none⟩ =>
      match path with
      | none => some { s with saves := s.saves.eraseIdx i }
      | some path => some { s with saves := s.saves.set i ⟨content, some path⟩ }
    | _ => none
  | .write i failure, s =>
    match s.saves[i]? with
    | some ⟨content, some path⟩ =>
      let rest := { s with saves := s.saves.eraseIdx i }
      match writeProject host s.disk failure path content with
      | .error _ => some rest
      | .ok (saved, disk) =>
        some { rest with disk := disk, answers := s.answers ++ [.saved saved content] }
    | _ => none
  | .answer i, s =>
    match s.answers[i]? with
    | none => none
    | some answer =>
      some { s with document := answer.arrive s.document, answers := s.answers.eraseIdx i }

/-- Nothing is in progress, and the document has no file. -/
def Fresh (s : Workspace) : Prop :=
  s.document.path = none ∧ s.saves = [] ∧ s.opens = 0 ∧ s.answers = []

/-- The answers about one file arrive in the order in which the commands ran. -/
def InOrder : WorkspaceAction → Workspace → Prop
  | .answer i, s =>
    ∀ answer ∈ s.answers[i]?, ∀ earlier ∈ s.answers.take i, earlier.path ≠ answer.path
  | _, _ => True

instance : ∀ action s, Decidable (InOrder action s)
  | .answer i, s => inferInstanceAs (Decidable (∀ answer ∈ s.answers[i]?,
      ∀ earlier ∈ s.answers.take i, earlier.path ≠ answer.path))
  | .edit _, _ | .undo, _ | .redo, _ | .newProject _, _ | .openStart _, _ | .openFile _ _, _
  | .saveStart _, _ | .choose _ _, _ | .write _ _, _ => inferInstanceAs (Decidable True)

/-! ### What is in the files -/

/-- The texts that are taken for what is in a file, now and as the answers arrive. -/
def versions (d : Document) (answers : List Answer) (path : String) : List String :=
  (if d.path = some path then [d.savedContent] else []) ++
    (answers.filter fun answer => answer.path = path).map Answer.content

/-- The last of the versions of each file is what is in it. -/
def InFile (disk : Disk) (d : Document) (answers : List Answer) : Prop :=
  ∀ path, ∀ text ∈ (versions d answers path).getLast?, disk path = some (.file text.toUTF8)

variable {host : Host} {empty : String} {disk disk' : Disk} {d d' : Document}
  {answers : List Answer}

theorem InFile.congr (h : InFile disk d answers) (hpath : d'.path = d.path)
    (hsaved : d'.savedContent = d.savedContent) : InFile disk d' answers := by
  intro path text htext
  apply h path text
  rw [versions, ← hpath, ← hsaved]
  exact htext

/-- What the document takes for saved is older than the answers on their way. -/
theorem InFile.forget (h : InFile disk d answers) {path : String}
    (hpath : d'.path ≠ some path) : ∀ text ∈ (versions d' answers path).getLast?,
    disk path = some (.file text.toUTF8) := by
  intro text htext
  rw [versions, if_neg hpath, List.nil_append, Option.mem_def] at htext
  apply h path text
  rw [versions, List.getLast?_append, htext]
  rfl

/-- A command has run that answers with what is in its file now. -/
theorem InFile.ran (h : InFile disk d answers) (answer : Answer)
    (hfile : disk' answer.path = some (.file answer.content.toUTF8))
    (hother : ∀ path, path ≠ answer.path → disk' path = disk path) :
    InFile disk' d (answers ++ [answer]) := by
  intro path text htext
  rw [versions, List.filter_append, List.map_append, ← List.append_assoc] at htext
  by_cases hpath : answer.path = path
  · rw [List.filter_cons_of_pos (by simpa using hpath), List.filter_nil, List.map_cons,
      List.map_nil, List.getLast?_concat, Option.mem_some_iff] at htext
    subst htext hpath
    exact hfile
  · rw [List.filter_cons_of_neg (by simpa using hpath), List.filter_nil, List.map_nil,
      List.append_nil] at htext
    rw [hother path (Ne.symm hpath)]
    exact h path text htext

/-- An answer arrives that no earlier one about its file is behind. -/
theorem InFile.arrived {answer : Answer} {i : ℕ} (h : InFile disk d answers)
    (hanswer : answers[i]? = some answer)
    (hearlier : ∀ earlier ∈ answers.take i, earlier.path ≠ answer.path) :
    InFile disk (answer.arrive d) (answers.eraseIdx i) := by
  obtain ⟨hi, hget⟩ := List.getElem?_eq_some_iff.mp hanswer
  have hsplit : answers = answers.take i ++ answer :: answers.drop (i + 1) := by
    rw [← hget, ← List.drop_eq_getElem_cons hi, List.take_append_drop]
  have hpath : (answer.arrive d).path = some answer.path := by
    cases answer <;> rfl
  have hsaved : (answer.arrive d).savedContent = answer.content := by
    cases answer <;> rfl
  have hbefore : (answers.take i).filter (fun earlier => earlier.path = answer.path) = [] := by
    rw [List.filter_eq_nil_iff]
    intro earlier hmem
    simpa using hearlier earlier hmem
  intro path text htext
  by_cases hsame : answer.path = path
  · subst hsame
    apply h answer.path text
    rw [versions, if_pos hpath, hsaved, List.eraseIdx_eq_take_drop_succ, List.filter_append,
      hbefore, List.nil_append] at htext
    rw [versions, hsplit, List.filter_append, hbefore, List.nil_append,
      List.filter_cons_of_pos (by simp), List.map_cons, List.getLast?_append,
      ← List.singleton_append, Option.mem_def.mp htext]
    rfl
  · have hne : (answer.arrive d).path ≠ some path := by
      rw [hpath]
      exact fun heq => hsame (Option.some.inj heq)
    apply h.forget hne text
    rw [versions, hsplit, List.filter_append, List.filter_cons_of_neg (by simpa using hsame),
      ← List.filter_append, ← List.eraseIdx_eq_take_drop_succ]
    exact htext

theorem step_inFile {action : WorkspaceAction} {s t : Workspace}
    (h : InFile s.disk s.document s.answers) (horder : InOrder action s)
    (hstep : step host empty action s = some t) : InFile t.disk t.document t.answers := by
  cases action with
  | edit next =>
    cases hstep
    exact h.congr rfl rfl
  | undo =>
    cases hstep
    exact h.congr rfl rfl
  | redo =>
    cases hstep
    exact h.congr rfl rfl
  | newProject confirmed =>
    cases hstep
    split
    · intro path
      exact h.forget (Option.some_ne_none path).symm
    · exact h
  | openStart confirmed =>
    cases hstep
    split
    · exact h
    · exact h
  | openFile path failure =>
    simp only [step] at hstep
    split at hstep
    · cases hstep
    · split at hstep
      · cases hstep
        exact h
      · split at hstep
        · cases hstep
          exact h
        · rename_i file hread
          cases hstep
          exact h.ran (.opened file) (readProject_ok hread) fun _ _ => rfl
  | saveStart saveAs =>
    cases hstep
    exact h
  | choose i path =>
    simp only [step] at hstep
    split at hstep
    · split at hstep
      · cases hstep
        exact h
      · cases hstep
        exact h
    · cases hstep
  | write i failure =>
    simp only [step] at hstep
    split at hstep
    · rename_i content path _
      split at hstep
      · cases hstep
        exact h
      · rename_i saved disk hwrite
        cases hstep
        have hdisk := writeProject_ok hwrite
        apply h.ran (.saved saved content)
        · rw [hdisk]
          exact Function.update_self _ _ _
        · intro other hother
          rw [hdisk]
          exact Function.update_of_ne hother _ _
    · cases hstep
  | answer i =>
    simp only [step] at hstep
    split at hstep
    · cases hstep
    · rename_i answer hanswer
      cases hstep
      exact h.arrived hanswer (horder answer hanswer)

/-- A disk without links, and texts that the JSON parser accepts. -/
def plainHost : Host where
  jsonError _ := none
  canonicalize _ path := .ok path
  pathExists disk path := (disk path).isSome
  symlinkMetadata disk path := (disk path).elim (.error "") .ok

/-- Two new files: the second is written before the first, and its answer comes later. -/
def twoFiles : List WorkspaceAction :=
  [.edit "[1]", .saveStart true, .choose 0 (some "/a.json"), .edit "[2]", .saveStart true,
    .choose 1 (some "/b.json"), .write 1 none, .write 0 none, .answer 1, .answer 0, .undo,
    .saveStart false, .write 0 none, .redo, .answer 0, .undo, .openStart true,
    .openFile (some "/a.json") none]

def newWorkspace : Workspace where
  document := .initial "{}"

/-- The second of two saves to one file is answered before the first. -/
def overtaken : List WorkspaceAction :=
  [.edit "[1]", .saveStart true, .choose 0 (some "/a.json"), .write 0 none, .edit "[2]",
    .saveStart true, .choose 0 (some "/a.json"), .write 0 none, .undo, .answer 1, .answer 0]

/-- Then the document is not marked as changed, but the file holds another text. -/
example : ∃ s, Transition.run (step plainHost "{}") overtaken newWorkspace = some s ∧
    s.document.dirty = false ∧ s.document.content = "[1]" ∧
    s.disk "/a.json" = some (.file "[2]".toUTF8) := ⟨_, rfl, rfl, rfl, rfl⟩

end Workspace

end OpcServer.Studio
