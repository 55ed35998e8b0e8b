import OpcServer.Lib.EditHistory

/-! The document of the studio: the text that is edited, the text that was last saved,
and the texts that undo and redo go to, an array with an index into it. The array is a
bounded undo history: it refines `EditHistory` with 99 states before the present one. -/

namespace OpcServer.Studio

/-- What a validation reports; no function here looks into it. -/
structure ValidationIssue where
  severity : String
  path : String
  message : String
  source : String
  deriving DecidableEq, Repr

structure Document where
  content : String
  savedContent : String
  path : Option String := none
  issues : List ValidationIssue := []
  history : List String
  historyIndex : ℕ := 0
  deriving DecidableEq, Repr

namespace Document

def initial (content : String) : Document where
  content := content
  savedContent := content
  history := [content]

def dirty (d : Document) : Bool := d.content ≠ d.savedContent

/-- `Array.prototype.slice(-count)`. -/
def lastOf {α : Type} (count : ℕ) (l : List α) : List α := l.drop (l.length - count)

def applyContent (d : Document) (next : String) : Document :=
  let nextHistory := d.history.take (d.historyIndex + 1) ++ [next]
  let history := lastOf 100 nextHistory
  { d with
    content := next
    issues := []
    history := history
    historyIndex := history.length - 1 }

def resetDocument (d : Document) (next : String) (nextPath : Option String) : Document :=
  { d with
    content := next
    savedContent := next
    path := nextPath
    issues := []
    history := [next]
    historyIndex := 0 }

/-- The content at an index of the history; the index is always inside. -/
def goTo (d : Document) (index : ℕ) : Document :=
  { d with content := d.history.getD index "", historyIndex := index }

def undo (d : Document) : Document := d.goTo (max 0 (d.historyIndex - 1))

def redo (d : Document) : Document := d.goTo (min (d.history.length - 1) (d.historyIndex + 1))

/-- What a save that succeeded does. -/
def saved (d : Document) (path content : String) : Document :=
  { d with path := some path, savedContent := content }

inductive Action where
  | edit (next : String)
  | undo
  | redo
  | reset (next : String) (nextPath : Option String)
  | saved (path content : String)
  | validated (issues : List ValidationIssue)
  deriving DecidableEq, Repr

def step (d : Document) : Action → Document
  | .edit next => d.applyContent next
  | .undo => d.undo
  | .redo => d.redo
  | .reset next nextPath => d.resetDocument next nextPath
  | .saved path content => d.saved path content
  | .validated issues => { d with issues := issues }

def run (d : Document) (actions : List Action) : Document := actions.foldl step d

@[simp] theorem run_nil (d : Document) : d.run [] = d := rfl

@[simp] theorem run_cons (d : Document) (action : Action) (rest : List Action) :
    d.run (action :: rest) = (d.step action).run rest := rfl

/-! ### The history -/

/-- The array and its index stand for a history, of which it holds all. -/
structure Shows (d : Document) (h : EditHistory String) : Prop where
  content : d.content = h.present
  history : d.history = h.past.reverse ++ h.present :: h.future
  index : d.historyIndex = h.past.length
  bound : h.past.length + h.future.length ≤ 99

theorem lastOf_eq {α : Type} (count : ℕ) (l : List α) :
    lastOf count l = (l.reverse.take count).reverse := by
  rw [List.take_reverse, List.reverse_reverse]
  rfl

theorem shows_initial (content : String) : (initial content).Shows (.start content) where
  content := rfl
  history := rfl
  index := rfl
  bound := Nat.zero_le _

theorem Shows.edit {d : Document} {h : EditHistory String} (hs : d.Shows h) (next : String) :
    (d.applyContent next).Shows (h.edit 99 next) := by
  have hkept : d.history.take (d.historyIndex + 1) ++ [next] =
      (next :: h.present :: h.past).reverse := by
    rw [hs.history, hs.index, List.take_append, List.length_reverse, Nat.add_sub_cancel_left,
      List.take_of_length_le (by rw [List.length_reverse]; exact Nat.le_succ _)]
    simp
  have hhistory : (d.applyContent next).history =
      ((h.present :: h.past).take 99).reverse ++ [next] := by
    simp only [applyContent]
    rw [hkept, lastOf_eq, List.reverse_reverse, List.take_succ_cons, List.reverse_cons]
  refine ⟨rfl, hhistory, ?_, ?_⟩
  · have hindex : (d.applyContent next).historyIndex = (d.applyContent next).history.length - 1 :=
      rfl
    rw [hindex, hhistory, List.length_append, List.length_reverse]
    rfl
  · simp only [EditHistory.edit, List.length_nil, Nat.add_zero]
    exact List.length_take_le _ _

theorem Shows.undo {d : Document} {h : EditHistory String} (hs : d.Shows h) :
    d.undo.Shows h.undo := by
  obtain ⟨past, present, future⟩ := h
  cases past with
  | nil =>
    have hindex : d.historyIndex = 0 := hs.index
    have hhistory : d.history = present :: future := hs.history
    refine ⟨?_, hs.history, ?_, hs.bound⟩
    · simp [Document.undo, goTo, hindex, hhistory, EditHistory.undo]
    · simp [Document.undo, goTo, hindex, EditHistory.undo]
  | cons previous rest =>
    have hindex : max 0 (d.historyIndex - 1) = rest.length := by
      rw [hs.index, List.length_cons]
      omega
    have hhistory : d.history = rest.reverse ++ previous :: present :: future := by
      rw [hs.history]
      simp
    have hbound := hs.bound
    refine ⟨?_, hhistory, hindex, ?_⟩
    · simp only [Document.undo, goTo]
      rw [hindex, hhistory, ← List.length_reverse, List.getD_append_right _ _ _ _ (Nat.le_refl _)]
      simp [EditHistory.undo]
    · simp only [EditHistory.undo, List.length_cons] at hbound ⊢
      omega

theorem Shows.redo {d : Document} {h : EditHistory String} (hs : d.Shows h) :
    d.redo.Shows h.redo := by
  obtain ⟨past, present, future⟩ := h
  have hindex : d.historyIndex = past.length := hs.index
  have hlength : d.history.length = past.length + 1 + future.length := by
    rw [hs.history]
    simp
    omega
  cases future with
  | nil =>
    have hnext : min (d.history.length - 1) (d.historyIndex + 1) = past.length := by
      rw [hlength, hindex, List.length_nil]
      omega
    refine ⟨?_, hs.history, hnext, hs.bound⟩
    simp only [Document.redo, goTo]
    rw [hnext, hs.history, ← List.length_reverse, List.getD_append_right _ _ _ _ (Nat.le_refl _)]
    simp [EditHistory.redo]
  | cons next rest =>
    have hnext : min (d.history.length - 1) (d.historyIndex + 1) = past.length + 1 := by
      rw [hlength, hindex, List.length_cons]
      omega
    have hhistory : d.history = (present :: past).reverse ++ next :: rest := by
      rw [hs.history]
      simp
    have hbound := hs.bound
    refine ⟨?_, hhistory, hnext, ?_⟩
    · simp only [Document.redo, goTo]
      rw [hnext, hhistory, List.getD_append_right _ _ _ _ (by simp)]
      simp [EditHistory.redo]
    · simp only [EditHistory.redo, List.length_cons] at hbound ⊢
      omega

/-- What an action is to the history. -/
def Action.onHistory : Action → EditHistory String → EditHistory String
  | .edit next, h => h.edit 99 next
  | .undo, h => h.undo
  | .redo, h => h.redo
  | .reset next _, _ => .start next
  | .saved _ _, h => h
  | .validated _, h => h

theorem Shows.step {d : Document} {h : EditHistory String} (hs : d.Shows h) (action : Action) :
    (d.step action).Shows (action.onHistory h) := by
  cases action with
  | edit next => exact hs.edit next
  | undo => exact hs.undo
  | redo => exact hs.redo
  | reset next nextPath => exact ⟨rfl, rfl, rfl, Nat.zero_le _⟩
  | saved path content => exact ⟨hs.content, hs.history, hs.index, hs.bound⟩
  | validated issues => exact ⟨hs.content, hs.history, hs.index, hs.bound⟩

theorem Shows.run {d : Document} {h : EditHistory String} (hs : d.Shows h)
    (actions : List Action) :
    (d.run actions).Shows (actions.foldl (fun h action => action.onHistory h) h) := by
  induction actions generalizing d h with
  | nil => exact hs
  | cons action rest ih => exact ih (hs.step action)

/-- In every run the document shows the bounded history of its edits. -/
theorem document_refines (first : String) (actions : List Action) :
    ((initial first).run actions).Shows
      (actions.foldl (fun h action => action.onHistory h) (.start first)) :=
  (shows_initial first).run actions

theorem foldl_undo (k : ℕ) (h : EditHistory String) :
    (List.replicate k Action.undo).foldl (fun h action => action.onHistory h) h =
      EditHistory.undo^[k] h := by
  induction k generalizing h with
  | zero => rfl
  | succ k ih =>
    rw [List.replicate_succ, List.foldl_cons, ih, Function.iterate_succ_apply]
    rfl

theorem foldl_redo (k : ℕ) (h : EditHistory String) :
    (List.replicate k Action.redo).foldl (fun h action => action.onHistory h) h =
      EditHistory.redo^[k] h := by
  induction k generalizing h with
  | zero => rfl
  | succ k ih =>
    rw [List.replicate_succ, List.foldl_cons, ih, Function.iterate_succ_apply]
    rfl

/-- Undo and redo change the content and the index, and nothing else. -/
structure SameBut (d d' : Document) : Prop where
  savedContent : d'.savedContent = d.savedContent
  path : d'.path = d.path
  issues : d'.issues = d.issues

theorem sameBut_moves (moves : List Action) (hmoves : ∀ a ∈ moves, a = .undo ∨ a = .redo)
    (d : Document) : d.SameBut (d.run moves) := by
  induction moves generalizing d with
  | nil => exact ⟨rfl, rfl, rfl⟩
  | cons move rest ih =>
    have hfirst : d.SameBut (d.step move) := by
      rcases hmoves move List.mem_cons_self with rfl | rfl
      · exact ⟨rfl, rfl, rfl⟩
      · exact ⟨rfl, rfl, rfl⟩
    have hrest := ih (fun a ha => hmoves a (List.mem_cons_of_mem _ ha)) (d.step move)
    exact ⟨hrest.savedContent.trans hfirst.savedContent, hrest.path.trans hfirst.path,
      hrest.issues.trans hfirst.issues⟩

/-- A history tells the document that shows it, but for what undo leaves alone. -/
theorem Shows.ext {d d' : Document} {h : EditHistory String} (hs : d.Shows h) (hs' : d'.Shows h)
    (hsame : d.SameBut d') : d' = d := by
  obtain ⟨content, savedContent, path, issues, history, historyIndex⟩ := d
  obtain ⟨content', savedContent', path', issues', history', historyIndex'⟩ := d'
  obtain ⟨hcontent, hhistory, hindex, -⟩ := hs
  obtain ⟨hcontent', hhistory', hindex', -⟩ := hs'
  obtain ⟨hsaved, hpath, hissues⟩ := hsame
  simp only at hcontent hhistory hindex hcontent' hhistory' hindex' hsaved hpath hissues
  rw [hcontent, hhistory, hindex, hcontent', hhistory', hindex', hsaved, hpath, hissues]

theorem foldl_edit (edits : List String) (h : EditHistory String) :
    (edits.map Action.edit).foldl (fun h action => action.onHistory h) h =
      edits.foldl (EditHistory.edit 99) h := by
  rw [List.foldl_map]
  rfl

/-- After any run and any edits: as many undos as one likes show the text before that many
of the edits, but never more than 99, and as many redos give the document back. -/
theorem undo_edits (first : String) (actions : List Action) (edits : List String) (k : ℕ)
    (hk : k ≤ edits.length) :
    let d := (initial first).run actions
    let edited := d.run (edits.map .edit)
    let undone := edited.run (List.replicate k .undo)
    (edits.reverse ++ [d.content])[min k 99]? = some undone.content ∧
      undone.run (List.replicate k .redo) = edited := by
  intro d edited undone
  have hd := document_refines first actions
  generalize actions.foldl (fun h action => action.onHistory h) (.start first) = h at hd
  let e := edits.foldl (EditHistory.edit 99) h
  have hedited : edited.Shows e := by
    simpa only [foldl_edit] using hd.run (edits.map .edit)
  have hundone : undone.Shows (EditHistory.undo^[k] e) := by
    simpa only [foldl_undo] using hedited.run (List.replicate k .undo)
  have htrail : e.trail = (edits.reverse ++ h.trail).take 100 :=
    EditHistory.trail_edits edits (by have := hd.bound; omega)
  constructor
  · have hlength : e.past.length + 1 = min 100 (edits.length + (h.past.length + 1)) := by
      have := congrArg List.length htrail
      simpa [EditHistory.trail] using this
    have hmin : min k e.past.length = min k 99 := by omega
    have hsplit : edits.reverse ++ h.trail = edits.reverse ++ [h.present] ++ h.past := by
      simp [EditHistory.trail]
    have hlt : min k 99 < (edits.reverse ++ [h.present]).length := by
      simp only [List.length_append, List.length_reverse, List.length_singleton]
      omega
    rw [hundone.content, EditHistory.undo_iterate_present, hmin, htrail, hd.content, hsplit,
      List.getD_eq_getElem?_getD, List.getElem?_take_of_lt (by omega),
      List.getElem?_append_left hlt, List.getElem?_eq_getElem hlt]
    rfl
  · have hback : (undone.run (List.replicate k .redo)).Shows e := by
      have hredo := hundone.run (List.replicate k .redo)
      rw [foldl_redo] at hredo
      cases edits with
      | nil =>
        obtain rfl : k = 0 := Nat.le_zero.mp hk
        exact hredo
      | cons next rest =>
        have hfuture : e.future = [] := EditHistory.foldl_edit_future (List.cons_ne_nil next rest) h
        rwa [EditHistory.redo_undo_iterate_of_last k hfuture] at hredo
    apply hedited.ext hback
    have hmoves : ∀ a ∈ List.replicate k Action.undo ++ List.replicate k .redo,
        a = .undo ∨ a = .redo := by
      intro a ha
      rcases List.mem_append.mp ha with ha | ha
      · exact .inl (List.eq_of_mem_replicate ha)
      · exact .inr (List.eq_of_mem_replicate ha)
    have hsame := sameBut_moves _ hmoves edited
    rwa [run, List.foldl_append] at hsame

theorem two_edits_undone :
    ((initial "a").run [.edit "b", .edit "c", .undo, .undo]).content = "a" ∧
    (initial "a").run [.edit "b", .edit "c", .undo, .undo, .redo, .redo] =
      (initial "a").run [.edit "b", .edit "c"] := by
  obtain ⟨hcontent, hredo⟩ := undo_edits "a" [] ["b", "c"] 2 (by decide)
  exact ⟨(Option.some.inj hcontent).symm, hredo⟩

end Document

end OpcServer.Studio
