import Mathlib.Data.List.Basic

/-! Command lines of flags and of options that take the next argument as their value. A
parser goes on after an error, except where a value is missing at the end. A command line
without errors is a sequence of words, and says what its words say one after another. -/

namespace CommandLine

universe u

/-- What the options of a program do to its settings, and the texts of the errors. -/
structure Grammar (σ : Type u) where
  flag : String → Option (σ → σ)
  value : String → Option (String → σ → Except String σ)
  missing : String → String
  unknown : String → String

variable {σ : Type u} {g : Grammar σ}

/-- Settings and errors after the arguments. -/
def parse (g : Grammar σ) : List String → σ → List String → σ × List String
  | [], s, errors => (s, errors)
  | arg :: rest, s, errors =>
    match g.flag arg with
    | some set => parse g rest (set s) errors
    | none =>
      match g.value arg, rest with
      | none, rest => parse g rest s (errors ++ [g.unknown arg])
      | some _, [] => (s, errors ++ [g.missing arg])
      | some set, text :: rest =>
        match set text s with
        | .ok s => parse g rest s errors
        | .error message => parse g rest s (errors ++ [message])

/-- A flag, or an option with its value. -/
inductive Word where
  | flag (name : String)
  | value (name text : String)
  deriving DecidableEq

def Word.render : Word → List String
  | .flag name => [name]
  | .value name text => [name, text]

/-- What a word does to the settings, if it may stand there. -/
def Grammar.run (g : Grammar σ) (s : σ) : Word → Option σ
  | .flag name => (g.flag name).map fun set => set s
  | .value name text =>
    if (g.flag name).isSome then none
    else (g.value name).bind fun set => (set text s).toOption

/-- Errors are kept. -/
theorem prefix_parse (args : List String) (s : σ) (errors : List String) :
    errors <+: (parse g args s errors).2 := by
  fun_induction parse g args s errors with
  | case1 s errors => exact List.prefix_rfl
  | case2 arg rest s errors set hflag ih => exact ih
  | case3 arg s errors hflag rest hvalue ih => exact (List.prefix_append _ _).trans ih
  | case4 arg s errors hflag set hvalue => exact List.prefix_append _ _
  | case5 arg s errors hflag set text rest hvalue t ht ih => exact ih
  | case6 arg s errors hflag set text rest hvalue message ht ih =>
    exact (List.prefix_append _ _).trans ih

theorem parse_ne_nil {args : List String} {s : σ} {errors : List String} {message : String} :
    (parse g args s (errors ++ [message])).2 ≠ [] := by
  intro h
  have hprefix' := prefix_parse (g := g) args s (errors ++ [message])
  rw [h, List.prefix_nil] at hprefix'
  exact absurd hprefix' (List.append_ne_nil_of_right_ne_nil _ (List.cons_ne_nil _ _))

/-- The words of a command line without errors. -/
theorem exists_words {args : List String} {s t : σ} (h : parse g args s [] = (t, [])) :
    ∃ words : List Word, words.flatMap Word.render = args ∧ words.foldlM g.run s = some t := by
  generalize hnone : ([] : List String) = errors at h
  fun_induction parse g args s errors generalizing t with
  | case1 s errors =>
    cases h
    exact ⟨[], rfl, rfl⟩
  | case2 arg rest s errors set hflag ih =>
    obtain ⟨words, hrender, hrun⟩ := ih hnone h
    refine ⟨.flag arg :: words, ?_, ?_⟩
    · rw [List.flatMap_cons, hrender]
      rfl
    · rw [List.foldlM_cons, Grammar.run, hflag]
      exact hrun
  | case3 arg s errors hflag rest hvalue ih =>
    exact absurd ((congrArg Prod.snd h).trans hnone.symm) parse_ne_nil
  | case4 arg s errors hflag set hvalue =>
    exact absurd ((congrArg Prod.snd h).trans hnone.symm)
      (List.append_ne_nil_of_right_ne_nil _ (List.cons_ne_nil _ _))
  | case5 arg s errors hflag set text rest hvalue u hu ih =>
    obtain ⟨words, hrender, hrun⟩ := ih hnone h
    refine ⟨.value arg text :: words, ?_, ?_⟩
    · rw [List.flatMap_cons, hrender]
      rfl
    · have hword : g.run s (.value arg text) = some u := by
        simp only [Grammar.run, hflag, hvalue, hu, Option.isSome_none, Bool.false_eq_true, if_false,
          Option.bind_some, Except.toOption]
      rw [List.foldlM_cons, hword]
      exact hrun
  | case6 arg s errors hflag set text rest hvalue message hu ih =>
    exact absurd ((congrArg Prod.snd h).trans hnone.symm) parse_ne_nil

/-- Words in a row are read back. -/
theorem parse_words {words : List Word} {s t : σ} (h : words.foldlM g.run s = some t)
    (errors : List String) : parse g (words.flatMap Word.render) s errors = (t, errors) := by
  induction words generalizing s with
  | nil =>
    cases h
    rfl
  | cons w words ih =>
    rw [List.foldlM_cons] at h
    obtain ⟨u, hu, hrun⟩ := Option.bind_eq_some_iff.mp h
    rw [List.flatMap_cons, ← ih hrun]
    cases w with
    | flag name =>
      obtain ⟨set, hflag, hset⟩ := Option.map_eq_some_iff.mp hu
      rw [Word.render, List.singleton_append, parse.eq_def]
      simp only [hflag, hset]
    | value name text =>
      rw [Grammar.run] at hu
      split_ifs at hu with hflag
      rw [Bool.not_eq_true, Option.isSome_eq_false_iff, Option.isNone_iff_eq_none] at hflag
      obtain ⟨set, hvalue, hset⟩ := Option.bind_eq_some_iff.mp hu
      rw [Word.render, List.cons_append, List.singleton_append, parse.eq_def]
      simp only [hflag, hvalue]
      cases hs : set text s with
      | ok v =>
        rw [hs, Except.toOption, Option.some.injEq] at hset
        rw [hset]
      | error message =>
        rw [hs] at hset
        cases hset

/-- What only some words switch on is on after them exactly if one of them is there. -/
theorem switch_iff (on : σ → Bool) (switches : Word → Prop)
    (hon : ∀ w s t, switches w → g.run s w = some t → on t = true)
    (hkeep : ∀ w s t, ¬ switches w → g.run s w = some t → on t = on s)
    {words : List Word} {s t : σ} (h : words.foldlM g.run s = some t) :
    on t = true ↔ on s = true ∨ ∃ w ∈ words, switches w := by
  induction words generalizing s with
  | nil =>
    cases h
    simp only [List.not_mem_nil, false_and, exists_false, or_false]
  | cons w words ih =>
    rw [List.foldlM_cons] at h
    obtain ⟨u, hu, hrun⟩ := Option.bind_eq_some_iff.mp h
    rw [ih hrun, List.exists_mem_cons_iff]
    by_cases hw : switches w
    · simp only [hon w s u hw hu, hw, true_or, or_true]
    · simp only [hkeep w s u hw hu, hw, false_or]

/-- A command line has no errors exactly when it is a sequence of words that may stand there,
and then it says what they say. -/
theorem parse_eq_iff {args : List String} {s t : σ} : parse g args s [] = (t, []) ↔
    ∃ words : List Word, words.flatMap Word.render = args ∧ words.foldlM g.run s = some t := by
  constructor
  · exact exists_words
  · rintro ⟨words, rfl, h⟩
    exact parse_words h []

end CommandLine
