import Mathlib.Data.List.Basic

/-! Markup text: start and end tags, attributes, instructions and character data with the
five named references. `scan` reads a text into its tokens, one character at a time, and
keeps the white space before an attribute, so that it inverts the rendering of tokens.
Comments, character sections, numeric references and empty-element tags are not read. -/

namespace Markup

abbrev Text := List Char

/-! ### Rendering -/

structure Attribute where
  gap : Text := [' ']
  name : Text
  value : Text
  deriving DecidableEq, Repr

inductive Token where
  | instruction (body : Text)
  | opening (name : Text) (attributes : List Attribute)
  | closing (name : Text)
  | text (content : Text)
  deriving DecidableEq, Repr

def entities : List (Char × Text) :=
  [('&', "amp".toList), ('<', "lt".toList), ('>', "gt".toList), ('"', "quot".toList),
    ('\'', "apos".toList)]

def escapeChar (c : Char) : Text :=
  match entities.lookup c with
  | some name => '&' :: name ++ [';']
  | none => [c]

def escape (content : Text) : Text := content.flatMap escapeChar

def Attribute.render (a : Attribute) : Text :=
  a.gap ++ a.name ++ ['=', '"'] ++ escape a.value ++ ['"']

def Token.render : Token → Text
  | .instruction body => '<' :: '?' :: (body ++ ['?', '>'])
  | .opening name attributes => '<' :: (name ++ attributes.flatMap Attribute.render ++ ['>'])
  | .closing name => '<' :: '/' :: (name ++ ['>'])
  | .text content => escape content

def render (tokens : List Token) : Text := tokens.flatMap Token.render

/-- Character data; nothing at all when it is empty. -/
def characters (content : Text) : List Token := if content = [] then [] else [.text content]

/-- An element with what stands between its tags. -/
def enclose (name : Text) (attributes : List Attribute) (inner : List Token) : List Token :=
  .opening name attributes :: (inner ++ [.closing name])

/-- Elements with white space before each of them and after the last one. -/
def block (gap last : Text) (elements : List (List Token)) : List Token :=
  elements.flatMap (fun e => .text gap :: e) ++ [.text last]

theorem escape_append (first second : Text) :
    escape (first ++ second) = escape first ++ escape second := List.flatMap_append

/-- A text without characters that have an entity; the test is one that evaluates. -/
theorem escape_plain {content : Text}
    (h : content.all (fun c => (entities.lookup c).isNone) = true) : escape content = content := by
  induction content with
  | nil => rfl
  | cons c rest ih =>
    rw [List.all_cons, Bool.and_eq_true, Option.isNone_iff_eq_none] at h
    have hc : escapeChar c = [c] := by rw [escapeChar, h.1]
    show escapeChar c ++ escape rest = c :: rest
    rw [hc, ih h.2]
    rfl

theorem render_nil : render [] = [] := rfl

theorem render_cons (t : Token) (rest : List Token) :
    render (t :: rest) = t.render ++ render rest := rfl

theorem render_append (first second : List Token) :
    render (first ++ second) = render first ++ render second := List.flatMap_append

theorem render_characters (content : Text) : render (characters content) = escape content := by
  unfold characters
  split_ifs with h
  · rw [h]
    rfl
  · exact List.append_nil _

theorem render_enclose (name : Text) (attributes : List Attribute) (inner : List Token) :
    render (enclose name attributes inner) =
      ['<'] ++ name ++ attributes.flatMap Attribute.render ++ ['>'] ++ render inner ++
        ['<', '/'] ++ name ++ ['>'] := by
  have hopening : render [.opening name attributes] =
      ['<'] ++ name ++ attributes.flatMap Attribute.render ++ ['>'] := List.append_nil _
  have hclosing : render [.closing name] = ['<', '/'] ++ name ++ ['>'] := List.append_nil _
  rw [enclose, ← List.singleton_append, render_append, render_append, hopening, hclosing]
  simp only [List.append_assoc]

theorem render_block (gap last : Text) (elements : List (List Token)) :
    render (block gap last elements) =
      elements.flatMap (fun e => escape gap ++ render e) ++ escape last := by
  have hlast : render [.text last] = escape last := List.append_nil _
  rw [block, render_append, hlast]
  congr 1
  induction elements with
  | nil => rfl
  | cons e rest ih => rw [List.flatMap_cons, List.flatMap_cons, render_append, ih]; rfl

/-! ### Scanning -/

def isBlank (c : Char) : Bool := c = ' ' ∨ c = '\n' ∨ c = '\t' ∨ c = '\r'

def isNameChar (c : Char) : Bool := !isBlank c && !("<>/=&\"'?".toList.contains c)

/-- What the scanner is in the middle of. -/
inductive Mode where
  | content (seen : Text)
  | reference (seen entity : Text)
  | markup
  | instruction (body : Text)
  | instructionEnd (body : Text)
  | closing (name : Text)
  | opening (name : Text)
  | gap (name : Text) (before : List Attribute) (blanks : Text)
  | key (name : Text) (before : List Attribute) (blanks key : Text)
  | equals (name : Text) (before : List Attribute) (blanks key : Text)
  | value (name : Text) (before : List Attribute) (blanks key seen : Text)
  | valueReference (name : Text) (before : List Attribute) (blanks key seen entity : Text)
  | quoted (name : Text) (before : List Attribute)
  deriving DecidableEq, Repr

/-- The character of a reference. -/
def entityChar (entity : Text) : Option Char :=
  (entities.find? fun e => e.2 == entity).map Prod.fst

/-- The next mode and the tokens that end with a character. -/
def step : Mode → Char → Option (Mode × List Token)
  | .content seen, c =>
    if c = '<' then some (.markup, characters seen)
    else if c = '&' then some (.reference seen [], [])
    else some (.content (seen ++ [c]), [])
  | .reference seen entity, c =>
    if c = ';' then (entityChar entity).map fun d => (.content (seen ++ [d]), [])
    else some (.reference seen (entity ++ [c]), [])
  | .markup, c =>
    if c = '/' then some (.closing [], [])
    else if c = '?' then some (.instruction [], [])
    else if isNameChar c then some (.opening [c], [])
    else none
  | .instruction body, c =>
    if c = '?' then some (.instructionEnd body, []) else some (.instruction (body ++ [c]), [])
  | .instructionEnd body, c =>
    if c = '>' then some (.content [], [.instruction body]) else none
  | .closing name, c =>
    if c = '>' then some (.content [], [.closing name])
    else if isNameChar c then some (.closing (name ++ [c]), [])
    else none
  | .opening name, c =>
    if c = '>' then some (.content [], [.opening name []])
    else if isBlank c then some (.gap name [] [c], [])
    else if isNameChar c then some (.opening (name ++ [c]), [])
    else none
  | .gap name before blanks, c =>
    if isBlank c then some (.gap name before (blanks ++ [c]), [])
    else if isNameChar c then some (.key name before blanks [c], [])
    else none
  | .key name before blanks key, c =>
    if c = '=' then some (.equals name before blanks key, [])
    else if isNameChar c then some (.key name before blanks (key ++ [c]), [])
    else none
  | .equals name before blanks key, c =>
    if c = '"' then some (.value name before blanks key [], []) else none
  | .value name before blanks key seen, c =>
    if c = '"' then some (.quoted name (before ++ [⟨blanks, key, seen⟩]), [])
    else if c = '<' then none
    else if c = '&' then some (.valueReference name before blanks key seen [], [])
    else some (.value name before blanks key (seen ++ [c]), [])
  | .valueReference name before blanks key seen entity, c =>
    if c = ';' then (entityChar entity).map fun d => (.value name before blanks key (seen ++ [d]), [])
    else some (.valueReference name before blanks key seen (entity ++ [c]), [])
  | .quoted name before, c =>
    if c = '>' then some (.content [], [.opening name before])
    else if isBlank c then some (.gap name before [c], [])
    else none

def feed : Mode → Text → Option (Mode × List Token)
  | mode, [] => some (mode, [])
  | mode, c :: rest => (step mode c).bind fun next =>
    (feed next.1 rest).map fun last => (last.1, next.2 ++ last.2)

/-- The tokens of a text; `none` when it breaks off or is not markup. -/
def scan (text : Text) : Option (List Token) :=
  match feed (.content []) text with
  | some (.content seen, tokens) => some (tokens ++ characters seen)
  | _ => none

/-! ### Nesting -/

/-- The elements still open after some tokens, the innermost first. -/
def nesting : List Text → List Token → Option (List Text)
  | stack, [] => some stack
  | stack, .opening name _ :: rest => nesting (name :: stack) rest
  | name :: stack, .closing name' :: rest => if name = name' then nesting stack rest else none
  | [], .closing _ :: _ => none
  | stack, .instruction _ :: rest => nesting stack rest
  | stack, .text _ :: rest => nesting stack rest

/-- The start and end tags match. -/
def Balanced (tokens : List Token) : Prop := ∀ stack, nesting stack tokens = some stack

theorem nesting_append (stack : List Text) (first second : List Token) :
    nesting stack (first ++ second) = (nesting stack first).bind fun s => nesting s second := by
  induction first generalizing stack with
  | nil => rfl
  | cons t rest ih =>
    cases t with
    | closing name =>
      cases stack with
      | nil => rfl
      | cons top stack =>
        rw [List.cons_append, nesting, nesting]
        split_ifs
        · exact ih stack
        · rfl
    | _ => exact ih _

theorem Balanced.append {first second : List Token} (hf : Balanced first) (hs : Balanced second) :
    Balanced (first ++ second) := by
  intro stack
  rw [nesting_append, hf stack]
  exact hs stack

theorem Balanced.enclose {inner : List Token} (h : Balanced inner) (name : Text)
    (attributes : List Attribute) : Balanced (enclose name attributes inner) := by
  intro stack
  rw [Markup.enclose, nesting, nesting_append, h, Option.bind_some, nesting, if_pos rfl, nesting]

theorem balanced_characters (content : Text) : Balanced (characters content) := by
  intro stack
  unfold characters
  split_ifs <;> rfl

theorem balanced_block {gap last : Text} {elements : List (List Token)}
    (h : ∀ e ∈ elements, Balanced e) : Balanced (block gap last elements) := by
  induction elements with
  | nil => exact fun _ => rfl
  | cons e rest ih =>
    have he : Balanced (.text gap :: e) := fun stack => h e List.mem_cons_self stack
    have hrest := ih fun e he => h e (List.mem_cons_of_mem _ he)
    rw [block, List.flatMap_cons, List.append_assoc]
    exact he.append hrest

/-! ### The scanner on rendered text -/

theorem feed_append (mode : Mode) (first second : Text) :
    feed mode (first ++ second) = (feed mode first).bind fun next =>
      (feed next.1 second).map fun last => (last.1, next.2 ++ last.2) := by
  induction first generalizing mode with
  | nil =>
    show feed mode second = (feed mode second).map fun last => (last.1, [] ++ last.2)
    cases feed mode second <;> rfl
  | cons c rest ih =>
    rw [List.cons_append, feed, feed]
    cases step mode c with
    | none => rfl
    | some next =>
      simp only [Option.bind_some, ih]
      cases feed next.1 rest with
      | none => rfl
      | some mid => cases hs : feed mid.1 second <;> simp [hs]

/-- A text takes the scanner from one mode to another and ends some tokens. -/
def Feeds (mode : Mode) (text : Text) (next : Mode) (tokens : List Token) : Prop :=
  feed mode text = some (next, tokens)

theorem Feeds.nil (mode : Mode) : Feeds mode [] mode [] := rfl

theorem Feeds.append {mode next last : Mode} {first second : Text} {tokens more : List Token}
    (hf : Feeds mode first next tokens) (hs : Feeds next second last more) :
    Feeds mode (first ++ second) last (tokens ++ more) := by
  rw [Feeds, feed_append, hf, Option.bind_some]
  exact congrArg (Option.map _) hs

theorem Feeds.cons {mode next last : Mode} {c : Char} {rest : Text} {tokens more : List Token}
    (hc : step mode c = some (next, tokens)) (hs : Feeds next rest last more) :
    Feeds mode (c :: rest) last (tokens ++ more) := by
  rw [Feeds, feed, hc, Option.bind_some]
  exact congrArg (Option.map _) hs

/-- A mode that takes in the characters of a text one by one. -/
theorem feeds_each (mode : Text → Mode) {text : Text}
    (h : ∀ c ∈ text, ∀ seen, step (mode seen) c = some (mode (seen ++ [c]), [])) (seen : Text) :
    Feeds (mode seen) text (mode (seen ++ text)) [] := by
  induction text generalizing seen with
  | nil =>
    rw [List.append_nil]
    exact .nil _
  | cons c rest ih =>
    have hrest := ih (fun d hd => h d (List.mem_cons_of_mem c hd)) (seen ++ [c])
    rw [List.append_assoc] at hrest
    exact hrest.cons (h c List.mem_cons_self seen)

/-- A mode that takes in escaped characters, with the mode of its references. -/
theorem feeds_escape (mode : Text → Mode) (reference : Text → Text → Mode)
    (hplain : ∀ c, entities.lookup c = none → ∀ seen,
      step (mode seen) c = some (mode (seen ++ [c]), []))
    (hamp : ∀ seen, step (mode seen) '&' = some (reference seen [], []))
    (hname : ∀ seen entity c, c ≠ ';' →
      step (reference seen entity) c = some (reference seen (entity ++ [c]), []))
    (hend : ∀ seen entity, step (reference seen entity) ';' =
      (entityChar entity).map fun d => (mode (seen ++ [d]), []))
    (content seen : Text) : Feeds (mode seen) (escape content) (mode (seen ++ content)) [] := by
  have hchar (c : Char) (seen : Text) : Feeds (mode seen) (escapeChar c) (mode (seen ++ [c])) [] := by
    unfold escapeChar
    cases hc : entities.lookup c with
    | none => exact (Feeds.nil _).cons (hplain c hc seen)
    | some name =>
      have hmem : (c, name) ∈ entities := by
        obtain ⟨before, after, he, -⟩ := List.lookup_eq_some_iff.mp hc
        simp [he]
      have hsemi : ';' ∉ name ∧ entityChar name = some c := by
        clear hc
        revert hmem
        simp only [entities, List.mem_cons, List.not_mem_nil, or_false, Prod.mk.injEq]
        rintro (⟨rfl, rfl⟩ | ⟨rfl, rfl⟩ | ⟨rfl, rfl⟩ | ⟨rfl, rfl⟩ | ⟨rfl, rfl⟩) <;> decide
      have hread : Feeds (reference seen []) name (reference seen name) [] :=
        feeds_each (reference seen)
          (fun d hd entity => hname seen entity d fun h => hsemi.1 (h ▸ hd)) []
      have hstop : Feeds (reference seen name) [';'] (mode (seen ++ [c])) [] :=
        (Feeds.nil _).cons (by rw [hend seen name, hsemi.2]; rfl)
      exact (hread.append hstop).cons (hamp seen)
  induction content generalizing seen with
  | nil =>
    rw [List.append_nil]
    exact .nil _
  | cons c rest ih =>
    have hrest := ih (seen ++ [c])
    rw [List.append_assoc] at hrest
    exact (hchar c seen).append hrest

theorem lookup_entities_eq_none {c : Char} (h : entities.lookup c = none) :
    c ≠ '<' ∧ c ≠ '&' ∧ c ≠ '"' := by
  refine ⟨?_, ?_, ?_⟩ <;> rintro rfl <;> exact absurd h (by decide)

theorem feeds_content (content seen : Text) :
    Feeds (.content seen) (escape content) (.content (seen ++ content)) [] := by
  refine feeds_escape .content .reference ?_ ?_ ?_ ?_ content seen
  · intro c hc seen
    obtain ⟨hlt, hamp, -⟩ := lookup_entities_eq_none hc
    rw [step, if_neg hlt, if_neg hamp]
  · intro seen
    rfl
  · intro seen entity c hc
    rw [step, if_neg hc]
  · intro seen entity
    rw [step, if_pos rfl]

theorem feeds_value (name : Text) (before : List Attribute) (blanks key content seen : Text) :
    Feeds (.value name before blanks key seen) (escape content)
      (.value name before blanks key (seen ++ content)) [] := by
  refine feeds_escape (.value name before blanks key)
    (.valueReference name before blanks key) ?_ ?_ ?_ ?_ content seen
  · intro c hc seen
    obtain ⟨hlt, hamp, hquote⟩ := lookup_entities_eq_none hc
    rw [step, if_neg hquote, if_neg hlt, if_neg hamp]
  · intro seen
    rfl
  · intro seen entity c hc
    rw [step, if_neg hc]
  · intro seen entity
    rw [step, if_pos rfl]

/-! ### Documents -/

/-- The characters that a document may hold. -/
def isDocumentChar (c : Char) : Bool :=
  c == '\t' || c == '\n' || c == '\r' ||
    decide (' ' ≤ c) && c != Char.ofNat 0xFFFE && c != Char.ofNat 0xFFFF

/-- Every line end as a line feed. -/
def unifyLines : Text → Text
  | '\r' :: '\n' :: rest => '\n' :: unifyLines rest
  | c :: rest => (if c = '\r' then '\n' else c) :: unifyLines rest
  | [] => []

/-- White space in the value of an attribute is read as spaces. -/
def Attribute.normalize (a : Attribute) : Attribute :=
  { a with value := a.value.map fun c => if isBlank c then ' ' else c }

def Token.normalize : Token → Token
  | .opening name attributes => .opening name (attributes.map Attribute.normalize)
  | t => t

/-- The tokens of a document, after its line ends and with its attributes normalised. White
space stands for itself in references only, and the five named ones are none. -/
def parse (text : Text) : Option (List Token) :=
  if text.all isDocumentChar then (scan (unifyLines text)).map (List.map Token.normalize)
  else none

/-- A character that is read as it stands, in character data. -/
def keptInText (c : Char) : Bool := isDocumentChar c && c != '\r'

/-- A character that is read as it stands, in the value of an attribute. -/
def keptInValue (c : Char) : Bool := keptInText c && c != '\n' && c != '\t'

theorem keptInText_of_value {c : Char} (h : keptInValue c = true) : keptInText c = true := by
  simp only [keptInValue, Bool.and_eq_true] at h
  exact h.1.1

theorem unifyLines_eq_self {text : Text} (h : '\r' ∉ text) : unifyLines text = text := by
  induction text using unifyLines.induct with
  | case1 rest ih => exact absurd List.mem_cons_self h
  | case2 c rest hc ih =>
    obtain ⟨hne, hrest⟩ := not_or.mp (mt List.mem_cons.mpr h)
    rw [unifyLines, if_neg (Ne.symm hne), ih hrest]
    exact hc
  | case3 => rfl

theorem mem_unifyLines {text : Text} {c : Char} (h : c ∈ unifyLines text) :
    c ≠ '\r' ∧ (c = '\n' ∨ c ∈ text) := by
  induction text using unifyLines.induct with
  | case1 rest ih =>
    rw [unifyLines] at h
    rcases List.mem_cons.mp h with rfl | h
    · exact ⟨by decide, .inl rfl⟩
    · obtain ⟨hne, hmem⟩ := ih h
      exact ⟨hne, hmem.imp_right fun hm => List.mem_cons_of_mem _ (List.mem_cons_of_mem _ hm)⟩
  | case2 d rest hd ih =>
    rw [unifyLines] at h
    · rcases List.mem_cons.mp h with rfl | h
      · split_ifs with hr
        · exact ⟨by decide, .inl rfl⟩
        · exact ⟨hr, .inr List.mem_cons_self⟩
      · obtain ⟨hne, hmem⟩ := ih h
        exact ⟨hne, hmem.imp_right (List.mem_cons_of_mem d)⟩
    · exact hd
  | case3 => cases h

/-! ### The characters of tokens -/

/-- The value of an attribute has characters of one kind, and its other texts have such of
another kind. -/
def Attribute.Over (data value : Char → Bool) (a : Attribute) : Prop :=
  (∀ c ∈ a.gap, data c = true) ∧ (∀ c ∈ a.name, data c = true) ∧ ∀ c ∈ a.value, value c = true

def Token.Over (data value : Char → Bool) : Token → Prop
  | .instruction body => ∀ c ∈ body, data c = true
  | .opening name attributes =>
    (∀ c ∈ name, data c = true) ∧ ∀ a ∈ attributes, a.Over data value
  | .closing name => ∀ c ∈ name, data c = true
  | .text content => ∀ c ∈ content, data c = true

/-- All texts of the tokens are of these kinds. -/
def AllOver (data value : Char → Bool) (tokens : List Token) : Prop :=
  ∀ t ∈ tokens, t.Over data value

section Over
variable {data value : Char → Bool}

theorem AllOver.append {first second : List Token} (hf : AllOver data value first)
    (hs : AllOver data value second) : AllOver data value (first ++ second) :=
  fun t ht => (List.mem_append.mp ht).elim (hf t) (hs t)

theorem AllOver.cons {t : Token} {rest : List Token} (ht : t.Over data value)
    (hrest : AllOver data value rest) : AllOver data value (t :: rest) :=
  List.forall_mem_cons.mpr ⟨ht, hrest⟩

theorem allOver_characters {content : Text} (h : ∀ c ∈ content, data c = true) :
    AllOver data value (characters content) := by
  unfold characters
  split_ifs
  · exact fun t ht => absurd ht List.not_mem_nil
  · exact List.forall_mem_singleton.mpr h

theorem AllOver.enclose {name : Text} {attributes : List Attribute} {inner : List Token}
    (h : AllOver data value inner) (hname : ∀ c ∈ name, data c = true)
    (hattributes : ∀ a ∈ attributes, a.Over data value) :
    AllOver data value (enclose name attributes inner) :=
  .cons ⟨hname, hattributes⟩ (h.append (List.forall_mem_singleton.mpr hname))

theorem allOver_block {gap last : Text} {elements : List (List Token)}
    (h : ∀ e ∈ elements, AllOver data value e) (hgap : ∀ c ∈ gap, data c = true)
    (hlast : ∀ c ∈ last, data c = true) : AllOver data value (block gap last elements) := by
  refine AllOver.append (fun t ht => ?_) (List.forall_mem_singleton.mpr hlast)
  obtain ⟨e, he, ht⟩ := List.mem_flatMap.mp ht
  rcases List.mem_cons.mp ht with rfl | ht
  · exact hgap
  · exact h e he t ht

/-- Markup is spelled with these characters. -/
def spelling : Text := "<>/?=\"&;ampltgquos".toList

theorem mem_escape {content : Text} {c : Char} (h : c ∈ escape content) :
    c ∈ content ∨ c ∈ spelling := by
  obtain ⟨d, hd, hc⟩ := List.mem_flatMap.mp h
  unfold escapeChar at hc
  split at hc
  · rename_i name hlookup
    obtain ⟨before, after, he, -⟩ := List.lookup_eq_some_iff.mp hlookup
    have hmem : (d, name) ∈ entities := by simp [he]
    have hnames : ∀ e ∈ entities, '&' :: e.2 ++ [';'] ⊆ spelling := by decide
    exact .inr (hnames _ hmem hc)
  · exact .inl (List.mem_singleton.mp hc ▸ hd)

/-- The rendering of tokens has their characters and those that spell the markup. -/
theorem render_over {tokens : List Token} (h : AllOver data value tokens)
    (hspelling : ∀ c ∈ spelling, data c = true) (hvalue : ∀ c, value c = true → data c = true) :
    ∀ c ∈ render tokens, data c = true := by
  have hescape : ∀ {content : Text}, (∀ c ∈ content, data c = true) →
      ∀ c ∈ escape content, data c = true := fun hcontent c hc =>
    (mem_escape hc).elim (hcontent c) (hspelling c)
  have hsign : ∀ {c : Char}, c ∈ spelling → data c = true := fun hc => hspelling _ hc
  intro c hc
  obtain ⟨t, ht, hc⟩ := List.mem_flatMap.mp hc
  have hover := h t ht
  cases t with
  | instruction body =>
    simp only [Token.render, List.mem_cons, List.mem_append, List.not_mem_nil, or_false] at hc
    rcases hc with rfl | rfl | hc | rfl | rfl
    · exact hsign (by decide)
    · exact hsign (by decide)
    · exact hover c hc
    · exact hsign (by decide)
    · exact hsign (by decide)
  | opening name attributes =>
    simp only [Token.render, List.mem_cons, List.mem_append, List.mem_flatMap, List.not_mem_nil,
      or_false] at hc
    rcases hc with rfl | (hc | ⟨a, ha, hc⟩) | rfl
    · exact hsign (by decide)
    · exact hover.1 c hc
    · obtain ⟨hgap, hname, hval⟩ := hover.2 a ha
      simp only [Attribute.render, List.mem_cons, List.mem_append, List.not_mem_nil,
        or_false] at hc
      rcases hc with (((hc | hc) | rfl | rfl) | hc) | rfl
      · exact hgap c hc
      · exact hname c hc
      · exact hsign (by decide)
      · exact hsign (by decide)
      · exact hescape (fun c hc => hvalue c (hval c hc)) c hc
      · exact hsign (by decide)
    · exact hsign (by decide)
  | closing name =>
    simp only [Token.render, List.mem_cons, List.mem_append, List.not_mem_nil, or_false] at hc
    rcases hc with rfl | rfl | hc | rfl
    · exact hsign (by decide)
    · exact hsign (by decide)
    · exact hover c hc
    · exact hsign (by decide)
  | text content => exact hescape hover c hc

/-! ### The characters that are scanned -/

/-- What a mode has seen is of a kind. -/
def Mode.Over (data : Char → Bool) : Mode → Prop
  | .content seen | .reference seen _ => ∀ c ∈ seen, data c = true
  | .markup => True
  | .instruction body | .instructionEnd body => ∀ c ∈ body, data c = true
  | .closing name | .opening name => ∀ c ∈ name, data c = true
  | .gap name before blanks => (∀ c ∈ name, data c = true) ∧
    (∀ a ∈ before, a.Over data data) ∧ ∀ c ∈ blanks, data c = true
  | .key name before blanks label | .equals name before blanks label => (∀ c ∈ name, data c = true) ∧
    (∀ a ∈ before, a.Over data data) ∧ (∀ c ∈ blanks, data c = true) ∧ ∀ c ∈ label, data c = true
  | .value name before blanks label seen | .valueReference name before blanks label seen _ =>
    (∀ c ∈ name, data c = true) ∧ (∀ a ∈ before, a.Over data data) ∧
      (∀ c ∈ blanks, data c = true) ∧ (∀ c ∈ label, data c = true) ∧ ∀ c ∈ seen, data c = true
  | .quoted name before => (∀ c ∈ name, data c = true) ∧ ∀ a ∈ before, a.Over data data

theorem forall_mem_snoc {text : Text} {c : Char} (h : ∀ d ∈ text, data d = true)
    (hc : data c = true) : ∀ d ∈ text ++ [c], data d = true :=
  List.forall_mem_append.mpr ⟨h, List.forall_mem_singleton.mpr hc⟩

theorem entityChar_over (hentities : ∀ e ∈ entities, data e.1 = true) {entity : Text} {d : Char}
    (h : entityChar entity = some d) : data d = true := by
  obtain ⟨e, he, rfl⟩ := Option.map_eq_some_iff.mp h
  exact hentities e (List.mem_of_find?_eq_some he)

/-- The scanner takes in characters of the text and those that references stand for. -/
theorem step_over (hentities : ∀ e ∈ entities, data e.1 = true) {mode next : Mode} {c : Char}
    {tokens : List Token} (hmode : mode.Over data) (hc : data c = true)
    (h : step mode c = some (next, tokens)) : next.Over data ∧ AllOver data data tokens := by
  have hnone : AllOver data data [] := fun t ht => absurd ht List.not_mem_nil
  have hempty : ∀ d ∈ ([] : Text), data d = true := fun d hd => absurd hd List.not_mem_nil
  have hone : ∀ d ∈ [c], data d = true := List.forall_mem_singleton.mpr hc
  have hsingle : ∀ {t : Token}, t.Over data data → AllOver data data [t] := fun ht =>
    List.forall_mem_singleton.mpr ht
  cases mode with
  | content seen =>
    simp only [step] at h
    split_ifs at h
    · cases h
      exact ⟨trivial, allOver_characters hmode⟩
    · cases h
      exact ⟨hmode, hnone⟩
    · cases h
      exact ⟨forall_mem_snoc hmode hc, hnone⟩
  | reference seen entity =>
    simp only [step] at h
    split_ifs at h
    · obtain ⟨d, hd, heq⟩ := Option.map_eq_some_iff.mp h
      cases heq
      exact ⟨forall_mem_snoc hmode (entityChar_over hentities hd), hnone⟩
    · cases h
      exact ⟨hmode, hnone⟩
  | markup =>
    simp only [step] at h
    split_ifs at h
    · cases h
      exact ⟨hempty, hnone⟩
    · cases h
      exact ⟨hempty, hnone⟩
    · cases h
      exact ⟨hone, hnone⟩
  | instruction body =>
    simp only [step] at h
    split_ifs at h
    · cases h
      exact ⟨hmode, hnone⟩
    · cases h
      exact ⟨forall_mem_snoc hmode hc, hnone⟩
  | instructionEnd body =>
    simp only [step] at h
    split_ifs at h
    cases h
    exact ⟨hempty, hsingle hmode⟩
  | closing name =>
    simp only [step] at h
    split_ifs at h
    · cases h
      exact ⟨hempty, hsingle hmode⟩
    · cases h
      exact ⟨forall_mem_snoc hmode hc, hnone⟩
  | opening name =>
    simp only [step] at h
    split_ifs at h
    · cases h
      exact ⟨hempty, hsingle ⟨hmode, fun a ha => absurd ha List.not_mem_nil⟩⟩
    · cases h
      exact ⟨⟨hmode, fun a ha => absurd ha List.not_mem_nil, hone⟩, hnone⟩
    · cases h
      exact ⟨forall_mem_snoc hmode hc, hnone⟩
  | gap name before blanks =>
    obtain ⟨hname, hbefore, hblanks⟩ := hmode
    simp only [step] at h
    split_ifs at h
    · cases h
      exact ⟨⟨hname, hbefore, forall_mem_snoc hblanks hc⟩, hnone⟩
    · cases h
      exact ⟨⟨hname, hbefore, hblanks, hone⟩, hnone⟩
  | key name before blanks label =>
    obtain ⟨hname, hbefore, hblanks, hlabel⟩ := hmode
    simp only [step] at h
    split_ifs at h
    · cases h
      exact ⟨⟨hname, hbefore, hblanks, hlabel⟩, hnone⟩
    · cases h
      exact ⟨⟨hname, hbefore, hblanks, forall_mem_snoc hlabel hc⟩, hnone⟩
  | equals name before blanks label =>
    obtain ⟨hname, hbefore, hblanks, hlabel⟩ := hmode
    simp only [step] at h
    split_ifs at h
    cases h
    exact ⟨⟨hname, hbefore, hblanks, hlabel, hempty⟩, hnone⟩
  | value name before blanks label seen =>
    obtain ⟨hname, hbefore, hblanks, hlabel, hseen⟩ := hmode
    simp only [step] at h
    split_ifs at h
    · cases h
      exact ⟨⟨hname, List.forall_mem_append.mpr ⟨hbefore,
        List.forall_mem_singleton.mpr ⟨hblanks, hlabel, hseen⟩⟩⟩, hnone⟩
    · cases h
      exact ⟨⟨hname, hbefore, hblanks, hlabel, hseen⟩, hnone⟩
    · cases h
      exact ⟨⟨hname, hbefore, hblanks, hlabel, forall_mem_snoc hseen hc⟩, hnone⟩
  | valueReference name before blanks label seen entity =>
    obtain ⟨hname, hbefore, hblanks, hlabel, hseen⟩ := hmode
    simp only [step] at h
    split_ifs at h
    · obtain ⟨d, hd, heq⟩ := Option.map_eq_some_iff.mp h
      cases heq
      exact ⟨⟨hname, hbefore, hblanks, hlabel, forall_mem_snoc hseen (entityChar_over hentities hd)⟩,
        hnone⟩
    · cases h
      exact ⟨⟨hname, hbefore, hblanks, hlabel, hseen⟩, hnone⟩
  | quoted name before =>
    simp only [step] at h
    split_ifs at h
    · cases h
      exact ⟨hempty, hsingle hmode⟩
    · cases h
      exact ⟨⟨hmode.1, hmode.2, hone⟩, hnone⟩

theorem feed_over (hentities : ∀ e ∈ entities, data e.1 = true) {mode last : Mode} {text : Text}
    {tokens : List Token} (hmode : mode.Over data) (htext : ∀ c ∈ text, data c = true)
    (h : feed mode text = some (last, tokens)) : last.Over data ∧ AllOver data data tokens := by
  induction text generalizing mode tokens with
  | nil =>
    cases h
    exact ⟨hmode, fun t ht => absurd ht List.not_mem_nil⟩
  | cons c rest ih =>
    obtain ⟨hc, hrest⟩ := List.forall_mem_cons.mp htext
    obtain ⟨⟨next, first⟩, hstep, hfeed⟩ := Option.bind_eq_some_iff.mp h
    obtain ⟨⟨last', more⟩, hmore, heq⟩ := Option.map_eq_some_iff.mp hfeed
    cases heq
    obtain ⟨hnext, hfirst⟩ := step_over hentities hmode hc hstep
    obtain ⟨hlast, htokens⟩ := ih hnext hrest hmore
    exact ⟨hlast, hfirst.append htokens⟩

/-- The tokens of a text have no other characters than the text and the references. -/
theorem scan_over (hentities : ∀ e ∈ entities, data e.1 = true) {text : Text} {tokens : List Token}
    (htext : ∀ c ∈ text, data c = true) (h : scan text = some tokens) :
    AllOver data data tokens := by
  unfold scan at h
  split at h
  · rename_i seen before hfeed
    cases h
    have hnone : (Mode.content []).Over data := fun c hc => absurd hc List.not_mem_nil
    obtain ⟨hseen, hbefore⟩ := feed_over hentities hnone htext hfeed
    exact hbefore.append (allOver_characters hseen)
  · cases h

/-! ### Documents that are read as they stand -/

theorem normalize_eq_self {a : Attribute} (h : ∀ c ∈ a.value, keptInValue c = true) :
    a.normalize = a := by
  have hvalue : a.value.map (fun c => if isBlank c then ' ' else c) = a.value := by
    refine (List.map_congr_left fun c hc => ?_).trans (List.map_id _)
    have hkept := h c hc
    simp only [keptInValue, keptInText, Bool.and_eq_true, bne_iff_ne, ne_eq] at hkept
    split_ifs with hblank
    · simp only [isBlank, decide_eq_true_eq] at hblank
      rcases hblank with rfl | rfl | rfl | rfl
      · rfl
      · exact absurd rfl hkept.1.2
      · exact absurd rfl hkept.2
      · exact absurd rfl hkept.1.1.2
    · rfl
  rw [Attribute.normalize, hvalue]

theorem normalize_tokens {tokens : List Token} (h : AllOver keptInText keptInValue tokens) :
    tokens.map Token.normalize = tokens := by
  refine (List.map_congr_left fun t ht => ?_).trans (List.map_id _)
  cases t with
  | opening name attributes =>
    have hattributes : attributes.map Attribute.normalize = attributes :=
      (List.map_congr_left fun a ha => normalize_eq_self ((h _ ht).2 a ha).2.2).trans (List.map_id _)
    exact congrArg (Token.opening name) hattributes
  | _ => rfl

/-- A value that was normalised has spaces for white space. -/
theorem normalized_over {tokens : List Token} (h : AllOver keptInText keptInText tokens) :
    AllOver keptInText keptInValue (tokens.map Token.normalize) := by
  intro t ht
  obtain ⟨t, hmem, rfl⟩ := List.mem_map.mp ht
  have hover := h t hmem
  cases t with
  | opening name attributes =>
    refine ⟨hover.1, fun a ha => ?_⟩
    obtain ⟨a, hmem, rfl⟩ := List.mem_map.mp ha
    obtain ⟨hgap, hname, hvalue⟩ := hover.2 a hmem
    refine ⟨hgap, hname, fun c hc => ?_⟩
    obtain ⟨d, hd, rfl⟩ := List.mem_map.mp hc
    split_ifs with hblank
    · decide
    · simp only [isBlank, decide_eq_true_eq, not_or] at hblank
      simp [keptInValue, hvalue d hd, hblank]
  | _ => exact hover

/-- Parsing gives the tokens that were rendered if all of their characters are read as they
stand. -/
theorem parse_render {tokens : List Token} (hscan : scan (render tokens) = some tokens)
    (h : AllOver keptInText keptInValue tokens) : parse (render tokens) = some tokens := by
  have hspelling : ∀ c ∈ spelling, keptInText c = true := List.all_eq_true.mp rfl
  have hkept := render_over h hspelling fun c => keptInText_of_value
  have hdocument : (render tokens).all isDocumentChar = true := by
    rw [List.all_eq_true]
    intro c hc
    have := hkept c hc
    simp only [keptInText, Bool.and_eq_true] at this
    exact this.1
  have hlines : '\r' ∉ render tokens := fun hr => absurd (hkept _ hr) (by decide)
  rw [parse, if_pos hdocument, unifyLines_eq_self hlines, hscan, Option.map_some,
    normalize_tokens h]

/-- What is parsed has characters that are read as they stand. -/
theorem parse_over {text : Text} {tokens : List Token} (h : parse text = some tokens) :
    AllOver keptInText keptInValue tokens := by
  unfold parse at h
  split_ifs at h with hdocument
  rw [List.all_eq_true] at hdocument
  obtain ⟨scanned, hscan, rfl⟩ := Option.map_eq_some_iff.mp h
  refine normalized_over (scan_over (by decide) (fun c hc => ?_) hscan)
  obtain ⟨hne, rfl | hmem⟩ := mem_unifyLines hc
  · decide
  · simp [keptInText, hdocument c hmem, hne]

end Over

/-! ### Proper tokens -/

def IsName (text : Text) : Prop := text ≠ [] ∧ text.all isNameChar = true

instance (text : Text) : Decidable (IsName text) := inferInstanceAs (Decidable (_ ∧ _))

def Attribute.Proper (a : Attribute) : Prop :=
  a.gap ≠ [] ∧ a.gap.all isBlank = true ∧ IsName a.name

instance (a : Attribute) : Decidable a.Proper := inferInstanceAs (Decidable (_ ∧ _))

def Token.Proper : Token → Prop
  | .instruction body => '?' ∉ body
  | .opening name attributes => IsName name ∧ ∀ a ∈ attributes, a.Proper
  | .closing name => name.all isNameChar = true
  | .text content => content ≠ []

theorem isNameChar_ne {c : Char} (h : isNameChar c = true) :
    c ≠ '>' ∧ c ≠ '/' ∧ c ≠ '?' ∧ c ≠ '=' ∧ isBlank c = false := by
  refine ⟨?_, ?_, ?_, ?_, ?_⟩
  · rintro rfl; exact absurd h (by decide)
  · rintro rfl; exact absurd h (by decide)
  · rintro rfl; exact absurd h (by decide)
  · rintro rfl; exact absurd h (by decide)
  · cases hb : isBlank c with
    | false => rfl
    | true => simp [isNameChar, hb] at h

theorem not_isNameChar_of_isBlank {c : Char} (h : isBlank c = true) : c ≠ '>' := by
  rintro rfl
  exact absurd h (by decide)

/-- A mode behind the name of a start tag or the quote of an attribute. -/
theorem feeds_attribute {mode : Mode} {name : Text} {before : List Attribute}
    (hmode : ∀ c, isBlank c = true → step mode c = some (.gap name before [c], []))
    {a : Attribute} (h : a.Proper) :
    Feeds mode a.render (.quoted name (before ++ [a])) [] := by
  obtain ⟨gap, key, value⟩ := a
  obtain ⟨hgap, hblank, hkey, hchars⟩ := h
  obtain ⟨b, blanks, rfl⟩ := List.exists_cons_of_ne_nil hgap
  obtain ⟨k, keys, rfl⟩ := List.exists_cons_of_ne_nil hkey
  simp only [List.all_cons, Bool.and_eq_true, List.all_eq_true] at hblank hchars
  have hblanks : Feeds (.gap name before [b]) blanks (.gap name before (b :: blanks)) [] :=
    feeds_each (.gap name before)
      (fun c hc seen => by rw [step, if_pos (hblank.2 c hc)]) [b]
  have hfirst : step (.gap name before (b :: blanks)) k =
      some (.key name before (b :: blanks) [k], []) := by
    rw [step, if_neg (by simp [(isNameChar_ne hchars.1).2.2.2.2]), if_pos hchars.1]
  have hkeys : Feeds (.key name before (b :: blanks) [k]) keys
      (.key name before (b :: blanks) (k :: keys)) [] :=
    feeds_each (.key name before (b :: blanks))
      (fun c hc seen => by
        rw [step, if_neg (isNameChar_ne (hchars.2 c hc)).2.2.2.1, if_pos (hchars.2 c hc)]) [k]
  have hvalue : Feeds (.key name before (b :: blanks) (k :: keys))
      ('=' :: '"' :: (escape value ++ ['"']))
      (.quoted name (before ++ [⟨b :: blanks, k :: keys, value⟩])) [] := by
    have hquote : Feeds (.value name before (b :: blanks) (k :: keys) value) ['"']
        (.quoted name (before ++ [⟨b :: blanks, k :: keys, value⟩])) [] := rfl
    have hopen : step (.equals name before (b :: blanks) (k :: keys)) '"' =
      some (.value name before (b :: blanks) (k :: keys) [], []) := rfl
    have hequals : step (.key name before (b :: blanks) (k :: keys)) '=' =
      some (.equals name before (b :: blanks) (k :: keys), []) := rfl
    have hread := (feeds_value name before (b :: blanks) (k :: keys) value []).append hquote
    exact (hread.cons hopen).cons hequals
  have hall := ((hblanks.append ((hkeys.append hvalue).cons hfirst)).cons (hmode b hblank.1))
  simpa [Attribute.render] using hall

theorem feeds_attributes {attributes : List Attribute} (h : ∀ a ∈ attributes, a.Proper)
    (name : Text) (before : List Attribute) :
    Feeds (.quoted name before) (attributes.flatMap Attribute.render)
      (.quoted name (before ++ attributes)) [] := by
  induction attributes generalizing before with
  | nil =>
    rw [List.append_nil]
    exact .nil _
  | cons a rest ih =>
    have hstart (c : Char) (hc : isBlank c = true) :
        step (.quoted name before) c = some (.gap name before [c], []) := by
      rw [step, if_neg (not_isNameChar_of_isBlank hc), if_pos hc]
    have hrest := ih (fun b hb => h b (List.mem_cons_of_mem a hb)) (before ++ [a])
    rw [List.append_assoc] at hrest
    exact (feeds_attribute hstart (h a List.mem_cons_self)).append hrest

theorem feeds_opening {name : Text} {attributes : List Attribute} (hname : IsName name)
    (h : ∀ a ∈ attributes, a.Proper) :
    Feeds .markup (name ++ attributes.flatMap Attribute.render ++ ['>']) (.content [])
      [.opening name attributes] := by
  obtain ⟨c, rest, rfl⟩ := List.exists_cons_of_ne_nil hname.1
  have hchars := hname.2
  simp only [List.all_cons, Bool.and_eq_true, List.all_eq_true] at hchars
  have hfirst : step .markup c = some (.opening [c], []) := by
    obtain ⟨-, hslash, hask, -⟩ := isNameChar_ne hchars.1
    rw [step, if_neg hslash, if_neg hask, if_pos hchars.1]
  have hrest : Feeds (.opening [c]) rest (.opening (c :: rest)) [] :=
    feeds_each .opening
      (fun d hd seen => by
        obtain ⟨hgt, -, -, -, hblank⟩ := isNameChar_ne (hchars.2 d hd)
        rw [step, if_neg hgt, if_neg (by simp [hblank]), if_pos (hchars.2 d hd)]) [c]
  have htail : Feeds (.opening (c :: rest)) (attributes.flatMap Attribute.render ++ ['>'])
      (.content []) [.opening (c :: rest) attributes] := by
    cases attributes with
    | nil => rfl
    | cons a more =>
      have hstart (d : Char) (hd : isBlank d = true) :
          step (.opening (c :: rest)) d = some (.gap (c :: rest) [] [d], []) := by
        rw [step, if_neg (not_isNameChar_of_isBlank hd), if_pos hd]
      have ha := feeds_attribute hstart (h a List.mem_cons_self)
      have hmore := feeds_attributes (fun b hb => h b (List.mem_cons_of_mem a hb)) (c :: rest) [a]
      have hend : Feeds (.quoted (c :: rest) ([a] ++ more)) ['>'] (.content [])
          [.opening (c :: rest) (a :: more)] := rfl
      rw [List.flatMap_cons, List.append_assoc]
      exact ha.append (hmore.append hend)
  rw [List.append_assoc]
  exact (hrest.append htail).cons hfirst

/-- A token other than character data ends what was seen before it. -/
theorem feeds_token {t : Token} (h : t.Proper) (htext : ∀ content, t ≠ .text content)
    (seen : Text) :
    Feeds (.content seen) t.render (.content []) (characters seen ++ [t]) := by
  have hlt : step (.content seen) '<' = some (.markup, characters seen) := rfl
  cases t with
  | text content => exact absurd rfl (htext content)
  | instruction body =>
    have hbody : Feeds (.instruction []) body (.instruction body) [] :=
      feeds_each .instruction
        (fun c hc seen => by
          have hask : c ≠ '?' := fun he => h (he ▸ hc)
          rw [step, if_neg hask]) []
    have hend : Feeds (.instruction body) ['?', '>'] (.content []) [.instruction body] := rfl
    have hask : step .markup '?' = some (.instruction [], []) := rfl
    exact ((hbody.append hend).cons hask).cons hlt
  | closing name =>
    have hchars := List.all_eq_true.mp h
    have hname : Feeds (.closing []) name (.closing name) [] :=
      feeds_each .closing
        (fun c hc seen => by
          rw [step, if_neg (isNameChar_ne (hchars c hc)).1, if_pos (hchars c hc)]) []
    have hend : Feeds (.closing name) ['>'] (.content []) [.closing name] := rfl
    have hslash : step .markup '/' = some (.closing [], []) := rfl
    exact ((hname.append hend).cons hslash).cons hlt
  | opening name attributes => exact (feeds_opening h.1 h.2).cons hlt

/-- Proper tokens in which no piece of character data follows another one; the flag says
that the token before is one. -/
def Separated : Bool → List Token → Prop
  | _, [] => True
  | after, .text content :: rest => after = false ∧ content ≠ [] ∧ Separated true rest
  | _, t :: rest => t.Proper ∧ Separated false rest

/-- Tokens that may stand anywhere: they begin and end with a tag. -/
def IsElement (tokens : List Token) : Prop :=
  ∀ after rest, Separated false rest → Separated after (tokens ++ rest)

/-- Tokens that may stand between two tags. -/
def IsInner (tokens : List Token) : Prop :=
  ∀ rest, (∀ after, Separated after rest) → Separated false (tokens ++ rest)

theorem isInner_characters (content : Text) : IsInner (characters content) := by
  intro rest h
  unfold characters
  split_ifs with hne
  · exact h false
  · exact ⟨rfl, hne, h true⟩

theorem isInner_block {gap last : Text} (hgap : gap ≠ []) (hlast : last ≠ [])
    {elements : List (List Token)} (h : ∀ e ∈ elements, IsElement e) :
    IsInner (block gap last elements) := by
  intro rest hrest
  induction elements with
  | nil => exact ⟨rfl, hlast, hrest true⟩
  | cons e more ih =>
    have hmore := ih fun e he => h e (List.mem_cons_of_mem _ he)
    have hall := h e List.mem_cons_self true _ hmore
    rw [block, List.flatMap_cons, List.append_assoc, List.append_assoc]
    rw [block, List.append_assoc] at hall
    exact ⟨rfl, hgap, hall⟩

theorem isElement_enclose {name : Text} {attributes : List Attribute} {inner : List Token}
    (hname : IsName name) (hattributes : ∀ a ∈ attributes, a.Proper) (h : IsInner inner) :
    IsElement (enclose name attributes inner) := by
  intro after rest hrest
  have hclosing (after : Bool) : Separated after (.closing name :: rest) := ⟨hname.2, hrest⟩
  rw [enclose, List.cons_append, List.append_assoc]
  exact ⟨⟨hname, hattributes⟩, h _ hclosing⟩

/-- Scanning what was rendered gives the tokens back, after the data seen before them. -/
theorem Separated.feeds {tokens : List Token} {after : Bool} (h : Separated after tokens)
    (seen : Text) (hseen : after = false → seen = []) :
    ∃ last out, Feeds (.content seen) (render tokens) (.content last) out ∧
      out ++ characters last = characters seen ++ tokens := by
  induction tokens generalizing after seen with
  | nil => exact ⟨seen, [], .nil _, by simp⟩
  | cons t rest ih =>
    by_cases htext : ∃ content, t = .text content
    · obtain ⟨content, rfl⟩ := htext
      obtain ⟨rfl, hne, hrest⟩ := h
      obtain rfl := hseen rfl
      obtain ⟨last, out, hout, heq⟩ := ih hrest content (by simp)
      refine ⟨last, out, (feeds_content content []).append hout, ?_⟩
      rw [heq, characters, if_neg hne]
      rfl
    · have hne (content : Text) : t ≠ .text content := fun he => htext ⟨content, he⟩
      have hboth : t.Proper ∧ Separated false rest := by
        cases t with
        | text content => exact absurd rfl (hne content)
        | _ => exact h
      obtain ⟨last, out, hout, heq⟩ := ih hboth.2 [] fun _ => rfl
      refine ⟨last, _, (feeds_token hboth.1 hne seen).append hout, ?_⟩
      rw [List.append_assoc, heq, List.append_assoc]
      rfl

theorem scan_render {tokens : List Token} (h : Separated false tokens) :
    scan (render tokens) = some tokens := by
  obtain ⟨last, out, hout, heq⟩ := h.feeds [] fun _ => rfl
  rw [scan, hout]
  exact congrArg some heq

end Markup
