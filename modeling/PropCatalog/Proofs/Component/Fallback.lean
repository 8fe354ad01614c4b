import PropCatalog.Component.Defaults
import PropCatalog.Proofs.Interface.Declarations

/-!
# The block that stands in for a component

A component without a destructured parameter has no defaults of its own, and a block of the same text
stands in for its own: that of the first default export, or else that of the first destructuring
definition of any name. The definitions are described here without their readers (`Defines`,
`DefaultExport`). What is then found does not depend on the component, and nothing is found exactly if
the block that stands in has no default (`defaults_eq_nil_iff`).
-/

namespace PropCatalog.Component

open Interface (afterWord?_eq_some_iff)

variable {before : Option Char} {component content name rest s t u word : Text} {P : Text → Prop}

/-! ## Definitions -/

/-- Blanks, if any, and what is asked for. -/
def Spaced (P : Text → Prop) (s : Text) : Prop :=
  ∃ blanks t, blanks.all Text.isBlank = true ∧ s = blanks ++ t ∧ P t

/-- A word, blanks, and what is asked for. -/
def Behind (word : Text) (P : Text → Prop) (s : Text) : Prop :=
  ∃ blanks t, blanks ≠ [] ∧ blanks.all Text.isBlank = true ∧ s = word ++ (blanks ++ t) ∧ P t

/-- A name, and what is asked for. -/
def Named (isName P : Text → Prop) (s : Text) : Prop :=
  ∃ name t, isName name ∧ s = name ++ t ∧ P t

/-- A destructured first parameter opens, and `rest` is what stands behind its brace. -/
def OpensBlock (rest s : Text) : Prop :=
  ∃ t, s = '(' :: t ∧ Spaced (· = '{' :: rest) t

/-- What stands behind the name of a function. -/
def FunctionTail (rest : Text) : Text → Prop :=
  Spaced (OpensBlock rest)

/-- The type of a constant, in one line, or nothing. -/
def IsAnnotation (note : Text) : Prop :=
  note = [] ∨ ∃ type, type ≠ [] ∧ (∀ c ∈ type, c ≠ '=' ∧ c ≠ '\n') ∧ note = ':' :: type

/-- What stands behind the name of a constant that is an arrow. -/
def ArrowTail (rest : Text) : Text → Prop :=
  Spaced fun s => ∃ note t, IsAnnotation note ∧ s = note ++ '=' :: t ∧
    Spaced (fun u => OpensBlock rest u ∨ ∃ v, u = "async".toList ++ v ∧ FunctionTail rest v) t

/-- A destructuring definition, by `function` or `const`. -/
def Defines (isName : Text → Prop) (before : Option Char) (s rest : Text) : Prop :=
  Text.isBoundary before s = true ∧
    (Behind "function".toList (Named isName (FunctionTail rest)) s ∨
      Behind "const".toList (Named isName (ArrowTail rest)) s)

/-- A default-exported function, named or not, with a destructured parameter. -/
def DefaultExport (before : Option Char) (s rest : Text) : Prop :=
  Text.isBoundary before s = true ∧ Behind "export".toList (Behind "default".toList fun t =>
    ∃ u, t = "function".toList ++ u ∧
      Spaced (fun v => OpensBlock rest v ∨ Named (Text.isIdent · = true) (FunctionTail rest) v) u) s

/-! ## Readers -/

theorem spaced_iff (hP : ∀ c s, Text.isBlank c = true → ¬ P (c :: s)) :
    Spaced P s ↔ P (Text.trimStart s) := by
  constructor
  · rintro ⟨blanks, t, hblanks, rfl, ht⟩
    have hhead : t.head?.any Text.isBlank = false := by
      rw [Option.any_eq_false]
      intro c hc
      obtain ⟨t, rfl⟩ := List.head?_eq_some_iff.1 hc
      exact Bool.eq_false_iff.2 fun hblank => hP c t hblank ht
    rwa [Text.trimStart_append hblanks hhead]
  · intro h
    obtain ⟨blanks, hblanks, hs⟩ := Text.exists_blanks_append_trimStart s
    exact ⟨blanks, _, hblanks, hs, h⟩

theorem not_isBlank_of_opensBlock {c : Char} (hc : Text.isBlank c = true) :
    ¬ OpensBlock rest (c :: s) := by
  rintro ⟨t, hs, -⟩
  obtain ⟨rfl, -⟩ := List.cons.inj hs
  cases hc

theorem openBlock?_eq_some_iff : openBlock? s = some rest ↔ OpensBlock rest s := by
  have hread : openBlock? s = (Text.after? ['('] s).bind fun t => Text.after? ['{'] (Text.trimStart t) :=
    rfl
  have hbrace : ∀ t, Spaced (· = '{' :: rest) t ↔ Text.trimStart t = '{' :: rest := fun t =>
    spaced_iff fun c s hc heq => by
      obtain ⟨rfl, -⟩ := List.cons.inj heq
      cases hc
  simp only [hread, Option.bind_eq_some_iff, Text.after?_eq_some_iff, OpensBlock, hbrace]
  rfl

theorem functionBlock?_eq_some_iff : functionBlock? s = some rest ↔ FunctionTail rest s := by
  rw [functionBlock?, openBlock?_eq_some_iff, FunctionTail,
    spaced_iff fun c s hc => not_isBlank_of_opensBlock hc]

theorem annotation?_eq_some_iff : (annotation? s).bind (Text.after? ['=']) = some t ↔
    ∃ note, IsAnnotation note ∧ s = note ++ '=' :: t := by
  simp only [Option.bind_eq_some_iff, Text.after?_eq_some_iff]
  constructor
  · rintro ⟨u, hu, rfl⟩
    unfold annotation? at hu
    split at hu
    next type =>
      split at hu
      · cases hu
      next htype =>
        refine ⟨_, Or.inr ⟨_, fun hnil => htype (List.isEmpty_iff.2 hnil), fun c hc => ?_, rfl⟩, ?_⟩
        · have hin := List.mem_takeWhile_imp hc
          simpa using hin
        · have hrest : '=' :: t = type.dropWhile _ := (Option.some.inj hu).symm
          rw [hrest, List.cons_append, List.takeWhile_append_dropWhile]
    next =>
      exact ⟨[], Or.inl rfl, Option.some.inj hu⟩
  · rintro ⟨note, rfl | ⟨type, hne, htype, rfl⟩, rfl⟩
    · exact ⟨_, rfl, rfl⟩
    · have hin : ∀ c ∈ type, (fun c => c != '=' && c != '\n') c = true := fun c hc => by
        simpa using htype c hc
      obtain ⟨htake, hdrop⟩ := Text.span_append hin (s := '=' :: t) rfl
      refine ⟨'=' :: t, ?_, rfl⟩
      rw [List.cons_append, annotation?, htake, hdrop, if_neg fun h => hne (List.isEmpty_iff.1 h)]

theorem arrow?_eq_some_iff :
    (match Text.after? "async".toList s with
      | some t => openBlock? (Text.trimStart t)
      | none => openBlock? s) = some rest ↔
      OpensBlock rest s ∨ ∃ t, s = "async".toList ++ t ∧ FunctionTail rest t := by
  cases hasync : Text.after? "async".toList s with
  | some t =>
    obtain rfl := Text.after?_eq_some_iff.1 hasync
    change functionBlock? t = some rest ↔ _
    rw [functionBlock?_eq_some_iff]
    constructor
    · exact fun h => Or.inr ⟨t, rfl, h⟩
    · rintro (⟨u, hu, -⟩ | ⟨u, hu, h⟩)
      · cases (List.cons.inj hu).1
      · rwa [List.append_cancel_left hu]
  | none =>
    rw [openBlock?_eq_some_iff]
    refine (or_iff_left ?_).symm
    rintro ⟨t, ht, -⟩
    rw [Text.after?_eq_some_iff.2 ht] at hasync
    cases hasync

theorem arrowBlock?_eq_some_iff : arrowBlock? s = some rest ↔ ArrowTail rest s := by
  have hread : arrowBlock? s = ((annotation? (Text.trimStart s)).bind (Text.after? ['='])).bind
      fun t => match Text.after? "async".toList (Text.trimStart t) with
        | some t => openBlock? (Text.trimStart t)
        | none => openBlock? (Text.trimStart t) := by
    rw [Option.bind_assoc]
    rfl
  have hbehind : ∀ t, Spaced (fun u => OpensBlock rest u ∨
      ∃ v, u = "async".toList ++ v ∧ FunctionTail rest v) t ↔ _ := fun t =>
    (spaced_iff fun c s hc h => by
      rcases h with h | ⟨v, hv, -⟩
      · exact not_isBlank_of_opensBlock hc h
      · obtain rfl := (List.cons.inj hv).1
        cases hc).trans arrow?_eq_some_iff.symm
  rw [hread, ArrowTail, spaced_iff]
  · simp only [Option.bind_eq_some_iff (x := (annotation? _).bind _), annotation?_eq_some_iff, hbehind]
    constructor
    · rintro ⟨t, ⟨note, hnote, hs⟩, ht⟩
      exact ⟨note, t, hnote, hs, ht⟩
    · rintro ⟨note, t, hnote, hs, ht⟩
      exact ⟨t, ⟨note, hnote, hs⟩, ht⟩
  · rintro c s hc ⟨note, t, rfl | ⟨type, -, -, rfl⟩, hs, -⟩
    · obtain rfl := (List.cons.inj hs).1
      cases hc
    · obtain rfl := (List.cons.inj hs).1
      cases hc

/-! ## Names -/

theorem head?_of_functionTail (h : FunctionTail rest s) :
    s.head?.any Text.isIdentRest = false := by
  obtain ⟨blanks, t, hblanks, rfl, u, rfl, -⟩ := h
  cases blanks with
  | nil => rfl
  | cons c blanks => exact Text.isIdentRest_of_isBlank (List.all_eq_true.1 hblanks c (by simp))

theorem head?_of_arrowTail (h : ArrowTail rest s) : s.head?.any Text.isIdentRest = false := by
  obtain ⟨blanks, t, hblanks, rfl, note, u, hnote, rfl, -⟩ := h
  cases blanks with
  | nil => rcases hnote with rfl | ⟨type, -, -, rfl⟩ <;> rfl
  | cons c blanks => exact Text.isIdentRest_of_isBlank (List.all_eq_true.1 hblanks c (by simp))

variable {k : Text → Option Text}

theorem named_ident_iff (hk : ∀ t, k t = some rest ↔ P t)
    (hP : ∀ t, P t → t.head?.any Text.isIdentRest = false) :
    ((Text.ident? s).map Prod.snd).bind k = some rest ↔
      Named (Text.isIdent · = true) P s := by
  simp only [Option.bind_eq_some_iff, Option.map_eq_some_iff, hk, Prod.exists]
  constructor
  · rintro ⟨t, ⟨name, _, hident, rfl⟩, ht⟩
    obtain ⟨rfl, hname⟩ := Text.ident?_eq_some hident
    exact ⟨name, _, hname, rfl, ht⟩
  · rintro ⟨name, t, hname, rfl, ht⟩
    exact ⟨t, ⟨name, t, Text.ident?_append hname (hP t ht), rfl⟩, ht⟩

theorem named_eq_iff (hk : ∀ t, k t = some rest ↔ P t) :
    (Text.after? component s).bind k = some rest ↔ Named (· = component) P s := by
  simp only [Option.bind_eq_some_iff, Text.after?_eq_some_iff, hk]
  constructor
  · rintro ⟨t, hs, ht⟩
    exact ⟨component, t, rfl, hs, ht⟩
  · rintro ⟨_, t, rfl, hs, ht⟩
    exact ⟨t, hs, ht⟩

/-! ## Places -/

theorem exists_afterBlanks? {blanks : Text} (hne : blanks ≠ [])
    (hblanks : blanks.all Text.isBlank = true) (ht : k t = some rest) :
    ∃ found, Text.afterBlanks? k (blanks ++ t) = some found := by
  induction blanks with
  | nil => exact absurd rfl hne
  | cons c blanks ih =>
    obtain ⟨hc, hblanks⟩ := Bool.and_eq_true_iff.1 hblanks
    rw [List.cons_append, Text.afterBlanks?, if_pos hc]
    cases hrest : Text.afterBlanks? k (blanks ++ t) with
    | some found => exact ⟨found, rfl⟩
    | none =>
      rcases eq_or_ne blanks [] with rfl | hne
      · exact ⟨rest, ht⟩
      · obtain ⟨found, hfound⟩ := ih hne hblanks
        rw [hrest] at hfound
        cases hfound

theorem definition?_eq_some_iff {name? : Text → Option Text} :
    definition? name? before s = some rest ↔ Text.isBoundary before s = true ∧
      ((Text.after? "function".toList s).bind
          (Text.afterBlanks? fun t => (name? t).bind functionBlock?) = some rest ∨
        (Text.after? "const".toList s).bind
          (Text.afterBlanks? fun t => (name? t).bind arrowBlock?) = some rest) := by
  rw [definition?]
  split
  next hboundary =>
    rw [and_iff_right hboundary]
    cases hfunction : Text.after? "function".toList s with
    | none =>
      rw [Option.bind_none, or_iff_right (by rintro ⟨⟩)]
      cases Text.after? "const".toList s <;> rfl
    | some t =>
      -- the other word starts with another letter
      have hconst : Text.after? "const".toList s = none := by
        rw [Text.after?_eq_some_iff.1 hfunction]
        rfl
      rw [hconst, Option.bind_none, or_iff_left (by rintro ⟨⟩), Option.bind_some]
  next hboundary => exact iff_of_false (by rintro ⟨⟩) fun h => hboundary h.1

theorem definition?_ident_eq_some_iff :
    definition? (fun s => (Text.ident? s).map Prod.snd) before s = some rest ↔
      Defines (Text.isIdent · = true) before s rest := by
  have hreject : ∀ (k : Text → Option Text) c s, Text.isBlank c = true →
      ((Text.ident? (c :: s)).map Prod.snd).bind k = none := by
    intro k c s hc
    rw [Text.ident?, if_neg (Bool.eq_false_iff.1 (Text.isIdentStart_of_isBlank hc))]
    rfl
  rw [definition?_eq_some_iff, afterWord?_eq_some_iff (hreject _),
    afterWord?_eq_some_iff (hreject _), Defines, Behind, Behind]
  simp only [named_ident_iff (fun _ => functionBlock?_eq_some_iff) fun _ => head?_of_functionTail,
    named_ident_iff (fun _ => arrowBlock?_eq_some_iff) fun _ => head?_of_arrowTail]

theorem exists_behind_iff {tail : Text → Text → Prop} (hk : ∀ rest t, k t = some rest ↔ tail rest t) :
    (∃ rest, (Text.after? word s).bind
        (Text.afterBlanks? fun t => (Text.after? component t).bind k) = some rest) ↔
      ∃ rest, Behind word (Named (· = component) (tail rest)) s := by
  constructor
  · rintro ⟨rest, h⟩
    obtain ⟨t, ht, h⟩ := Option.bind_eq_some_iff.1 h
    obtain ⟨blanks, u, rfl, hne, hblanks, hu⟩ := Text.afterBlanks?_eq_some h
    exact ⟨rest, blanks, u, hne, hblanks, Text.after?_eq_some_iff.1 ht,
      (named_eq_iff (hk rest)).1 hu⟩
  · rintro ⟨rest, blanks, t, hne, hblanks, rfl, ht⟩
    rw [Text.after?_append, Option.bind_some]
    exact exists_afterBlanks? hne hblanks ((named_eq_iff (hk rest)).2 ht)

/-- The reader of definitions with a name recognises them. -/
theorem isSome_definition?_iff :
    (definition? (Text.after? component) before s).isSome = true ↔
      ∃ rest, Defines (· = component) before s rest := by
  simp only [Option.isSome_iff_exists, definition?_eq_some_iff, Defines, exists_and_left, exists_or,
    exists_behind_iff fun _ _ => functionBlock?_eq_some_iff,
    exists_behind_iff fun _ _ => arrowBlock?_eq_some_iff]

theorem unnamed_iff (hhead : s.head?.any Text.isBlank = false) :
    (match Text.ident? s with
      | some (_, t) => functionBlock? t
      | none => functionBlock? s) = some rest ↔
      OpensBlock rest s ∨ Named (Text.isIdent · = true) (FunctionTail rest) s := by
  have hnamed : ((Text.ident? s).map Prod.snd).bind functionBlock? = some rest ↔
      Named (Text.isIdent · = true) (FunctionTail rest) s :=
    named_ident_iff (fun _ => functionBlock?_eq_some_iff) fun _ => head?_of_functionTail
  rw [← hnamed]
  cases hident : Text.ident? s with
  | some found =>
    refine (or_iff_right ?_).symm
    rintro ⟨t, rfl, -⟩
    cases hident
  | none =>
    have hblock : functionBlock? s = openBlock? s := by
      rw [functionBlock?, Text.trimStart, Text.dropWhile_eq_self hhead]
    rw [Option.map_none, Option.bind_none, hblock, openBlock?_eq_some_iff]
    simp

/-- The function behind `export default`. -/
def exportedFunction? (s : Text) : Option Text :=
  (Text.after? "function".toList s).bind fun t =>
    match Text.ident? (Text.trimStart t) with
    | some (_, u) => functionBlock? u
    | none => functionBlock? (Text.trimStart t)

theorem exportedFunction?_eq_some_iff : exportedFunction? s = some rest ↔
    ∃ t, s = "function".toList ++ t ∧
      Spaced (fun u => OpensBlock rest u ∨ Named (Text.isIdent · = true) (FunctionTail rest) u) t := by
  rw [exportedFunction?, Option.bind_eq_some_iff]
  refine exists_congr fun t => and_congr Text.after?_eq_some_iff ?_
  have hhead : (Text.trimStart t).head?.any Text.isBlank = false := Text.head?_dropWhile _ _
  rw [unnamed_iff hhead, spaced_iff]
  rintro c s hc (h | ⟨name, t, hname, hs, -⟩)
  · exact not_isBlank_of_opensBlock hc h
  · have hnone := Text.after?_eq_none_of_isBlank hname hc s
    rw [Text.after?_eq_some_iff.2 hs] at hnone
    cases hnone

theorem defaultExport?_eq (before : Option Char) (s : Text) : defaultExport? before s =
    if Text.isBoundary before s then
      (Text.after? "export".toList s).bind (Text.afterBlanks? fun t =>
        (Text.after? "default".toList t).bind (Text.afterBlanks? exportedFunction?))
    else none := rfl

/-- The reader of default exports recognises them. -/
theorem defaultExport?_eq_some_iff :
    defaultExport? before s = some rest ↔ DefaultExport before s rest := by
  have hfunction : ∀ c s, Text.isBlank c = true → exportedFunction? (c :: s) = none := by
    intro c s hc
    rw [exportedFunction?, Text.after?_eq_none_of_isBlank (by decide) hc]
    rfl
  have hdefault : ∀ c s, Text.isBlank c = true → (Text.after? "default".toList (c :: s)).bind
      (Text.afterBlanks? exportedFunction?) = none := by
    intro c s hc
    rw [Text.after?_eq_none_of_isBlank (by decide) hc]
    rfl
  rw [defaultExport?_eq, DefaultExport, Option.ite_none_right_eq_some,
    afterWord?_eq_some_iff hdefault, Behind]
  simp only [afterWord?_eq_some_iff hfunction, exportedFunction?_eq_some_iff, Behind]

/-! ## First places -/

/-- The first place of its kind in a text, and what is read there. -/
def FirstAt (R : Option Char → Text → Text → Prop) (content rest : Text) : Prop :=
  ∃ a b, content = a ++ b ∧ R a.getLast? b rest ∧
    ∀ x y, a = x ++ y → y ≠ [] → ∀ other, ¬ R x.getLast? (y ++ b) other

/-- No place of its kind is in a text. -/
def Nowhere (R : Option Char → Text → Text → Prop) (content : Text) : Prop :=
  ∀ a b, content = a ++ b → ∀ rest, ¬ R a.getLast? b rest

variable {m : Option Char → Text → Option Text} {R : Option Char → Text → Text → Prop}

theorem firstAt_iff (h : ∀ before s rest, m before s = some rest ↔ R before s rest) :
    (Text.search m none content).map Prod.snd = some rest ↔ FirstAt R content rest := by
  have hnone : ∀ before s, m before s = none ↔ ∀ rest, ¬ R before s rest := fun before s => by
    simp only [Option.eq_none_iff_forall_ne_some, ne_eq, h]
  simp only [Option.map_eq_some_iff, Prod.exists, exists_eq_right, Text.search_eq_some_iff,
    Option.or_none, h, hnone, FirstAt]

theorem nowhere_iff (h : ∀ before s, (m before s).isSome = true ↔ ∃ rest, R before s rest) :
    (Text.search m none content).map Prod.snd = none ↔ Nowhere R content := by
  have hnone : ∀ before s, m before s = none ↔ ∀ rest, ¬ R before s rest := fun before s => by
    rw [← Option.not_isSome_iff_eq_none, h, not_exists]
  simp only [Option.map_eq_none_iff, Text.search_eq_none_iff, Option.or_none, hnone, Nowhere]

/-! ## The block that stands in -/

/-- What stands behind the brace of the block that counts for no component in particular. -/
def IsFallback (content rest : Text) : Prop :=
  FirstAt DefaultExport content rest ∨
    Nowhere DefaultExport content ∧ FirstAt (Defines (Text.isIdent · = true)) content rest

/-- The text from the block that stands in on. -/
def fallbackBlock? (content : Text) : Option Text :=
  match defaultExportBlock? content with
  | some rest => some rest
  | none => anyBlock? content

theorem fallbackBlock?_eq_some_iff :
    fallbackBlock? content = some rest ↔ IsFallback content rest := by
  have hexport : ∀ rest, defaultExportBlock? content = some rest ↔ _ := fun rest =>
    firstAt_iff fun _ _ _ => defaultExport?_eq_some_iff
  have hnowhere : defaultExportBlock? content = none ↔ Nowhere DefaultExport content :=
    nowhere_iff fun _ _ => by
      simp only [Option.isSome_iff_exists, defaultExport?_eq_some_iff]
  have hany : anyBlock? content = some rest ↔ _ :=
    firstAt_iff fun _ _ _ => definition?_ident_eq_some_iff
  rw [IsFallback, ← hexport, ← hnowhere, ← hany, fallbackBlock?]
  cases defaultExportBlock? content <;> simp

theorem block?_of_nowhere (h : Nowhere (Defines (· = component)) content) :
    block? content component =
      (fallbackBlock? content).bind fun rest => (Bracket.body? rest).map Prod.fst := by
  have hnamed : namedBlock? content component = none :=
    (nowhere_iff fun _ _ => isSome_definition?_iff).2 h
  have hread : block? content component = (match namedBlock? content component with
      | some rest => some rest
      | none => fallbackBlock? content).bind fun rest => (Bracket.body? rest).bind fun found =>
        some found.1 := by
    rw [block?, fallbackBlock?]
    cases namedBlock? content component <;> cases defaultExportBlock? content <;> rfl
  rw [hread, hnamed]
  simp only [Option.map_eq_bind]
  rfl

theorem Defaults.set_ne_nil (defaults : Defaults) (name expression : Text) :
    defaults.set name expression ≠ [] := by
  unfold Defaults.set
  split
  · simp
  · split <;> simp

theorem Defaults.foldl_set_eq_nil_iff (given : List (Text × Text)) :
    given.foldl (fun d (name, expression) => Defaults.set d name expression) [] = [] ↔
      given = [] := by
  rcases List.eq_nil_or_concat given with rfl | ⟨given, last, rfl⟩
  · simp
  · rw [List.concat_eq_append, List.foldl_append]
    simp [Defaults.set_ne_nil]

/-- **What counts for a component without a destructured parameter is the block that stands in, and
nothing else.** Its defaults are found, if it has any, whatever the component is and however it is
defined. -/
theorem defaults_eq_nil_iff (h : Nowhere (Defines (· = component)) content) :
    (defaults content component = [] ↔
      ∀ rest, IsFallback content rest → ∀ block after, Bracket.body? rest = some (block, after) →
        ∀ entry ∈ entries block, default? entry = none) ∧
    ∀ other, Nowhere (Defines (· = other)) content →
      defaults content other = defaults content component := by
  refine ⟨?_, fun other hother => ?_⟩
  · have hblock : ∀ block, block? content component = some block ↔ ∃ rest,
        IsFallback content rest ∧ ∃ after, Bracket.body? rest = some (block, after) := by
      intro block
      simp only [block?_of_nowhere h, Option.bind_eq_some_iff, fallbackBlock?_eq_some_iff,
        Option.map_eq_some_iff, Prod.exists, exists_and_right, exists_eq_right]
    rw [defaults]
    cases hfound : block? content component with
    | none =>
      refine iff_of_true rfl fun rest hrest block after hbody => ?_
      rw [(hblock block).2 ⟨rest, hrest, after, hbody⟩] at hfound
      cases hfound
    | some block =>
      rw [Defaults.foldl_set_eq_nil_iff, List.filterMap_eq_nil_iff]
      constructor
      · intro hnone rest hrest other after hbody
        have hother := (hblock other).2 ⟨rest, hrest, after, hbody⟩
        obtain rfl : block = other := Option.some.inj (hfound.symm.trans hother)
        exact hnone
      · intro hnone
        obtain ⟨rest, hrest, after, hbody⟩ := (hblock block).1 hfound
        exact hnone rest hrest block after hbody
  · rw [defaults, defaults, block?_of_nowhere hother, block?_of_nowhere h]

/-- A component that takes its properties as a whole, above a helper that takes them apart. -/
def helperBelowSample : Text :=
  "const Card = (props) => null;\nfunction Row(\x7b size \x7d) \x7b\x7d\n".toList

theorem defaults_eq_nil_iff_helperBelow :
    Nowhere (Defines (· = "Card".toList)) helperBelowSample ∧
      (∀ rest, IsFallback helperBelowSample rest → ∀ block after,
        Bracket.body? rest = some (block, after) → ∀ entry ∈ entries block, default? entry = none) ∧
      ∀ other, Nowhere (Defines (· = other)) helperBelowSample →
        defaults helperBelowSample other = [] := by
  have hnone : Nowhere (Defines (· = "Card".toList)) helperBelowSample :=
    (nowhere_iff fun _ _ => isSome_definition?_iff).1 (by decide +kernel)
  have hcard : defaults helperBelowSample "Card".toList = [] := by decide +kernel
  exact ⟨hnone, (defaults_eq_nil_iff hnone).1.1 hcard,
    fun other hother => ((defaults_eq_nil_iff hnone).2 other hother).trans hcard⟩

/-- Parameters open, and the first of them is not taken apart, or there is none. -/
def OpensPlain (s : Text) : Prop :=
  ∃ t, s = '(' :: t ∧ (Text.trimStart t).head? ≠ some '{'

/-- A definition of the component, by `function` or `const`, whose properties are not taken apart. -/
def DefinesPlain (component : Text) (before : Option Char) (s : Text) : Prop :=
  Text.isBoundary before s = true ∧
    (Behind "function".toList (Named (· = component) (Spaced OpensPlain)) s ∨
      Behind "const".toList (Named (· = component)
        (Spaced fun s => ∃ t, s = '=' :: t ∧ Spaced OpensPlain t)) s)

/-- A component that takes its properties as a whole, below a helper with a default of its own. -/
def helperAboveSample : Text :=
  "function Row(\x7b size = 9 \x7d) \x7b\x7d\nfunction Card(props) \x7b\x7d".toList

/-- The default of the helper counts for the component. -/
theorem defaults_helperAbove :
    (∃ a b, helperAboveSample = a ++ b ∧ DefinesPlain "Card".toList a.getLast? b) ∧
      Nowhere (Defines (· = "Card".toList)) helperAboveSample ∧
      defaults helperAboveSample "Card".toList = [("size".toList, "9".toList)] := by
  refine ⟨⟨"function Row(\x7b size = 9 \x7d) \x7b\x7d\n".toList,
    "function Card(props) \x7b\x7d".toList, rfl, rfl, Or.inl ?_⟩,
    (nowhere_iff fun _ _ => isSome_definition?_iff).1 (by decide +kernel), by decide +kernel⟩
  exact ⟨[' '], "Card(props) \x7b\x7d".toList, by simp, rfl, rfl, "Card".toList,
    "(props) \x7b\x7d".toList, rfl, rfl, [], "(props) \x7b\x7d".toList, rfl, rfl,
    "props) \x7b\x7d".toList, rfl, by decide⟩

end PropCatalog.Component
