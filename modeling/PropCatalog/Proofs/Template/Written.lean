import PropCatalog.Proofs.Component.Written
import PropCatalog.Proofs.Json.Printer
import PropCatalog.Template.Block

/-!
# The template of a written component

A component that is written as an interface and a function with defaults has a template, and its
example is told by the parameters alone: each field has the value of its default if there is one,
and what stands for its type otherwise (`read_sourceText`).
-/

namespace PropCatalog

namespace Component

open Interface (Table)

variable {component name : Text} {style : Style} {table : Table} {p : Parameter}
  {ps : List Parameter}

/-! ## The table -/

theorem loose_definition (hstyle : style.WellFormed) (hname : Text.isIdent component = true)
    (h : ∀ p ∈ ps, p.WellFormed) :
    Loose (style.gap ++ "export default ".toList ++
      (opening component ++ (block ps ++ '}' :: close style component))) := by
  have hblank : ∀ {w : Text}, w.all Text.isBlank = true → Loose w := fun hw =>
    loose_of_braceless (braceless_of_forall (p := Text.isBlank) (by decide) (List.all_eq_true.1 hw))
  have hident : ∀ {w : Text}, Text.isIdent w = true → Loose w := fun hw =>
    loose_of_braceless (braceless_of_isIdent hw)
  have hbody : Loose (')' :: ' ' :: '{' :: '}' :: style.ending) :=
    Tame.cons (by decide) (by decide) (by decide) (Tame.blanks_append (w := [' ']) rfl
      (Tame.braces_append (t := []) (loose_nil false) (hblank hstyle.ending)))
  have hclose : Loose (close style component) :=
    Loose.append (a := [':', ' ']) (loose_of_braceless ⟨by decide, by decide⟩)
      ((hident (isIdent_interfaceName hname)).append hbody)
  have hparameter : Loose ('(' :: '{' :: (block ps ++ '}' :: close style component)) :=
    Tame.cons (by decide) (by decide) (by decide) ((loose_block h false).braces_append hclose)
  have hdefault : Loose "export default ".toList := loose_of_braceless ⟨by decide, by decide⟩
  have hword : Loose "function".toList := loose_of_braceless ⟨by decide, by decide⟩
  have hspace : Loose [' '] := loose_of_braceless ⟨by decide, by decide⟩
  rw [opening_append]
  exact ((hblank hstyle.gap).append hdefault).append
    (hword.append (hspace.append ((hident hname).append hparameter)))

theorem declarations_sourceText (hstyle : style.WellFormed) (hname : Text.isIdent component = true)
    (h : ∀ p ∈ ps, p.WellFormed) : ∃ found, Interface.Reads found (interfaceOf component ps) ∧
      Interface.declarations none (sourceText style component ps) = [found] := by
  have hstart : (none : Option Char).any Text.isWord = false := rfl
  obtain ⟨found, hreads, hfound⟩ := Interface.declarations_declaration hstyle.indent
    (wellFormed_interfaceOf hname h) hstart (style.gap ++ "export default ".toList ++
      (opening component ++ (block ps ++ '}' :: close style component)))
  have hsilent := Interface.silent_of_apart (s := [])
    ((loose_definition hstyle hname h false).apart_append [] fun _ => rfl)
  have hnone := Interface.declarations_append hsilent (some '}')
  rw [List.append_nil, Interface.declarations_nil] at hnone
  refine ⟨found, hreads, ?_⟩
  rw [sourceText, lead, List.append_assoc, hfound, hnone]

theorem table_sourceText (hstyle : style.WellFormed) (hname : Text.isIdent component = true)
    (h : ∀ p ∈ ps, p.WellFormed) : Table.ofSource (sourceText style component ps) =
      ⟨[(interfaceName component, ps.map Parameter.property)]⟩ := by
  obtain ⟨found, ⟨hfirst, hmembers⟩, hdeclarations⟩ := declarations_sourceText hstyle hname h
  have hnames : Interface.declaredNames (sourceText style component ps) =
      [interfaceName component] := by
    rw [Interface.declaredNames, hdeclarations, List.map_singleton, hfirst]
    rfl
  have hfind : Interface.find? (sourceText style component ps) (interfaceName component) =
      some (ps.map Parameter.property) := by
    have hlookup : [found].lookup (interfaceName component) = some found.2 := by
      have hsame : (interfaceName component == found.1) = true := by
        rw [hfirst]
        exact beq_self_eq_true _
      rw [List.lookup_cons, hsame]
    rw [Interface.find?_eq_lookup (isIdent_interfaceName hname), hdeclarations, hlookup]
    exact hmembers
  rw [Table.ofSource_eq_foldl, hnames, List.foldl_cons, Table.addFound, hfind]
  rfl

/-! ## Examples of plain types -/

/-- The text that stands for a value of a plain type. -/
def PlainType.sample : PlainType → Text
  | string => "\"string\"".toList
  | number => "0".toList
  | boolean => "false".toList
  | strings => "[\"string\"]".toList
  | numbers => "[0]".toList

section Types

variable (type : Text) (n : Nat) (htrim : Text.trim type = type)

include htrim

theorem ofType_word (hnamed : Example.namedArray? type = none)
    (harray : Text.contains ['[', ']'] type = false) (hget : table.get? type = none) :
    Example.ofType table (n + 1) type = Example.ofWords type := by
  rw [Example.ofType]
  dsimp only
  rw [htrim, hnamed, Option.bind_none, harray, hget]
  simp

theorem ofType_strings (hnamed : Example.namedArray? type = some "string".toList)
    (hget : table.get? "string".toList = none) :
    Example.ofType table (n + 1) type = .array [.placeholder] := by
  rw [Example.ofType]
  dsimp only
  rw [htrim, hnamed, Option.bind_some, hget]
  dsimp only
  rw [if_pos rfl]

theorem ofType_numbers (hnamed : Example.namedArray? type = some "number".toList)
    (hget : table.get? "number".toList = none) :
    Example.ofType table (n + 1) type = .array [.scalar (.number (.int 0))] := by
  rw [Example.ofType]
  dsimp only
  rw [htrim, hnamed, Option.bind_some, hget]
  dsimp only
  rw [if_neg (by decide), if_pos rfl]

end Types

theorem exists_levelsFrom (cap : Nat) : ∃ n, Example.levelsFrom 0 cap = n + 1 := by
  rw [Example.levelsFrom, if_neg (Nat.not_lt_zero cap)]
  split
  · exact ⟨Word64.limit - 1, rfl⟩
  · exact ⟨cap, rfl⟩

theorem render_resolve (type : PlainType) (cap : Nat)
    (htable : ∀ name ∈ ["string".toList, "number".toList, "boolean".toList],
      table.get? name = none) :
    (Example.resolve table cap type.text 0).render = type.sample := by
  obtain ⟨hstring, hnumber, hboolean, -⟩ := by simpa only [List.forall_mem_cons] using htable
  obtain ⟨n, hn⟩ := exists_levelsFrom cap
  rw [Example.resolve, hn]
  cases type with
  | string =>
    exact congrArg Example.render
      (ofType_word "string".toList n (by decide) (by decide) (by decide) hstring)
  | number =>
    exact congrArg Example.render
      (ofType_word "number".toList n (by decide) (by decide) (by decide) hnumber)
  | boolean =>
    exact congrArg Example.render
      (ofType_word "boolean".toList n (by decide) (by decide) (by decide) hboolean)
  | strings =>
    exact congrArg Example.render
      (ofType_strings "string[]".toList n (by decide) (by decide) hstring)
  | numbers =>
    exact congrArg Example.render
      (ofType_numbers "number[]".toList n (by decide) (by decide) hnumber)

/-! ## Fields -/

namespace Parameter

/-- The text of the value that is documented: that of the default if there is one, and else what
stands for the type. -/
def valueText (p : Parameter) : Text :=
  match p.default with
  | some (_, value) => (Example.ofJson value).render
  | none => p.type.sample

/-- The field that documents a parameter. -/
def fieldText (p : Parameter) : Text :=
  '"' :: (p.name ++ '"' :: ((if p.optional then ['?'] else []) ++ ':' :: ' ' :: p.valueText))

end Parameter

theorem lookup_given_of_notMem {name : Text} (h : name ∉ ps.map Parameter.name) :
    (ps.filterMap Parameter.given).lookup name = none := by
  rw [List.lookup_eq_none_iff]
  intro found hfound
  rw [bne_iff_ne]
  rintro rfl
  exact h ((map_fst_given ps).subset (List.mem_map_of_mem hfound))

theorem lookup_given (hnames : (ps.map Parameter.name).Nodup) (hp : p ∈ ps) :
    (ps.filterMap Parameter.given).lookup p.name = p.default.map fun d => .evaluated d.2 := by
  induction ps with
  | nil => cases hp
  | cons q ps ih =>
    rw [List.map_cons, List.nodup_cons] at hnames
    rw [List.filterMap_cons, Parameter.given]
    rcases List.mem_cons.1 hp with rfl | hp
    · cases p.default with
      | none => exact lookup_given_of_notMem hnames.1
      | some d => rw [Option.map_some, List.lookup_cons, beq_self_eq_true]; rfl
    · have hne : (p.name == q.name) = false := by
        rw [beq_eq_false_iff_ne]
        intro hsame
        exact hnames.1 (hsame ▸ List.mem_map_of_mem hp)
      cases q.default with
      | none => exact ih hnames.2 hp
      | some d =>
        rw [Option.map_some, List.lookup_cons, hne]
        exact ih hnames.2 hp

/-- The example of a property is that of its default or of its type. -/
theorem render_exampleOf (hstyle : style.WellFormed) (hname : Text.isIdent component = true)
    (h : ∀ p ∈ ps, p.WellFormed) (hnames : (ps.map Parameter.name).Nodup)
    (reader : Template.Reader) (hp : p ∈ ps) :
    (reader.exampleOf (Table.ofSource (sourceText style component ps))
      (defaults (sourceText style component ps) component) p.property).render = p.valueText := by
  have hne : ps ≠ [] := List.ne_nil_of_mem hp
  have hlookup := lookup_given hnames hp
  rw [← defaults_sourceText hstyle hname h hne hnames, Json.lookup_map_values] at hlookup
  rw [Template.Reader.exampleOf, Parameter.valueText]
  cases hdefault : p.default with
  | none =>
    rw [hdefault, Option.map_none, Option.map_eq_none_iff] at hlookup
    have hproperty : p.property.name = p.name := rfl
    rw [hproperty, hlookup]
    refine render_resolve p.type reader.cap ?_
    intro name hword
    -- the names of the plain types do not end like the name of the interface
    have hother : name ≠ interfaceName component := by
      rintro rfl
      have hlast := getLast?_interfaceName component
      simp only [List.mem_cons, List.not_mem_nil, or_false] at hword
      rcases hword with hword | hword | hword <;>
      · rw [hword] at hlast
        exact absurd (Option.some.inj hlast) (by decide)
    rw [table_sourceText hstyle hname h, Table.get?, List.lookup_cons,
      beq_eq_false_iff_ne.2 hother]
    rfl
  | some d =>
    rw [hdefault, Option.map_some] at hlookup
    obtain ⟨expression, hfound, hevaluate⟩ := Option.map_eq_some_iff.1 hlookup
    -- the default is evaluated, whatever the type is
    have hproperty : p.property.name = p.name := rfl
    rw [hproperty, hfound]
    dsimp only
    rw [hevaluate]
    rfl

theorem quote_of_isIdent {name : Text} (h : Text.isIdent name = true) :
    Json.quote name = '"' :: (name ++ ['"']) := by
  have hself : ∀ n ∈ name, Json.escapeChar n = [n] := by
    intro n hn
    have hrest := Text.isIdentRest_of_mem h hn
    have hne : ∀ d : Char, Text.isIdentRest d = false → n ≠ d := by
      rintro d hd rfl
      rw [hrest] at hd
      cases hd
    exact Json.escapeChar_eq_self (hne _ (by decide)) (hne _ (by decide))
      (Text.le_toNat_of_class (by decide +kernel) hrest)
  have hbody : name.flatMap Json.escapeChar = name := by
    rw [List.flatMap_congr hself, List.flatMap_singleton']
  rw [Json.quote, hbody]
  rfl

theorem renderFields_eq_join (fields : List (Field Example)) : Example.renderFields fields =
    Text.join [',', ' ']
      (fields.map fun f => Example.fieldHead f.name f.optional ++ f.value.render) := by
  induction fields with
  | nil => rfl
  | cons f fields ih =>
    cases fields with
    | nil => rfl
    | cons g fields =>
      rw [Example.renderFields, ih]
      · simp [Text.join]
      · exact List.cons_ne_nil g fields

end Component

namespace Template

open Component (Style Parameter sourceText interfaceName)

/-- **Defaults win and types fill the rest.** A source text with the interface of a component, a
line for each property, and a default-exported function that takes the properties, each with a
simple literal as its default or without one, has a template. Its example has the properties in
order, with a question mark behind the names of the optional ones, and documents for each the value
of the default if there is one, and what stands for the type otherwise. -/
theorem read_sourceText {style : Style} {component : Text} {ps : List Parameter}
    (hstyle : style.WellFormed) (hname : Text.isIdent component = true) (hne : ps ≠ [])
    (h : ∀ p ∈ ps, p.WellFormed) (hnames : (ps.map Parameter.name).Nodup) (cap : Nat) :
    ∃ template,
      Reader.read ⟨"Props".toList, cap⟩ component (sourceText style component ps) = .ok template ∧
      template.payload.render =
        '{' :: (Text.join [',', ' '] (ps.map Parameter.fieldText) ++ ['}']) := by
  have hinterface : Reader.interfaceOf ⟨"Props".toList, cap⟩ component =
      interfaceName component := rfl
  have hget : (Interface.Table.ofSource (sourceText style component ps)).get?
      (interfaceName component) = some (ps.map Parameter.property) := by
    rw [Component.table_sourceText hstyle hname h, Interface.Table.get?, List.lookup_cons,
      beq_self_eq_true]
  obtain ⟨q, qs, hmembers⟩ := List.exists_cons_of_ne_nil (l := ps.map Parameter.property)
    (by simpa using hne)
  have hfields : ∀ p ∈ ps, Example.fieldHead p.property.name p.property.optional ++
      (Reader.exampleOf ⟨"Props".toList, cap⟩
        (Interface.Table.ofSource (sourceText style component ps))
        (Component.defaults (sourceText style component ps) component) p.property).render =
      p.fieldText := by
    intro p hp
    rw [Component.render_exampleOf hstyle hname h hnames _ hp, Example.fieldHead,
      Parameter.property, Component.quote_of_isIdent (h p hp).name_isIdent, Parameter.fieldText]
    cases p.optional <;> simp
  rw [Reader.read]
  dsimp only
  rw [hinterface, hget, hmembers]
  refine ⟨_, rfl, ?_⟩
  rw [← hmembers, Example.render, Component.renderFields_eq_join, List.map_map, List.map_map]
  exact congrArg (fun fields => '{' :: (Text.join [',', ' '] fields ++ ['}']))
    (List.map_congr_left hfields)

/-- An array with a line break and trailing commas. -/
def sampleLiteral : Text := "[\n  \x7b a: ',', \"b\": -1, \x7d,\n]".toList

def sampleValue : Json.Value :=
  .array [.object [("a".toList, .scalar (.string ",".toList)),
    ("b".toList, .scalar (.number (.int (-1))))]]

theorem isSimple_sampleLiteral :
    Literal.IsSimple Json.Reading.nestingLimit sampleLiteral sampleValue := by
  have hspace : Json.Spaces [' '] := by simp [Json.Spaces, Json.isSpace]
  have hline : Json.Spaces ['\n', ' ', ' '] := by simp [Json.Spaces, Json.isSpace]
  have hbreak : Json.Spaces ['\n'] := by simp [Json.Spaces, Json.isSpace]
  have hcomma : Literal.IsSimpleLeaf ['\'', ',', '\''] (.scalar (.string [','])) :=
    .string (.single rfl (.plain (s := []) (by decide) (by decide) (by decide) .nil))
      ⟨by decide, by decide⟩
  have hone : Json.IsWhole ['1'] := .inr ⟨⟨by simp, by simp⟩, by simp⟩
  have hminus : Literal.IsSimpleLeaf ['-', '1'] (.scalar (.number (.int (-1)))) :=
    .integer (.negative hone (by decide))
  have hbare : Json.IsName .relaxed ['a'] ['a'] := .word rfl (.mk (by decide +kernel) (by simp))
  have hquoted : Json.IsName .relaxed ['"', 'b', '"'] ['b'] :=
    .string (.double (.plain (s := []) (by decide) (by decide) (by decide) .nil))
  have hfirst : Literal.IsSimpleField (Literal.IsSimple 125) _ _ :=
    .mk hbare ⟨by decide, by decide⟩ Json.spaces_nil hspace (.inl hcomma)
  have hsecond : Literal.IsSimpleField (Literal.IsSimple 125) _ _ :=
    .mk hquoted ⟨by decide, by decide⟩ Json.spaces_nil hspace (.inl hminus)
  have hfields := Json.Parts.cons hspace hfirst Json.spaces_nil
    (.last hspace hsecond (.inr ⟨rfl, [], [' '], rfl, Json.spaces_nil, hspace⟩))
  have hobject : Literal.IsSimple 126 _ _ := .inr (.object (.parts hfields))
  have hitems := Json.Parts.last hline hobject (.inr ⟨rfl, [], ['\n'], rfl, Json.spaces_nil, hbreak⟩)
  exact .inr (.array (.parts hitems))

def sampleStyle : Style := ⟨"  ".toList, "\n".toList, "\n".toList⟩

/-- Parameters with and without defaults, one of them with the word that declares interfaces as its
name. -/
def sampleParameters : List Parameter :=
  [⟨"interface".toList, false, .string, none⟩,
    ⟨"tone".toList, true, .string, some ("'a, b'".toList, .scalar (.string "a, b".toList))⟩,
    ⟨"rows".toList, false, .strings, some (sampleLiteral, sampleValue)⟩,
    ⟨"sizes".toList, true, .numbers, none⟩,
    ⟨"open".toList, false, .boolean, some ("true".toList, .scalar (.bool true))⟩]

theorem wellFormed_sampleParameters : ∀ p ∈ sampleParameters, p.WellFormed := by
  have hnone : ∀ name optional type, Text.isIdent name = true →
      Parameter.WellFormed ⟨name, optional, type, none⟩ := fun _ _ _ hname =>
    ⟨hname, by simp⟩
  have hsome : ∀ name optional type literal value, Text.isIdent name = true →
      Literal.IsDefault literal value →
      Parameter.WellFormed ⟨name, optional, type, some (literal, value)⟩ :=
    fun _ _ _ _ _ hname hdefault => ⟨hname, by simpa using hdefault⟩
  have hquoted : Literal.IsDefault "'a, b'".toList (.scalar (.string "a, b".toList)) := by
    refine .string (s := "a, b".toList) (.inl rfl) (fun c hc => ?_) ⟨by decide, by decide⟩
    have hall : "a, b".toList.all (fun c => decide (c ≠ '\'' ∧ c ≠ '\\')) = true := by decide
    exact of_decide_eq_true (List.all_eq_true.1 hall c hc)
  intro p hp
  simp only [sampleParameters, List.mem_cons, List.not_mem_nil, or_false] at hp
  rcases hp with rfl | rfl | rfl | rfl | rfl
  · exact hnone _ _ _ (by decide)
  · exact hsome _ _ _ _ _ (by decide) hquoted
  · exact hsome _ _ _ _ _ (by decide) (.container isSimple_sampleLiteral (.inl rfl))
  · exact hnone _ _ _ (by decide)
  · exact hsome _ _ _ _ _ (by decide) .true

theorem read_sourceText_sample :
    (sampleStyle.WellFormed ∧ Text.isIdent "Card".toList = true ∧ sampleParameters ≠ [] ∧
      (∀ p ∈ sampleParameters, p.WellFormed) ∧ (sampleParameters.map Parameter.name).Nodup) ∧
    ∃ template,
      Reader.standard.read "Card".toList (sourceText sampleStyle "Card".toList sampleParameters) =
        .ok template ∧
      template.payload.render =
        "\x7b\"interface\": \"string\", \"tone\"?: \"a, b\", ".toList ++
          "\"rows\": [\x7b\"a\": \",\", \"b\": -1\x7d], \"sizes\"?: [0], \"open\": true\x7d".toList := by
  have hstyle : sampleStyle.WellFormed := by
    refine ⟨fun c hc => ?_, by decide, by decide⟩
    have hall : sampleStyle.indent.all (fun c => decide (Text.isBlank c = true ∧ c ≠ '\n')) =
        true := by decide
    exact of_decide_eq_true (List.all_eq_true.1 hall c hc)
  have hname : Text.isIdent "Card".toList = true := by decide
  have hne : sampleParameters ≠ [] := by simp [sampleParameters]
  have hnames : (sampleParameters.map Parameter.name).Nodup := by decide
  obtain ⟨template, hread, hrender⟩ :=
    read_sourceText hstyle hname hne wellFormed_sampleParameters hnames Example.defaultCap
  refine ⟨⟨hstyle, hname, hne, wellFormed_sampleParameters, hnames⟩, template, hread, ?_⟩
  rw [hrender]
  decide +kernel

end Template

end PropCatalog
