import PropCatalog.Proofs.Component.Braces
import PropCatalog.Proofs.Component.Definition
import PropCatalog.Proofs.Component.Layout

/-!
# The defaults of a written component

A component is written as an interface with a line for each property, and a default-exported
function that destructures the properties, each with a default or without one. The defaults that
are found in such a source text are those that were written, in order, and each is evaluated to its
value (`defaults_sourceText`). The reader of entries may change the text of a default, but only its
layout.
-/

namespace PropCatalog.Component

open Json (Spaces)
open Literal (Braceless IsDefault)

variable {c e e' r t : Text} {es es' : List Text}

/-! ## Entries -/

/-- A text that is an entry as it is. -/
structure IsEntry (e : Text) : Prop where
  trim_eq : Text.trim e = e
  ne_nil : e ≠ []
  not_rest : Text.startsWith ['.', '.', '.'] e = false

theorem isEntry_of_isIdentStart (hhead : e.head?.any Text.isIdentStart = true)
    (hlast : e.getLast?.all Text.isBlank = false) : IsEntry e := by
  obtain ⟨hne, hend⟩ := Text.not_blank_of_getLast?_all hlast
  obtain ⟨n, e, rfl⟩ := List.exists_cons_of_ne_nil hne
  have hstart : Text.isIdentStart n = true := by simpa using hhead
  have hblank := Text.isBlank_of_isIdentStart hstart
  have hdot : '.' ≠ n := by
    rintro rfl
    cases hstart
  refine ⟨Text.trim_eq_self (by simpa using hblank) hend, hne, ?_⟩
  simp [Text.startsWith, Text.after?, hdot]

theorem finish_of_isEntry (h : IsEntry e) (hr : Text.trim r.reverse = e) (spaceDue : Bool) :
    Pending.finish ⟨r, spaceDue⟩ = [e] := by
  have hfull : e.isEmpty = false := by simpa using h.ne_nil
  simp [Pending.finish, hr, hfull, h.not_rest]

theorem entriesFrom_join (h : List.Forall₂ (fun e e' => Takes 0 e e' ∧ IsEntry e') es es')
    (hne : es ≠ []) :
    entriesFrom .empty 0 .code (Text.join [',', ' '] es ++ [' ']) = es' := by
  induction h with
  | nil => exact absurd rfl hne
  | @cons e e' es es' he h ih =>
    obtain ⟨htakes, hentry⟩ := he
    have hfinish : ∀ spaceDue, Pending.finish ⟨e'.reverse, spaceDue⟩ = [e'] :=
      finish_of_isEntry hentry (by rw [List.reverse_reverse, hentry.trim_eq])
    have hempty : e'.reverse ++ Pending.settled .empty = e'.reverse := List.append_nil _
    cases h with
    | nil =>
      have hspace : entriesFrom ⟨e'.reverse, false⟩ 0 .code [' '] =
          Pending.finish (Pending.push ⟨e'.reverse, false⟩ ' ') := rfl
      have hpush := Pending.push_quoted (r := e'.reverse) (by simpa using hentry.ne_nil) ' '
      rw [Text.join, htakes.entriesFrom_append _ _ _ (le_refl 0), hempty, hspace, hpush]
      refine finish_of_isEntry hentry ?_ false
      rw [List.reverse_cons, List.reverse_reverse, Text.trim_concat rfl, hentry.trim_eq]
    | @cons f f' es es' hf h =>
      have hjoin : Text.join [',', ' '] (e :: f :: es) ++ [' '] =
          e ++ ',' :: ' ' :: (Text.join [',', ' '] (f :: es) ++ [' ']) := by
        simp [Text.join]
      have hcomma : ∀ s, entriesFrom ⟨e'.reverse, false⟩ 0 .code (',' :: ' ' :: s) =
          Pending.finish ⟨e'.reverse, false⟩ ++ entriesFrom .empty 0 .code s := fun s => (rfl)
      rw [hjoin, htakes.entriesFrom_append _ _ _ (le_refl 0), hempty, hcomma, hfinish,
        ih (by simp)]
      rfl

/-! ## Parameters -/

/-- A type that is neither an interface nor made of other types but for arrays. -/
inductive PlainType where
  | string
  | number
  | boolean
  | strings
  | numbers
  deriving DecidableEq, Repr

namespace PlainType

def text : PlainType → Text
  | string => "string".toList
  | number => "number".toList
  | boolean => "boolean".toList
  | strings => "string[]".toList
  | numbers => "number[]".toList

theorem text_trimmed (type : PlainType) : type.text ≠ [] ∧ Text.trim type.text = type.text := by
  cases type <;> decide

theorem text_silent (type : PlainType) :
    ¬ Interface.keyword <:+: type.text ∧ 'f' ∉ type.text ∧ 'c' ∉ type.text := by
  cases type <;> decide

theorem text_nested (type : PlainType) :
    Bracket.Nested (fun c => ¬ Interface.IsSeparator c) type.text := by
  have harray : Bracket.Nested (fun c => ¬ Interface.IsSeparator c) "[]".toList :=
    .pair (.inr (.inl ⟨rfl, rfl⟩)) .nil .nil
  cases type with
  | string | number | boolean => exact Bracket.Nested.of_all (by decide)
  | strings =>
    exact Bracket.Nested.append (a := "string".toList) (Bracket.Nested.of_all (by decide)) harray
  | numbers =>
    exact Bracket.Nested.append (a := "number".toList) (Bracket.Nested.of_all (by decide)) harray

end PlainType

/-- A property of a component, as its interface declares it and the component takes it. -/
structure Parameter where
  name : Text
  optional : Bool
  type : PlainType
  /-- The default literal, if there is one, and its value. -/
  default : Option (Text × Json.Value)

namespace Parameter

variable {p : Parameter}

/-- The property that the interface declares. -/
def property (p : Parameter) : Property := ⟨p.name, p.optional, p.type.text⟩

/-- The entry of the destructured parameter. -/
def entry (p : Parameter) : Text :=
  p.name ++ match p.default with
    | none => []
    | some (literal, _) => ' ' :: '=' :: ' ' :: literal

/-- The default with its name and value. -/
def given (p : Parameter) : Option (Text × Literal) :=
  p.default.map fun (_, value) => (p.name, .evaluated value)

/-- The name is an identifier, and the default a simple literal. -/
structure WellFormed (p : Parameter) : Prop where
  name_isIdent : Text.isIdent p.name = true
  isDefault : ∀ d ∈ p.default, IsDefault d.1 d.2

theorem WellFormed.property (h : p.WellFormed) : p.property.WellFormed :=
  ⟨h.name_isIdent, p.type.text_trimmed.1, p.type.text_trimmed.2, p.type.text_nested,
    p.type.text_silent.1⟩

end Parameter

variable {component : Text} {p : Parameter} {ps : List Parameter}

theorem default?_name (hname : Text.isIdent c = true) : default? c = none := by
  have hident : Text.ident? c = some (c, []) := by
    have happend : Text.ident? (c ++ []) = some (c, []) := Text.ident?_append hname rfl
    rwa [List.append_nil] at happend
  rw [default?, hident]
  rfl

theorem default?_assignment (hname : Text.isIdent c = true) (htrim : Text.trim t = t)
    (hne : t ≠ []) : default? (c ++ ' ' :: '=' :: ' ' :: t) = some (c, t) := by
  have hspace : Text.trim (' ' :: t) = t := by
    obtain ⟨hhead, hlast⟩ := Text.not_blank_of_trim_eq_self htrim
    have hblank : [' '].all Text.isBlank = true := rfl
    exact Text.trim_append hblank hhead hlast
  have hident : Text.ident? (c ++ ' ' :: '=' :: ' ' :: t) = some (c, ' ' :: '=' :: ' ' :: t) :=
    Text.ident?_append hname rfl
  change (Text.ident? (c ++ ' ' :: '=' :: ' ' :: t)).bind _ = _
  rw [hident]
  change (if (Text.trim (' ' :: t)).isEmpty then none else some (c, Text.trim (' ' :: t))) = _
  rw [hspace, if_neg (by simpa using hne)]

theorem isInk_of_isIdentRest {n : Char} (h : Text.isIdentRest n = true) : isInk n = true :=
  isInk_of_class (Interface.not_blank_of_isIdentRest h).1 (by decide +kernel) h

theorem takes_isIdent (h : Text.isIdent c = true) : Takes 0 c c := by
  refine takes_ink ?_ fun n hn => isInk_of_isIdentRest (Text.isIdentRest_of_mem h hn)
  rintro rfl
  cases h

theorem exists_takes_entry (h : p.WellFormed) : ∃ e, Takes 0 p.entry e ∧ IsEntry e ∧
    (default? e).map (Prod.map id Literal.evaluate) = p.given := by
  obtain ⟨n, hn, hstart, -⟩ := Text.head?_of_isIdent h.name_isIdent
  have hname := takes_isIdent h.name_isIdent
  cases hdefault : p.default with
  | none =>
    have hentry : p.entry = p.name := by rw [Parameter.entry, hdefault, List.append_nil]
    rw [hentry, Parameter.given, hdefault]
    refine ⟨p.name, hname, isEntry_of_isIdentStart (by simpa [hn] using hstart) hname.last, ?_⟩
    rw [default?_name h.name_isIdent]
    rfl
  | some d =>
    obtain ⟨t, v⟩ := d
    obtain ⟨t', ht', htakes⟩ := exists_takes_isDefault (h.isDefault _ hdefault)
    have hspace : Spaces [' '] := by simp [Spaces, Json.isSpace]
    have hequals : Takes 0 ['='] ['='] := takes_of_isInk (by decide)
    have hentry : p.entry = p.name ++ ([' '] ++ (['='] ++ ([' '] ++ t))) := by
      rw [Parameter.entry, hdefault]
      rfl
    have htaken := hname.spaces hspace (hequals.spaces hspace htakes)
    obtain ⟨hne, hlast⟩ := Text.not_blank_of_getLast?_all htakes.last
    have htrim : Text.trim t' = t' :=
      Text.trim_eq_self (Literal.head?_not_blank_of_isDefault ht') hlast
    rw [hentry, Parameter.given, hdefault]
    refine ⟨_, htaken, isEntry_of_isIdentStart (by simpa [hn] using hstart) htaken.last, ?_⟩
    have hread := default?_assignment h.name_isIdent htrim hne
    have hevaluate := Literal.evaluate_of_isDefault ht'
    change (default? (p.name ++ ' ' :: '=' :: ' ' :: t')).map _ = _
    rw [hread, Option.map_some, Option.map_some, Prod.map_apply, hevaluate]
    rfl

theorem exists_entries (h : ∀ p ∈ ps, p.WellFormed) :
    ∃ es, List.Forall₂ (fun e e' => Takes 0 e e' ∧ IsEntry e') (ps.map Parameter.entry) es ∧
      (es.filterMap default?).map (Prod.map id Literal.evaluate) =
        ps.filterMap Parameter.given := by
  induction ps with
  | nil => exact ⟨[], .nil, rfl⟩
  | cons p ps ih =>
    obtain ⟨e, htakes, hentry, hgiven⟩ := exists_takes_entry (h p (by simp))
    obtain ⟨es, hes, hrest⟩ := ih fun q hq => h q (List.mem_cons_of_mem p hq)
    refine ⟨e :: es, .cons ⟨htakes, hentry⟩ hes, ?_⟩
    rw [List.filterMap_cons, List.filterMap_cons, ← hgiven]
    cases default? e with
    | none => exact hrest
    | some found => rw [List.map_cons, hrest, Option.map_some]

/-! ## Source texts -/

/-- What stands between the braces of the destructured parameter. -/
def block (ps : List Parameter) : Text :=
  ' ' :: (Text.join [',', ' '] (ps.map Parameter.entry) ++ [' '])

/-- The parts of a source text that its parameters do not tell. -/
structure Style where
  /-- The blanks before each line of the interface. -/
  indent : Text
  /-- The blanks between the interface and the component. -/
  gap : Text
  /-- The blanks at the end. -/
  ending : Text

structure Style.WellFormed (style : Style) : Prop where
  indent : Interface.IsIndent style.indent
  gap : style.gap.all Text.isBlank = true
  ending : style.ending.all Text.isBlank = true

def interfaceName (component : Text) : Text := component ++ "Props".toList

/-- The interface with the properties of a component. -/
def interfaceOf (component : Text) (ps : List Parameter) : Interface.Declaration :=
  ⟨false, interfaceName component, ps.map Parameter.property⟩

/-- What stands before the component. -/
def lead (style : Style) (component : Text) (ps : List Parameter) : Text :=
  (interfaceOf component ps).text style.indent ++ (style.gap ++ "export default ".toList)

/-- What stands behind the brace that closes the destructured parameter. -/
def close (style : Style) (component : Text) : Text :=
  ':' :: ' ' :: (interfaceName component ++ ')' :: ' ' :: '{' :: '}' :: style.ending)

/-- The source text of a component. -/
def sourceText (style : Style) (component : Text) (ps : List Parameter) : Text :=
  lead style component ps ++ (opening component ++ (block ps ++ '}' :: close style component))

example : sourceText ⟨"  ".toList, "\n".toList, []⟩ "Card".toList
    [⟨"tone".toList, true, .string, some ("'calm'".toList, .scalar (.string "calm".toList))⟩,
      ⟨"sizes".toList, false, .numbers, none⟩] =
    "interface CardProps \x7b\n  tone?: string;\n  sizes: number[];\n\x7d\n".toList ++
      "export default function Card(\x7b tone = 'calm', sizes \x7d: CardProps) \x7b\x7d".toList := by
  decide +kernel

theorem isIdent_interfaceName (hname : Text.isIdent component = true) :
    Text.isIdent (interfaceName component) = true := by
  obtain ⟨n, name, rfl⟩ := List.exists_cons_of_ne_nil fun hnil : component = [] => by
    rw [hnil] at hname
    cases hname
  obtain ⟨hn, hrest⟩ := Bool.and_eq_true_iff.1 hname
  have hprops : "Props".toList.all Text.isIdentRest = true := by decide
  rw [interfaceName, List.cons_append, Text.isIdent, List.all_append, hn, hrest, hprops]
  rfl

theorem getLast?_interfaceName (component : Text) :
    (interfaceName component).getLast? = some 's' := by
  rw [interfaceName, List.getLast?_append]
  rfl

theorem interfaceName_not_definition (component : Text) :
    ¬ "function".toList <:+ interfaceName component ∧
      ¬ "const".toList <:+ interfaceName component := by
  have hnot : ∀ (word : Text) (n : Char), word.getLast? = some n → n ≠ 's' →
      ¬ word <:+ interfaceName component := by
    rintro word n hn hne ⟨before, hbefore⟩
    have hlast := getLast?_interfaceName component
    rw [← hbefore, List.getLast?_append, hn] at hlast
    exact hne (Option.some.inj hlast)
  exact ⟨hnot _ 'n' rfl (by decide), hnot _ 't' rfl (by decide)⟩

theorem wellFormed_interfaceOf (hname : Text.isIdent component = true)
    (h : ∀ p ∈ ps, p.WellFormed) : (interfaceOf component ps).WellFormed := by
  refine ⟨isIdent_interfaceName hname, fun q hq => ?_⟩
  obtain ⟨p, hp, rfl⟩ := List.mem_map.1 hq
  exact (h p hp).property

/-! ## The block that is found -/

theorem braceless_of_isIdent (h : Text.isIdent c = true) : Braceless c :=
  braceless_of_forall (p := Text.isIdentRest) (by decide) fun _ => Text.isIdentRest_of_mem h

theorem loose_entry (h : p.WellFormed) : Loose p.entry := by
  refine (loose_of_braceless (braceless_of_isIdent h.name_isIdent)).append ?_
  cases hdefault : p.default with
  | none => exact loose_nil
  | some d =>
    have hvalue : Tame false (' ' :: d.1) :=
      Tame.blanks_append (w := [' ']) rfl (tame_of_isDefault (h.isDefault d hdefault))
    exact (loose_of_braceless ⟨by decide, by decide⟩ : Loose [' ']).append
      (Tame.cons (by decide) (by decide) (by decide) hvalue)

theorem loose_block (h : ∀ p ∈ ps, p.WellFormed) : Loose (block ps) := by
  have hspace : Loose [' '] := loose_of_braceless ⟨by decide, by decide⟩
  have hjoin : Loose (Text.join [',', ' '] (ps.map Parameter.entry)) := by
    induction ps with
    | nil => exact loose_nil
    | cons p ps ih =>
      have hp := loose_entry (h p (by simp))
      have hrest := ih fun q hq => h q (List.mem_cons_of_mem p hq)
      cases ps with
      | nil => exact hp
      | cons q ps =>
        have hcomma : Loose [',', ' '] := loose_of_braceless ⟨by decide, by decide⟩
        exact (hp.append hcomma).append hrest
  exact hspace.append (hjoin.append hspace)

theorem block?_sourceText {style : Style} (hstyle : style.WellFormed)
    (hname : Text.isIdent component = true) (h : ∀ p ∈ ps, p.WellFormed) :
    block? (sourceText style component ps) component = some (block ps) := by
  have hquiet : ∀ s, Quiet (lead style component ps) s := fun s => by
    have hmembers : Plain (interfaceOf component ps).members := by
      intro q hq
      obtain ⟨p, hp, rfl⟩ := List.mem_map.1 hq
      exact ⟨(h p hp).name_isIdent, p.type.text_silent.2⟩
    have hdeclaration := quiet_declaration hstyle.indent (isIdent_interfaceName hname)
      (interfaceName_not_definition component) hmembers
    have hword : ∀ t, Quiet "default".toList (' ' :: t) := fun t =>
      quiet_of_word (List.all_eq_true.1 (by decide)) rfl fun _ => by decide
    refine (hdeclaration _).append ((quiet_of_all_isBlank hstyle.gap _).append ?_)
    exact Quiet.append (p := "export ".toList) (quiet_of_notMem (by decide) (by decide) _)
      ((hword _).append (quiet_of_notMem (p := [' ']) (by decide) (by decide) s))
  have hlast : (lead style component ps).getLast?.any Text.isWord = false := by
    rw [lead, List.getLast?_append, List.getLast?_append]
    rfl
  rw [block?, sourceText, namedBlock?_append hname (hquiet _) hlast]
  change (Bracket.body? (block ps ++ '}' :: close style component)).bind _ = _
  rw [(loose_block h true).body?_append]
  rfl

/-! ## The defaults that are found -/

theorem Defaults.set_eq_setField (d : Defaults) (name expression : Text) :
    d.set name expression = Json.setField name expression d := by
  induction d with
  | nil => rfl
  | cons first d ih => rw [Defaults.set, Json.setField, ih]

theorem Defaults.foldl_set {found : Defaults} (h : (found.map Prod.fst).Nodup) :
    found.foldl (fun (d : Defaults) (name, expression) => d.set name expression) [] = found := by
  have hgo : ∀ before : Defaults, ((before ++ found).map Prod.fst).Nodup →
      found.foldl (fun d (name, expression) => d.set name expression) before =
        before ++ found := by
    clear h
    induction found with
    | nil =>
      intro before _
      rw [List.foldl_nil, List.append_nil]
    | cons first found ih =>
      intro before h
      obtain ⟨name, expression⟩ := first
      have happend : before ++ (name, expression) :: found =
          before ++ [(name, expression)] ++ found := by simp
      have hnew : name ∉ before.map Prod.fst := by
        rw [List.map_append, List.nodup_append] at h
        exact fun hmem => h.2.2 _ hmem _ (by simp) rfl
      rw [List.foldl_cons]
      dsimp only
      rw [Defaults.set_eq_setField, Json.setField_of_notMem hnew, ih _ (happend ▸ h), happend]
  exact hgo [] h

theorem map_fst_given (ps : List Parameter) :
    ((ps.filterMap Parameter.given).map Prod.fst).Sublist (ps.map Parameter.name) := by
  induction ps with
  | nil => exact .slnil
  | cons p ps ih =>
    rw [List.filterMap_cons, Parameter.given]
    cases p.default with
    | none => exact ih.cons _
    | some d => exact ih.cons_cons _

/-- The defaults of a written component are found, in order, and evaluated to their values. -/
theorem defaults_sourceText {style : Style} (hstyle : style.WellFormed)
    (hname : Text.isIdent component = true) (h : ∀ p ∈ ps, p.WellFormed) (hne : ps ≠ [])
    (hnames : (ps.map Parameter.name).Nodup) :
    (defaults (sourceText style component ps) component).map (Prod.map id Literal.evaluate) =
      ps.filterMap Parameter.given := by
  obtain ⟨es, hes, hgiven⟩ := exists_entries h
  have hentries : entries (block ps) = es := by
    have hspace : ∀ s, entriesFrom .empty 0 .code (' ' :: s) = entriesFrom .empty 0 .code s :=
      fun s => (rfl)
    rw [entries, block, hspace, entriesFrom_join hes (by simpa using hne)]
  have hnodup : ((es.filterMap default?).map Prod.fst).Nodup := by
    have hfst : (es.filterMap default?).map Prod.fst =
        ((es.filterMap default?).map (Prod.map id Literal.evaluate)).map Prod.fst := by
      rw [List.map_map]
      rfl
    rw [hfst, hgiven]
    exact (map_fst_given ps).nodup hnames
  rw [defaults, block?_sourceText hstyle hname h]
  dsimp only
  rw [hentries, Defaults.foldl_set hnodup, hgiven]

end PropCatalog.Component
