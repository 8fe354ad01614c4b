import PropCatalog.Component.Defaults
import PropCatalog.Proofs.Interface.RoundTrip

/-!
# The definition of a component

The definition of a component is searched for from the start of the source text, by one of the words
`function` and `const` with a blank behind it. In a written interface no such word stands before a
blank (`quiet_declaration`), whatever the names are: behind the name of a property comes a question
mark or a colon, and the types hold none of the first letters. So the definition is found behind it.
-/

namespace PropCatalog.Component

open Interface (IsIndent bodyLines bodyLines_cons)

variable {indent name p q rest s t : Text} {members : List Property}

/-! ## Where no definition starts -/

/-- A text starts with a word of a definition and a blank. -/
def StartsDefinition (t : Text) : Prop :=
  ∃ word c rest, (word = "function".toList ∨ word = "const".toList) ∧ Text.isBlank c = true ∧
    t = word ++ c :: rest

theorem startsDefinition_of_definition? {name? : Text → Option Text} {before : Option Char}
    (h : definition? name? before t = some rest) : StartsDefinition t := by
  have hblank : ∀ {k : Text → Option Text} {u : Text}, Text.afterBlanks? k u = some rest →
      ∃ c v, Text.isBlank c = true ∧ u = c :: v := by
    intro k u hu
    obtain ⟨blanks, v, rfl, hne, hblanks, -⟩ := Text.afterBlanks?_eq_some hu
    obtain ⟨c, blanks, rfl⟩ := List.exists_cons_of_ne_nil hne
    exact ⟨c, blanks ++ v, List.all_eq_true.1 hblanks c (by simp), rfl⟩
  rw [definition?] at h
  split at h
  · split at h
    next u hu =>
      obtain ⟨c, v, hc, rfl⟩ := hblank h
      exact ⟨_, c, v, .inl rfl, hc, Text.after?_eq_some_iff.1 hu⟩
    next =>
      split at h
      next u hu =>
        obtain ⟨c, v, hc, rfl⟩ := hblank h
        exact ⟨_, c, v, .inr rfl, hc, Text.after?_eq_some_iff.1 hu⟩
      next => cases h
  · cases h

/-- No definition starts at a character of `p` in the text `p ++ s`. -/
def Quiet (p s : Text) : Prop := Text.Along (fun t => ¬ StartsDefinition t) p s

theorem Quiet.append (hp : Quiet p (q ++ s)) (hq : Quiet q s) : Quiet (p ++ q) s :=
  Text.Along.append hp hq

theorem quiet_of_notMem (hf : 'f' ∉ p) (hc : 'c' ∉ p) (s : Text) : Quiet p s := by
  rintro a b rfl hb ⟨word, c, rest, hword, -, hstart⟩
  obtain ⟨d, b, rfl⟩ := List.exists_cons_of_ne_nil hb
  rcases hword with rfl | rfl
  · obtain rfl : d = 'f' := (List.cons.inj hstart).1
    exact hf (by simp)
  · obtain rfl : d = 'c' := (List.cons.inj hstart).1
    exact hc (by simp)

theorem quiet_of_word (hp : ∀ c ∈ p, Text.isIdentRest c = true)
    (hend : s.head?.any Text.isIdentRest = false)
    (hblank : s.head?.any Text.isBlank = true →
      ¬ "function".toList <:+ p ∧ ¬ "const".toList <:+ p) : Quiet p s := by
  rintro a b rfl - ⟨word, c, rest, hword, hc, hstart⟩
  have hrest : ∀ d ∈ word, Text.isIdentRest d = true := by
    rcases hword with rfl | rfl <;> exact List.all_eq_true.1 (by decide)
  have hstop : (c :: rest).head?.any Text.isIdentRest = false := by
    simpa using Text.isIdentRest_of_isBlank hc
  -- both sides are a word and what comes behind it
  obtain ⟨htake, hdrop⟩ := Text.span_append (fun d hd => hp d (List.mem_append_right a hd)) hend
  obtain ⟨htake', hdrop'⟩ := Text.span_append hrest hstop
  obtain rfl : b = word := by rw [← htake, hstart, htake']
  obtain rfl : s = c :: rest := by rw [← hdrop, hstart, hdrop']
  obtain ⟨hfunction, hconst⟩ := hblank (by simpa using hc)
  rcases hword with rfl | rfl
  · exact hfunction (List.suffix_append a _)
  · exact hconst (List.suffix_append a _)

/-! ## Interfaces -/

theorem quiet_of_all_isBlank (hp : p.all Text.isBlank = true) (s : Text) : Quiet p s := by
  refine quiet_of_notMem (fun hmem => ?_) (fun hmem => ?_) s
  · exact absurd (List.all_eq_true.1 hp _ hmem) (by decide)
  · exact absurd (List.all_eq_true.1 hp _ hmem) (by decide)

/-- The names of properties are identifiers, and their types hold none of the letters that a
definition starts with. -/
def Plain (members : List Property) : Prop :=
  ∀ p ∈ members, Text.isIdent p.name = true ∧ 'f' ∉ p.type ∧ 'c' ∉ p.type

theorem quiet_bodyLines (hindent : IsIndent indent) (h : Plain members) (s : Text) :
    Quiet (bodyLines indent members) s := by
  induction members with
  | nil => exact Text.Along.nil _ s
  | cons p members ih =>
    obtain ⟨hname, hf, hc⟩ := h p (by simp)
    have hmark : ∀ c t, c = '?' ∨ c = ':' → Quiet p.name (c :: t) := by
      rintro c t (rfl | rfl)
      · exact quiet_of_word (fun c => Text.isIdentRest_of_mem hname) rfl nofun
      · exact quiet_of_word (fun c => Text.isIdentRest_of_mem hname) rfl nofun
    have hline : ∀ s : Text, Quiet p.line s := fun s => by
      rw [Property.line]
      cases p.optional with
      | true =>
        exact (hmark _ _ (.inl rfl)).append (quiet_of_notMem (by simp [hf]) (by simp [hc]) s)
      | false =>
        exact (hmark _ _ (.inr rfl)).append (quiet_of_notMem (by simp [hf]) (by simp [hc]) s)
    rw [bodyLines_cons]
    refine Quiet.append ?_ (ih fun q hq => h q (List.mem_cons_of_mem p hq))
    exact (quiet_of_all_isBlank hindent.all_isBlank _).append
      ((hline _).append (quiet_of_notMem (by decide) (by decide) _))

theorem quiet_declaration {d : Interface.Declaration} (hindent : IsIndent indent)
    (hname : Text.isIdent d.name = true)
    (hend : ¬ "function".toList <:+ d.name ∧ ¬ "const".toList <:+ d.name)
    (hmembers : Plain d.members) (s : Text) : Quiet (d.text indent) s := by
  have hexport : Quiet (if d.exported then "export ".toList else []) (Interface.keyword ++ ' ' ::
      (d.name ++ ' ' :: '{' :: ('\n' :: bodyLines indent d.members ++ ['}'])) ++ s) :=
    quiet_of_notMem (by cases d.exported <;> decide) (by cases d.exported <;> decide) _
  have hkeyword : ∀ t : Text, Quiet Interface.keyword (' ' :: t) := fun t =>
    quiet_of_word (List.all_eq_true.1 (by decide)) rfl fun _ => by decide
  have hspace : ∀ t : Text, Quiet [' '] t := quiet_of_notMem (by decide) (by decide)
  have hnamed : ∀ t : Text, Quiet d.name (' ' :: t) := fun t =>
    quiet_of_word (fun c => Text.isIdentRest_of_mem hname) rfl fun _ => hend
  have hbody : Quiet (' ' :: '{' :: ('\n' :: bodyLines indent d.members ++ ['}'])) s :=
    Quiet.append (p := [' ', '{', '\n']) (quiet_of_notMem (by decide) (by decide) _)
      ((quiet_bodyLines hindent hmembers _).append (quiet_of_notMem (by decide) (by decide) s))
  exact hexport.append ((hkeyword _).append ((hspace _).append ((hnamed _).append hbody)))

/-! ## The definition that is found -/

/-- The definition of a function up to the brace that opens its destructured parameter. -/
def opening (name : Text) : Text :=
  "function".toList ++ ' ' :: (name ++ ['(', '{'])

theorem opening_append (name rest : Text) :
    opening name ++ rest = "function".toList ++ ' ' :: (name ++ '(' :: '{' :: rest) := by
  have happend : ∀ word : Text, word ++ ' ' :: (name ++ ['(', '{']) ++ rest =
      word ++ ' ' :: (name ++ '(' :: '{' :: rest) := fun word => by simp
  exact happend _

theorem definition?_opening {before : Option Char} (hname : Text.isIdent name = true)
    (hbefore : before.any Text.isWord = false) (rest : Text) :
    definition? (Text.after? name) before (opening name ++ rest) = some rest := by
  have hboundary : Text.isBoundary before (opening name ++ rest) = true := by
    rw [Text.isBoundary, hbefore]
    rfl
  have hblank : ∀ c s, Text.isBlank c = true →
      (Text.after? name (c :: s)).bind functionBlock? = none := by
    intro c s hc
    rw [Text.after?_eq_none_of_isBlank hname hc, Option.bind_none]
  have htrim : Text.trimStart (' ' :: (name ++ '(' :: '{' :: rest)) =
      name ++ '(' :: '{' :: rest := by
    obtain ⟨n, hn, -, hnblank⟩ := Text.head?_of_isIdent hname
    have hspace : [' '].all Text.isBlank = true := rfl
    exact Text.trimStart_append hspace (by simp [hn, hnblank])
  have hspace : (' ' :: (name ++ '(' :: '{' :: rest)).head?.any Text.isBlank = true := rfl
  rw [definition?, if_pos hboundary, opening_append, Text.after?_append]
  dsimp only
  rw [Text.afterBlanks?_eq hblank, if_pos hspace, htrim, Text.after?_append, Option.bind_some]
  rfl

/-- The definition of a component is found behind a text in which none starts. -/
theorem namedBlock?_append (hname : Text.isIdent name = true) (hp : Quiet p (opening name ++ rest))
    (hlast : p.getLast?.any Text.isWord = false) :
    namedBlock? (p ++ (opening name ++ rest)) name = some rest := by
  have hpass : ∀ a b, p = a ++ b → b ≠ [] → ∀ before,
      definition? (Text.after? name) before (b ++ (opening name ++ rest)) = none := by
    intro a b hab hb before
    rw [Option.eq_none_iff_forall_ne_some]
    exact fun found hfound => hp a b hab hb (startsDefinition_of_definition? hfound)
  have hfound : Text.search (definition? (Text.after? name)) (p.getLast?.or none)
      (opening name ++ rest) = some ([], rest) := by
    have hhere : definition? (Text.after? name) (p.getLast?.or none) (opening name ++ rest) =
        some rest := definition?_opening hname (by rwa [Option.or_none]) rest
    exact Text.search_eq_of_eq_some hhere
  rw [namedBlock?, Text.search_append hpass, hfound]
  rfl

end PropCatalog.Component
