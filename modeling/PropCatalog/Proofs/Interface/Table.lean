import PropCatalog.Proofs.Interface.Declarations

/-!
# The table and the lookup of a name

The table of a source text takes every name that is declared, in the order of the declarations, and
looks each of them up. So it holds what the lookup of a name gives, for every name that can be
declared (`get?_ofSource`): a name that is found has a head in the text, and the table has the names
of all heads.
-/

namespace PropCatalog.Interface

variable {name other : Text}

/-- The table with the interface of a name, if the lookup of the name gives one. -/
def Table.addFound (content : Text) (table : Table) (name : Text) : Table :=
  match find? content name with
  | some properties => table.insertNew name properties
  | none => table

theorem Table.ofSource_eq_foldl (content : Text) :
    Table.ofSource content = (declaredNames content).foldl (Table.addFound content) ⟨[]⟩ := rfl

theorem Table.get?_insertNew (table : Table) (properties : List Property) :
    (table.insertNew name properties).get? other =
      (table.get? other).or (if other = name then some properties else none) := by
  unfold insertNew
  split
  next htaken =>
    by_cases hsame : other = name
    · obtain ⟨found, hfound⟩ := Option.isSome_iff_exists.1 htaken
      rw [hsame, hfound]
      rfl
    · rw [if_neg hsame, Option.or_none]
  next =>
    rw [get?, get?, List.lookup_append, List.lookup_cons]
    by_cases hsame : other = name
    · rw [if_pos hsame, beq_iff_eq.2 hsame]
    · rw [if_neg hsame, beq_eq_false_iff_ne.2 hsame]
      rfl

theorem Table.get?_addFound (content : Text) (table : Table) :
    (table.addFound content name).get? other =
      (table.get? other).or (if other = name then find? content other else none) := by
  unfold addFound
  cases hfound : find? content name with
  | some properties =>
    rw [get?_insertNew]
    by_cases hsame : other = name
    · rw [if_pos hsame, if_pos hsame, hsame, hfound]
    · rw [if_neg hsame, if_neg hsame]
  | none =>
    by_cases hsame : other = name
    · rw [if_pos hsame, hsame, hfound, Option.or_none]
    · rw [if_neg hsame, Option.or_none]

theorem Table.get?_foldl_addFound (content : Text) (names : List Text) (table : Table) :
    (names.foldl (Table.addFound content) table).get? other =
      (table.get? other).or (if other ∈ names then find? content other else none) := by
  induction names generalizing table with
  | nil => rw [List.foldl_nil, if_neg List.not_mem_nil, Option.or_none]
  | cons name names ih =>
    rw [List.foldl_cons, ih, get?_addFound, Option.or_assoc]
    congr 1
    by_cases hsame : other = name
    · rw [if_pos hsame, if_pos (List.mem_cons.2 (Or.inl hsame))]
      cases find? content other with
      | some properties => rfl
      | none => simp
    · rw [if_neg hsame, Option.none_or]
      simp [hsame]

theorem find?_eq_none_of_notMem {content : Text} (hname : Text.isIdent name = true)
    (h : name ∉ declaredNames content) : find? content name = none := by
  have hlookup : (declarations none content).lookup name = none := by
    rw [List.lookup_eq_none_iff]
    intro found hfound
    rw [bne_iff_ne]
    rintro rfl
    exact h (List.mem_map_of_mem hfound)
  rw [find?_eq_lookup hname, hlookup]
  rfl

/-- **The table of a source text and the lookup of a name agree.** For every text, the table holds
for a name what the lookup of the name finds, the properties or nothing, and it holds no name that
is no identifier. -/
theorem get?_ofSource (content : Text) :
    (∀ name, Text.isIdent name = true →
      (Table.ofSource content).get? name = find? content name) ∧
    ∀ name, (Table.ofSource content).contains name = true → Text.isIdent name = true := by
  have hget : ∀ name, (Table.ofSource content).get? name =
      if name ∈ declaredNames content then find? content name else none := by
    intro name
    rw [Table.ofSource_eq_foldl, Table.get?_foldl_addFound]
    rfl
  constructor
  · intro name hname
    rw [hget]
    split
    next => rfl
    next hnone => exact (find?_eq_none_of_notMem hname hnone).symm
  · intro name hcontains
    rw [Table.contains, hget] at hcontains
    split at hcontains
    next hmem =>
      obtain ⟨⟨name, rest⟩, hdeclared, rfl⟩ := List.mem_map.1 hmem
      exact isIdent_of_mem_declarations hdeclared
    next => cases hcontains

/-- A source with a declaration in a comment, one in the body of another that is not closed, and a
name that ends with the keyword. -/
def tangledSource : Text :=
  "/* interface A \x7b a: string \x7d */\ninterface x$interface \x7b b?: A \x7d
interface B \x7b interface A \x7b \x7d interface C \x7b \x7d".toList

/-- The table has the first declaration of `A`, in the comment, and no `B`, which is not closed. -/
theorem get?_ofSource_tangled :
    (Text.isIdent "A".toList = true ∧ Text.isIdent "B".toList = true) ∧
    (Table.ofSource tangledSource).get? "A".toList =
      some [⟨"a".toList, false, "string".toList⟩] ∧
    (Table.ofSource tangledSource).get? "B".toList = none := by
  refine ⟨by decide, ?_, ?_⟩
  · rw [(get?_ofSource tangledSource).1 _ (by decide)]
    decide +kernel
  · rw [(get?_ofSource tangledSource).1 _ (by decide)]
    decide +kernel

end PropCatalog.Interface
