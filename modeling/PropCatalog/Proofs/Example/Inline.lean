import PropCatalog.Proofs.Example.Shape
import PropCatalog.Proofs.Interface.Comments

/-!
# Inline and named object arrays

The fields of an inline object array are cut at every semicolon and line break between its first
opening and its last closing brace, while the members of an interface are cut where the counter of
brackets is at zero, and comments are dropped. The two readers take the same properties from a body
whose separators are all met at depth zero (`propertiesOf_eq_pieces`): the cuts are the same, and
what is dropped as a comment declares no property. So an inline object array has the shape of an
array of the interface with its body, and the same example (`resolve_inline_eq_named`).
-/

namespace PropCatalog

/-! ## Members that declare nothing -/

namespace Property

variable {member : Text}

theorem declaration?_eq_none (h : member.head?.any Text.isIdentStart = false) :
    declaration? member = none := by
  cases member with
  | nil => rfl
  | cons c s =>
    have hc : Text.isIdentStart c = false := h
    have hword : Text.after? "readonly".toList (c :: s) = none := by
      have hne : 'r' ≠ c := by
        rintro rfl
        cases hc
      exact if_neg hne
    have hident : Text.ident? (c :: s) = none := by
      rw [Text.ident?, hc]
      rfl
    rw [declaration?, hword, Option.bind_none, signature?, hident]
    rfl

theorem ofMember?_eq_none (h : (Text.trim member).head?.any Text.isIdentStart = false) :
    ofMember? member = none := by
  rw [ofMember?, declaration?_eq_none h]
  rfl

end Property

namespace Interface

variable {d : Nat} {body piece s : Text}

theorem head?_of_isComment (h : isComment piece = true) :
    piece.head? = some '/' ∨ piece.head? = some '*' := by
  simp only [isComment, Bool.or_eq_true, Text.startsWith_iff] at h
  rcases h with (⟨s, rfl⟩ | ⟨s, rfl⟩) | ⟨s, rfl⟩
  · exact Or.inl rfl
  · exact Or.inl rfl
  · exact Or.inr rfl

theorem pieceProperty?_eq_ofMember? (piece : Text) :
    pieceProperty? piece = Property.ofMember? piece := by
  unfold pieceProperty?
  split_ifs with hkept
  · rw [Property.ofMember?, Text.trim_trim, ← Property.ofMember?]
  · symm
    apply Property.ofMember?_eq_none
    by_cases hempty : Text.trim piece = []
    · rw [hempty]
      rfl
    · have hcomment : isComment (Text.trim piece) = true := by simpa [hempty] using hkept
      rcases head?_of_isComment hcomment with hhead | hhead
      · rw [hhead]
        rfl
      · rw [hhead]
        rfl

/-! ## Where members are cut -/

/-- Whether the counter of brackets, started at depth `d`, is at zero at every separator. -/
def separatorsOutside : (d : Nat) → Text → Bool
  | _, [] => true
  | d, c :: s => (d = 0 || !decide (IsSeparator c)) && separatorsOutside (Bracket.depth d c) s

theorem memberPieces_eq_pieces (h : separatorsOutside d s = true) :
    memberPieces d s = Text.pieces (fun c => c = ';' || c = '\n') s := by
  induction s generalizing d with
  | nil => rfl
  | cons c s ih =>
    obtain ⟨hzero, hs⟩ := Bool.and_eq_true_iff.1 h
    rw [memberPieces_cons, Text.pieces, ih hs]
    by_cases hc : IsSeparator c
    · have hd : d = 0 := by simpa [hc] using hzero
      have hdepth : Bracket.depth d c = 0 := (depth_of_isSeparator hc d).trans hd
      have hcut : (c = ';' || c = '\n') = true := by simpa [IsSeparator] using hc
      rw [hdepth, hcut]
      rfl
    · have hcut : (c = ';' || c = '\n') = false := by simpa [IsSeparator] using hc
      rw [hcut, Bool.and_false]

/-- Both readers find the same properties. -/
theorem propertiesOf_eq_pieces (h : separatorsOutside 0 body = true) :
    propertiesOf body =
      (Text.pieces (fun c => c = ';' || c = '\n') body).filterMap Property.ofMember? := by
  rw [propertiesOf_eq, memberPieces_eq_pieces h]
  exact List.filterMap_congr fun piece _ => pieceProperty?_eq_ofMember? piece

end Interface

/-! ## Examples -/

namespace Example

variable {table : Interface.Table} {type type' name body : Text} {properties : List Property}

theorem ofType_congr_shape (h : shape table type = shape table type') (levels : Nat) :
    ofType table levels type = ofType table levels type' := by
  cases levels with
  | zero => rfl
  | succ levels => rw [ofType_succ, ofType_succ, h]

/-- The text of an inline object array with the given body. -/
def inlineArray (body : Text) : Text := '{' :: (body ++ ['}', '[', ']'])

theorem trim_inlineArray (body : Text) : Text.trim (inlineArray body) = inlineArray body := by
  apply Text.trim_eq_self
  · rfl
  · rw [inlineArray, ← List.cons_append, List.getLast?_append]
    rfl

theorem inlineProperties_inlineArray (body : Text) :
    inlineProperties (inlineArray body) =
      (Text.pieces (fun c => c = ';' || c = '\n') body).filterMap Property.ofMember? := by
  have hopen : Text.cut? ['{'] (inlineArray body) = some ([], body ++ ['}', '[', ']']) := rfl
  have hclose : Text.cutLast? ['}'] (body ++ ['}', '[', ']']) = some (body, ['[', ']']) := by
    rw [Text.cutLast?_eq_some_iff (by simp)]
    exact ⟨by simp, Text.not_infix_of_notMem (c := '}') (by decide) (by decide)⟩
  rw [inlineProperties, hopen]
  dsimp only
  rw [hclose]

/-- An inline object array has the shape of an array with an object, if a member is read. -/
theorem shape_of_inlineArray (hne : inlineProperties (inlineArray body) ≠ []) :
    shape table (inlineArray body) = .objectArray (inlineProperties (inlineArray body)) := by
  have hnamed : namedArray? (inlineArray body) = none := rfl
  have hcontains : Text.contains ['[', ']'] (inlineArray body) = true :=
    Text.contains_iff.2 ⟨'{' :: (body ++ ['}']), [], by simp [inlineArray]⟩
  obtain ⟨p, properties, hproperties⟩ := List.exists_cons_of_ne_nil hne
  simp only [shape, trim_inlineArray, hnamed, hcontains, hproperties, Option.bind_none]
  rfl

/-- **Inline and named object arrays agree.** If an interface of the table has the properties that
are read in a body with balanced braces, whose separators the counter of brackets meets at zero and
of which at least one member is a property, then the inline object array with this body has the
same example as the array of the interface, for every cap and depth. -/
theorem resolve_inline_eq_named (hname : Text.isIdent name = true)
    (hbraces : Bracket.Balanced '{' '}' body)
    (hseparators : Interface.separatorsOutside 0 body = true)
    (hmember : ∃ member ∈ Interface.members body, Property.ofMember? member ≠ none)
    (hentry : table.get? name =
      Interface.find? (Interface.keyword ++ ' ' :: (name ++ ' ' :: '{' :: (body ++ ['}']))) name)
    (cap depth : Nat) :
    resolve table cap (inlineArray body) depth = resolve table cap (name ++ ['[', ']']) depth := by
  have hfields : inlineProperties (inlineArray body) = Interface.propertiesOf body := by
    rw [inlineProperties_inlineArray, Interface.propertiesOf_eq_pieces hseparators]
  have hget : table.get? name = some (Interface.propertiesOf body) := by
    rw [hentry, Interface.find?_declaration hname, Interface.properties?,
      Bracket.body?_append_iff.2 hbraces]
    rfl
  have hne : inlineProperties (inlineArray body) ≠ [] := by
    obtain ⟨member, hmem, hproperty⟩ := hmember
    obtain ⟨p, hp⟩ := Option.ne_none_iff_exists'.1 hproperty
    rw [hfields]
    exact List.ne_nil_of_mem (List.mem_filterMap.2 ⟨member, hmem, hp⟩)
  have htrim : Text.trim (name ++ ['[', ']']) = name ++ ['[', ']'] := by
    obtain ⟨c, hc, -, hblank⟩ := Text.head?_of_isIdent hname
    apply Text.trim_eq_self
    · rw [List.head?_append, hc]
      exact hblank
    · rw [List.getLast?_append]
      rfl
  have hshape : shape table (inlineArray body) = shape table (name ++ ['[', ']']) := by
    rw [shape_of_inlineArray hne, shape_of_nameArray htrim hname hget, hfields]
  exact ofType_congr_shape hshape _

/-- A body with a comment, a property that is only read, brackets in a type, and a member that
declares no property. -/
def boxBody : Text :=
  "\n// in (px), [1]\nreadonly w: number;\nat?: \x7b x: Q, y: Q \x7d;\n[k: Q]: Q; boxes: Box[]\n".toList

/-- The interface with this body. -/
def boxTable : Interface.Table :=
  ⟨[("Box".toList, [⟨"w".toList, false, "number".toList⟩,
    ⟨"at".toList, true, "\x7b x: Q, y: Q \x7d".toList⟩,
    ⟨"boxes".toList, false, "Box[]".toList⟩])]⟩

theorem resolve_inline_eq_named_box :
    (Text.isIdent "Box".toList = true ∧ Bracket.Balanced '{' '}' boxBody ∧
      Interface.separatorsOutside 0 boxBody = true ∧
      (∃ member ∈ Interface.members boxBody, Property.ofMember? member ≠ none) ∧
      boxTable.get? "Box".toList = Interface.find? (Interface.keyword ++
        ' ' :: ("Box".toList ++ ' ' :: '{' :: (boxBody ++ ['}']))) "Box".toList) ∧
    resolve boxTable 3 (inlineArray boxBody) 1 = resolve boxTable 3 ("Box".toList ++ ['[', ']']) 1 := by
  have hbraces : Bracket.Balanced '{' '}' boxBody :=
    (Bracket.body?_append_iff (b := [])).1 (by decide +kernel)
  have hseparators : Interface.separatorsOutside 0 boxBody = true := by decide +kernel
  have hmember : ∃ member ∈ Interface.members boxBody, Property.ofMember? member ≠ none :=
    ⟨"boxes: Box[]".toList, by decide +kernel, by decide +kernel⟩
  have hentry : boxTable.get? "Box".toList = Interface.find? (Interface.keyword ++
      ' ' :: ("Box".toList ++ ' ' :: '{' :: (boxBody ++ ['}']))) "Box".toList := by
    decide +kernel
  exact ⟨⟨by decide, hbraces, hseparators, hmember, hentry⟩,
    resolve_inline_eq_named (by decide) hbraces hseparators hmember hentry 3 1⟩

end Example

end PropCatalog
