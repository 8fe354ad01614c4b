import PropCatalog.Document.Region
import PropCatalog.Proofs.Text.Lines
import PropCatalog.Text.Utf8
import Mathlib.Algebra.Ring.Parity
import Mathlib.Data.Nat.Find

/-!
# The section under a heading, line by line

The search for a legacy section goes through the lines once and turns a flag over at each fence. Here
the lines are told apart without it: a line is fenced off if an odd number of fences stands above it,
or if it is one itself (`FencedOff`). The section then starts at the first line that shows the
heading, and ends at the next one that shows a heading of the same or a higher level
(`sectionSpan?_by_lines`).

A search is the one from the top (`cutAtLine?_eq_some_iff`), started with the flag that the lines
above have left. Where a section starts the flag is off, so the search for its end is again one from
the top, of the lines below (`shows_drop`).
-/

namespace PropCatalog

namespace Text

variable {line s : Text}

theorem ne_nil_of_mem_lines (h : line ∈ lines s) : line ≠ [] := by
  obtain ⟨a, -, rfl | ⟨rfl, hne⟩⟩ := exists_of_mem_lines h
  · simp
  · exact hne

theorem utf8Length_pos (h : s ≠ []) : 0 < utf8Length s := by
  obtain ⟨c, s, rfl⟩ := List.exists_cons_of_ne_nil h
  have hc := Char.utf8Size_pos c
  rw [utf8Length]
  omega

theorem length_toUtf8 (s : Text) : (toUtf8 s).length = utf8Length s := by
  induction s with
  | nil => rfl
  | cons c s ih =>
    have hcons : toUtf8 (c :: s) = String.utf8EncodeChar c ++ toUtf8 s := rfl
    rw [hcons, List.length_append, String.length_utf8EncodeChar, ih, utf8Length]

theorem toUtf8_append (a b : Text) : toUtf8 (a ++ b) = toUtf8 a ++ toUtf8 b :=
  List.flatMap_append

end Text

namespace Document

variable {p : Text → Bool} {fenced : Bool} {document heading line : Text} {lines rest : List Text}
  {above below : List Text} {P : Nat → Prop} {i j k s e : Nat}

/-! ## Lines that show something -/

/-- A line is fenced off if an odd number of fences stands above it, or if it is a fence. -/
def FencedOff (lines : List Text) (i : Nat) : Prop :=
  Odd ((lines.take i).countP isFence) ∨ ∃ line, lines[i]? = some line ∧ isFence line = true

/-- The line is not fenced off, and without the blanks around it it satisfies `p`. -/
def Shows (p : Text → Bool) (lines : List Text) (i : Nat) : Prop :=
  ¬ FencedOff lines i ∧ ∃ line, lines[i]? = some line ∧ p (Text.trim line) = true

instance (lines : List Text) (i : Nat) : Decidable (FencedOff lines i) :=
  decidable_of_iff (Odd ((lines.take i).countP isFence) ∨ lines[i]?.any isFence = true) <| by
    rw [FencedOff, Option.any_eq_true]

instance (p : Text → Bool) (lines : List Text) (i : Nat) : Decidable (Shows p lines i) :=
  decidable_of_iff (¬ FencedOff lines i ∧ lines[i]?.any (fun line => p (Text.trim line)) = true) <| by
    rw [Shows, Option.any_eq_true]

/-- The line shows something when the lines start inside a code block or not. -/
def ShowsFrom (fenced : Bool) (p : Text → Bool) (lines : List Text) (i : Nat) : Prop :=
  ∃ line, lines[i]? = some line ∧ isFence line = false ∧
    Even (fenced.toNat + (lines.take i).countP isFence) ∧ p (Text.trim line) = true

theorem showsFrom_false : ShowsFrom false p lines = Shows p lines := by
  funext i
  rw [Shows, FencedOff, not_or, Nat.not_odd_iff_even, eq_iff_iff]
  constructor
  · rintro ⟨line, hline, hfence, heven, hp⟩
    refine ⟨⟨by simpa using heven, ?_⟩, line, hline, hp⟩
    rintro ⟨other, hother, hfence'⟩
    obtain rfl : line = other := Option.some.inj (hline.symm.trans hother)
    rw [hfence] at hfence'
    cases hfence'
  · rintro ⟨⟨heven, hfence⟩, line, hline, hp⟩
    refine ⟨line, hline, Bool.eq_false_iff.2 fun hf => hfence ⟨line, hline, hf⟩, ?_, hp⟩
    simpa using heven

theorem showsFrom_cons_zero : ShowsFrom fenced p (line :: rest) 0 ↔
    fenced = false ∧ isFence line = false ∧ p (Text.trim line) = true := by
  cases fenced <;> simp [ShowsFrom]

theorem showsFrom_cons_succ : ShowsFrom fenced p (line :: rest) (i + 1) ↔
    ShowsFrom (fenced ^^ isFence line) p rest i := by
  have hcount : Even (fenced.toNat + ((line :: rest).take (i + 1)).countP isFence) ↔
      Even ((fenced ^^ isFence line).toNat + (rest.take i).countP isFence) := by
    rw [List.take_succ_cons, List.countP_cons]
    cases fenced <;> cases isFence line <;> simp [Nat.even_add_one, parity_simps]
  simp only [ShowsFrom, List.getElem?_cons_succ, hcount]

/-! ## The search for a line -/

/-- The first number from `k` on with a property. -/
structure IsNext (P : Nat → Prop) (k i : Nat) : Prop where
  le : k ≤ i
  holds : P i
  not_before : ∀ m, k ≤ m → m < i → ¬ P m

theorem isNext_zero_iff (h : P 0) : IsNext P 0 i ↔ i = 0 := by
  constructor
  · intro hi
    by_contra hne
    exact hi.not_before 0 le_rfl (Nat.pos_of_ne_zero hne) h
  · rintro rfl
    exact ⟨le_rfl, h, fun m _ hm => absurd hm (Nat.not_lt_zero m)⟩

theorem isNext_add_iff : IsNext P k (k + i) ↔ IsNext (fun n => P (k + n)) 0 i := by
  constructor
  · intro h
    exact ⟨Nat.zero_le i, h.holds, fun m _ hm => h.not_before (k + m) (by omega) (by omega)⟩
  · intro h
    refine ⟨by omega, h.holds, fun m hk hm => ?_⟩
    obtain ⟨m, rfl⟩ := Nat.exists_eq_add_of_le hk
    exact h.not_before m (Nat.zero_le m) (by omega)

theorem isNext_succ_iff (h : ¬ P 0) : IsNext P 0 (i + 1) ↔ IsNext (fun n => P (n + 1)) 0 i := by
  constructor
  · intro hi
    exact ⟨Nat.zero_le i, hi.holds, fun m _ hm => hi.not_before (m + 1) (by omega) (by omega)⟩
  · intro hi
    refine ⟨by omega, hi.holds, fun m _ hm => ?_⟩
    cases m with
    | zero => exact h
    | succ m => exact hi.not_before m (Nat.zero_le m) (by omega)

theorem IsNext.unique (hi : IsNext P k i) (hj : IsNext P k j) : i = j := by
  rcases Nat.lt_trichotomy i j with hlt | heq | hlt
  · exact absurd hi.holds (hj.not_before i hi.le hlt)
  · exact heq
  · exact absurd hj.holds (hi.not_before j hj.le hlt)

theorem cutAtLine?_cons (p : Text → Bool) (fenced : Bool) (line : Text) (rest : List Text) :
    cutAtLine? p fenced (line :: rest) =
      if fenced = false ∧ isFence line = false ∧ p (Text.trim line) = true then
        some ([], line :: rest)
      else (cutAtLine? p (fenced ^^ isFence line) rest).map fun (a, b) => (line :: a, b) := by
  rw [cutAtLine?]
  cases fenced <;> cases isFence line <;> simp

/-- A search cuts at the first line that shows what it looks for. -/
theorem cutAtLine?_eq_some_iff : cutAtLine? p fenced lines = some (above, below) ↔
    ∃ i, IsNext (ShowsFrom fenced p lines) 0 i ∧ above = lines.take i ∧ below = lines.drop i := by
  induction lines generalizing fenced above with
  | nil =>
    rw [cutAtLine?]
    constructor
    · intro h
      cases h
    · rintro ⟨i, ⟨-, ⟨line, hline, -⟩, -⟩, -⟩
      cases hline
  | cons line rest ih =>
    by_cases hhere : ShowsFrom fenced p (line :: rest) 0
    · rw [cutAtLine?_cons, if_pos (showsFrom_cons_zero.1 hhere)]
      simp only [isNext_zero_iff hhere, exists_eq_left, List.take_zero, List.drop_zero,
        Option.some.injEq, Prod.mk.injEq, eq_comm]
    · rw [cutAtLine?_cons, if_neg fun h => hhere (showsFrom_cons_zero.2 h)]
      -- the line is passed over, and the lines count from the next one on
      simp only [Option.map_eq_some_iff, Prod.mk.injEq, Prod.exists]
      constructor
      · rintro ⟨a, b, hcut, rfl, rfl⟩
        obtain ⟨i, hi, rfl, rfl⟩ := ih.1 hcut
        refine ⟨i + 1, (isNext_succ_iff hhere).2 ?_, rfl, rfl⟩
        simpa only [showsFrom_cons_succ] using hi
      · rintro ⟨i, hi, rfl, rfl⟩
        cases i with
        | zero => exact absurd hi.holds hhere
        | succ i =>
          have hi := (isNext_succ_iff hhere).1 hi
          simp only [showsFrom_cons_succ] at hi
          exact ⟨_, _, ih.2 ⟨i, hi, rfl, rfl⟩, rfl, rfl⟩

theorem exists_isNext (h : P i) (hk : k ≤ i) : ∃ j, IsNext P k j := by
  classical
  have hex : ∃ n, k ≤ n ∧ P n := ⟨i, hk, h⟩
  obtain ⟨hle, hholds⟩ := Nat.find_spec hex
  exact ⟨Nat.find hex, hle, hholds, fun m hm hlt hp => Nat.find_min hex hlt ⟨hm, hp⟩⟩

theorem cutAtLine?_eq_none_iff : cutAtLine? p fenced lines = none ↔
    ∀ i, ¬ ShowsFrom fenced p lines i := by
  constructor
  · intro hnone i hi
    obtain ⟨j, hj⟩ := exists_isNext hi (Nat.zero_le i)
    rw [cutAtLine?_eq_some_iff.2 ⟨j, hj, rfl, rfl⟩] at hnone
    cases hnone
  · intro h
    rw [Option.eq_none_iff_forall_ne_some]
    rintro ⟨above, below⟩ hcut
    obtain ⟨i, hi, -⟩ := cutAtLine?_eq_some_iff.1 hcut
    exact h i hi.holds

theorem shows_drop (h : ¬ FencedOff lines i) :
    Shows p (lines.drop (i + 1)) k ↔ Shows p lines (i + 1 + k) := by
  rw [FencedOff, not_or, Nat.not_odd_iff_even] at h
  obtain ⟨heven, hfence⟩ := h
  have htop : Even ((lines.take (i + 1)).countP isFence) := by
    rw [List.take_add_one, List.countP_append]
    cases hline : lines[i]? with
    | none => simpa using heven
    | some line =>
      have hplain : isFence line = false := Bool.eq_false_iff.2 fun hf => hfence ⟨line, hline, hf⟩
      simpa [hplain] using heven
  have hcount : Even ((lines.take (i + 1 + k)).countP isFence) ↔
      Even (((lines.drop (i + 1)).take k).countP isFence) := by
    rw [List.take_add, List.countP_append, Nat.even_add, iff_true_left htop]
  rw [← showsFrom_false, ← showsFrom_false, ShowsFrom, ShowsFrom]
  simp only [List.getElem?_drop, Bool.toNat_false, Nat.zero_add, hcount]

/-! ## Sections -/

/-- A heading that ends a section of the level. -/
def endsSection (level : Nat) (line : Text) : Bool :=
  (headingLevel? line).any (· ≤ level)

/-- The section under a heading of a level has the lines from `i` up to `j`. -/
structure IsSectionRange (heading : Text) (level : Nat) (lines : List Text) (i j : Nat) : Prop where
  /-- It starts at the first line that shows the heading. -/
  first : IsNext (Shows (Text.startsWith heading) lines) 0 i
  /-- It ends at the next line that shows a heading of the same or a higher level, if there is one. -/
  last : IsNext (Shows (endsSection level) lines) (i + 1) j ∨
    j = lines.length ∧ ∀ m, i + 1 ≤ m → ¬ Shows (endsSection level) lines m

theorem Shows.lt_length (h : Shows p lines i) : i < lines.length := by
  obtain ⟨-, line, hline, -⟩ := h
  exact (List.getElem?_eq_some_iff.1 hline).1

namespace IsSectionRange

variable {level : Nat} {title : Text}

theorem lt_length (h : IsSectionRange title level lines i j) : i < lines.length :=
  h.first.holds.lt_length

theorem lt (h : IsSectionRange title level lines i j) : i < j := by
  rcases h.last with hnext | ⟨rfl, -⟩
  · exact hnext.le
  · exact h.lt_length

theorem le_length (h : IsSectionRange title level lines i j) : j ≤ lines.length := by
  rcases h.last with hnext | ⟨rfl, -⟩
  · exact Nat.le_of_lt hnext.holds.lt_length
  · exact le_rfl

theorem unique {i' j' : Nat} (h : IsSectionRange title level lines i j)
    (h' : IsSectionRange title level lines i' j') : i = i' ∧ j = j' := by
  obtain rfl := h.first.unique h'.first
  refine ⟨rfl, ?_⟩
  rcases h.last with hnext | ⟨rfl, hnone⟩ <;> rcases h'.last with hnext' | ⟨rfl, hnone'⟩
  · exact hnext.unique hnext'
  · exact absurd hnext.holds (hnone' j hnext.le)
  · exact absurd hnext'.holds (hnone j' hnext'.le)
  · rfl

end IsSectionRange

theorem exists_isSectionRange (level : Nat) {title : Text}
    (hfirst : IsNext (Shows (Text.startsWith title) lines) 0 i) :
    ∃ j, IsSectionRange title level lines i j ∧
      (cutAtLine? (endsSection level) false (lines.drop (i + 1))).getD (lines.drop (i + 1), []) =
        ((lines.take j).drop (i + 1), lines.drop j) := by
  have hbelow : ∀ k, Shows (endsSection level) (lines.drop (i + 1)) k ↔
      Shows (endsSection level) lines (i + 1 + k) := fun k => shows_drop hfirst.holds.1
  cases hcut : cutAtLine? (endsSection level) false (lines.drop (i + 1)) with
  | none =>
    rw [cutAtLine?_eq_none_iff, showsFrom_false] at hcut
    refine ⟨lines.length, ⟨hfirst, Or.inr ⟨rfl, fun m hm => ?_⟩⟩, ?_⟩
    · obtain ⟨k, rfl⟩ := Nat.exists_eq_add_of_le hm
      exact fun h => hcut k ((hbelow k).2 h)
    · rw [Option.getD_none, List.take_length, List.drop_length]
  | some ends =>
    obtain ⟨inside, after⟩ := ends
    rw [cutAtLine?_eq_some_iff, showsFrom_false] at hcut
    obtain ⟨k, hk, rfl, rfl⟩ := hcut
    refine ⟨i + 1 + k, ⟨hfirst, Or.inl (isNext_add_iff.2 ?_)⟩, ?_⟩
    · exact ⟨hk.le, (hbelow k).1 hk.holds, fun m hm hlt h => hk.not_before m hm hlt ((hbelow m).2 h)⟩
    · rw [Option.getD_some, List.drop_drop, List.drop_take, Nat.add_sub_cancel_left]

theorem section?_of_cutAtLine? {level : Nat} (hlevel : headingLevel? (Text.trim heading) = some level)
    (hcut : cutAtLine? (Text.startsWith (Text.trim heading)) false (Text.lines document) =
      some (above, line :: below)) : section? heading document =
      let ends := (cutAtLine? (endsSection level) false below).getD (below, [])
      some (above.flatten, (line :: ends.1).flatten, ends.2.flatten) := by
  rw [section?, hlevel, Option.bind_eq_bind, Option.bind_some, hcut]
  rfl

/-- The text before, in and after the lines from `i` up to `j`. -/
def partsAt (lines : List Text) (i j : Nat) : Text × Text × Text :=
  ((lines.take i).flatten, ((lines.take j).drop i).flatten, (lines.drop j).flatten)

/-- The section under a heading is found in its lines. -/
theorem section?_eq_some_iff {parts : Text × Text × Text} : section? heading document = some parts ↔
    ∃ level i j, headingLevel? (Text.trim heading) = some level ∧
      IsSectionRange (Text.trim heading) level (Text.lines document) i j ∧
      parts = partsAt (Text.lines document) i j := by
  -- the first line that shows the heading gives the section, and there is only one such line
  have hfound : ∀ level i, headingLevel? (Text.trim heading) = some level →
      IsNext (Shows (Text.startsWith (Text.trim heading)) (Text.lines document)) 0 i →
      ∃ j, section? heading document = some (partsAt (Text.lines document) i j) ∧
        IsSectionRange (Text.trim heading) level (Text.lines document) i j := by
    intro level i hlevel hfirst
    obtain ⟨j, hrange, hend⟩ := exists_isSectionRange level hfirst
    have hcut : cutAtLine? (Text.startsWith (Text.trim heading)) false (Text.lines document) =
        some ((Text.lines document).take i, (Text.lines document).drop i) :=
      cutAtLine?_eq_some_iff.2 ⟨i, showsFrom_false.symm ▸ hfirst, rfl, rfl⟩
    rw [List.drop_eq_getElem_cons hrange.lt_length] at hcut
    refine ⟨j, ?_, hrange⟩
    have hlong : i < ((Text.lines document).take j).length := by
      rw [List.length_take]
      exact Nat.lt_min.2 ⟨hrange.lt, hrange.lt_length⟩
    rw [section?_of_cutAtLine? hlevel hcut, hend, partsAt, List.drop_eq_getElem_cons hlong,
      List.getElem_take]
  constructor
  · intro h
    have hopen := h
    simp only [section?, Option.bind_eq_bind, Option.bind_eq_some_iff] at hopen
    obtain ⟨level, hlevel, ⟨above, below⟩, hcut, -⟩ := hopen
    obtain ⟨i, hfirst, -⟩ := cutAtLine?_eq_some_iff.1 hcut
    obtain ⟨j, heq, hrange⟩ := hfound level i hlevel (showsFrom_false ▸ hfirst)
    exact ⟨level, i, j, hlevel, hrange, Option.some.inj (h.symm.trans heq)⟩
  · rintro ⟨level, i, j, hlevel, hrange, rfl⟩
    obtain ⟨j', heq, hrange'⟩ := hfound level i hlevel hrange.first
    rw [heq, (hrange.unique hrange').2]

theorem exists_section?_iff : (∃ parts, section? heading document = some parts) ↔
    ∃ level i, headingLevel? (Text.trim heading) = some level ∧
      Shows (Text.startsWith (Text.trim heading)) (Text.lines document) i := by
  simp only [section?_eq_some_iff]
  constructor
  · rintro ⟨parts, level, i, j, hlevel, hrange, -⟩
    exact ⟨level, i, hlevel, hrange.first.holds⟩
  · rintro ⟨level, i, hlevel, hshows⟩
    obtain ⟨first, hfirst⟩ := exists_isNext hshows (Nat.zero_le i)
    obtain ⟨j, hrange, -⟩ := exists_isSectionRange level hfirst
    exact ⟨_, level, first, j, hlevel, hrange, rfl⟩

/-! ## Byte positions -/

/-- The byte position where the line with an index starts; that of the end behind the last line. -/
def lineStart (document : Text) (i : Nat) : Nat :=
  Text.utf8Length ((Text.lines document).take i).flatten

theorem lineStart_lt (hij : i < j) (hj : j ≤ (Text.lines document).length) :
    lineStart document i < lineStart document j := by
  have hline := List.getElem_mem (l := Text.lines document) (n := i) (by omega)
  have hpos := Text.utf8Length_pos (Text.ne_nil_of_mem_lines hline)
  obtain ⟨k, rfl⟩ := Nat.exists_eq_add_of_lt hij
  have hsplit : (Text.lines document).take (i + k + 1) = (Text.lines document).take i ++
      (Text.lines document)[i] :: ((Text.lines document).drop (i + 1)).take k := by
    rw [Nat.add_assoc, List.take_add, List.drop_eq_getElem_cons (by omega), List.take_succ_cons]
  rw [lineStart, lineStart, hsplit, List.flatten_append, List.flatten_cons, Text.utf8Length_append,
    Text.utf8Length_append]
  omega

theorem lineStart_length (document : Text) :
    lineStart document (Text.lines document).length = Text.utf8Length document := by
  rw [lineStart, List.take_length, Text.flatten_lines]

/-- The byte positions where the section under a heading starts and ends. -/
def sectionSpan? (heading document : Text) : Option (Nat × Nat) :=
  (section? heading document).map fun (before, inside, after) =>
    let region : Region := ⟨.legacy, before, inside, after⟩
    (region.start, region.stop)

theorem utf8Length_partsAt (document : Text) (hij : i ≤ j) :
    Text.utf8Length (partsAt (Text.lines document) i j).1 = lineStart document i ∧
      Text.utf8Length (partsAt (Text.lines document) i j).1 +
        Text.utf8Length (partsAt (Text.lines document) i j).2.1 = lineStart document j := by
  have htake : (Text.lines document).take j =
      (Text.lines document).take i ++ ((Text.lines document).take j).drop i := by
    conv_lhs => rw [← List.take_append_drop i ((Text.lines document).take j)]
    rw [List.take_take, Nat.min_eq_left hij]
  refine ⟨rfl, ?_⟩
  rw [← Text.utf8Length_append, partsAt, ← List.flatten_append, ← htake]
  rfl

theorem sectionSpan?_eq_some_iff : sectionSpan? heading document = some (s, e) ↔
    ∃ level i j, headingLevel? (Text.trim heading) = some level ∧
      IsSectionRange (Text.trim heading) level (Text.lines document) i j ∧
      s = lineStart document i ∧ e = lineStart document j := by
  rw [sectionSpan?, Option.map_eq_some_iff]
  simp only [section?_eq_some_iff]
  constructor
  · rintro ⟨parts, ⟨level, i, j, hlevel, hrange, rfl⟩, hspan⟩
    obtain ⟨hstart, hstop⟩ := utf8Length_partsAt document (Nat.le_of_lt hrange.lt)
    obtain ⟨rfl, rfl⟩ := Prod.mk.inj hspan
    exact ⟨level, i, j, hlevel, hrange, hstart, hstop⟩
  · rintro ⟨level, i, j, hlevel, hrange, rfl, rfl⟩
    obtain ⟨hstart, hstop⟩ := utf8Length_partsAt document (Nat.le_of_lt hrange.lt)
    exact ⟨_, ⟨level, i, j, hlevel, hrange, rfl⟩, Prod.ext hstart hstop⟩

/-! ## Splices -/

theorem section?_of_locate {target : Target} {region : Region}
    (h : locate target document = .ok region)
    (hkind : region.kind = .legacy) : section? target.legacyHeading document =
      some (region.before, region.inside, region.after) := by
  unfold locate at h
  split at h
  · split at h
    · cases h
      cases hkind
    · cases h
  · split at h
    · cases h
    · split at h
      next before inside after hsection =>
        cases h
        exact hsection
      next => cases h

theorem toUtf8_content_of_splice {target : Target} {newSection : Text} {result : Splice}
    (h : splice target document newSection = .ok result) (hkind : result.region.kind = .legacy) :
    ∃ s e, sectionSpan? target.legacyHeading document = some (s, e) ∧
      Text.toUtf8 result.content = (Text.toUtf8 document).take s ++
        Text.toUtf8 (newSection ++ if e < Text.utf8Length document then ['\n', '\n'] else ['\n']) ++
        (Text.toUtf8 document).drop e := by
  cases hlocate : locate target document with
  | error problem =>
    rw [splice, hlocate] at h
    cases h
  | ok region =>
    rw [splice, hlocate] at h
    cases h
    have hsection := section?_of_locate hlocate hkind
    have hdocument := locate_eq_ok hlocate
    have hbytes : Text.toUtf8 document =
        Text.toUtf8 region.before ++ Text.toUtf8 region.inside ++ Text.toUtf8 region.after := by
      rw [hdocument, Text.toUtf8_append, Text.toUtf8_append]
    have hbefore : (Text.toUtf8 document).take region.start = Text.toUtf8 region.before := by
      rw [hbytes, List.append_assoc]
      exact List.take_left' (Text.length_toUtf8 region.before)
    have hafter : (Text.toUtf8 document).drop region.stop = Text.toUtf8 region.after := by
      rw [hbytes, List.drop_left']
      rw [List.length_append, Text.length_toUtf8, Text.length_toUtf8]
      rfl
    have hseparator : region.separator =
        if region.stop < Text.utf8Length document then ['\n', '\n'] else ['\n'] := by
      have hlength : Text.utf8Length document = region.stop + Text.utf8Length region.after := by
        rw [hdocument, Text.utf8Length_append, Text.utf8Length_append]
        rfl
      rw [Region.separator, hkind, hlength]
      cases hrest : region.after with
      | nil => simp [Text.utf8Length]
      | cons c rest =>
        have hpos := Text.utf8Length_pos (List.cons_ne_nil c rest)
        simp [hpos]
    refine ⟨region.start, region.stop, by rw [sectionSpan?, hsection]; rfl, ?_⟩
    rw [hbefore, hafter, ← hseparator, ← Text.toUtf8_append, ← Text.toUtf8_append,
      ← List.append_assoc]
    rfl

/-- **The section that is taken over is exactly the lines it should be.** It exists if and only if the
heading has a level and a line that is not fenced off starts with it. It starts with the first such
line and ends before the next line that is not fenced off and is a heading of the same or a higher
level, or at the end of the document. A splice keeps every byte before and behind it. -/
theorem sectionSpan?_by_lines (heading document : Text) :
    ((∃ span, sectionSpan? heading document = some span) ↔
      ∃ level i, headingLevel? (Text.trim heading) = some level ∧
        Shows (Text.startsWith (Text.trim heading)) (Text.lines document) i) ∧
    (∀ s e, sectionSpan? heading document = some (s, e) ↔
      ∃ level i j, headingLevel? (Text.trim heading) = some level ∧
        IsSectionRange (Text.trim heading) level (Text.lines document) i j ∧
        s = lineStart document i ∧ e = lineStart document j) ∧
    (∀ s e, sectionSpan? heading document = some (s, e) → s < e ∧ e ≤ Text.utf8Length document) ∧
    ∀ (target : Target) newSection result, target.legacyHeading = heading →
      splice target document newSection = .ok result → result.region.kind = .legacy →
      ∃ s e, sectionSpan? heading document = some (s, e) ∧
        Text.toUtf8 result.content = (Text.toUtf8 document).take s ++
          Text.toUtf8 (newSection ++ if e < Text.utf8Length document then ['\n', '\n'] else ['\n']) ++
          (Text.toUtf8 document).drop e := by
  refine ⟨?_, fun s e => sectionSpan?_eq_some_iff, fun s e hspan => ?_, ?_⟩
  · rw [← exists_section?_iff]
    simp only [sectionSpan?, Option.map_eq_some_iff]
    exact ⟨fun ⟨_, parts, hparts, _⟩ => ⟨parts, hparts⟩,
      fun ⟨parts, hparts⟩ => ⟨_, parts, hparts, rfl⟩⟩
  · obtain ⟨level, i, j, -, hrange, rfl, rfl⟩ := sectionSpan?_eq_some_iff.1 hspan
    refine ⟨lineStart_lt hrange.lt hrange.le_length, ?_⟩
    rw [← lineStart_length]
    rcases Nat.eq_or_lt_of_le hrange.le_length with hend | hlt
    · rw [hend]
    · exact Nat.le_of_lt (lineStart_lt hlt le_rfl)
  · rintro target newSection result rfl hsplice hkind
    exact toUtf8_content_of_splice hsplice hkind

end Document

end PropCatalog
