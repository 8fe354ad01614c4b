import PropCatalog.Proofs.Document.SectionLines
import PropCatalog.Proofs.Text.Runs

/-!
# Code blocks as markdown has them

A code block is opened by a fence, a run of at least three backticks or three tildes, and closed by
one of the same character that is at least as long and has nothing behind it. In between other fences
are text. The search for a section keeps less: every line that looks like a fence turns one flag over.

The two readings agree on a document, whatever stands between its fences, exactly if its fences come
in pairs, of which the second closes what the first has opened (`span_not_inBlock_iff`). A block that
shows another one in it has four fences that do not.
-/

namespace PropCatalog.Document

variable {document heading line first second : Text} {lines fs : List Text} {i n s e : Nat}

/-! ## Blocks -/

/-- The run of characters that opens or closes a code block. -/
structure Fence where
  char : Char
  length : Nat
  deriving DecidableEq

/-- The fence at the start of a line, behind at most three spaces, and what stands behind it. -/
def fenceRun? (line : Text) : Option (Fence × Text) :=
  match line.dropWhile (· = ' ') with
  | [] => none
  | c :: s =>
    let run := (c :: s).takeWhile (· = c)
    if (line.takeWhile (· = ' ')).length ≤ 3 ∧ (c = '\x60' ∨ c = '~') ∧ 3 ≤ run.length then
      some (⟨c, run.length⟩, (c :: s).dropWhile (· = c))
    else none

/-- The fence of a line that opens a block. The text behind backticks has none, since it would be code
in the line. -/
def openingFence? (line : Text) : Option Fence :=
  match fenceRun? line with
  | some (fence, info) => if fence.char = '\x60' ∧ '\x60' ∈ info then none else some fence
  | none => none

/-- The line closes a block with the fence: nothing but white space stands behind its own. -/
def closes (fence : Fence) (line : Text) : Bool :=
  match fenceRun? line with
  | some (other, behind) => other.char = fence.char && fence.length ≤ other.length &&
      behind.all fun c => c = ' ' || c = '\t' || c = '\r' || c = '\n'
  | none => false

/-- The fence of the block that is open after one more line. -/
def blockAfter (opened : Option Fence) (line : Text) : Option Fence :=
  match opened with
  | none => openingFence? line
  | some fence => if closes fence line then none else some fence

/-- The fence of the block that is open after the lines. -/
def openBlock (lines : List Text) : Option Fence :=
  lines.foldl blockAfter none

/-- A line that starts at the position is inside a code block. -/
def InBlock (document : Text) (position : Nat) : Prop :=
  ∃ i < (Text.lines document).length, lineStart document i = position ∧
    (openBlock ((Text.lines document).take i)).isSome = true

/-! ## Fences among the lines -/

theorem fenceRun?_eq_some_iff {fence : Fence} {behind : Text} :
    fenceRun? line = some (fence, behind) ↔
      (fence.char = '\x60' ∨ fence.char = '~') ∧ 3 ≤ fence.length ∧
        behind.head?.any (· = fence.char) = false ∧
        ∃ m ≤ 3, line = List.replicate m ' ' ++ (List.replicate fence.length fence.char ++ behind) := by
  constructor
  · intro h
    rw [fenceRun?] at h
    split at h
    · cases h
    next c s hdrop =>
      dsimp only at h
      split at h
      next hrun =>
        obtain ⟨hindent, hchar, hlength⟩ := hrun
        obtain ⟨rfl, rfl⟩ := Prod.mk.inj (Option.some.inj h)
        refine ⟨hchar, hlength, Text.head?_dropWhile _ _, _, hindent, ?_⟩
        rw [← Text.takeWhile_eq_replicate, ← Text.takeWhile_eq_replicate,
          List.takeWhile_append_dropWhile, ← hdrop, List.takeWhile_append_dropWhile]
      next => cases h
  · rintro ⟨hchar, hlength, hbehind, m, hm, rfl⟩
    have hne : fence.char ≠ ' ' := by
      rintro heq
      rw [heq] at hchar
      exact absurd hchar (by decide)
    obtain ⟨k, hk⟩ : ∃ k, fence.length = k + 1 := ⟨fence.length - 1, by omega⟩
    have hrun : List.replicate fence.length fence.char ++ behind =
        fence.char :: (List.replicate k fence.char ++ behind) := by
      rw [hk]
      rfl
    -- the runs of spaces and of the character end where the next one starts
    have hspaces := Text.span_append (p := (· = ' ')) (a := List.replicate m ' ')
      (s := List.replicate fence.length fence.char ++ behind) (by simp) (by simp [hrun, hne])
    have hsame := Text.span_append (p := (· = fence.char)) (a := List.replicate fence.length fence.char)
      (s := behind) (by simp) hbehind
    rw [fenceRun?, hspaces.1, hspaces.2, hrun]
    dsimp only
    rw [← hrun, hsame.1, hsame.2, if_pos]
    · rw [List.length_replicate]
    · simpa only [List.length_replicate] using ⟨hm, hchar, hlength⟩

theorem isFence_of_fenceRun? {run : Fence × Text} (h : fenceRun? line = some run) :
    isFence line = true := by
  obtain ⟨fence, behind⟩ := run
  obtain ⟨hchar, hlength, -, m, -, rfl⟩ := fenceRun?_eq_some_iff.1 h
  obtain ⟨k, hk⟩ := Nat.exists_eq_add_of_le hlength
  have hspaces : (List.replicate m ' ').all Text.isBlank = true := by simp [Text.isBlank]
  have hstart : List.replicate fence.length fence.char ++ behind =
      [fence.char, fence.char, fence.char] ++ (List.replicate k fence.char ++ behind) := by
    rw [hk, ← List.replicate_append_replicate, List.append_assoc]
    rfl
  have hprefix : [fence.char, fence.char, fence.char] <+: Text.trim (List.replicate m ' ' ++
      (List.replicate fence.length fence.char ++ behind)) := by
    rw [Text.trim_blanks_append hspaces, hstart]
    rcases hchar with hc | hc <;> rw [hc] <;> exact Text.prefix_trim_append (by decide) (by decide) _
  rw [isFence, Bool.or_eq_true, Text.startsWith_iff, Text.startsWith_iff]
  refine hchar.imp (fun hc => ?_) fun hc => ?_
  · simpa only [hc] using hprefix
  · simpa only [hc] using hprefix

theorem blockAfter_of_not_isFence (h : isFence line = false) (opened : Option Fence) :
    blockAfter opened line = opened := by
  have hnone : fenceRun? line = none := by
    rw [Option.eq_none_iff_forall_ne_some]
    intro run hrun
    rw [isFence_of_fenceRun? hrun] at h
    cases h
  cases opened with
  | none => rw [blockAfter, openingFence?, hnone]
  | some fence =>
    rw [blockAfter, closes, hnone]
    rfl

/-! ## Line breaks -/

/-- A line without its line break. -/
def bare (line : Text) : Text :=
  line.filter (· ≠ '\n')

theorem bare_of_notMem (h : '\n' ∉ line) : bare line = line :=
  List.filter_eq_self.2 fun _ hc => decide_eq_true fun heq => h (heq ▸ hc)

theorem bare_concat (h : '\n' ∉ line) : bare (line ++ ['\n']) = line := by
  have hkeep : line.filter (· ≠ '\n') = line := bare_of_notMem h
  rw [bare, List.filter_append, hkeep]
  simp

theorem eq_bare_of_mem_lines (h : line ∈ Text.lines document) :
    line = bare line ∨ line = bare line ++ ['\n'] := by
  obtain ⟨a, ha, rfl | ⟨rfl, -⟩⟩ := Text.exists_of_mem_lines h
  · exact Or.inr (by rw [bare_concat ha])
  · exact Or.inl (bare_of_notMem ha).symm

theorem fenceRun?_concat (line : Text) : fenceRun? (line ++ ['\n']) =
    (fenceRun? line).map fun (fence, behind) => (fence, behind ++ ['\n']) := by
  ext ⟨fence, behind⟩
  rw [fenceRun?_eq_some_iff, Option.map_eq_some_iff]
  simp only [Prod.mk.injEq, Prod.exists]
  have hnewline : fence.char = '\x60' ∨ fence.char = '~' → ¬ '\n' = fence.char := by
    rintro (hc | hc) <;> rw [hc] <;> decide
  constructor
  · rintro ⟨hchar, hlength, hbehind, m, hm, hline⟩
    -- the line break is not part of the run
    rcases List.eq_nil_or_concat behind with rfl | ⟨rest, c, rfl⟩
    · have hlast := congrArg List.getLast? hline
      obtain ⟨k, hk⟩ : ∃ k, fence.length = k + 1 := ⟨fence.length - 1, by omega⟩
      rw [hk, List.append_nil, List.replicate_succ', ← List.append_assoc, List.getLast?_concat,
        List.getLast?_concat] at hlast
      exact absurd (Option.some.inj hlast) (hnewline hchar)
    · rw [List.concat_eq_append, ← List.append_assoc, ← List.append_assoc] at hline
      obtain ⟨rfl, hc⟩ := List.append_inj' hline rfl
      obtain rfl : '\n' = c := by simpa using hc
      refine ⟨fence, rest, fenceRun?_eq_some_iff.2 ⟨hchar, hlength, ?_, m, hm, ?_⟩, rfl, by simp⟩
      · cases rest with
        | nil => rfl
        | cons d rest => simpa using hbehind
      · rw [List.append_assoc]
  · rintro ⟨_, rest, hrun, rfl, rfl⟩
    obtain ⟨hchar, hlength, hbehind, m, hm, rfl⟩ := fenceRun?_eq_some_iff.1 hrun
    refine ⟨hchar, hlength, ?_, m, hm, by simp⟩
    cases rest with
    | nil => simpa using hnewline hchar
    | cons d rest => simpa using hbehind

theorem openingFence?_concat (line : Text) :
    openingFence? (line ++ ['\n']) = openingFence? line := by
  rw [openingFence?, fenceRun?_concat, openingFence?]
  cases fenceRun? line with
  | none => rfl
  | some run => simp

theorem closes_concat (fence : Fence) (line : Text) :
    closes fence (line ++ ['\n']) = closes fence line := by
  rw [closes, fenceRun?_concat, closes]
  cases fenceRun? line with
  | none => rfl
  | some run => simp

theorem blockAfter_concat (opened : Option Fence) (line : Text) :
    blockAfter opened (line ++ ['\n']) = blockAfter opened line := by
  cases opened with
  | none => exact openingFence?_concat line
  | some fence => rw [blockAfter, closes_concat, blockAfter]

theorem isFence_concat (line : Text) : isFence (line ++ ['\n']) = isFence line := by
  rw [isFence, Text.trim_concat (by decide), isFence]

/-! ## Pairs of fences -/

/-- The lines of a document that start with three backticks or tildes, without their line breaks. -/
def fences (document : Text) : List Text :=
  ((Text.lines document).filter isFence).map bare

/-- The lines come in pairs: the second one closes the block that the first one opens, or neither
of them opens one. -/
def Paired : List Text → Prop
  | first :: second :: rest =>
    (match openingFence? first with
      | some fence => closes fence second = true
      | none => openingFence? second = none) ∧ Paired rest
  | _ => True

theorem foldl_blockAfter (h : ∀ line ∈ lines, line = bare line ∨ line = bare line ++ ['\n'])
    (opened : Option Fence) : lines.foldl blockAfter opened =
      ((lines.filter isFence).map bare).foldl blockAfter opened := by
  induction lines generalizing opened with
  | nil => rfl
  | cons line lines ih =>
    obtain ⟨hline, hlines⟩ := List.forall_mem_cons.1 h
    rw [List.foldl_cons, ih hlines]
    cases hfence : isFence line with
    | false => rw [List.filter_cons_of_neg (by simp [hfence]), blockAfter_of_not_isFence hfence]
    | true =>
      have hbare : blockAfter opened line = blockAfter opened (bare line) := by
        rcases hline with heq | heq
        · rw [← heq]
        · conv_lhs => rw [heq, blockAfter_concat]
      rw [List.filter_cons_of_pos hfence, List.map_cons, List.foldl_cons, hbare]

theorem openBlock_take (document : Text) (i : Nat) : openBlock ((Text.lines document).take i) =
    openBlock ((fences document).take (((Text.lines document).take i).countP isFence)) := by
  have hfences : fences document = (((Text.lines document).take i).filter isFence).map bare ++
      (((Text.lines document).drop i).filter isFence).map bare := by
    rw [← List.map_append, ← List.filter_append, List.take_append_drop, fences]
  have htake : (fences document).take (((Text.lines document).take i).countP isFence) =
      (((Text.lines document).take i).filter isFence).map bare := by
    rw [hfences, List.take_left']
    rw [List.length_map, List.countP_eq_length_filter]
  rw [htake]
  exact foldl_blockAfter (fun line hline => eq_bare_of_mem_lines (List.mem_of_mem_take hline)) none

theorem pairsOff_iff : (match openingFence? first with
      | some fence => closes fence second = true
      | none => openingFence? second = none) ↔ blockAfter (blockAfter none first) second = none := by
  rw [blockAfter.eq_1 first]
  cases openingFence? first with
  | none => rfl
  | some fence => simp [blockAfter]

theorem paired_iff : Paired fs ↔ ∀ m, 2 * m ≤ fs.length → openBlock (fs.take (2 * m)) = none := by
  -- two fences at a time
  induction fs using Paired.induct with
  | case1 first second rest ih =>
    rw [Paired, pairsOff_iff, ih]
    constructor
    · rintro ⟨hpair, hrest⟩ m hm
      cases m with
      | zero => rfl
      | succ m =>
        have hopen := hrest m (by simp only [List.length_cons] at hm; omega)
        rw [openBlock] at hopen
        rw [Nat.mul_succ, openBlock, List.take_succ_cons, List.take_succ_cons, List.foldl_cons,
          List.foldl_cons, hpair, hopen]
    · intro h
      have hpair := h 1 (by simp)
      refine ⟨hpair, fun m hm => ?_⟩
      have hopen := h (m + 1) (by simp only [List.length_cons]; omega)
      rw [Nat.mul_succ, openBlock, List.take_succ_cons, List.take_succ_cons, List.foldl_cons,
        List.foldl_cons] at hopen
      have hpair : blockAfter (blockAfter none first) second = none := hpair
      rwa [hpair] at hopen
  | case2 fs hshort =>
    have hlength : fs.length ≤ 1 := by
      rcases fs with _ | ⟨first, _ | ⟨second, rest⟩⟩
      · simp
      · simp
      · exact absurd rfl (hshort first second rest)
    rw [Paired]
    · refine iff_of_true trivial fun m hm => ?_
      obtain rfl : m = 0 := by omega
      rfl
    · exact hshort

/-! ## Sections and blocks -/

theorem openBlock_eq_none_of_paired (h : Paired (fences document))
    (hopen : ¬ FencedOff (Text.lines document) i) : openBlock ((Text.lines document).take i) = none := by
  rw [FencedOff, not_or, Nat.not_odd_iff_even] at hopen
  obtain ⟨m, hm⟩ := hopen.1
  have hle : ((Text.lines document).take i).countP isFence ≤ (fences document).length := by
    rw [fences, List.length_map, ← List.countP_eq_length_filter]
    exact (List.take_sublist i _).countP_le
  have htwo : ((Text.lines document).take i).countP isFence = 2 * m := by omega
  rw [openBlock_take, htwo]
  exact paired_iff.1 h m (by omega)

theorem lineStart_inj {j : Nat} (hi : i ≤ (Text.lines document).length)
    (hj : j ≤ (Text.lines document).length) (h : lineStart document i = lineStart document j) :
    i = j := by
  rcases Nat.lt_trichotomy i j with hlt | heq | hlt
  · exact absurd h (Nat.ne_of_lt (lineStart_lt hlt hj))
  · exact heq
  · exact absurd h.symm (Nat.ne_of_lt (lineStart_lt hlt hi))

theorem not_inBlock_lineStart (h : Paired (fences document)) (hi : i ≤ (Text.lines document).length)
    (hopen : i < (Text.lines document).length → ¬ FencedOff (Text.lines document) i) :
    ¬ InBlock document (lineStart document i) := by
  rintro ⟨j, hj, hstart, hblock⟩
  obtain rfl := lineStart_inj hj.le hi hstart
  rw [openBlock_eq_none_of_paired h (hopen hj)] at hblock
  cases hblock

/-- The fences, and a heading behind the first `n` of them. -/
def probe (fs : List Text) (n : Nat) : Text :=
  ((fs.take n ++ ['#'] :: fs.drop n).map (· ++ ['\n'])).flatten

section Probe

variable (h : ∀ line ∈ fs, '\n' ∉ line ∧ isFence line = true)
include h

theorem lines_probe (n : Nat) :
    Text.lines (probe fs n) = (fs.take n ++ ['#'] :: fs.drop n).map (· ++ ['\n']) := by
  refine Text.lines_flatten fun line hline => ?_
  rcases List.mem_append.1 hline with hline | hline
  · exact (h line (List.mem_of_mem_take hline)).1
  · rcases List.mem_cons.1 hline with rfl | hline
    · decide
    · exact (h line (List.mem_of_mem_drop hline)).1

theorem fences_probe (n : Nat) : fences (probe fs n) = fs := by
  have hfilter : (fs.take n ++ ['#'] :: fs.drop n).filter isFence = fs := by
    have hall : ∀ t : List Text, (∀ line ∈ t, line ∈ fs) → t.filter isFence = t := fun t ht =>
      List.filter_eq_self.2 fun line hline => (h line (ht line hline)).2
    rw [List.filter_append, List.filter_cons_of_neg (by decide),
      hall _ fun _ => List.mem_of_mem_take, hall _ fun _ => List.mem_of_mem_drop,
      List.take_append_drop]
  have hbare : ∀ line ∈ fs, bare (line ++ ['\n']) = line := fun line hline =>
    bare_concat (h line hline).1
  have hconcat : isFence ∘ (· ++ ['\n']) = isFence := funext isFence_concat
  rw [fences, lines_probe h, List.filter_map, hconcat, hfilter, List.map_map]
  exact (List.map_congr_left hbare).trans (List.map_id fs)

theorem getElem?_probe (hn : n ≤ fs.length) :
    (Text.lines (probe fs n))[n]? = some ['#', '\n'] := by
  have hlength : ((fs.take n).map (· ++ ['\n'])).length = n := by
    rw [List.length_map, List.length_take, Nat.min_eq_left hn]
  rw [lines_probe h, List.map_append, List.getElem?_append_right hlength.le, hlength, Nat.sub_self]
  rfl

theorem isFence_of_mem_take_probe (hn : n ≤ fs.length) :
    ∀ line ∈ (Text.lines (probe fs n)).take n, isFence line = true := by
  have htake : (Text.lines (probe fs n)).take n = (fs.take n).map (· ++ ['\n']) := by
    rw [lines_probe h, List.map_append, List.take_left']
    rw [List.length_map, List.length_take, Nat.min_eq_left hn]
  rw [htake, List.forall_mem_map]
  intro line hline
  rw [isFence_concat]
  exact (h line (List.mem_of_mem_take hline)).2

theorem countP_take_probe (hn : n ≤ fs.length) :
    ((Text.lines (probe fs n)).take n).countP isFence = n := by
  have hlength := (List.getElem?_eq_some_iff.1 (getElem?_probe h hn)).1
  rw [List.countP_eq_length.2 (isFence_of_mem_take_probe h hn), List.length_take,
    Nat.min_eq_left hlength.le]

theorem exists_sectionSpan?_probe (hn : n ≤ fs.length) (heven : Even n) :
    ∃ e, sectionSpan? ['#'] (probe fs n) = some (lineStart (probe fs n) n, e) := by
  have hheading := getElem?_probe h hn
  have hfirst : IsNext (Shows (Text.startsWith ['#']) (Text.lines (probe fs n))) 0 n := by
    refine ⟨Nat.zero_le n, ⟨?_, ['#', '\n'], hheading, by decide⟩, fun m _ hm hshows => ?_⟩
    · rw [FencedOff, countP_take_probe h hn, not_or, Nat.not_odd_iff_even]
      refine ⟨heven, ?_⟩
      rintro ⟨line, hline, hfence⟩
      obtain rfl := Option.some.inj (hheading.symm.trans hline)
      exact absurd hfence (by decide)
    · have hlength := (List.getElem?_eq_some_iff.1 hheading).1
      have hm' : m < (Text.lines (probe fs n)).length := by omega
      refine hshows.1 (Or.inr ⟨_, List.getElem?_eq_getElem hm', ?_⟩)
      exact isFence_of_mem_take_probe h hn _ (List.mem_take_iff_getElem.2 ⟨m, by omega, rfl⟩)
  obtain ⟨j, hrange, -⟩ := exists_isSectionRange 1 hfirst
  exact ⟨_, sectionSpan?_eq_some_iff.2 ⟨1, n, j, rfl, hrange, rfl, rfl⟩⟩

end Probe

theorem of_mem_fences (h : line ∈ fences document) : '\n' ∉ line ∧ isFence line = true := by
  obtain ⟨other, hother, rfl⟩ := List.mem_map.1 h
  obtain ⟨hmem, hfence⟩ := List.mem_filter.1 hother
  refine ⟨by simp [bare], ?_⟩
  rcases eq_bare_of_mem_lines hmem with heq | heq
  · rwa [← heq]
  · rwa [heq, isFence_concat] at hfence

/-- **When sections keep out of code blocks.** The sections of a document, and of every other one with
the same fences, start and end outside its code blocks exactly if the fences come in pairs. -/
theorem span_not_inBlock_iff (document : Text) :
    (∀ other heading s e, fences other = fences document → sectionSpan? heading other = some (s, e) →
      ¬ InBlock other s ∧ ¬ InBlock other e) ↔ Paired (fences document) := by
  constructor
  · intro h
    refine paired_iff.2 fun m hm => ?_
    have hfences : ∀ line ∈ fences document, '\n' ∉ line ∧ isFence line = true :=
      fun line => of_mem_fences
    obtain ⟨e, hspan⟩ := exists_sectionSpan?_probe hfences hm (even_two_mul m)
    obtain ⟨houtside, -⟩ := h _ _ _ _ (fences_probe hfences (2 * m)) hspan
    have hlength := (List.getElem?_eq_some_iff.1 (getElem?_probe hfences hm)).1
    have hread := openBlock_take (probe (fences document) (2 * m)) (2 * m)
    rw [fences_probe hfences, countP_take_probe hfences hm] at hread
    rw [← hread, ← Option.not_isSome_iff_eq_none]
    exact fun hblock => houtside ⟨2 * m, hlength, rfl, hblock⟩
  · intro hpaired other heading s e hsame hspan
    obtain ⟨level, i, j, -, hrange, rfl, rfl⟩ := sectionSpan?_eq_some_iff.1 hspan
    have hpaired : Paired (fences other) := hsame ▸ hpaired
    constructor
    · exact not_inBlock_lineStart hpaired hrange.lt_length.le fun _ => hrange.first.holds.1
    · refine not_inBlock_lineStart hpaired hrange.le_length fun hj => ?_
      rcases hrange.last with hnext | ⟨rfl, -⟩
      · exact hnext.holds.1
      · exact absurd hj (Nat.lt_irrefl _)

instance (document : Text) (position : Nat) : Decidable (InBlock document position) :=
  inferInstanceAs (Decidable (∃ i < (Text.lines document).length, lineStart document i = position ∧
    (openBlock ((Text.lines document).take i)).isSome = true))

/-- A block with four backticks that shows one with three. -/
def nestedSample : Text :=
  "## Available Templates\n\x60\x60\x60\x60md\n\x60\x60\x60\n# Sample\n".toList ++
    "\x60\x60\x60\n\x60\x60\x60\x60\n## Rules\n".toList

/-- The section ends at a line that is inside the block. -/
theorem sectionSpan?_inBlock :
    sectionSpan? "## Available Templates".toList nestedSample = some (0, 34) ∧
      InBlock nestedSample 34 := by
  constructor <;> decide +kernel

end PropCatalog.Document
