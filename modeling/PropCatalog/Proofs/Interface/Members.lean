import PropCatalog.Proofs.Text.Classes
import PropCatalog.Proofs.Text.Nesting
import PropCatalog.Proofs.Text.Runs

/-!
# Splitting a body into members

A body is cut at every separator that the counter of brackets meets at depth zero, whether its
brackets match or not. `Cut` says without the loop what lies between the cuts: in each piece all
separators are guarded by brackets, and a piece with another one behind it has brought the counter
back to zero. A text has one such cut only, the one that is made (`memberPieces_eq_iff`).

So every member starts at depth zero, and only the last one can leave brackets open. Lists of this
form are what a split gives, and on separate lines they are split as they were
(`members_join_eq_iff`). Trimming does not matter, because blanks are no brackets, and neither do
the pieces that are dropped, because those before a member bring the counter back to zero too.
-/

namespace PropCatalog.Interface

open PropCatalog.Bracket (Nested)

variable {d : Nat} {c : Char} {a b s : Text} {pieces ms : List Text}

/-! ## Separators in brackets -/

/-- The counter, started at depth `d`, is above zero at every separator. -/
def Guarded (d : Nat) (s : Text) : Prop :=
  ∀ a c b, s = a ++ c :: b → IsSeparator c → 0 < a.foldl Bracket.depth d

theorem guarded_nil (d : Nat) : Guarded d [] := fun a c b hs => by simp at hs

theorem guarded_cons_iff :
    Guarded d (c :: s) ↔ (IsSeparator c → 0 < d) ∧ Guarded (Bracket.depth d c) s := by
  constructor
  · intro h
    exact ⟨h [] c s rfl, fun a e b hs => h (c :: a) e b (hs ▸ rfl)⟩
  · rintro ⟨hc, h⟩ a e b hs
    cases a with
    | nil =>
      obtain ⟨rfl, -⟩ := List.cons.inj hs
      exact hc
    | cons f a =>
      obtain ⟨rfl, htail⟩ := List.cons.inj hs
      exact h a e b htail

theorem guarded_append_iff :
    Guarded d (a ++ b) ↔ Guarded d a ∧ Guarded (a.foldl Bracket.depth d) b := by
  induction a generalizing d with
  | nil => exact (and_iff_right (guarded_nil d)).symm
  | cons c a ih =>
    rw [List.cons_append, guarded_cons_iff, guarded_cons_iff, ih, and_assoc, List.foldl_cons]

/-! ## Cuts -/

theorem memberPieces_separator (hc : IsSeparator c) (s : Text) :
    memberPieces 0 (c :: s) = [] :: memberPieces 0 s := by
  rcases hc with rfl | rfl <;> rfl

/-- A text with guarded separators stays in one piece, and what follows it is cut from the depth
on that it leaves. -/
theorem memberPieces_append_of_guarded (h : Guarded d a) (s : Text) :
    memberPieces d (a ++ s) =
      a.foldr Text.consFirst (memberPieces (a.foldl Bracket.depth d) s) := by
  induction a generalizing d with
  | nil => rfl
  | cons c a ih =>
    obtain ⟨hc, ha⟩ := guarded_cons_iff.1 h
    have hnot : Bracket.depth d c = 0 → ¬ IsSeparator c := fun hzero hsep =>
      Nat.ne_of_gt (hc hsep) ((depth_of_isSeparator hsep d).symm.trans hzero)
    rw [List.cons_append, memberPieces_cons_of_not rfl hnot, ih ha]
    rfl

/-- A text that is entered at depth `d`, and its pieces: the separators in a piece are guarded, and
a piece with another one behind it ends at depth zero, in front of a separator. -/
inductive Cut : (d : Nat) → Text → List Text → Prop
  | last {d : Nat} {piece : Text} (hpiece : Guarded d piece) : Cut d piece [piece]
  | cons {d : Nat} {c : Char} {piece s : Text} {pieces : List Text} (hpiece : Guarded d piece)
      (hclosed : piece.foldl Bracket.depth d = 0) (hc : IsSeparator c) (hs : Cut 0 s pieces) :
      Cut d (piece ++ c :: s) (piece :: pieces)

theorem Cut.consFirst (hc : IsSeparator c → 0 < d) (h : Cut (Bracket.depth d c) s pieces) :
    Cut d (c :: s) (Text.consFirst c pieces) := by
  cases h with
  | last hpiece => exact .last (guarded_cons_iff.2 ⟨hc, hpiece⟩)
  | cons hpiece hclosed hsep hs =>
    exact .cons (guarded_cons_iff.2 ⟨hc, hpiece⟩) hclosed hsep hs

theorem cut_memberPieces (d : Nat) (s : Text) : Cut d s (memberPieces d s) := by
  induction s generalizing d with
  | nil => exact .last (guarded_nil d)
  | cons c s ih =>
    by_cases hcut : d = 0 ∧ IsSeparator c
    · obtain ⟨rfl, hc⟩ := hcut
      rw [memberPieces_separator hc]
      exact .cons (guarded_nil 0) rfl hc (ih 0)
    · have hpos : IsSeparator c → 0 < d := fun hc =>
        Nat.pos_of_ne_zero fun hd => hcut ⟨hd, hc⟩
      have hnot : Bracket.depth d c = 0 → ¬ IsSeparator c := fun hzero hc =>
        hcut ⟨(depth_of_isSeparator hc d).symm.trans hzero, hc⟩
      rw [memberPieces_cons_of_not rfl hnot]
      exact (ih (Bracket.depth d c)).consFirst hpos

theorem Cut.memberPieces_eq (h : Cut d s pieces) : memberPieces d s = pieces := by
  induction h with
  | @last d piece hpiece =>
    have hpieces := memberPieces_append_of_guarded hpiece []
    rw [List.append_nil] at hpieces
    rw [hpieces, memberPieces, foldr_consFirst, List.append_nil]
  | @cons d c piece s pieces hpiece hclosed hc hs ih =>
    rw [memberPieces_append_of_guarded hpiece, hclosed, memberPieces_separator hc, ih,
      foldr_consFirst, List.append_nil]

theorem memberPieces_eq_iff : memberPieces d s = pieces ↔ Cut d s pieces :=
  ⟨fun h => h ▸ cut_memberPieces d s, Cut.memberPieces_eq⟩

theorem Cut.guarded_and_closed (h : Cut d s pieces) (hd : d = 0) :
    (∀ piece ∈ pieces, Guarded 0 piece) ∧
      pieces.Pairwise fun piece _ => piece.foldl Bracket.depth 0 = 0 := by
  induction h with
  | last hpiece =>
    subst hd
    exact ⟨List.forall_mem_singleton.2 hpiece, List.pairwise_singleton _ _⟩
  | cons hpiece hclosed _ _ ih =>
    subst hd
    obtain ⟨hguarded, hrest⟩ := ih rfl
    exact ⟨List.forall_mem_cons.2 ⟨hpiece, hguarded⟩,
      List.pairwise_cons.2 ⟨fun _ _ => hclosed, hrest⟩⟩

/-! ## Trimming -/

theorem foldl_depth_blanks {blanks : Text} (h : blanks.all Text.isBlank = true) (d : Nat) :
    blanks.foldl Bracket.depth d = d := by
  have hnested : Nested (fun _ => True) blanks := by
    refine Nested.of_forall fun c hc => ⟨?_, trivial⟩
    have hplain := Text.forall_blank (p := fun c => !Bracket.isOpener c && !Bracket.isCloser c)
      (by decide +kernel) (List.all_eq_true.1 h c hc)
    simpa using hplain
  exact hnested.foldl_depth d

theorem foldl_depth_trim (s : Text) (d : Nat) :
    (Text.trim s).foldl Bracket.depth d = s.foldl Bracket.depth d := by
  obtain ⟨before, behind, hbefore, hbehind, hs⟩ := Text.exists_blanks_trim s
  have hfold := congrArg (List.foldl Bracket.depth d) hs
  rw [hfold, List.foldl_append, List.foldl_append, foldl_depth_blanks hbefore,
    foldl_depth_blanks hbehind]

theorem Guarded.trim (h : Guarded d s) : Guarded d (Text.trim s) := by
  obtain ⟨before, behind, hbefore, -, hs⟩ := Text.exists_blanks_trim s
  rw [hs, guarded_append_iff, guarded_append_iff, foldl_depth_blanks hbefore] at h
  exact h.2.1

/-! ## Members -/

/-- A text that is one member. -/
structure IsMemberText (member : Text) : Prop where
  ne_nil : member ≠ []
  trimmed : Text.trim member = member
  not_comment : isComment member = false
  guarded : Guarded 0 member

/-- Members one after the other: each of them closes its brackets, except perhaps the last one. -/
structure IsSplit (ms : List Text) : Prop where
  isMemberText : ∀ member ∈ ms, IsMemberText member
  closed : ms.Pairwise fun member _ => member.foldl Bracket.depth 0 = 0

theorem isSplit_members (body : Text) : IsSplit (members body) := by
  obtain ⟨hguarded, hclosed⟩ := (cut_memberPieces 0 body).guarded_and_closed rfl
  constructor
  · intro member hmember
    obtain ⟨hpiece, hkept⟩ := List.mem_filter.1 hmember
    obtain ⟨piece, hmem, rfl⟩ := List.mem_map.1 hpiece
    simp only [Bool.and_eq_true, Bool.not_eq_true', List.isEmpty_eq_false_iff] at hkept
    exact ⟨hkept.1, Text.trim_trim piece, hkept.2, (hguarded piece hmem).trim⟩
  · refine List.Pairwise.filter _ (List.pairwise_map.2 (hclosed.imp fun hpiece => ?_))
    rw [foldl_depth_trim, hpiece]

theorem IsSplit.cut_join (h : IsSplit ms) (hne : ms ≠ []) : Cut 0 (Text.join ['\n'] ms) ms := by
  induction ms with
  | nil => exact absurd rfl hne
  | cons member ms ih =>
    obtain ⟨hmember, hms⟩ := List.forall_mem_cons.1 h.isMemberText
    cases ms with
    | nil => exact .last hmember.guarded
    | cons next ms =>
      obtain ⟨hclosed, hrest⟩ := List.pairwise_cons.1 h.closed
      have hnext := ih ⟨hms, hrest⟩ (by simp)
      have htext : Text.join ['\n'] (member :: next :: ms) =
          member ++ '\n' :: Text.join ['\n'] (next :: ms) := by
        simp [Text.join]
      rw [htext]
      exact .cons hmember.guarded (hclosed next (by simp)) (Or.inr rfl) hnext

/-- Members on separate lines are split as they were. -/
theorem IsSplit.members_join (h : IsSplit ms) : members (Text.join ['\n'] ms) = ms := by
  by_cases hne : ms = []
  · rw [hne]
    rfl
  · have htrim : ms.map Text.trim = ms :=
      (List.map_congr_left fun member hmember => (h.isMemberText member hmember).trimmed).trans
        (List.map_id' ms)
    rw [members, (h.cut_join hne).memberPieces_eq, htrim, List.filter_eq_self]
    intro member hmember
    have hmember := h.isMemberText member hmember
    simp [hmember.ne_nil, hmember.not_comment]

theorem members_join_eq_iff : members (Text.join ['\n'] ms) = ms ↔ IsSplit ms :=
  ⟨fun h => h ▸ isSplit_members _, IsSplit.members_join⟩

/-- **Splitting is stable.** For every body, with matching brackets or not: the members on separate
lines are split into the same members; each of them is not empty, trimmed and no comment, and the
counter started at the member is above zero at every separator in it; and of the only cut of the
body, no pieces are dropped but those that are blank or comments. -/
theorem members_join_members (body : Text) :
    members (Text.join ['\n'] (members body)) = members body ∧
      (∀ member ∈ members body, IsMemberText member) ∧
      ∃ pieces, Cut 0 body pieces ∧ members body =
        (pieces.map Text.trim).filter fun piece => !piece.isEmpty && !isComment piece :=
  ⟨(isSplit_members body).members_join, (isSplit_members body).isMemberText,
    memberPieces 0 body, cut_memberPieces 0 body, rfl⟩

/-- A body with closers that close nothing, separators in brackets, comments, and a bracket that
stays open. -/
example :
    members "\x7d; a: x) // y\n* b;c: [;\n];/* \x7b\x7d */ d\ne: (\x7d \x7b;\n\t// \n".toList =
      ["\x7d".toList, "a: x) // y".toList, "c: [;\n]".toList, "e: (\x7d \x7b;\n\t//".toList] := by
  decide +kernel

end PropCatalog.Interface
