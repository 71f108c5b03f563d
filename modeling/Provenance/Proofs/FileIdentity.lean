import Provenance.FileIdentity
import Provenance.Proofs.Text.Cursor

/-! # Paths below a root

  A file inside the root of a project should be named by what its path has behind the
  root, and every other file by its whole path (`relativeTo`).

  The root is compared with the path character by character, though, and not segment by
  segment:

  - A file beside the root loses the beginning of its name where that name begins as the
    last segment of the root does (`CutsSegment`).
  - Every other file is named as it should be, and by whole segments of its path.

  Main statement: `relativePath_iff`.
-/

namespace Provenance

/-! ## §1. Files inside a root -/

/-- A root as paths are compared with it: with forward slashes and none at its end.  No root
    is an empty one. -/
def normalizedRoot (root : Option String) : List Char :=
  dropTrailingSlashes (normalizeSlashes (root.getD "").toList)

/-- A path is the root itself or lies below it. -/
def IsWithin (root path : List Char) : Prop := path = root ∨ root ++ ['/'] <+: path

instance (root path : List Char) : Decidable (IsWithin root path) :=
  inferInstanceAs (Decidable (_ ∨ _))

/-- What names a file: its path behind the root if the file is inside it, else its whole
    path.  No slashes are left in front. -/
def relativeTo (root path : List Char) : List Char :=
  dropLeadingSlashes (if root ≠ [] ∧ IsWithin root path then path.drop root.length else path)

/-- A root ends in the middle of a segment of a path. -/
def CutsSegment (root path : List Char) : Prop :=
  root ≠ [] ∧ ∃ c rest, path = root ++ c :: rest ∧ c ≠ '/'

/-- A part of a path is made of whole segments at its end. -/
def IsTrailing (path part : List Char) : Prop :=
  ∃ front, path = front ++ part ∧ (front = [] ∨ front.getLast? = some '/')

variable {root path part : List Char}

/-- A root that a path begins with contains the file, or ends in the middle of a segment. -/
theorem cutsSegment_or_isWithin (rest : List Char) (hroot : root ≠ []) :
    (CutsSegment root (root ++ rest) ∧ ¬ IsWithin root (root ++ rest)) ∨
      (¬ CutsSegment root (root ++ rest) ∧ IsWithin root (root ++ rest)) := by
  have hcancel : ∀ c r, root ++ rest = root ++ c :: r → rest = c :: r := by
    intro c r h
    exact List.append_cancel_left h
  cases rest with
  | nil =>
    right
    refine ⟨?_, .inl (List.append_nil root)⟩
    rintro ⟨-, c, r, h, -⟩
    exact absurd (hcancel c r h) (by simp)
  | cons x rest =>
    by_cases hx : x = '/'
    · right
      refine ⟨?_, .inr ⟨rest, by simp [hx]⟩⟩
      rintro ⟨-, c, r, h, hc⟩
      obtain ⟨rfl, -⟩ := List.cons.inj (hcancel c r h)
      exact hc hx
    · left
      refine ⟨⟨hroot, x, rest, rfl, hx⟩, ?_⟩
      rintro (h | ⟨r, h⟩)
      · exact absurd (List.append_right_eq_self.1 h) (by simp)
      · rw [List.append_assoc] at h
        exact hx (List.cons.inj (List.append_cancel_left h)).1.symm

theorem not_isWithin_of_not_begins (h : ¬ root <+: path) : ¬ IsWithin root path := by
  rintro (rfl | hpre)
  · exact h (List.prefix_refl path)
  · exact h ((List.prefix_append root ['/']).trans hpre)

theorem CutsSegment.begins (h : CutsSegment root path) : root <+: path := by
  obtain ⟨-, c, rest, rfl, -⟩ := h
  exact List.prefix_append root (c :: rest)

/-! ## §2. Slashes -/

theorem dropLeadingSlashes_of_head {c : Char} {rest : List Char} (hc : c ≠ '/') :
    dropLeadingSlashes (c :: rest) = c :: rest := by
  unfold dropLeadingSlashes
  rw [List.dropWhile_cons_of_neg (by simpa using hc)]

/-- Slashes are dropped up to the first other character, if one is in the front part. -/
theorem dropLeadingSlashes_append {front : List Char} (h : dropLeadingSlashes front ≠ [])
    (rest : List Char) :
    dropLeadingSlashes (front ++ rest) = dropLeadingSlashes front ++ rest := by
  unfold dropLeadingSlashes at h ⊢
  rw [List.dropWhile_append, if_neg (by simpa using h)]

theorem getLast?_dropTrailingSlashes (s : List Char) :
    (dropTrailingSlashes s).getLast? ≠ some '/' := by
  unfold dropTrailingSlashes
  rw [List.getLast?_reverse]
  intro h
  have hstop := List.head?_dropWhile_not (fun c => decide (c = '/')) s.reverse
  rw [h] at hstop
  simp at hstop

/-- A text that ends with no slash is not made of slashes. -/
theorem dropLeadingSlashes_ne_nil {s : List Char} (hs : s ≠ []) (hlast : s.getLast? ≠ some '/') :
    dropLeadingSlashes s ≠ [] := by
  intro h
  have hall : s.takeWhile (fun c => decide (c = '/')) = s := by
    have hsplit := List.takeWhile_append_dropWhile (p := fun c => decide (c = '/')) (l := s)
    rw [show s.dropWhile (fun c => decide (c = '/')) = [] from h, List.append_nil] at hsplit
    exact hsplit
  apply hlast
  rw [List.getLast?_eq_some_getLast hs]
  have hslash := List.all_takeWhile (p := fun c => decide (c = '/')) (l := s)
  rw [hall, List.all_eq_true] at hslash
  simpa using hslash (s.getLast hs) (List.getLast_mem hs)

/-! ## §3. Segments -/

theorem IsTrailing.refl (path : List Char) : IsTrailing path path := ⟨[], rfl, .inl rfl⟩

theorem IsTrailing.trans {rest : List Char} (h : IsTrailing path rest) (h' : IsTrailing rest part) :
    IsTrailing path part := by
  obtain ⟨front, rfl, hfront⟩ := h
  obtain ⟨front', rfl, hfront'⟩ := h'
  refine ⟨front ++ front', by simp, ?_⟩
  rcases hfront' with rfl | hlast
  · simpa using hfront
  · right
    rw [List.getLast?_append, hlast]
    rfl

theorem isTrailing_behind_slash (front rest : List Char) :
    IsTrailing (front ++ '/' :: rest) rest := by
  refine ⟨front ++ ['/'], by simp, .inr ?_⟩
  simp

theorem isTrailing_dropLeadingSlashes (s : List Char) : IsTrailing s (dropLeadingSlashes s) := by
  induction s with
  | nil => exact .refl []
  | cons c s ih =>
    by_cases hc : c = '/'
    · subst hc
      have hstep : dropLeadingSlashes ('/' :: s) = dropLeadingSlashes s := by
        simp [dropLeadingSlashes]
      rw [hstep]
      exact (isTrailing_behind_slash [] s).trans ih
    · rw [dropLeadingSlashes_of_head hc]
      exact .refl _

/-- The last segment of a path is the last one of whole segments at its end. -/
theorem IsTrailing.lastSegment_eq (h : IsTrailing path part) :
    lastSegment path = lastSegment part := by
  obtain ⟨front, rfl, rfl | hlast⟩ := h
  · rfl
  · obtain ⟨front, rfl⟩ := List.getLast?_eq_some_iff.1 hlast
    unfold lastSegment
    rw [List.reverse_append, List.reverse_append]
    congr 1
    exact Text.takeWhile_append_stop (x := '/') (by simp) _ _

theorem lastSegment_suffix (s : List Char) : lastSegment s <:+ s := by
  unfold lastSegment
  rw [← List.reverse_prefix, List.reverse_reverse]
  exact List.takeWhile_prefix _

/-! ## §4. The path of a file -/

theorem stripRoot_eq (root : Option String) (path : List Char) :
    stripRoot (root.map String.toList) path =
      ((normalizedRoot root).isPrefixOf? path).getD path := by
  have hempty : ∀ path : List Char, ([] : List Char).isPrefixOf? path = some path := by
    intro path
    cases path <;> rfl
  unfold normalizedRoot
  cases root with
  | none => exact (congrArg (Option.getD · path) (hempty path)).symm
  | some root =>
    show (if root.toList.isEmpty then path else _) = _
    split
    · next h =>
      -- an empty root is taken off as no root is
      rw [List.isEmpty_iff] at h
      show path = (List.isPrefixOf? (dropTrailingSlashes (normalizeSlashes root.toList)) path).getD path
      rw [h]
      exact (congrArg (Option.getD · path) (hempty path)).symm
    · rfl

/-- The path of a file is what it has behind the root, if it begins with the root. -/
theorem relativePath_eq (path : String) (root : Option String) :
    (FileIdentity.ofPath path root).relativePath.toList =
      dropLeadingSlashes (((normalizedRoot root).isPrefixOf? (normalizeSlashes path.toList)).getD
        (normalizeSlashes path.toList)) := by
  show (String.ofList _).toList = _
  rw [String.toList_ofList, stripRoot_eq]

theorem relativePath_behind {path : String} {root : Option String} {rest : List Char}
    (h : normalizeSlashes path.toList = normalizedRoot root ++ rest) :
    (FileIdentity.ofPath path root).relativePath.toList = dropLeadingSlashes rest := by
  rw [relativePath_eq, h, Text.isPrefixOf?_append]
  rfl

theorem relativePath_outside {path : String} {root : Option String}
    (h : ¬ normalizedRoot root <+: normalizeSlashes path.toList) :
    (FileIdentity.ofPath path root).relativePath.toList =
      dropLeadingSlashes (normalizeSlashes path.toList) := by
  rw [relativePath_eq, Text.isPrefixOf?_eq_none_iff.2 h]
  rfl

/-! ## §5. Files named as they should be -/

/-- Where the root ends in the middle of a segment, the path of the file begins there. -/
theorem relativePath_of_cutsSegment {path : String} {root : Option String} {rest : List Char}
    (h : CutsSegment (normalizedRoot root) (normalizeSlashes path.toList))
    (hrest : normalizeSlashes path.toList = normalizedRoot root ++ rest) :
    (FileIdentity.ofPath path root).relativePath.toList = rest := by
  obtain ⟨-, c, rest', hpath, hc⟩ := h
  rw [hrest] at hpath
  obtain rfl := List.append_cancel_left hpath
  rw [relativePath_behind hrest, dropLeadingSlashes_of_head hc]

/-- Elsewhere the file is named as it should be. -/
theorem relativePath_of_not_cutsSegment {path : String} {root : Option String}
    (h : ¬ CutsSegment (normalizedRoot root) (normalizeSlashes path.toList)) :
    (FileIdentity.ofPath path root).relativePath.toList =
      relativeTo (normalizedRoot root) (normalizeSlashes path.toList) := by
  unfold relativeTo
  by_cases hpre : normalizedRoot root <+: normalizeSlashes path.toList
  · obtain ⟨rest, hrest⟩ := hpre
    rw [relativePath_behind hrest.symm]
    by_cases hroot : normalizedRoot root = []
    · rw [hroot, List.nil_append] at hrest
      rw [hroot, if_neg (by simp), hrest]
    · rw [← hrest] at h ⊢
      rcases cutsSegment_or_isWithin rest hroot with ⟨hcuts, -⟩ | ⟨-, hwithin⟩
      · exact absurd hcuts h
      · rw [if_pos ⟨hroot, hwithin⟩, List.drop_left]
  · rw [relativePath_outside hpre, if_neg]
    rintro ⟨-, hwithin⟩
    exact not_isWithin_of_not_begins hpre hwithin

/-- The path of a file inside a root, but not the root itself, or outside of it is made of
    whole segments. -/
theorem isTrailing_relativeTo (h : path ≠ root) : IsTrailing path (relativeTo root path) := by
  unfold relativeTo
  split
  · next hwithin =>
    rcases hwithin.2 with heq | ⟨rest, rfl⟩
    · exact absurd heq h
    · have hdrop : (root ++ ['/'] ++ rest).drop root.length = '/' :: rest := by
        rw [List.append_assoc, List.drop_left]
        rfl
      have hstep : dropLeadingSlashes ('/' :: rest) = dropLeadingSlashes rest := by
        simp [dropLeadingSlashes]
      rw [hdrop, hstep, List.append_assoc]
      exact (isTrailing_behind_slash root rest).trans (isTrailing_dropLeadingSlashes rest)
  · exact isTrailing_dropLeadingSlashes path

/-- What is left of a segment that the root cuts is no whole segment. -/
theorem not_isTrailing_of_cutsSegment {rest : List Char} (hroot : root.getLast? ≠ some '/')
    (hne : root ≠ []) : ¬ IsTrailing (root ++ rest) rest := by
  rintro ⟨front, hfront, hends⟩
  obtain rfl := List.append_cancel_right hfront
  rcases hends with hnil | hlast
  · exact hne hnil
  · exact hroot hlast

/-- A file that the root cuts a segment of would be named by its whole path. -/
theorem relativeTo_ne_of_cutsSegment {rest : List Char} (hroot : root.getLast? ≠ some '/')
    (h : CutsSegment root (root ++ rest)) : relativeTo root (root ++ rest) ≠ rest := by
  have hne := h.1
  have hwithin : ¬ IsWithin root (root ++ rest) := by
    rcases cutsSegment_or_isWithin rest hne with ⟨-, hout⟩ | ⟨hnot, -⟩
    · exact hout
    · exact absurd h hnot
  have hfront := dropLeadingSlashes_ne_nil hne hroot
  unfold relativeTo
  rw [if_neg (fun hin => hwithin hin.2), dropLeadingSlashes_append hfront]
  intro heq
  exact hfront (List.append_left_eq_self.1 heq)

/-- A file is named by its path behind the root if it is inside the root, and by its whole
    path if it is not, unless the root ends in the middle of a segment of the path.  In the
    same cases the path of a file other than the root is made of whole segments of its path
    and ends with the name of the file.  Where the root does end in the middle of a segment,
    the rest of this segment is taken for the beginning of the path. -/
theorem relativePath_iff (path : String) (root : Option String) :
    ((FileIdentity.ofPath path root).relativePath.toList =
        relativeTo (normalizedRoot root) (normalizeSlashes path.toList) ↔
      ¬ CutsSegment (normalizedRoot root) (normalizeSlashes path.toList)) ∧
    (normalizeSlashes path.toList ≠ normalizedRoot root →
      (IsTrailing (normalizeSlashes path.toList)
          (FileIdentity.ofPath path root).relativePath.toList ∧
        (FileIdentity.ofPath path root).fileName.toList <:+
          (FileIdentity.ofPath path root).relativePath.toList ↔
      ¬ CutsSegment (normalizedRoot root) (normalizeSlashes path.toList))) ∧
    (∀ rest, CutsSegment (normalizedRoot root) (normalizeSlashes path.toList) →
      normalizeSlashes path.toList = normalizedRoot root ++ rest →
      (FileIdentity.ofPath path root).relativePath.toList = rest) := by
  have hlast : (normalizedRoot root).getLast? ≠ some '/' := getLast?_dropTrailingSlashes _
  refine ⟨⟨?_, relativePath_of_not_cutsSegment⟩, ?_, ?_⟩
  · intro heq hcuts
    obtain ⟨rest, hrest⟩ := hcuts.begins
    rw [relativePath_of_cutsSegment hcuts hrest.symm] at heq
    rw [← hrest] at heq hcuts
    exact relativeTo_ne_of_cutsSegment hlast hcuts heq.symm
  · intro hne
    constructor
    · rintro ⟨htrailing, -⟩ hcuts
      obtain ⟨rest, hrest⟩ := hcuts.begins
      rw [relativePath_of_cutsSegment hcuts hrest.symm, ← hrest] at htrailing
      exact not_isTrailing_of_cutsSegment hlast hcuts.1 htrailing
    · intro hcuts
      have htrailing := isTrailing_relativeTo hne
      have hname : (FileIdentity.ofPath path root).fileName.toList =
          lastSegment (normalizeSlashes path.toList) := String.toList_ofList
      rw [relativePath_of_not_cutsSegment hcuts, hname, htrailing.lastSegment_eq]
      exact ⟨htrailing, lastSegment_suffix _⟩
  · intro rest hcuts hrest
    exact relativePath_of_cutsSegment hcuts hrest

/-- A file beside the root `/site` loses the beginning of the segment `sites`. -/
theorem relativePath_cuts_sites :
    (FileIdentity.ofPath "/sites/src/A.tsx" (some "/site")).relativePath = "s/src/A.tsx" ∧
    ¬ IsWithin (normalizedRoot (some "/site")) (normalizeSlashes "/sites/src/A.tsx".toList) ∧
    relativeTo (normalizedRoot (some "/site")) (normalizeSlashes "/sites/src/A.tsx".toList) =
      "sites/src/A.tsx".toList := by
  decide

end Provenance
