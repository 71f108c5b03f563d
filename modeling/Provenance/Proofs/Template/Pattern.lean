import Provenance.Proofs.Text.Cursor
import Provenance.Template.Directive

/-! # The pattern of directive names

  The names of directives are described by the pattern

      (?i)^(?:v-([a-z0-9-]+))?(?:(?::|^\.|^@|^#)(\[[^\]]+\]|[^.]+))?(.+)?$

  A pattern is matched with backtracking: of all ways to match it the first one counts, in
  an order in which repetitions take as much as they can, and what is optional is taken
  before it is left out (`Pattern.ends`).

  Main statement: the parts of a name are the groups of the first match (`finds_parts`).
  No part that is found has to be given up later, since whatever is left in the end can be
  taken for modifiers.
-/

namespace Provenance.Template

/-! ## §1. Taking names apart -/

theorem splitBracketed?_of_head {s : List Char} (h : s.head? ≠ some '[') :
    splitBracketed? s = none := by
  unfold splitBracketed?
  split
  · exact absurd rfl h
  · rfl

/-- What stands in brackets goes up to the first bracket that closes. -/
theorem splitBracketed?_cons (r : List Char) :
    splitBracketed? ('[' :: r) =
      if r.takeWhile (· ≠ ']') = [] then none
      else match r.dropWhile (· ≠ ']') with
        | _ :: rest => some ('[' :: (r.takeWhile (· ≠ ']') ++ [']']), rest)
        | [] => none := by
  unfold splitBracketed?
  cases htake : r.takeWhile (· ≠ ']') with
  | nil => simp only [htake, if_true]
  | cons c inner =>
    cases hdrop : r.dropWhile (· ≠ ']') with
    | nil => simp only [htake, hdrop, reduceCtorEq, if_false]
    | cons d rest =>
      obtain rfl := Text.eq_of_dropWhile_ne hdrop
      simp only [htake, hdrop, reduceCtorEq, if_false]
      rfl

theorem splitBracketed?_eq_some {text argument rest : List Char}
    (h : splitBracketed? text = some (argument, rest)) : text = argument ++ rest := by
  by_cases hhead : text.head? = some '['
  · obtain ⟨r, rfl⟩ := List.head?_eq_some_iff.1 hhead
    have hsplit := List.takeWhile_append_dropWhile (p := (· ≠ ']')) (l := r)
    rw [splitBracketed?_cons] at h
    split at h
    · cases h
    · split at h
      · next d rest' hdrop =>
        obtain rfl := Text.eq_of_dropWhile_ne hdrop
        rw [hdrop] at hsplit
        obtain ⟨rfl, rfl⟩ := Prod.mk.inj (Option.some.inj h)
        rw [List.cons_append, List.append_assoc, List.singleton_append, hsplit]
      · cases h
  · rw [splitBracketed?_of_head hhead] at h
    cases h

theorem splitArgument?_eq_some {text argument rest : List Char}
    (h : splitArgument? text = some (argument, rest)) : text = argument ++ rest := by
  unfold splitArgument? at h
  split at h
  · next parts hbracket =>
    obtain rfl := Option.some.inj h
    exact splitBracketed?_eq_some hbracket
  · simp only at h
    split at h
    · cases h
    · obtain ⟨rfl, rfl⟩ := Prod.mk.inj (Option.some.inj h)
      exact List.takeWhile_append_dropWhile.symm

/-- A mark is a colon anywhere, and a point, an at sign or a number sign in front of all. -/
def IsMark (atStart : Bool) (c : Char) : Prop :=
  c = ':' ∨ (atStart = true ∧ (c = '.' ∨ c = '@' ∨ c = '#'))

instance (atStart : Bool) (c : Char) : Decidable (IsMark atStart c) :=
  inferInstanceAs (Decidable (_ ∨ _))

/-- The parts of what is left behind the name of a directive. -/
def NameParts.behindName (name : Option (List Char)) (atStart : Bool) : List Char → NameParts
  | c :: r => if IsMark atStart c then .behindMark name c r else ⟨name, none, c :: r⟩
  | [] => ⟨name, none, []⟩

theorem NameParts.behindName_of_mark (name : Option (List Char)) {atStart : Bool} {c : Char}
    {r : List Char} (h : IsMark atStart c) :
    behindName name atStart (c :: r) = .behindMark name c r := if_pos h

theorem NameParts.behindName_of_not (name : Option (List Char)) {atStart : Bool} {c : Char}
    {r : List Char} (h : ¬ IsMark atStart c) :
    behindName name atStart (c :: r) = ⟨name, none, c :: r⟩ := if_neg h

/-- Behind a name only a colon is a mark. -/
theorem NameParts.ofName_of_takeWhile {r : List Char} (h : r.takeWhile isDirectivePart ≠ []) :
    NameParts.ofName ('v' :: '-' :: r) =
      behindName (some (r.takeWhile isDirectivePart)) false (r.dropWhile isDirectivePart) := by
  unfold NameParts.ofName
  cases htake : r.takeWhile isDirectivePart with
  | nil => exact absurd htake h
  | cons d name =>
    cases hdrop : r.dropWhile isDirectivePart with
    | nil =>
      simp only [htake, hdrop]
      rfl
    | cons c rest =>
      by_cases hc : c = ':'
      · subst hc
        simp only [htake, hdrop]
        rfl
      · have hmark : ¬ IsMark false c := by simp [IsMark, hc]
        rw [behindName_of_not _ hmark]
        simp only [htake, hdrop]
        split
        · next heq => cases heq
        · next heq _ => exact absurd (List.cons.inj heq).1 hc
        · rfl

/-- Where no name stands behind `v-`, all is taken for modifiers. -/
theorem NameParts.ofName_of_takeWhile_eq_nil {r : List Char}
    (h : r.takeWhile isDirectivePart = []) :
    NameParts.ofName ('v' :: '-' :: r) = behindName none true ('v' :: '-' :: r) := by
  have hmark : ¬ IsMark true 'v' := by decide
  unfold NameParts.ofName
  simp only [h]
  exact (behindName_of_not none hmark).symm

theorem NameParts.ofName_mark {mark : Char} (h : mark ≠ 'v') (r : List Char) :
    NameParts.ofName (mark :: r) = behindMark none mark r := by
  unfold NameParts.ofName
  split
  · next heq => exact absurd (List.cons.inj heq).1 h
  · next heq =>
    obtain ⟨rfl, rfl⟩ := List.cons.inj heq
    rfl
  · next heq => cases heq

/-! ## §2. Patterns -/

/-- A pattern: a character of a class or a run of such characters, the two ends of a text,
    and what is built from patterns. -/
inductive Pattern where
  | one (p : Char → Bool)
  | many (p : Char → Bool)
  | start
  | stop
  | seq (a b : Pattern)
  | either (a b : Pattern)
  | optional (a : Pattern)
  | group (n : Nat) (a : Pattern)

namespace Pattern

/-- How far a match has come. -/
structure Place where
  atStart : Bool
  rest : List Char
  groups : Nat → Option (List Char)

/-- The beginning of a text. -/
def Place.first (text : List Char) : Place := ⟨true, text, fun _ => none⟩

/-- A later place with the same groups. -/
def Place.at (s : Place) (rest : List Char) : Place := ⟨false, rest, s.groups⟩

/-- A place with the text behind `s` as a group. -/
def Place.capture (s : Place) (n : Nat) (t : Place) : Place :=
  { t with groups := fun k =>
      if k = n then some (s.rest.take (s.rest.length - t.rest.length)) else t.groups k }

/-- What is left behind runs of a class, the longest run first. -/
def runs (p : Char → Bool) : List Char → List (List Char)
  | [] => []
  | c :: r => if p c then runs p r ++ [r] else []

/-- Where a match of a pattern can end, in the order in which its ways are tried. -/
def ends : Pattern → Place → List Place
  | one p, s =>
    match s.rest with
    | c :: r => if p c then [s.at r] else []
    | [] => []
  | many p, s => (runs p s.rest).map s.at
  | start, s => if s.atStart then [s] else []
  | stop, s => if s.rest.isEmpty then [s] else []
  | seq a b, s => (a.ends s).flatMap b.ends
  | either a b, s => a.ends s ++ b.ends s
  | optional a, s => a.ends s ++ [s]
  | group n a, s => (a.ends s).map (s.capture n)

variable {a b : Pattern} {s t u : Place} {p q : Char → Bool}

/-! ## §3. First matches -/

theorem ends_seq : (seq a b).ends s = (a.ends s).flatMap b.ends := rfl

theorem ends_seq_of_nil (h : a.ends s = []) : (seq a b).ends s = [] := by
  rw [ends_seq, h, List.flatMap_nil]

theorem head?_seq (ha : (a.ends s).head? = some t) (hb : (b.ends t).head? = some u) :
    ((seq a b).ends s).head? = some u := by
  obtain ⟨ways, ha⟩ := List.head?_eq_some_iff.1 ha
  unfold ends
  rw [ha, List.flatMap_cons, List.head?_append, hb]
  rfl

theorem head?_optional (h : (a.ends s).head? = some t) : ((optional a).ends s).head? = some t := by
  unfold ends
  rw [List.head?_append, h]
  rfl

theorem ends_optional_of_nil (h : a.ends s = []) : (optional a).ends s = [s] := by
  unfold ends
  rw [h, List.nil_append]

theorem head?_group (n : Nat) (h : (a.ends s).head? = some t) :
    ((group n a).ends s).head? = some (s.capture n t) := by
  unfold ends
  rw [List.head?_map, h]
  rfl

/-- The first run is the longest. -/
theorem head?_runs (p : Char → Bool) (text : List Char) :
    (runs p text).head? = if text.takeWhile p = [] then none else some (text.dropWhile p) := by
  induction text with
  | nil => rfl
  | cons c r ih =>
    by_cases hc : p c = true
    · rw [runs, if_pos hc, List.head?_append, List.takeWhile_cons_of_pos hc,
        List.dropWhile_cons_of_pos hc, if_neg (List.cons_ne_nil c _), ih]
      by_cases hr : r.takeWhile p = []
      · -- the run ends with this character
        rw [if_pos hr, Text.dropWhile_of_takeWhile_eq_nil hr]
        rfl
      · rw [if_neg hr]
        rfl
    · rw [runs, if_neg hc, List.takeWhile_cons_of_neg hc]
      rfl

theorem head?_many (h : s.rest.takeWhile p ≠ []) :
    ((many p).ends s).head? = some (s.at (s.rest.dropWhile p)) := by
  unfold ends
  rw [List.head?_map, head?_runs, if_neg h]
  rfl

theorem runs_eq_nil {text : List Char} (h : text.takeWhile p = []) : runs p text = [] := by
  have hhead := head?_runs p text
  rw [if_pos h] at hhead
  exact List.head?_eq_none_iff.1 hhead

theorem ends_many_of_nil (h : s.rest.takeWhile p = []) : (many p).ends s = [] := by
  unfold ends
  rw [runs_eq_nil h]
  rfl

/-- Where a run goes on, a shorter one cannot be followed by something else. -/
theorem flatMap_runs {β : Type} {f : List Char → List β} (hf : ∀ c r, p c = true → f (c :: r) = [])
    (text : List Char) :
    (runs p text).flatMap f = if text.takeWhile p = [] then [] else f (text.dropWhile p) := by
  induction text with
  | nil => rfl
  | cons c r ih =>
    by_cases hc : p c = true
    · rw [runs, if_pos hc, List.flatMap_append, ih, List.takeWhile_cons_of_pos hc,
        List.dropWhile_cons_of_pos hc, if_neg (List.cons_ne_nil c _)]
      by_cases hr : r.takeWhile p = []
      · rw [if_pos hr, Text.dropWhile_of_takeWhile_eq_nil hr]
        simp
      · -- the run goes on behind this character
        have hnil : f r = [] := by
          cases r with
          | nil => exact absurd rfl hr
          | cons d r =>
            apply hf
            apply Decidable.byContradiction
            intro hd
            exact hr (List.takeWhile_cons_of_neg hd)
        rw [if_neg hr]
        simp [hnil]
    · rw [runs, if_neg hc, List.takeWhile_cons_of_neg hc]
      rfl

/-- A run in front of a character of another class can only be the longest. -/
theorem ends_many_one (h : ∀ c, p c = true → q c = false) (s : Place) :
    (seq (many p) (one q)).ends s =
      if s.rest.takeWhile p = [] then [] else (one q).ends (s.at (s.rest.dropWhile p)) := by
  have hf : ∀ c r, p c = true → (one q).ends (s.at (c :: r)) = [] := by
    intro c r hc
    simp [ends, Place.at, h c hc]
  have hmany : (many p).ends s = (runs p s.rest).map s.at := rfl
  rw [ends_seq, hmany, List.flatMap_map]
  exact flatMap_runs hf s.rest

/-! ## §4. The pattern of directive names -/

/-- A character. -/
def char (c : Char) : Pattern := one (· = c)

/-- `v-([a-z0-9-]+)`, in upper or lower case. -/
def directiveName : Pattern :=
  seq (one fun c => c = 'v' || c = 'V') (seq (char '-') (group 1 (many isDirectivePart)))

/-- `:|^\.|^@|^#` -/
def mark : Pattern :=
  either (char ':') (either (seq start (char '.')) (either (seq start (char '@'))
    (seq start (char '#'))))

/-- `\[[^\]]+\]` -/
def bracketed : Pattern := seq (char '[') (seq (many (· ≠ ']')) (char ']'))

/-- A mark and the argument behind it, `\[[^\]]+\]|[^.]+`. -/
def markedArgument : Pattern := seq mark (group 2 (either bracketed (many (· ≠ '.'))))

/-- What is left, up to the end: `(.+)?$`. -/
def remainder : Pattern := seq (optional (group 3 (many (· ≠ '\n')))) stop

/-- The pattern of the names of directives. -/
def directive : Pattern :=
  seq start (seq (optional directiveName) (seq (optional markedArgument) remainder))

/-- The first match on a text has parts of a name for its groups. -/
def Finds (text : List Char) (parts : NameParts) : Prop :=
  ∃ found, (directive.ends (.first text)).head? = some found ∧
    parts = ⟨found.groups 1, found.groups 2, (found.groups 3).getD []⟩

/-! ## §5. What the parts of the pattern match -/

/-- A place behind a text that is a group. -/
def Place.found (s : Place) (n : Nat) (text rest : List Char) : Place :=
  ⟨false, rest, fun k => if k = n then some text else s.groups k⟩

theorem Place.capture_at {text rest : List Char} (h : s.rest = text ++ rest) (n : Nat) :
    s.capture n (s.at rest) = s.found n text rest := by
  have htake : s.rest.take (s.rest.length - rest.length) = text := by
    rw [h, List.length_append, Nat.add_sub_cancel, List.take_left]
  unfold capture found
  rw [← htake]
  rfl

theorem ends_char (c d : Char) (atStart : Bool) (r : List Char)
    (groups : Nat → Option (List Char)) :
    (char c).ends ⟨atStart, d :: r, groups⟩ = if d = c then [⟨false, r, groups⟩] else [] := by
  simp [char, ends, Place.at]

/-- Brackets are matched in one way, if at all. -/
theorem ends_bracketed (s : Place) :
    bracketed.ends s = ((splitBracketed? s.rest).map fun parts => s.at parts.2).toList := by
  obtain ⟨atStart, rest, groups⟩ := s
  have hclass : ∀ c : Char, decide (c ≠ ']') = true → decide (c = ']') = false := by
    intro c hc
    simpa using hc
  cases rest with
  | nil => rfl
  | cons c r =>
    by_cases hc : c = '['
    · subst hc
      rw [bracketed, ends_seq, ends_char, if_pos rfl, List.flatMap_singleton, char,
        ends_many_one hclass, splitBracketed?_cons]
      by_cases htake : r.takeWhile (· ≠ ']') = []
      · rw [if_pos htake, if_pos htake]
        rfl
      · rw [if_neg htake, if_neg htake]
        cases hdrop : r.dropWhile (· ≠ ']') with
        | nil => rfl
        | cons d rest =>
          obtain rfl := Text.eq_of_dropWhile_ne hdrop
          rfl
    · have hopen : (char '[').ends ⟨atStart, c :: r, groups⟩ = [] := by
        rw [ends_char, if_neg hc]
      rw [splitBracketed?_of_head (by simpa using hc), bracketed, ends_seq_of_nil hopen]
      rfl

/-- An argument is first matched as it is split off. -/
theorem head?_argument (s : Place) :
    ((either bracketed (many (· ≠ '.'))).ends s).head? =
      (splitArgument? s.rest).map fun parts => s.at parts.2 := by
  have heither : (either bracketed (many (· ≠ '.'))).ends s =
      bracketed.ends s ++ (runs (· ≠ '.') s.rest).map s.at := rfl
  unfold splitArgument?
  rw [heither, ends_bracketed, List.head?_append]
  cases splitBracketed? s.rest with
  | some parts => rfl
  | none =>
    rw [Option.map_none, Option.toList_none, List.head?_nil, Option.none_or, List.head?_map,
      head?_runs]
    simp only [List.isEmpty_iff]
    split <;> rfl

theorem ends_mark (c : Char) (atStart : Bool) (r : List Char) (groups : Nat → Option (List Char)) :
    mark.ends ⟨atStart, c :: r, groups⟩ =
      if IsMark atStart c then [⟨false, r, groups⟩] else [] := by
  have hstart : ∀ a : Pattern, (seq start a).ends ⟨atStart, c :: r, groups⟩ =
      if atStart then a.ends ⟨atStart, c :: r, groups⟩ else [] := by
    intro a
    cases atStart <;> simp [ends]
  have heither : ∀ a b : Pattern, (either a b).ends ⟨atStart, c :: r, groups⟩ =
      a.ends ⟨atStart, c :: r, groups⟩ ++ b.ends ⟨atStart, c :: r, groups⟩ := fun _ _ => rfl
  unfold mark IsMark
  simp only [heither, hstart, ends_char]
  cases atStart with
  | false => simp
  | true =>
    -- at most one of the marks is the character
    by_cases h1 : c = ':'
    · subst h1
      rfl
    · by_cases h2 : c = '.'
      · subst h2
        rfl
      · by_cases h3 : c = '@'
        · subst h3
          rfl
        · simp [h1, h2, h3]

/-! ## §6. The first match -/

variable {c : Char} {atStart : Bool} {r : List Char} {groups : Nat → Option (List Char)}

/-- An argument behind a mark is the second group. -/
theorem head?_markedArgument (hmark : IsMark atStart c) {argument rest : List Char}
    (h : splitArgument? r = some (argument, rest)) :
    (markedArgument.ends ⟨atStart, c :: r, groups⟩).head? =
      some (Place.found ⟨false, r, groups⟩ 2 argument rest) := by
  have hhead : (mark.ends ⟨atStart, c :: r, groups⟩).head? = some ⟨false, r, groups⟩ := by
    rw [ends_mark, if_pos hmark]
    rfl
  have hargument := head?_argument ⟨false, r, groups⟩
  rw [h, Option.map_some] at hargument
  have hgroup := head?_group 2 hargument
  rw [Place.capture_at (splitArgument?_eq_some h)] at hgroup
  exact head?_seq hhead hgroup

/-- Without an argument behind it a mark is not matched. -/
theorem ends_markedArgument_of_none (h : splitArgument? r = none) :
    markedArgument.ends ⟨atStart, c :: r, groups⟩ = [] := by
  have hargument := head?_argument ⟨false, r, groups⟩
  rw [h, Option.map_none, List.head?_eq_none_iff] at hargument
  have hgroup : (group 2 (either bracketed (many (· ≠ '.')))).ends ⟨false, r, groups⟩ = [] := by
    rw [ends, hargument, List.map_nil]
  rw [markedArgument, ends_seq, ends_mark]
  split
  · rw [List.flatMap_singleton, hgroup]
  · rfl

theorem ends_markedArgument_of_not (h : ¬ IsMark atStart c) :
    markedArgument.ends ⟨atStart, c :: r, groups⟩ = [] := by
  apply ends_seq_of_nil
  rw [ends_mark, if_neg h]

/-- What is left is the third group, if anything is left. -/
theorem head?_remainder (s : Place) (hline : '\n' ∉ s.rest) :
    ∃ t, (remainder.ends s).head? = some t ∧ (∀ n, n ≠ 3 → t.groups n = s.groups n) ∧
      (s.groups 3 = none → (t.groups 3).getD [] = s.rest) := by
  obtain ⟨atStart, rest, groups⟩ := s
  cases rest with
  | nil =>
    refine ⟨⟨atStart, [], groups⟩, rfl, fun n _ => rfl, ?_⟩
    intro h
    simp only at h
    simp [h]
  | cons c r =>
    have htake : (c :: r).takeWhile (· ≠ '\n') = c :: r := by
      have hrun := Text.takeWhile_ne_run (r := []) hline (by simp)
      rwa [List.append_nil] at hrun
    have hdrop : (c :: r).dropWhile (· ≠ '\n') = [] := by
      have hrun := Text.dropWhile_ne_run (r := []) hline (by simp)
      rwa [List.append_nil] at hrun
    have hmany : ((many (· ≠ '\n')).ends ⟨atStart, c :: r, groups⟩).head? = _ :=
      head?_many (by rw [htake]; exact List.cons_ne_nil c r)
    rw [hdrop] at hmany
    have hall : (⟨atStart, c :: r, groups⟩ : Place).rest = (c :: r) ++ [] := by simp
    have hgroup := head?_optional (head?_group 3 hmany)
    rw [Place.capture_at hall] at hgroup
    refine ⟨_, head?_seq hgroup rfl, ?_, ?_⟩
    · intro n hn
      exact if_neg hn
    · intro _
      rfl

/-- Behind the name of a directive the first match finds the parts of what is left. -/
theorem head?_behind {s : Place} (hline : '\n' ∉ s.rest) (h2 : s.groups 2 = none)
    (h3 : s.groups 3 = none) :
    ∃ t, ((seq (optional markedArgument) remainder).ends s).head? = some t ∧
      NameParts.behindName (s.groups 1) s.atStart s.rest =
        ⟨t.groups 1, t.groups 2, (t.groups 3).getD []⟩ := by
  -- where no argument is found, all that is left are modifiers
  have hskip : markedArgument.ends s = [] →
      ∃ t, ((seq (optional markedArgument) remainder).ends s).head? = some t ∧
        (⟨s.groups 1, none, s.rest⟩ : NameParts) =
          ⟨t.groups 1, t.groups 2, (t.groups 3).getD []⟩ := by
    intro h
    obtain ⟨t, ht, hgroups, hrest⟩ := head?_remainder s hline
    have hoptional : ((optional markedArgument).ends s).head? = some s := by
      rw [ends_optional_of_nil h]
      rfl
    refine ⟨t, head?_seq hoptional ht, ?_⟩
    rw [hgroups 1 (by decide), hgroups 2 (by decide), hrest h3, h2]
  obtain ⟨atStart, rest, groups⟩ := s
  cases rest with
  | nil =>
    apply hskip
    cases atStart <;> rfl
  | cons c r =>
    by_cases hmark : IsMark atStart c
    · rw [NameParts.behindName_of_mark _ hmark, NameParts.behindMark]
      cases hsplit : splitArgument? r with
      | none => exact hskip (ends_markedArgument_of_none hsplit)
      | some parts =>
        obtain ⟨argument, rest⟩ := parts
        have hargument : (markedArgument.ends ⟨atStart, c :: r, groups⟩).head? = _ :=
          head?_markedArgument hmark hsplit
        have hrest : '\n' ∉ rest := by
          intro hmem
          apply hline
          rw [splitArgument?_eq_some hsplit]
          simp [hmem]
        obtain ⟨t, ht, hgroups, hlast⟩ :=
          head?_remainder (Place.found ⟨false, r, groups⟩ 2 argument rest) hrest
        refine ⟨t, head?_seq (head?_optional hargument) ht, ?_⟩
        rw [hgroups 1 (by decide), hgroups 2 (by decide), hlast h3]
        rfl
    · rw [NameParts.behindName_of_not _ hmark]
      exact hskip (ends_markedArgument_of_not hmark)

/-- Behind `v-` the first group is tried. -/
theorem ends_directiveName (r : List Char) :
    directiveName.ends (.first ('v' :: '-' :: r)) =
      (group 1 (many isDirectivePart)).ends ((Place.first []).at r) := by
  have hfirst : (one fun c => c = 'v' || c = 'V').ends (.first ('v' :: '-' :: r)) =
      [(Place.first []).at ('-' :: r)] := rfl
  have hhyphen : (char '-').ends ((Place.first []).at ('-' :: r)) = [(Place.first []).at r] := rfl
  rw [directiveName, ends_seq, hfirst, List.flatMap_singleton, ends_seq, hhyphen,
    List.flatMap_singleton]

theorem head?_directiveName (h : r.takeWhile isDirectivePart ≠ []) :
    (directiveName.ends (.first ('v' :: '-' :: r))).head? =
      some (Place.found (.first []) 1 (r.takeWhile isDirectivePart)
        (r.dropWhile isDirectivePart)) := by
  have hmany := @head?_many ((Place.first []).at r) isDirectivePart h
  have hgroup := head?_group 1 hmany
  rw [Place.capture_at List.takeWhile_append_dropWhile.symm] at hgroup
  rw [ends_directiveName]
  exact hgroup

theorem ends_directiveName_of_nil (h : r.takeWhile isDirectivePart = []) :
    directiveName.ends (.first ('v' :: '-' :: r)) = [] := by
  rw [ends_directiveName, ends, @ends_many_of_nil ((Place.first []).at r) isDirectivePart h]
  rfl

theorem ends_directiveName_of_ne (h : c ≠ 'v' ∧ c ≠ 'V') :
    directiveName.ends (.first (c :: r)) = [] := by
  apply ends_seq_of_nil
  simp [ends, Place.first, h]

/-- A name is taken apart into what is left behind its front, at the place where a match
    has come to. -/
theorem finds_behindName {name : List Char} {s : Place}
    (hs : ((optional directiveName).ends (.first name)).head? = some s) (hline : '\n' ∉ s.rest)
    (h2 : s.groups 2 = none) (h3 : s.groups 3 = none) :
    Finds name (.behindName (s.groups 1) s.atStart s.rest) := by
  obtain ⟨found, hfound, hparts⟩ := head?_behind hline h2 h3
  have hstart : (start.ends (.first name)).head? = some (.first name) := rfl
  exact ⟨found, head?_seq hstart (head?_seq hs hfound), hparts⟩

/-- The parts of the name of a directive are the groups of the first match. -/
theorem finds_parts {name : List Char} (hname : isDirectiveName name = true)
    (hline : '\n' ∉ name) : Finds name (NameParts.ofName name) := by
  unfold isDirectiveName at hname
  split at hname
  · next r =>
    by_cases h : r.takeWhile isDirectivePart = []
    · -- no name, and so no mark, stands in front
      have hfirst : ((optional directiveName).ends (.first ('v' :: '-' :: r))).head? =
          some (.first ('v' :: '-' :: r)) := by
        rw [ends_optional_of_nil (ends_directiveName_of_nil h)]
        rfl
      rw [NameParts.ofName_of_takeWhile_eq_nil h]
      exact finds_behindName hfirst hline rfl rfl
    · have hfirst := head?_optional (head?_directiveName h)
      have hrest : '\n' ∉ r.dropWhile isDirectivePart := by
        intro hmem
        apply hline
        simp [List.dropWhile_subset _ hmem]
      rw [NameParts.ofName_of_takeWhile h]
      exact finds_behindName hfirst hrest rfl rfl
  · next c r hv =>
    have hmark : IsMark true c ∧ c ≠ 'v' ∧ c ≠ 'V' := by
      simp only [Bool.or_eq_true, decide_eq_true_eq] at hname
      rcases hname with ((rfl | rfl) | rfl) | rfl
      all_goals decide
    have hfirst : ((optional directiveName).ends (.first (c :: r))).head? =
        some (.first (c :: r)) := by
      rw [ends_optional_of_nil (ends_directiveName_of_ne hmark.2)]
      rfl
    rw [NameParts.ofName_mark hmark.2.1, ← NameParts.behindName_of_mark none hmark.1]
    exact finds_behindName hfirst hline rfl rfl
  · cases hname

end Pattern

end Provenance.Template
