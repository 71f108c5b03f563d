import Provenance.Proofs.Annotation.Tree
import Provenance.Proofs.Script.Attribute

/-! # Added attributes, printed and read again

  The attributes of a marker are printed as they stand between quotes, behind those
  that an element has.  They are read again one by one, up to the first whose value
  holds quotes of both kinds: no quote fits around that one, and what is read as its
  value ends early (`added_attributes_read_iff`).
-/

namespace Provenance.Script

open Template (IsPlainPrefix isPlainPart)

/-! ## §1. Values in quotes -/

/-- A text holds quotes of both kinds. -/
def HasBothQuotes (s : String) : Prop := '"' ∈ s.toList ∧ '\'' ∈ s.toList

instance : DecidablePred HasBothQuotes := fun _ => inferInstanceAs (Decidable (_ ∧ _))

theorem attributeText_eq (value : String) :
    Print.attributeText value =
      (if '"' ∈ value.toList then '\'' else '"') ::
        (value.toList ++ [if '"' ∈ value.toList then '\'' else '"']) := by
  unfold Print.attributeText
  simp only [String.contains_char_eq, decide_eq_true_eq, List.cons_append]

theorem attributeText_of_not {value : String} (h : ¬ HasBothQuotes value) :
    ∃ quote, (quote = '"' ∨ quote = '\'') ∧ quote ∉ value.toList ∧
      Print.attributeText value = quote :: (value.toList ++ [quote]) := by
  rw [attributeText_eq]
  by_cases hdouble : '"' ∈ value.toList
  · have hsingle : '\'' ∉ value.toList := fun hmem => h ⟨hdouble, hmem⟩
    exact ⟨'\'', .inr rfl, hsingle, by simp [hdouble]⟩
  · exact ⟨'"', .inl rfl, hdouble, by simp [hdouble]⟩

/-- The value goes on behind a quote like those around it. -/
theorem attributeText_of_both {value : String} (h : HasBothQuotes value) :
    ∃ front rear, '\'' ∉ front ∧ String.ofList front ≠ value ∧
      Print.attributeText value = '\'' :: (front ++ '\'' :: rear) := by
  obtain ⟨front, rear, hvalue, hfront⟩ := List.eq_append_cons_of_mem h.2
  refine ⟨front, rear ++ ['\''], hfront, ?_, ?_⟩
  · rintro rfl
    rw [String.toList_ofList] at hvalue
    exact absurd (List.self_eq_append_right.1 hvalue) (List.cons_ne_nil _ _)
  · rw [attributeText_eq, if_pos h.1, hvalue]
    simp

/-- An attribute as it is printed, with a blank in front. -/
def attributeCode (e : String × String) : List Char :=
  ' ' :: (e.1.toList ++ '=' :: Print.attributeText e.2)

theorem attributeCode_eq (e : String × String) :
    attributeCode e = ' ' :: (e.1.toList ++ '=' ::
      (if '"' ∈ e.2.toList then '\'' else '"') ::
        (e.2.toList ++ [if '"' ∈ e.2.toList then '\'' else '"'])) := by
  rw [attributeCode, attributeText_eq]

/-! ## §2. Printing -/

namespace Print

/-- A step of printing does nothing to the text but put something behind it. -/
def Appends (p : Print) (s : List Char) : Prop :=
  ∀ page, (p.run page).2.text = s.reverse ++ page.text

theorem Appends.bind {p : Print} {q : Unit → Print} {s t : List Char} (hp : Appends p s)
    (hq : Appends (q ()) t) : Appends (p >>= q) (s ++ t) := by
  intro page
  show ((q ()).run (p.run page).2).2.text = _
  rw [hq, hp, List.reverse_append, List.append_assoc]

theorem appends_pure : Appends (pure ()) [] := fun _ => rfl

theorem appends_char (c : Char) : Appends (char c) [c] := by
  intro page
  show (char c page).2.text = c :: page.text
  unfold char
  dsimp only [modify, modifyGet, MonadStateOf.modifyGet, StateT.modifyGet]
  split
  · rfl
  · split <;> rfl

theorem appends_chars (s : List Char) : Appends (chars s) s := by
  induction s with
  | nil => exact appends_pure
  | cons c s ih => exact (appends_char c).bind ih

theorem appends_text (s : String) : Appends (text s) s.toList := appends_chars s.toList

/-- An added attribute names no place of the source, so that it is its text alone. -/
theorem appends_newAttribute (e : String × String) (place : Place) :
    Appends (tree (newAttribute e) place) (e.1.toList ++ '=' :: attributeText e.2) := by
  have hname : Appends (tree (.node {} (.markupName e.1) []) {}) e.1.toList := by
    show Appends (mapStart {} >>= fun _ => text e.1) _
    exact appends_pure.bind (appends_text e.1)
  have hvalue : Appends (tree (.node {} (.attributeText e.2) []) {}) (attributeText e.2) := by
    show Appends (chars (attributeText e.2)) _
    exact appends_chars _
  show Appends (tree (.node {} (.markupName e.1) []) {} >>= fun _ =>
    text "=" >>= fun _ => tree (.node {} (.attributeText e.2) []) {}) _
  exact hname.bind ((appends_text "=").bind hvalue)

theorem appends_attributes (entries : List (String × String)) :
    Appends (attributes (partsOf (entries.map newAttribute))) (entries.flatMap attributeCode) := by
  induction entries with
  | nil => exact appends_pure
  | cons e entries ih =>
    show Appends ((char ' ' >>= fun _ => tree (newAttribute e) {}) >>= fun _ =>
      attributes (partsOf (entries.map newAttribute))) _
    exact ((appends_char ' ').bind (appends_newAttribute e {})).bind ih

theorem partsOf_append (front rear : List Tree) :
    partsOf (front ++ rear) = partsOf front ++ partsOf rear := by
  induction front with
  | nil => rfl
  | cons t front ih => rw [List.cons_append, partsOf, ih, partsOf, List.cons_append]

/-- What ends an opening tag. -/
def tagEnd (isSelfClosing : Bool) : List Char := (if isSelfClosing then " />" else ">").toList

theorem attributes_append (front rear : List Part) :
    attributes (front ++ rear) = (attributes front >>= fun _ => attributes rear) :=
  List.forM_append

/-- An opening tag without its end. -/
def openingFront (span : Span) (name : Part) (list : List Part) : Print := do
  mapStart span
  char '<'
  name.whole
  attributes list

theorem openingTag_append (span : Span) (isSelfClosing : Bool) (name : Part)
    (front rear : List Part) :
    openingTag span isSelfClosing name (front ++ rear) =
      (openingFront span name front >>= fun _ => attributes rear >>= fun _ =>
        chars (tagEnd isSelfClosing)) := by
  simp only [openingTag, openingFront, attributes_append, text, tagEnd, bind_assoc]

/-- Attributes that are added to an opening tag are printed in front of its end. -/
theorem openingTag_text (span : Span) (isSelfClosing : Bool) (name arguments : Tree)
    (list : List Tree) (entries : List (String × String)) (place : Place) (page : Page) :
    ∃ front : List Char,
      ((tree (.node span (.openingTag isSelfClosing) (name :: arguments :: list)) place).run
        page).2.text = (tagEnd isSelfClosing).reverse ++ front ∧
      ((tree (.node span (.openingTag isSelfClosing)
          (name :: arguments :: (list ++ entries.map newAttribute))) place).run page).2.text =
        (tagEnd isSelfClosing).reverse ++ ((entries.flatMap attributeCode).reverse ++ front) := by
  let opening := openingFront span ⟨name, tree name⟩ (partsOf list)
  refine ⟨(opening.run page).2.text, ?_, ?_⟩
  · have hlist := openingTag_append span isSelfClosing ⟨name, tree name⟩ (partsOf list) []
    rw [List.append_nil] at hlist
    show ((openingTag span isSelfClosing ⟨name, tree name⟩ (partsOf list)).run page).2.text = _
    rw [hlist]
    exact appends_chars _ _
  · show ((openingTag span isSelfClosing ⟨name, tree name⟩
      (partsOf (list ++ entries.map newAttribute))).run page).2.text = _
    rw [partsOf_append, openingTag_append]
    have hrear := (appends_attributes entries).bind (q := fun _ => chars (tagEnd isSelfClosing))
      (appends_chars _) (opening.run page).2
    rw [List.reverse_append, List.append_assoc] at hrear
    exact hrear

end Print

/-! ## §3. Reading -/

namespace Parse

variable {s : ParseState}

/-- Attributes with values in which quotes of one kind at most occur are read as they
    were printed. -/
theorem moreAttributes_entries (g : Grammar) (fuel : Nat) (list : List Tree) {rest : List Char}
    {entries : List (String × String)} (hname : ∀ e ∈ entries, IsPlainPrefix e.1.toList)
    (hvalue : ∀ e ∈ entries, ¬ HasBothQuotes e.2)
    (hrest : s.after.rest = entries.flatMap attributeCode ++ rest) :
    ∃ (trees : List Tree) (s' : ParseState), moreAttributes g (fuel + entries.length) list s =
        moreAttributes g fuel (trees.reverse ++ list) s' ∧ s'.after.rest = rest ∧
      trees.map stringAttribute? = entries.map some := by
  induction entries generalizing list s with
  | nil => exact ⟨[], s, rfl, hrest, rfl⟩
  | cons e entries ih =>
    obtain ⟨quote, hquote, hmem, htext⟩ := attributeText_of_not (hvalue e List.mem_cons_self)
    have hcode : s.after.rest = ' ' :: (e.1.toList ++ '=' :: quote ::
        (e.2.toList ++ quote :: (entries.flatMap attributeCode ++ rest))) := by
      rw [hrest, List.flatMap_cons, attributeCode, htext]
      simp
    obtain ⟨tree, t, hstep, ht, htree⟩ := moreAttributes_next g (fuel + entries.length) list
      (hname e List.mem_cons_self) hquote hmem hcode
    obtain ⟨trees, s', hloop, hs', htrees⟩ := ih (tree :: list)
      (fun e he => hname e (List.mem_cons_of_mem _ he))
      (fun e he => hvalue e (List.mem_cons_of_mem _ he)) ht
    refine ⟨tree :: trees, s', ?_, hs', ?_⟩
    · rw [List.length_cons, ← Nat.add_assoc, hstep, hloop, List.reverse_cons, List.append_assoc]
      rfl
    · rw [List.map_cons, List.map_cons, htree, htrees, String.ofList_toList, String.ofList_toList]

/-- An attribute that was read is the next one of the outcome. -/
theorem cons_of_moreAttributes {g : Grammar} {fuel : Nat} {before new : List Tree} {tree : Tree}
    {s' : ParseState}
    (h : moreAttributes g fuel (tree :: before.reverse) s = some (before ++ new, s')) :
    ∃ rest, new = tree :: rest := by
  obtain ⟨u, t, -, hloop⟩ := exists_of_bind h
  have hprefix := prefix_of_iterateFor hloop
  rw [List.reverse_cons, List.reverse_reverse, List.prefix_append_right_inj] at hprefix
  obtain ⟨rest, hrest⟩ := hprefix
  exact ⟨rest, hrest.symm⟩

/-- Where a value holds quotes of both kinds, another value is read. -/
theorem moreAttributes_both (g : Grammar) {fuel : Nat} {before new : List Tree} {s' : ParseState}
    {rest : List Char} {entries : List (String × String)}
    (hname : ∀ e ∈ entries, IsPlainPrefix e.1.toList) {e : String × String} (he : e ∈ entries)
    (hboth : HasBothQuotes e.2) (hrest : s.after.rest = entries.flatMap attributeCode ++ rest)
    (h : moreAttributes g fuel before.reverse s = some (before ++ new, s')) :
    new.map stringAttribute? ≠ entries.map some := by
  induction entries generalizing fuel before new s with
  | nil => cases he
  | cons d entries ih =>
    obtain ⟨fuel, rfl⟩ : ∃ n, fuel = n + 1 := by
      cases fuel with
      | zero =>
        obtain ⟨u, t, -, hloop⟩ := exists_of_bind h
        cases hloop
      | succ n => exact ⟨n, rfl⟩
    have hd := hname d List.mem_cons_self
    by_cases hdboth : HasBothQuotes d.2
    · -- its value ends at the first single quote in it
      obtain ⟨front, rear, hmem, hne, htext⟩ := attributeText_of_both hdboth
      have hcode : s.after.rest = ' ' :: (d.1.toList ++ '=' :: '\'' ::
          (front ++ '\'' :: (rear ++ (entries.flatMap attributeCode ++ rest)))) := by
        rw [hrest, List.flatMap_cons, attributeCode, htext]
        simp
      obtain ⟨tree, t, hstep, -, htree⟩ :=
        moreAttributes_next g fuel before.reverse hd (.inr rfl) hmem hcode
      rw [hstep] at h
      obtain ⟨new, rfl⟩ := cons_of_moreAttributes h
      rw [List.map_cons, List.map_cons, htree]
      intro heq
      exact hne (congrArg Prod.snd (Option.some.inj (List.cons.inj heq).1))
    · obtain ⟨quote, hquote, hmem, htext⟩ := attributeText_of_not hdboth
      have hcode : s.after.rest = ' ' :: (d.1.toList ++ '=' :: quote ::
          (d.2.toList ++ quote :: (entries.flatMap attributeCode ++ rest))) := by
        rw [hrest, List.flatMap_cons, attributeCode, htext]
        simp
      obtain ⟨tree, t, hstep, ht, -⟩ := moreAttributes_next g fuel before.reverse hd hquote hmem hcode
      rw [hstep] at h
      obtain ⟨new, rfl⟩ := cons_of_moreAttributes h
      have he : e ∈ entries := (List.mem_cons.1 he).resolve_left fun hed => hdboth (hed ▸ hboth)
      have hloop : moreAttributes g fuel (before ++ [tree]).reverse t =
          some (before ++ [tree] ++ new, s') := by
        simpa using h
      have hrest := ih (fun d hd => hname d (List.mem_cons_of_mem _ hd)) he ht hloop
      rw [List.map_cons, List.map_cons]
      exact fun heq => hrest (List.cons.inj heq).2

/-- Printed attributes are read again up to the end of their tag exactly if no value
    of theirs holds quotes of both kinds. -/
theorem moreAttributes_iff (g : Grammar) {fuel : Nat} (before : List Tree) {rest : List Char}
    {entries : List (String × String)} (isSelfClosing : Bool)
    (hname : ∀ e ∈ entries, IsPlainPrefix e.1.toList) (hfuel : entries.length < fuel)
    (hrest : s.after.rest =
      entries.flatMap attributeCode ++ (Print.tagEnd isSelfClosing ++ rest)) :
    (∃ new s', moreAttributes g fuel before.reverse s = some (before ++ new, s') ∧
        new.map stringAttribute? = entries.map some ∧
        s'.token.isMark (if isSelfClosing then "/" else ">") = true) ↔
      ∀ e ∈ entries, ¬ HasBothQuotes e.2 := by
  constructor
  · rintro ⟨new, s', hread, hnew, -⟩ e he hboth
    exact moreAttributes_both g hname he hboth hrest hread hnew
  · intro hvalue
    obtain ⟨n, rfl⟩ : ∃ n, fuel = n + 1 + entries.length := ⟨fuel - entries.length - 1, by omega⟩
    obtain ⟨trees, t, hloop, ht, htrees⟩ :=
      moreAttributes_entries g (n + 1) before.reverse hname hvalue hrest
    obtain ⟨s', hend, hmark⟩ :=
      moreAttributes_end g n (trees.reverse ++ before.reverse) isSelfClosing ht
    refine ⟨trees, s', ?_, htrees, hmark⟩
    rw [hloop, hend, List.reverse_append, List.reverse_reverse, List.reverse_reverse]

end Parse

/-! ## §4. Markers -/

theorem plain_append {pre suffix : String} (h : IsPlainPrefix pre.toList)
    (hsuffix : suffix.toList.all isPlainPart = true) : IsPlainPrefix (pre ++ suffix).toList := by
  obtain ⟨x, r, hpre, hx⟩ := h.head
  rw [String.toList_append]
  refine ⟨⟨x, r ++ suffix.toList, by rw [hpre, List.cons_append], hx⟩, ?_⟩
  rw [List.all_append, h.part, hsuffix]
  rfl

theorem componentNames_plain : ∀ name ∈ Marker.componentNames, IsPlainPrefix name.toList := by
  intro name h
  simp only [Marker.componentNames, List.mem_cons, List.not_mem_nil, or_false] at h
  rcases h with rfl | rfl | rfl | rfl | rfl <;> exact ⟨⟨'d', _, rfl, rfl⟩, by decide⟩

theorem plain_of_mem_entries {marker : Marker} (h : IsPlainPrefix marker.attributePrefix.toList)
    {e : String × String} (he : e ∈ marker.entries) : IsPlainPrefix e.1.toList := by
  rcases Marker.name_of_mem_entries he with heq | heq | hmem
  · rw [heq]
    exact plain_append h (by decide)
  · rw [heq]
    exact plain_append h (by decide)
  · exact componentNames_plain _ hmem

/-- A location brings no quote to the path in front of it. -/
theorem hasBothQuotes_id {path : String} {line column : Nat} :
    HasBothQuotes (path ++ ":" ++ toString line ++ ":" ++ toString column) ↔
      HasBothQuotes path := by
  have hmem : ∀ q : Char, q.isDigit = false → q ∉ ":".toList →
      (q ∈ (path ++ ":" ++ toString line ++ ":" ++ toString column).toList ↔
        q ∈ path.toList) := by
    intro q hdigit hcolon
    have hdigits := Marker.not_mem_toString hdigit
    simp only [String.toList_append, List.mem_append, hdigits, hcolon, or_false]
  rw [HasBothQuotes, hmem _ (by decide) (by decide), hmem _ (by decide) (by decide), HasBothQuotes]

/-- The values of a marker that can hold quotes are the path and the name of the file
    and the name of the tag. -/
theorem no_both_quotes_iff {identity : FileIdentity} {position : Position} {tag : String}
    {props : PropertyMap} {options : TransformOptions} :
    (∀ e ∈ (Marker.synthesize identity position tag props options).entries,
        ¬ HasBothQuotes e.2) ↔
      ¬ HasBothQuotes identity.relativePath ∧ ¬ HasBothQuotes tag ∧
        ¬ HasBothQuotes identity.fileName := by
  constructor
  · intro h
    unfold Marker.entries at h
    refine ⟨?_, ?_, ?_⟩
    · exact h ("data-component-path", identity.relativePath)
        (List.mem_append_left _ (by simp [Marker.synthesize]))
    · exact h ("data-component-name", tag)
        (List.mem_append_left _ (by simp [Marker.synthesize]))
    · exact h ("data-component-file", identity.fileName)
        (List.mem_append_left _ (by simp [Marker.synthesize]))
  · rintro ⟨hpath, htag, hfile⟩ e he
    unfold Marker.entries at he
    -- one of the six attributes that are always there, or the content
    rcases List.mem_append.1 he with he | he
    · simp only [Marker.synthesize, List.mem_cons, List.not_mem_nil, or_false] at he
      rcases he with rfl | rfl | rfl | rfl | rfl | rfl
      · rw [hasBothQuotes_id]
        exact hpath
      · exact htag
      · exact hpath
      · exact fun hboth => Marker.not_mem_toString (by decide) _ hboth.1
      · exact hfile
      · exact htag
    · split at he
      · next content hcontent =>
        obtain rfl := List.mem_singleton.1 he
        have hsome : props.content? = some content := by
          simp only [Marker.synthesize] at hcontent
          split at hcontent
          · exact hcontent
          · cases hcontent
        exact fun hboth => PropertyMap.not_mem_content (by decide) hsome hboth.1
      · cases he

/-! ## §5. Elements -/

theorem exists_of_markedAt {options : TransformOptions} {tree : Tree} {address : List Nat}
    (h : tree.MarkedAt options address) :
    ∃ span isSelfClosing name arguments attributes,
      tree.at? address =
        some (.node span (.openingTag isSelfClosing) (name :: arguments :: attributes)) ∧
      OpeningTag.Unmarked options ⟨nameText name, attributes, span.start⟩ := by
  obtain ⟨tag, htag, hunmarked⟩ := h
  obtain ⟨⟨span, form, parts⟩, hu, hnode⟩ := Option.bind_eq_some_iff.1 htag
  have hof : OpeningTag.of? span form parts = some tag := hnode
  unfold OpeningTag.of? at hof
  split at hof
  · next isSelfClosing name arguments attributes =>
    cases hof
    exact ⟨span, isSelfClosing, name, arguments, attributes, hu, hunmarked⟩
  · cases hof

/-- Wherever an element is to be marked in a tree, its opening tag has the attributes of its
    marker behind its parts, and they are printed behind those.  Wherever the parser reads
    the printed text again behind other attributes, it reads them up to the end of the tag
    exactly if neither the path nor the name of the file nor the name of the tag holds
    quotes of both kinds. -/
theorem added_attributes_read_iff (context : FileContext) (tree : Tree)
    (hplain : IsPlainPrefix context.options.attributePrefix.toList) {address : List Nat}
    (hmarked : tree.MarkedAt context.options address) :
    ∃ (span : Span) (isSelfClosing : Bool) (name arguments : Tree) (attributes : List Tree)
        (tag : OpeningTag) (kept : List Tree) (entries : List (String × String))
        (code : List Char),
      tree.at? address =
        some (.node span (.openingTag isSelfClosing) (name :: arguments :: attributes)) ∧
      tag = ⟨nameText name, attributes, span.start⟩ ∧
      kept = (name :: arguments :: attributes).map (Tree.annotated context) ∧
      entries = (tag.marker context).entries ∧ code = entries.flatMap attributeCode ∧
      (tree.annotated context).at? address =
        some (.node span (.openingTag isSelfClosing) (kept ++ entries.map newAttribute)) ∧
      (∀ place page, ∃ front,
        ((Print.tree (.node span (.openingTag isSelfClosing) kept) place).run page).2.text =
          (Print.tagEnd isSelfClosing).reverse ++ front ∧
        ((Print.tree (.node span (.openingTag isSelfClosing)
            (kept ++ entries.map newAttribute)) place).run page).2.text =
          (Print.tagEnd isSelfClosing).reverse ++ (code.reverse ++ front)) ∧
      (∀ (g : Grammar) (s t : ParseState), Parse.advance s = some ((), t) →
        Parse.tagAttributes g t = Parse.moreAttributes g t.bound [] s) ∧
      ∀ (g : Grammar) (s : ParseState) (before : List Tree) (fuel : Nat) (rest : List Char),
        s.after.rest = code ++ (Print.tagEnd isSelfClosing ++ rest) → entries.length < fuel →
          ((∃ new s', Parse.moreAttributes g fuel before.reverse s = some (before ++ new, s') ∧
              new.map stringAttribute? = entries.map some ∧
              s'.token.isMark (if isSelfClosing then "/" else ">") = true) ↔
            ¬ HasBothQuotes context.identity.relativePath ∧ ¬ HasBothQuotes tag.name ∧
              ¬ HasBothQuotes context.identity.fileName) := by
  obtain ⟨span, isSelfClosing, name, arguments, attributes, hat, hunmarked⟩ :=
    exists_of_markedAt hmarked
  refine ⟨span, isSelfClosing, name, arguments, attributes, _, _, _, _, hat, rfl, rfl, rfl, rfl,
    ?_, ?_, ?_, ?_⟩
  · rw [Tree.at?_annotated context hat, Tree.annotated_node]
    have hadded : (⟨nameText name, attributes, span.start⟩ : OpeningTag).added context = _ :=
      if_pos hunmarked
    show some (Tree.node _ _ (_ ++ OpeningTag.added context _)) = _
    rw [hadded]
  · intro place page
    exact Print.openingTag_text span isSelfClosing _ _ _ _ place page
  · intro g s t hadvance
    rw [Parse.moreAttributes, Parse.bind_eq hadvance, Parse.tagAttributes_eq]
    rfl
  · intro g s before fuel rest hrest hfuel
    rw [Parse.moreAttributes_iff g before isSelfClosing
      (fun e he => plain_of_mem_entries hplain he) hfuel hrest]
    exact no_both_quotes_iff

/-- In an element inside of another one, a path with a double quote stands between single
    quotes, and is read again. -/
theorem added_attributes_read_double_quote :
    let context := FileContext.of "<p><b/></p>".toList "a\"b.jsx" {}
    let tree := Tree.node ⟨0, 11⟩ .element
      [.node ⟨0, 3⟩ (.openingTag false) [.node ⟨1, 2⟩ (.markupName "p") [], .absent],
        .node ⟨7, 11⟩ .closingTag [.node ⟨9, 10⟩ (.markupName "p") []],
        .node ⟨3, 7⟩ .element
          [.node ⟨3, 7⟩ (.openingTag true) [.node ⟨4, 5⟩ (.markupName "b") [], .absent], .absent]]
    let entries := (OpeningTag.marker context ⟨"b", [], 3⟩).entries
    tree.MarkedAt context.options [2, 0] ∧
      IsPlainPrefix context.options.attributePrefix.toList ∧
      ∀ (g : Grammar) (s t : ParseState) (rest : List Char), Parse.advance s = some ((), t) →
        s.after.rest = entries.flatMap attributeCode ++ (" />".toList ++ rest) →
        entries.length < t.bound →
          ∃ new s', Parse.tagAttributes g t = some (new, s') ∧
            new.map stringAttribute? = entries.map some := by
  intro context tree entries
  have hmarked : tree.MarkedAt context.options [2, 0] := ⟨⟨"b", [], 3⟩, rfl, by decide⟩
  have hplain : IsPlainPrefix "data-lov".toList := ⟨⟨'d', _, rfl, rfl⟩, by decide⟩
  refine ⟨hmarked, hplain, fun g s t rest hadvance hrest hbound => ?_⟩
  obtain ⟨span, isSelfClosing, name, arguments, attributes, tag, kept, _, code, hat, rfl, rfl, rfl,
    rfl, -, -, htag, hread⟩ := added_attributes_read_iff context tree hplain hmarked
  cases hat
  obtain ⟨new, s', hnew, hentries, -⟩ :=
    (hread g s [] _ rest hrest hbound).2 (by decide +kernel)
  rw [htag g s t hadvance]
  exact ⟨new, s', hnew, hentries⟩

/-- Once the path of its file holds quotes of both kinds, the text of an annotated tag
    is no program any more. -/
theorem annotated_tag_may_not_parse :
    let context := FileContext.of "<p/>".toList "a\"'b.jsx" {}
    let opening := Tree.node ⟨0, 4⟩ (.openingTag true) [.node ⟨1, 2⟩ (.markupName "p") [], .absent]
    let printed (tree : Tree) :=
      ((Print.tree tree {}).run { source := LineIndex.ofText "<p/>".toList }).2.text.reverse
    ∀ goal ∈ [Goal.module, Goal.script],
      (parseProgram? ⟨false, true, goal⟩ (printed opening)).isSome = true ∧
        (parseProgram? ⟨false, true, goal⟩ (printed (opening.annotated context))).isNone = true := by
  intro context opening printed
  let tag : OpeningTag := ⟨"p", [], 0⟩
  have hentries : (tag.marker context).entries.flatMap attributeCode =
      (" data-lov-id='a\"'b.jsx:1:0' data-lov-name=\"p\" data-component-path='a\"'b.jsx'" ++
        " data-component-line=\"1\" data-component-file='a\"'b.jsx'" ++
        " data-component-name=\"p\"").toList := by
    simp only [funext attributeCode_eq]
    decide +kernel
  have hopening : printed opening = "<p".toList ++ " />".toList := by decide +kernel
  obtain ⟨front, hfront, htext⟩ := Print.openingTag_text ⟨0, 4⟩ true
    (.node ⟨1, 2⟩ (.markupName "p") []) .absent [] (tag.marker context).entries {}
    { source := LineIndex.ofText "<p/>".toList }
  have hlead : front.reverse = "<p".toList := by
    have hall : front.reverse ++ " />".toList = "<p".toList ++ " />".toList := by
      rw [← hopening]
      show _ = List.reverse _
      rw [hfront, List.reverse_append, List.reverse_reverse]
      rfl
    exact List.append_cancel_right hall
  have hannotated : printed (opening.annotated context) =
      "<p".toList ++ ((tag.marker context).entries.flatMap attributeCode) ++ " />".toList := by
    show List.reverse _ = _
    have hadded : opening.annotated context = .node ⟨0, 4⟩ (.openingTag true)
        (.node ⟨1, 2⟩ (.markupName "p") [] :: .absent ::
          ([] ++ (tag.marker context).entries.map newAttribute)) := rfl
    rw [hadded, htext, List.reverse_append, List.reverse_append, List.reverse_reverse,
      List.reverse_reverse, hlead]
    rfl
  rw [hopening, hannotated, hentries]
  decide +kernel

end Provenance.Script
