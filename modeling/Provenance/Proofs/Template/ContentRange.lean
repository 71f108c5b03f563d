import Provenance.Proofs.Template.Tiled

/-! # The content of the template block

  The content of a block begins behind its start tag.  Where it ends is looked for once
  the whole block is read, as the place of the last `</` up to there.  That is the one of
  the end tag unless a second one stands inside the end tag, which may hold anything up to
  its `>` (`CloseTag.contentEnd_eq_start_iff`).

  Main statement: the content is the text between the two tags of the block exactly if
  the end tag holds no further `</` (`content_range_iff`).
-/

namespace Provenance

open Text (byteSize byteSize_append slice?)
open Text.Cursor (Takes)

/-- A stretch of the source ends where its text does. -/
theorem Text.stop_eq_of_slice? {source s : List Char} {o p q : Nat}
    (hp : slice? source o p = some s) (hq : slice? source o q = some s) : p = q := by
  have hsize := (isBoundary_of_slice? hp).2.2
  have hsize' := (isBoundary_of_slice? hq).2.2
  omega

namespace Template

/-- The content of a template that is read begins behind the `>` of the start tag of its
    block.  It is the text up to the end tag that closes the block, and what of that tag
    stands in front of its last `</`: so it ends where the end tag begins, and is the text
    between the two tags, exactly if no second `</` stands in the end tag. -/
theorem content_range_iff {source : List Char} {component : Component} {block : Block}
    (h : Component.parse source = .ok component) (hblock : component.template = some block) :
    ∃ (tag : OpenTag) (close stop : Nat) (text inner : List Char),
      tag.name = "template" ∧ tag.Spans source block.contentStart ∧
      slice? source block.contentStart close = some text ∧
      Tiles source block.contentStart close block.children ∧
      slice? source close stop = some ('<' :: '/' :: (inner ++ ['>'])) ∧ '>' ∉ inner ∧
      sameName (inner.takeWhile isTagNamePart) "template".toList = true ∧
      (∃ front back, '<' :: '/' :: inner = front ++ '<' :: '/' :: back ∧
        ¬ ['<', '/'] <:+: back ∧
        slice? source block.contentStart block.contentEnd = some (text ++ front)) ∧
      (block.contentEnd = close ↔ ¬ ['<', '/'] <:+: inner) ∧
      (slice? source block.contentStart block.contentEnd = some text ↔
        ¬ ['<', '/'] <:+: inner) := by
  obtain ⟨k, b, tag, m, tokens, content, e, d, hfront, htemplate, rfl, -, -⟩ :=
    parse_template h hblock
  -- the cursors at the block, behind its start tag and in front of its end tag
  have hzero : Text.Cursor.StandsIn ⟨0, source⟩ source := ⟨[], rfl, rfl⟩
  obtain ⟨u, hu⟩ := hfront.takes
  have hb := hzero.of_takes hu
  obtain ⟨opening, htag⟩ := htemplate.startTag
  obtain ⟨v, -, hv⟩ := htag.takes
  have hm := hb.of_takes hv
  obtain ⟨n, hn, -, hclose⟩ := htemplate.scan.split_closeTag
  obtain ⟨text, htext⟩ := hn.takes
  have hstands := hm.of_takes htext
  have hname : tag.name = "template" :=
    of_decide_eq_true (Bool.and_eq_true_iff.1 htemplate.isTemplate).1
  have hempty : ({} : OpenElements).TilesTo source m.offset m.offset :=
    Declarations.nil hm.isBoundary
  obtain ⟨htiles, -⟩ := htemplate.scan.tiles hm hempty (htemplate.builds none 0 [])
  have hcloseName := htemplate.closeName
  rw [hclose.name, String.toList_ofList, hname] at hcloseName
  have hbetween : slice? source m.offset content.close.start = some text := by
    rw [hclose.start]
    exact hm.slice htext
  -- what the range holds, in general
  obtain ⟨front, back, hsplit, hlast, hend⟩ := content.close.contentEnd_split
  have htakes : Takes n front ⟨n.offset + byteSize front,
      '<' :: '/' :: (back ++ '>' :: e.rest)⟩ := by
    refine Text.Cursor.takes_past ?_
    rw [hclose.rest]
    show '<' :: '/' :: content.close.inner ++ '>' :: e.rest = _
    rw [hsplit]
    simp
  have hrange : slice? source m.offset content.close.contentEnd = some (text ++ front) := by
    rw [hend, hclose.start]
    exact hm.slice (htext.trans htakes)
  have hiff := content.close.contentEnd_eq_start_iff
  have hsame : content.close.contentEnd = content.close.start ↔
      slice? source m.offset content.close.contentEnd = some text := by
    constructor
    · intro heq
      rw [heq]
      exact hbetween
    · intro hslice
      exact Text.stop_eq_of_slice? hslice hbetween
  have hendTag : slice? source content.close.start e.offset =
      some ('<' :: '/' :: (content.close.inner ++ ['>'])) := by
    rw [hclose.start]
    exact hstands.slice hclose.takes
  exact ⟨tag, content.close.start, e.offset, text, content.close.inner, hname, htag.spans hb,
    hbetween, htiles, hendTag, hclose.inner, hcloseName, ⟨front, back, hsplit, hlast, hrange⟩,
    hiff, hsame.symm.trans hiff⟩

/-- An end tag with a slash and blanks behind its name. -/
theorem content_range_iff_slash :
    ∃ source component block close stop inner,
      source = "<template>é<p></p ></template / >".toList ∧
      Component.parse source = .ok component ∧ component.template = some block ∧
      block.contentStart = 10 ∧ slice? source 10 block.contentEnd = some "é<p></p >".toList ∧
      Tiles source 10 close block.children ∧
      slice? source close stop = some ('<' :: '/' :: (inner ++ ['>'])) ∧ '>' ∉ inner ∧
      (block.contentEnd = close ↔ ¬ ['<', '/'] <:+: inner) := by
  obtain ⟨source, hsource⟩ : ∃ source, source = "<template>é<p></p ></template / >".toList :=
    ⟨_, rfl⟩
  have hfound : ((Component.parse source).toOption.bind (·.template)).map
      (fun block => (block.contentStart, slice? source 10 block.contentEnd)) =
        some (10, some "é<p></p >".toList) := by
    subst hsource
    decide +kernel
  obtain ⟨block, hblock, hpair⟩ := Option.map_eq_some_iff.1 hfound
  obtain ⟨hstart, hslice⟩ := Prod.mk.inj hpair
  obtain ⟨component, hok, hblock⟩ := Option.bind_eq_some_iff.1 hblock
  cases h : Component.parse source with
  | error e => rw [h] at hok; cases hok
  | ok component' =>
    rw [h] at hok
    obtain rfl : component' = component := Option.some.inj hok
    obtain ⟨tag, close, stop, text, inner, -, -, -, htiles, htag, hinner, -, -, hiff, -⟩ :=
      content_range_iff h hblock
    rw [hstart] at htiles
    exact ⟨source, component', block, close, stop, inner, hsource, h, hblock, hstart, hslice, htiles,
      htag, hinner, hiff⟩

/-- The content of an empty block whose end tag holds a second mark runs into that tag. -/
theorem content_range_holds_mark :
    ((Component.parse "<template></template </>".toList).toOption.bind (·.template)).map
        (fun block => (block.contentStart, block.contentEnd)) = some (10, 21) ∧
      slice? "<template></template </>".toList 0 10 = some "<template>".toList ∧
      slice? "<template></template </>".toList 10 24 = some "</template </>".toList ∧
      slice? "<template></template </>".toList 10 21 = some "</template ".toList := by
  decide +kernel

end Template

end Provenance
