import Mathlib.Algebra.Order.Group.Multiset
import SwiftForge.Proofs.Layout.Literals
import SwiftForge.Proofs.Render.Composition

/-! String literals in a rendered tree. Each place that a rendering comes to has the literals that stand at it; the text
    shows the literals of all these places, one for one, so that each of them can be read back where it stands. -/

namespace SwiftForge

open Logged (value_bind value_pure)
open Fragment (Show show_zero show_line show_block show_openBlock show_indented)

/-- The string literals at a place and below it. -/
def Site.shown (s : Site) : Multiset String := (s.reached.flatMap Site.strings : List String)

def shownAt (sites : List Site) : Multiset String := (sites.map Site.shown).sum

@[simp] theorem shownAt_nil : shownAt [] = 0 := rfl

@[simp] theorem shownAt_cons (s : Site) (rest : List Site) : shownAt (s :: rest) = s.shown + shownAt rest :=
  List.sum_cons

theorem shownAt_eq (sites : List Site) :
    shownAt sites = ((sites.flatMap Site.reached).flatMap Site.strings : List String) := by
  induction sites with
  | nil => rfl
  | cons s rest ih =>
    rw [shownAt_cons, ih, Site.shown, Multiset.coe_add, List.flatMap_cons, List.flatMap_append]

/-! ### What the layout shows -/

/-- The braces and the signature of a closure show nothing. -/
theorem shows_closure {m : Multiset String} {fs : List Fragment} (h : Show m fs) (signature : Option String) :
    (closureInline signature (some (Fragment.linesOf 0 fs))).Shows m := by
  cases signature <;> exact Inline.shows_block (h 0)

theorem show_clauseBody {m : Multiset String} {fs : List Fragment} (h : Show m fs) : Show m [clauseBody fs] := by
  unfold clauseBody
  split
  · rename_i hempty
    rw [List.isEmpty_iff.1 hempty] at h
    cases h 0
    exact show_zero _
  · exact show_indented h

/-- The layout shows the values that a place weighs: those of its own string literals and of the places below. -/
def Track.shows : Track default (Multiset String) where
  text m t _ := t.Shows m
  fragments m fs _ := Show m fs
  own value := {value}
  empty := Inline.shows_zero _
  ofText _ := Inline.shows_zero _
  ofString value := Inline.shows_swiftString value
  append ht hu := ht.append hu
  closure signature h := shows_closure h signature
  nil := show_zero _
  concat hf hg := hf.append hg
  line h := show_line h
  block h hbody hclose := show_block h hbody hclose
  openBlock h hbody := show_openBlock h hbody
  clause h := show_clauseBody h
  blank := show_zero _
  comments _ := show_zero _
  docComments _ := show_zero _

/-- A place weighs its own literals and what the places below it weigh. -/
theorem Site.shown_eq (s : Site) : s.shown = Track.shows.ownAt s + totalWeight shown s.below := by
  have hown : ∀ values : List String, (values.map Track.shows.own).sum = (values : Multiset String) := by
    intro values
    induction values with
    | nil => rfl
    | cons value rest ih =>
      rw [List.map_cons, List.sum_cons, ih]
      exact Multiset.singleton_add value rest
  have hbelow : totalWeight shown s.below = shownAt s.below := rfl
  rw [Track.ownAt, hown, hbelow, shown, reached_eq, List.flatMap_cons, shownAt_eq, Multiset.coe_add]

theorem show_statements (nodes : List Node) : Show (shownAt (nodes.map .statement)) (statements nodes).value :=
  (Track.statements fun c _ => Track.everywhere Site.shown_eq c).value

theorem Node.shows_inline (node : Node) (role : Role) :
    (node.inline role).value.Shows (Site.slot role node).shown :=
  (Track.everywhere Site.shown_eq (.slot role node)).1.value

/-! ### Texts -/

theorem show_joinSections {m : Multiset String} {body : List Fragment} (h : Show m body)
    (sections : List (List Fragment)) : Show m (joinSections (sections ++ [body])) := by
  induction sections with
  | nil => exact h
  | cons part rest ih =>
    obtain ⟨next, more, hmore⟩ := List.exists_cons_of_ne_nil (show rest ++ [body] ≠ [] by simp)
    rw [hmore] at ih
    rw [List.cons_append, hmore, joinSections]
    exact (ih.after [.blank]).after part

theorem SourceFile.show_fragments (file : SourceFile) :
    Show (shownAt (file.nodes.map .statement)) file.fragments.value := by
  have hbody : Show (shownAt (file.nodes.map .statement)) (statements file.nodes).value :=
    show_statements file.nodes
  generalize shownAt (file.nodes.map .statement) = m at hbody ⊢
  rw [SourceFile.fragments, value_bind, value_pure]
  generalize (statements file.nodes).value = body at hbody ⊢
  cases body with
  | nil =>
    cases hbody 0
    exact show_zero _
  | cons first rest =>
    have hlast : ([first :: rest].filter fun part : List Fragment => !part.isEmpty) = [first :: rest] := rfl
    have hsections := show_joinSections hbody ([file.header.flatMap Fragment.comments,
      file.imports.map fun (name : String) => Fragment.line ("import " ++ name)].filter fun part => !part.isEmpty)
    rwa [← hlast, ← List.filter_append] at hsections

/-- A string literal keeps its value. What is written for a text is read as this text, up to its closing quote and
    whatever follows, so that it opens no interpolation; it has no control character in it and stays on its line. In
    the text of nodes and of a file, and also where the text of an expression or pattern is written early and then
    indented with what is around it, the literals of all places that are reached stand one for one, and each of them
    is read there as what was authored. -/
theorem strings_kept :
    (∀ (s : String) (rest : List Char),
      LiteralReading.read ((swiftString s).toList ++ rest) = .closed s.toList rest) ∧
    (∀ s : String, ∀ c ∈ (swiftString s).toList, Text.isControl c = false) ∧
    (∀ (indent : Indent) (nodes : List Node),
      Text.Keeps (shownAt (nodes.map .statement)) (render indent nodes).value.toList) ∧
    (∀ (indent : Indent) (file : SourceFile),
      Text.Keeps (shownAt (file.nodes.map .statement)) (file.render indent).value.toList) ∧
    ∀ (w : Writer) (role : Role) (node : Node),
      Text.Keeps (shownAt [.slot role node])
        (w.pushLine (Inline.ofText (renderInline w.indent role node).value)).buffer.toList := by
  refine ⟨LiteralReading.read_swiftString, fun s => isControl_swiftString, fun indent nodes => ?_,
    fun indent file => ?_, fun w role node => ?_⟩
  · rw [value_render]
    exact (Line.shows_writeAll indent.unit (show_statements nodes 0)).keeps
  · rw [SourceFile.value_render]
    exact (Line.shows_writeAll indent.unit (file.show_fragments 0)).keeps
  · have hwrite := (alike_inline w.indent role node).value.writeAll_lines w.indent.not_mem_unit w.level
    have hlines := Line.shows_writeAll w.indent.unit (Inline.showAll_lines (node.shows_inline role) w.level)
    have hbuffer := hlines.between w.buffer.toList []
    rw [hwrite, List.append_nil, ← String.toList_append] at hbuffer
    rw [shownAt_cons, shownAt_nil, Multiset.add_zero]
    exact hbuffer.keeps

end SwiftForge
