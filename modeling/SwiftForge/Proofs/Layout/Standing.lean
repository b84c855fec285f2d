import Mathlib.Data.List.Infix
import SwiftForge.Proofs.Layout.Blocks

/-! Lines that stay whole. Texts stand in fragments if, whatever the depth, the lines of the fragments have them one
    after the other at a depth of their own; they stand in an inline text if line feeds set them off from what is around
    them. Nothing that is put around such fragments or such a text, or on the same line, gets between them. -/

namespace SwiftForge

variable {texts : List String}

/-- The texts stand among the lines, together and at one depth. -/
def Line.Stand (texts : List String) (lines : List Line) : Prop := ∃ depth, texts.map (Line.mk depth) <:+: lines

/-- The texts stand among the lines of the fragments, at whatever depth these are. -/
def Fragment.Stand (texts : List String) (fs : List Fragment) : Prop :=
  ∀ depth, Line.Stand texts (Fragment.linesOf depth fs)

/-- The texts stand on lines of their own in the middle of an inline text. -/
def Inline.Holds (texts : List String) (t : Inline) : Prop :=
  ∃ depth next, texts.flatMap (fun s => [.feed depth, .text s]) ++ [.feed next] <:+: t.pieces

theorem Line.Stand.mono {a b : List Line} (h : Line.Stand texts a) (hab : a <:+: b) : Line.Stand texts b := by
  obtain ⟨depth, h⟩ := h
  exact ⟨depth, h.trans hab⟩

/-! ### Inline texts -/

namespace Inline

variable {t : Inline}

theorem Holds.append_left (h : t.Holds texts) (a : Inline) : (a ++ t).Holds texts := by
  obtain ⟨depth, next, h⟩ := h
  exact ⟨depth, next, h.trans (List.suffix_append _ _).isInfix⟩

theorem Holds.append_right (h : t.Holds texts) (b : Inline) : (t ++ b).Holds texts := by
  obtain ⟨depth, next, h⟩ := h
  exact ⟨depth, next, h.trans (List.prefix_append _ _).isInfix⟩

/-- Line feeds keep the texts apart from the line that is being filled before them and from what comes after them. -/
theorem linesFrom_texts (base depth next : Nat) (texts : List String) (current : Line) (before after : List Piece) :
    linesFrom base current (before ++ (texts.flatMap (fun s => [.feed depth, .text s]) ++ .feed next :: after)) =
      linesFrom base current before ++ texts.map (Line.mk (base + depth)) ++
        linesFrom base ⟨base + next, ""⟩ after := by
  induction texts generalizing current before with
  | nil => rw [List.flatMap_nil, List.nil_append, linesFrom_feed, List.map_nil, List.append_nil]
  | cons s rest ih =>
    have hpieces : before ++ ((s :: rest).flatMap (fun s => [.feed depth, .text s]) ++ .feed next :: after) =
        before ++ .feed depth :: ([.text s] ++
          (rest.flatMap (fun s => [.feed depth, .text s]) ++ .feed next :: after)) := by
      simp
    have hline : linesFrom base ⟨base + depth, ""⟩ [.text s] = [⟨base + depth, s⟩] := by
      rw [linesFrom, linesFrom, String.empty_append]
    rw [hpieces, linesFrom_feed, ih, hline]
    simp

theorem Holds.lines (h : t.Holds texts) (base : Nat) : Line.Stand texts (t.lines base) := by
  obtain ⟨depth, next, before, after, hpieces⟩ := h
  refine ⟨base + depth, linesFrom base ⟨base, ""⟩ before, linesFrom base ⟨base + next, ""⟩ after, ?_⟩
  rw [Inline.lines, ← hpieces, ← linesFrom_texts]
  simp

end Inline

/-! ### Fragments -/

namespace Fragment

variable {fs : List Fragment}

theorem Stand.append_left (h : Stand texts fs) (a : List Fragment) : Stand texts (a ++ fs) := by
  intro depth
  rw [linesOf_append]
  exact (h depth).mono (List.suffix_append _ _).isInfix

theorem Stand.append_right (h : Stand texts fs) (b : List Fragment) : Stand texts (fs ++ b) := by
  intro depth
  rw [linesOf_append]
  exact (h depth).mono (List.prefix_append _ _).isInfix

theorem Stand.flatMap {α : Type} {f : α → List Fragment} {x : α} (h : Stand texts (f x)) {xs : List α} (hx : x ∈ xs) :
    Stand texts (xs.flatMap f) := by
  obtain ⟨before, after, rfl⟩ := List.append_of_mem hx
  rw [List.flatMap_append, List.flatMap_cons]
  exact (h.append_right _).append_left _

/-- Only no texts at all stand in nothing. -/
theorem Stand.of_nil (h : Stand texts []) (gs : List Fragment) : Stand texts gs := by
  obtain ⟨depth, h⟩ := h 0
  obtain rfl := List.map_eq_nil_iff.1 (List.infix_nil.1 h)
  exact fun depth => ⟨depth, List.nil_infix⟩

theorem stand_line {t : Inline} (h : t.Holds texts) : Stand texts [.line t] := by
  intro depth
  rw [linesOf, lines, linesOf, List.append_nil]
  exact h.lines depth

theorem exists_linesOf_block (depth : Nat) (header : Inline) (body : List Fragment) (close : Option Inline) :
    ∃ last, linesOf depth [.block header body close] =
      header.lines depth ++ linesOf (depth + 1) body ++ last := by
  cases close with
  | none => exact ⟨[], by rw [linesOf, lines, linesOf, List.append_nil]⟩
  | some close => exact ⟨close.lines depth, by rw [linesOf, lines, linesOf, List.append_nil]⟩

theorem stand_header {header : Inline} (h : header.Holds texts) (body : List Fragment) (close : Option Inline) :
    Stand texts [.block header body close] := by
  intro depth
  obtain ⟨last, hlines⟩ := exists_linesOf_block depth header body close
  rw [hlines, List.append_assoc]
  exact (h.lines depth).mono (List.prefix_append _ _).isInfix

theorem Stand.block {body : List Fragment} (h : Stand texts body) (header : Inline) (close : Option Inline) :
    Stand texts [.block header body close] := by
  intro depth
  obtain ⟨last, hlines⟩ := exists_linesOf_block depth header body close
  rw [hlines]
  exact (h (depth + 1)).mono (List.infix_append _ _ _)

theorem stand_close {close : Inline} (h : close.Holds texts) (header : Inline) (body : List Fragment) :
    Stand texts [.block header body (some close)] := by
  intro depth
  rw [linesOf, lines, linesOf, List.append_nil]
  exact (h.lines depth).mono (List.suffix_append _ _).isInfix

theorem Stand.indented (h : Stand texts fs) : Stand texts [.indented fs] := by
  intro depth
  rw [linesOf, lines, linesOf, List.append_nil]
  exact h (depth + 1)

end Fragment

/-- The body of a block inside a line stands on lines of its own. -/
theorem Inline.holds_block {fs : List Fragment} (h : Fragment.Stand texts fs) (opening closing : Inline) :
    (Inline.block opening (Fragment.linesOf 0 fs) closing).Holds texts := by
  obtain ⟨depth, before, after, hlines⟩ := h 0
  -- What comes next is another line of the body or the closing text; either starts with a line feed.
  obtain ⟨next, last, hnext⟩ : ∃ next last,
      after.flatMap (fun line : Line => [Piece.feed (line.depth + 1), .text line.text]) ++ .feed 0 :: closing.pieces =
        .feed next :: last := by
    cases after with
    | nil => exact ⟨0, closing.pieces, rfl⟩
    | cons line rest => exact ⟨line.depth + 1, _, rfl⟩
  have hpieces : (Inline.block opening (Fragment.linesOf 0 fs) closing).pieces = opening.pieces ++
      (Fragment.linesOf 0 fs).flatMap (fun line => [.feed (line.depth + 1), .text line.text]) ++ [.feed 0] ++
        closing.pieces := rfl
  refine ⟨depth + 1, next,
    opening.pieces ++ before.flatMap (fun line => [.feed (line.depth + 1), .text line.text]), last, ?_⟩
  rw [hpieces, ← hlines]
  simp [List.flatMap_append, List.flatMap_map, hnext]

end SwiftForge
