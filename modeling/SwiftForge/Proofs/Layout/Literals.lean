import Mathlib.Data.Multiset.AddSub
import SwiftForge.Proofs.Layout.Blocks
import SwiftForge.Proofs.Text.Literals

/-! String literals in a layout. A text shows some values if their literals stand in it whole, none of them over
    another. Putting texts together, cutting them into lines and indenting the lines keeps what is shown. -/

namespace SwiftForge

/-- The literals of these values stand in the text one behind the other, in some order. -/
inductive Text.Shows : Multiset String → List Char → Prop
  | nil : Shows 0 []
  | char {m : Multiset String} {cs : List Char} (c : Char) (h : Shows m cs) : Shows m (c :: cs)
  | literal {m : Multiset String} {cs : List Char} (value : String) (h : Shows m cs) :
      Shows (value ::ₘ m) ((swiftString value).toList ++ cs)

/-- Texts of which each shows a part of the values. -/
inductive Text.ShowAll : Multiset String → List String → Prop
  | nil : ShowAll 0 []
  | cons {m n : Multiset String} {s : String} {texts : List String} (h : Shows m s.toList) (hrest : ShowAll n texts) :
      ShowAll (m + n) (s :: texts)

variable {m n : Multiset String}

namespace Text

theorem shows_zero (cs : List Char) : Shows 0 cs := by
  induction cs with
  | nil => exact .nil
  | cons c cs ih => exact .char c ih

theorem Shows.append {a b : List Char} (ha : Shows m a) (hb : Shows n b) : Shows (m + n) (a ++ b) := by
  induction ha with
  | nil => rwa [Multiset.zero_add]
  | char c _ ih => exact .char c ih
  | literal value _ ih =>
    rw [Multiset.cons_add, List.append_assoc]
    exact .literal value ih

theorem Shows.between {cs : List Char} (h : Shows m cs) (a b : List Char) : Shows m (a ++ cs ++ b) := by
  have hall := ((shows_zero a).append h).append (shows_zero b)
  rwa [Multiset.zero_add, Multiset.add_zero] at hall

theorem shows_swiftString (value : String) : Shows {value} (swiftString value).toList := by
  have h := Shows.literal value .nil
  rwa [List.append_nil] at h

/-- Where the literal of a value stands the value can be read. -/
theorem Shows.exists_reading {cs : List Char} (h : Shows m cs) {value : String} (hvalue : value ∈ m) :
    ∃ before after, cs = before ++ ((swiftString value).toList ++ after) ∧
      LiteralReading.read ((swiftString value).toList ++ after) = .closed value.toList after := by
  induction h with
  | nil => simp at hvalue
  | char c _ ih =>
    obtain ⟨before, after, rfl, hread⟩ := ih hvalue
    exact ⟨c :: before, after, rfl, hread⟩
  | @literal m cs first _ ih =>
    rcases Multiset.mem_cons.1 hvalue with rfl | hvalue
    · exact ⟨[], cs, (List.nil_append _).symm, LiteralReading.read_swiftString value cs⟩
    · obtain ⟨before, after, rfl, hread⟩ := ih hvalue
      exact ⟨(swiftString first).toList ++ before, after, by rw [List.append_assoc], hread⟩

/-- The literals of these values stand in the text one behind the other, and where one stands its value is read. -/
structure Keeps (m : Multiset String) (cs : List Char) : Prop where
  shows : Shows m cs
  reads : ∀ value ∈ m, ∃ before after, cs = before ++ ((swiftString value).toList ++ after) ∧
    LiteralReading.read ((swiftString value).toList ++ after) = .closed value.toList after

theorem Shows.keeps {cs : List Char} (h : Shows m cs) : Keeps m cs := ⟨h, fun _ hvalue => h.exists_reading hvalue⟩

theorem showAll_zero (texts : List String) : ShowAll 0 texts := by
  induction texts with
  | nil => exact .nil
  | cons s texts ih => exact .cons (shows_zero _) ih

theorem ShowAll.append {a b : List String} (ha : ShowAll m a) (hb : ShowAll n b) : ShowAll (m + n) (a ++ b) := by
  induction ha with
  | nil => rwa [Multiset.zero_add]
  | cons h _ ih =>
    rw [Multiset.add_assoc]
    exact .cons h ih

theorem showAll_singleton {s : String} (h : Shows m s.toList) : ShowAll m [s] := by
  have hall := ShowAll.cons h .nil
  rwa [Multiset.add_zero] at hall

end Text

/-! ### Lines -/

open Text

namespace Line

theorem shows_shown {unit : String} {line : Line} (h : Shows m line.text.toList) :
    Shows m (line.shown unit).toList := by
  unfold shown
  split
  · rename_i hempty
    rwa [String.isEmpty_iff.1 hempty] at h
  · have hall := h.between (leading unit line.depth).toList []
    rwa [List.append_nil, ← String.toList_append] at hall

theorem shows_write {unit : String} {line : Line} (h : Shows m line.text.toList) :
    Shows m (line.write unit).toList := by
  rw [write_eq, String.toList_append]
  exact (shows_shown h).between [] _

theorem shows_writeAll (unit : String) {lines : List Line} (h : ShowAll m (lines.map text)) :
    Shows m (writeAll unit lines).toList := by
  induction lines generalizing m with
  | nil =>
    cases h
    exact shows_zero _
  | cons line lines ih =>
    cases h with
    | cons hline hlines =>
      rw [writeAll, String.toList_append]
      exact (shows_write hline).append (ih hlines)

end Line

/-! ### Inline text -/

/-- What a piece adds to its line. -/
def Piece.content : Piece → String
  | .text s => s
  | .feed _ => ""

namespace Inline

def Shows (m : Multiset String) (t : Inline) : Prop := ShowAll m (t.pieces.map Piece.content)

theorem shows_zero (t : Inline) : t.Shows 0 := showAll_zero _

theorem Shows.append {a b : Inline} (ha : a.Shows m) (hb : b.Shows n) : (a ++ b).Shows (m + n) := by
  have h := ShowAll.append ha hb
  rwa [← List.map_append] at h

theorem shows_swiftString (value : String) : (ofText (swiftString value)).Shows {value} := by
  have hline : '\n' ∉ (swiftString value).toList := fun h => absurd (isControl_swiftString _ h) (by decide)
  have hpieces : (ofText (swiftString value)).pieces = [.text (swiftString value)] := by
    rw [ofText, physicalLines_eq_singleton hline, piecesOf]
  rw [Shows, hpieces]
  exact showAll_singleton (Text.shows_swiftString value)

/-- Lines between an opening and a closing text. -/
theorem shows_block {opening closing : Inline} {body : List Line} (h : ShowAll m (body.map Line.text)) :
    (block opening body closing).Shows m := by
  have hbody : ∀ {m : Multiset String} {body : List Line}, ShowAll m (body.map Line.text) →
      (⟨body.flatMap fun line => [.feed (line.depth + 1), .text line.text]⟩ : Inline).Shows m := by
    intro m body h
    induction body generalizing m with
    | nil => exact h
    | cons line body ih =>
      cases h with
      | @cons a b s texts hline hlines =>
        have hall := (showAll_zero [""]).append (.cons hline (ih hlines))
        rwa [Multiset.zero_add] at hall
  have hall := (((shows_zero opening).append (hbody h)).append (shows_zero ⟨[.feed 0]⟩)).append (shows_zero closing)
  rwa [Multiset.zero_add, Multiset.add_zero, Multiset.add_zero] at hall

theorem showAll_lines {t : Inline} (h : t.Shows m) (base : Nat) : ShowAll m ((t.lines base).map Line.text) := by
  have hfrom : ∀ (pieces : List Piece) {m n : Multiset String} (current : Line), Text.Shows n current.text.toList →
      ShowAll m (pieces.map Piece.content) → ShowAll (n + m) ((linesFrom base current pieces).map Line.text) := by
    intro pieces
    induction pieces with
    | nil =>
      intro m n current hcurrent h
      cases h
      exact .cons hcurrent .nil
    | cons piece pieces ih =>
      intro m n current hcurrent h
      cases h with
      | @cons a b _ _ hpiece hpieces =>
        rw [← Multiset.add_assoc]
        cases piece with
        | text s =>
          refine ih ⟨current.depth, current.text ++ s⟩ ?_ hpieces
          rw [String.toList_append]
          exact hcurrent.append hpiece
        | feed depth =>
          have hrest := ih ⟨base + depth, ""⟩ hpiece hpieces
          rw [Multiset.add_assoc]
          exact .cons hcurrent hrest
  have hlines := hfrom t.pieces ⟨base, ""⟩ (Text.shows_zero []) h
  rwa [Multiset.zero_add] at hlines

end Inline

/-! ### Fragments -/

namespace Fragment

/-- The lines of the fragments show the values at every level. -/
def Show (m : Multiset String) (fs : List Fragment) : Prop := ∀ depth, ShowAll m ((linesOf depth fs).map Line.text)

theorem show_zero (fs : List Fragment) : Show 0 fs := fun _ => showAll_zero _

theorem Show.append {fs gs : List Fragment} (hf : Show m fs) (hg : Show n gs) : Show (m + n) (fs ++ gs) := by
  intro depth
  rw [linesOf_append, List.map_append]
  exact (hf depth).append (hg depth)

/-- Comments, documentation and attributes show nothing. -/
theorem Show.after {fs : List Fragment} (h : Show m fs) (before : List Fragment) : Show m (before ++ fs) := by
  have hall := (show_zero before).append h
  rwa [Multiset.zero_add] at hall

theorem show_line {t : Inline} (h : t.Shows m) : Show m [.line t] := by
  intro depth
  rw [linesOf, linesOf, List.append_nil]
  exact Inline.showAll_lines h depth

theorem show_openBlock {header : Inline} {body : List Fragment} (hheader : header.Shows m) (hbody : Show n body) :
    Show (m + n) [.block header body none] := by
  intro depth
  have hopen := (Inline.showAll_lines hheader depth).append (hbody (depth + 1))
  rw [linesOf, linesOf, List.append_nil, lines, List.append_nil, List.map_append]
  exact hopen

theorem show_block {header : Inline} {body : List Fragment} (hheader : header.Shows m) (hbody : Show n body)
    {close : Inline} {k : Multiset String} (hclose : close.Shows k) :
    Show (m + n + k) [.block header body (some close)] := by
  intro depth
  have hopen := (Inline.showAll_lines hheader depth).append (hbody (depth + 1))
  rw [linesOf, linesOf, List.append_nil, lines, List.map_append, List.map_append]
  exact hopen.append (Inline.showAll_lines hclose depth)

theorem show_indented {body : List Fragment} (h : Show m body) : Show m [.indented body] := by
  intro depth
  rw [linesOf, linesOf, List.append_nil, lines]
  exact h (depth + 1)

end Fragment

end SwiftForge
