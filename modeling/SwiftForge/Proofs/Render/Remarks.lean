import SwiftForge.Proofs.Layout.Remarks
import SwiftForge.Proofs.Render.Log
import SwiftForge.Proofs.Render.Standing

/-! Comments in a rendered tree. The lines of a comment are found in the text as they were laid out: together, at one
    depth, with whole lines around them. So whether a comment is read as nothing but a comment is settled by its text
    alone. -/

namespace SwiftForge

open Fragment (Stand)

/-- The comments above a declaration. -/
def Decor.remarks (d : Decor) : List Remark := d.comments.map .comment ++ d.doc.map .doc

/-- The comments of a node in statement position, without those of the nodes below it. -/
def Node.remarks : Node → List Remark
  | .typeDecl head _ => head.decor.remarks
  | .enumCase head _ => head.decor.remarks
  | .protocolDecl head _ => head.decor.remarks
  | .associatedType decl => decl.decor.remarks
  | .extensionDecl head _ => head.decor.remarks
  | .function head _ _ => head.decor.remarks
  | .initializer head _ _ => head.decor.remarks
  | .property head _ _ => head.decor.remarks
  | .typeAlias decl => decl.decor.remarks
  | .importDecl decl => decl.decor.remarks
  | .comment text => [.comment text]
  | _ => []

/-- The comments at a place itself. In expression position a node is written without those above it. -/
def Site.remarks : Site → List Remark
  | .statement node | .requirement node => node.remarks
  | _ => []

def SourceFile.remarks (file : SourceFile) : List Remark :=
  file.header.map .comment ++ (sitesReached file.nodes).flatMap Site.remarks

variable {texts : List String} {r : Remark}

theorem Remark.stand_fragments (r : Remark) : Stand r.lines r.fragments :=
  fun depth => ⟨depth, by rw [r.linesOf_fragments]⟩

theorem stand_comments {list : List String} (h : r ∈ list.map .comment) :
    Stand r.lines (list.flatMap Fragment.comments) := by
  obtain ⟨text, htext, rfl⟩ := List.mem_map.1 h
  have htexts : Stand _ (Fragment.comments text) := (Remark.comment text).stand_fragments
  exact htexts.flatMap htext

theorem Decor.stand_leading {d : Decor} (h : r ∈ d.remarks) : Stand r.lines d.leading := by
  rcases List.mem_append.1 h with h | h
  · exact ((stand_comments h).append_right _).append_right _
  · obtain ⟨text, htext, rfl⟩ := List.mem_map.1 h
    have htexts : Stand _ (Fragment.docComments text) := (Remark.doc text).stand_fragments
    exact ((htexts.flatMap htext).append_left _).append_right _

namespace Node

theorem stand_own {n : Node} (h : r ∈ n.remarks) : Stand r.lines n.fragments.value := by
  cases n with
  | property head value getter => cases getter <;> exact (Decor.stand_leading h).append_right _
  | comment text =>
    obtain rfl := List.mem_singleton.1 h
    exact (Remark.comment text).stand_fragments
  | typeDecl _ _ | enumCase _ _ | protocolDecl _ _ | associatedType _ | extensionDecl _ _ | function _ _ _
  | initializer _ _ _ | typeAlias _ | importDecl _ => exact (Decor.stand_leading h).append_right _
  | _ => cases h

theorem stand_own_requirement {n : Node} (h : r ∈ n.remarks) : Stand r.lines (requirements [n]).value := by
  have hfragments := stand_own h
  cases n with
  | function head params body =>
    cases body <;> rw [requirements] <;> exact (Decor.stand_leading h).append_right _
  | initializer head params body =>
    rw [requirements]
    exact (Decor.stand_leading h).append_right _
  | property head value getter =>
    rw [requirements]
    exact (Decor.stand_leading h).append_right _
  | _ =>
    rw [requirements]
    · exact hfragments.append_right _
    all_goals simp

end Node

theorem Site.stands_own {s : Site} (h : r ∈ s.remarks) : s.Stands r.lines := by
  cases s with
  | statement n => exact n.stand_own h
  | requirement n => exact n.stand_own_requirement h
  | slot role n => cases h
  | conditions keyword list => cases h

theorem stand_of_sitesReached {nodes : List Node} {s : Site} (hs : s ∈ sitesReached nodes) (h : r ∈ s.remarks) :
    Stand r.lines (statements nodes).value := by
  obtain ⟨n, hn, hs⟩ := List.mem_flatMap.1 hs
  exact stand_statements (Site.stands_of_reached (Site.stands_own h) hs) (List.mem_map_of_mem hn)

theorem stand_joinSections {part : List Fragment} (h : Stand texts part) {parts : List (List Fragment)}
    (hmem : part ∈ parts) : Stand texts (joinSections parts) := by
  induction parts with
  | nil => cases hmem
  | cons first rest ih =>
    cases rest with
    | nil =>
      obtain rfl := List.mem_singleton.1 hmem
      exact h
    | cons next rest =>
      rcases List.mem_cons.1 hmem with rfl | hmem
      · exact h.append_right _
      · exact ((ih hmem).append_left [.blank]).append_left _

/-- A section with text in it is not left out. -/
theorem stand_sections {part : List Fragment} (h : Stand texts part) {parts : List (List Fragment)}
    (hmem : part ∈ parts) : Stand texts (joinSections (parts.filter fun part => !part.isEmpty)) := by
  cases hempty : part.isEmpty with
  | true =>
    rw [List.isEmpty_iff.1 hempty] at h
    exact h.of_nil _
  | false => exact stand_joinSections h (List.mem_filter.2 ⟨hmem, by rw [hempty]; rfl⟩)

theorem SourceFile.stand_remarks {file : SourceFile} (h : r ∈ file.remarks) : Stand r.lines file.fragments.value := by
  rcases List.mem_append.1 h with h | h
  · exact stand_sections (stand_comments h) (by simp)
  · obtain ⟨s, hs, h⟩ := List.mem_flatMap.1 h
    exact stand_sections (stand_of_sitesReached hs h) (by simp)

/-- A written comment stands in a text as it was laid out at some depth, at the start of a line. -/
def Remark.StandsIn (r : Remark) (indent : Indent) (output : String) : Prop :=
  ∃ depth before after, output = before ++ r.written indent depth ++ after ∧
    (before = "" ∨ ∃ text, before = text ++ "\n")

theorem Remark.standsIn_writeAll {fs : List Fragment} (h : Stand r.lines fs) (indent : Indent) :
    r.StandsIn indent (Line.writeAll indent.unit (Fragment.linesOf 0 fs)) := by
  obtain ⟨depth, before, after, hlines⟩ := h 0
  refine ⟨depth, Line.writeAll indent.unit before, Line.writeAll indent.unit after, ?_,
    Line.writeAll_eq_empty_or _ _⟩
  rw [← hlines, Line.writeAll_append, Line.writeAll_append, written, linesOf_fragments]

open Text (CodeFree swiftLines StaysRemark)

/-- Every comment that a rendering comes to, in a file or in a list of nodes, stands in the text as it is written at
    some depth. What is written of it is read as nothing but comments exactly if each line of the authored text stays a
    comment behind its carriage returns. -/
theorem remarks_codeFree_iff (indent : Indent) (nodes : List Node) (file : SourceFile) :
    (∀ s ∈ sitesReached nodes, ∀ r ∈ s.remarks, r.StandsIn indent (render indent nodes).value) ∧
      (∀ r ∈ file.remarks, r.StandsIn indent (file.render indent).value) ∧
      ∀ (r : Remark) (depth : Nat), CodeFree (swiftLines (r.written indent depth).toList) ↔ StaysRemark r.text := by
  refine ⟨fun s hs r hr => ?_, fun r hr => ?_, fun r depth => r.codeFree_written_iff indent depth⟩
  · rw [value_render]
    exact Remark.standsIn_writeAll (stand_of_sitesReached hs hr) indent
  · rw [SourceFile.value_render]
    exact Remark.standsIn_writeAll (SourceFile.stand_remarks hr) indent

/-- Behind a carriage return the text of a comment is a line of code. -/
theorem comment_runs_as_code : (render .swift [.comment "note\rlet x = 1"]).value = "// note\rlet x = 1\n" ∧
    ¬CodeFree (swiftLines "// note\rlet x = 1\n".toList) := by
  decide +kernel

end SwiftForge
