import SwiftForge.Proofs.Build.Files
import SwiftForge.Proofs.Document.RoundTrip
import SwiftForge.Proofs.Render.Sections

/-! Source files from beginning to end. What a text says of a file is read list by list, and the file has of the imports
    what a call for each of them would leave; so a text and calls that give the same lists give the same file, which is
    rendered section by section. -/

namespace SwiftForge

open Document Decoder
open Decoder.Fields (listOf)

/-! ### Records made of others -/

namespace Decoder.Fields

variable {R α β γ : Type}

/-- A record that is made of another once that one is read. -/
def map (f : α → β) (a : Fields R α) : Fields R β where
  State := a.State
  start := a.start
  keys := a.keys
  feed := a.feed
  finish s := f <$> a.finish s
  take mode index items ending := (fun (value, rest) => (f value, rest)) <$> a.take mode index items ending

theorem map_pure (f : α → β) (value : α) : (Fields.pure value : Fields R α).map f = Fields.pure (f value) := rfl

/-- What is done to a record is done by the function that makes it. -/
theorem map_and (f : β → γ) (g : Fields R (α → β)) (a : Fields R α) :
    (g.and a).map f = (g.map fun make value => f (make value)).and a := by
  have hfinish : ((g.and a).map f).finish = ((g.map fun make value => f (make value)).and a).finish := by
    funext s
    simp only [map, and, map_bind, bind_map_left]
    rfl
  have htake : ((g.and a).map f).take = ((g.map fun make value => f (make value)).and a).take := by
    funext mode index items ending
    simp only [map, and, map_bind, bind_map_left]
    rfl
  exact congrArg₂ (Fields.mk (g.State × a.State) (g.start, a.start) (g.keys ++ a.keys) (g.and a).feed) hfinish htake

theorem feedAll_map (f : α → β) (a : Fields R α) (unknown : Unknown) (mode : Mode)
    (members : List (Reading × Reading)) (s : a.State) :
    (a.map f).feedAll unknown mode members s = a.feedAll unknown mode members s := by
  induction members generalizing s with
  | nil => rfl
  | cons m rest ih =>
    obtain ⟨key, r⟩ := m
    cases key with
    | string key =>
      unfold feedAll
      by_cases hkey : key ∈ a.keys
      · rw [if_pos hkey]
        exact (if_pos hkey).trans (bind_congr ih)
      · rw [if_neg hkey]
        refine (if_neg hkey).trans ?_
        cases unknown with
        | refuse => rfl
        | ignore => exact bind_congr fun _ => ih s
    | _ => rfl

theorem decoderWith_map (unknown : Unknown) (f : α → β) (a : Fields R α) :
    decoderWith unknown (a.map f) = Decoder.map f (decoderWith unknown a) := by
  funext mode r
  change _ = f <$> decoderWith unknown a mode r
  unfold decoderWith
  split
  · rename_i members ending
    simp only [map_bind]
    exact congrArg (fun fed => fed >>= fun s => expectEnd ending >>= fun _ => f <$> a.finish s)
      (feedAll_map f a unknown mode members a.start)
  · simp only [map_bind, map, bind_map_left]
    rfl
  · rfl

end Decoder.Fields

/-! ### Files as read -/

namespace SourceFile

/-- The lists of a file as they stand in a text. -/
def loadLists : Load Lists :=
  Fields.decoderWith .refuse
    (Lists.mk <$> listOf "header" string <*> listOf "imports" string <*> nodesOf node "nodes")

theorem sourceFile_eq : sourceFile = Decoder.map Lists.file loadLists := by
  rw [loadLists, ← Fields.decoderWith_map]
  change _ = Fields.decoderWith .refuse (Fields.map Lists.file ((((Fields.pure Lists.mk).and _).and _).and _))
  rw [Fields.map_and, Fields.map_and, Fields.map_and, Fields.map_pure]
  rfl

theorem loadText_map {α β : Type} (f : α → β) (d : Load α) (text : String) :
    loadText (Decoder.map f d) text = (loadText d text).map f := by
  have hmap (r : Reading) : Decoder.map f d .streamed r = (d .streamed r).map f := rfl
  simp only [loadText, hmap]
  cases d .streamed (Reading.ofText text.toList).1 with
  | error e => rfl
  | ok value =>
    change (if _ then _ else _) = Except.map f (if _ then _ else _)
    split <;> rfl

/-- A text as it is written for lists. -/
def Lists.encode (lists : Lists) : Json :=
  .object (textsField "header" lists.header ++ textsField "imports" lists.names ++ nodesField "nodes" lists.nodes)

theorem Lists.encode_withFloats (lists : Lists) {f : Double → Double} :
    Lists.encode { lists with nodes := nodesWithFloats f lists.nodes } = lists.encode.mapFloats f := by
  simp only [Lists.encode, Json.mapFloats, Json.mapMembers_append, Json.mapMembers_textsField,
    nodesField_withFloats lists.nodes]

theorem Lists.loads (lists : Lists) {limit : Nat} (hlimit : limit ≤ depthLimit) :
    Loads limit sourceFile lists.encode (partsOfNodes lists.nodes) lists.file :=
  ((((LoadsFields.pure _).andPlain (.strings lists.header)).andPlain (.strings lists.names)).and
    (loads_nodesOf fun c _ => c.loads hlimit hlimit)).decoderWith (by simp) .refuse

/-- Lists that are written are loaded as their file, with each float as it is read of its text. -/
theorem Lists.load_text (lists : Lists) (hfinite : ∀ p ∈ partsOfNodes lists.nodes, p.isFinite)
    (hnesting : lists.encode.nesting ≤ Reading.nestingLimit) :
    Document.load lists.encode.text = verdict (partsOfNodes lists.nodes) (Document.file lists.file).reread := by
  have hreread := Lists.loads { lists with nodes := nodesWithFloats Double.reread lists.nodes } (Nat.le_succ _)
  rw [Lists.encode_withFloats, partsOfNodes_withFloats] at hreread
  have hfile := loadText_text (lists.loads (Nat.le_succ _)) hreread hfinite hnesting
  rw [Document.load, if_neg (by simp [Lists.encode, Document.head?_text_object])]
  exact (congrArg _ hfile).trans (verdict_map _ _ Document.file)

/-- However calls for header lines, imports and nodes are mixed, a file is what the calls of each kind make of its
    lists, and its building fails if and as the calls for nodes do. Every text is loaded as the file of the lists that
    stand in it, and lists that are written are loaded unless a node breaks a rule, with each float as it is read of its
    text. The imports of a file are the names in the list, each once, in the order in which they are first there. A file
    is rendered as a comment line for each line of the header texts, a line for each import and the text of the nodes;
    what is empty of these, as the text of nodes is if all of them are silent, is left out, and there is one empty line
    between two that are not. -/
theorem lists_and_sections :
    (∀ calls : List Call, ofCalls calls = (Script.run (calls.filterMap Call.step?)).map fun nodes =>
      Lists.file ⟨calls.filterMap Call.headerLine?, calls.filterMap Call.moduleName?, nodes⟩) ∧
    (∀ text : String, loadText sourceFile text = (loadText loadLists text).map Lists.file) ∧
    (∀ lists : Lists, (∀ p ∈ partsOfNodes lists.nodes, p.isFinite) → lists.encode.nesting ≤ Reading.nestingLimit →
      Document.load lists.encode.text = verdict (partsOfNodes lists.nodes) (Document.file lists.file).reread ∧
        ((Document.file lists.file).ReadsBack →
          Document.load lists.encode.text = verdict (partsOfNodes lists.nodes) (.file lists.file))) ∧
    (∀ (lists : Lists) (imports : List String), FirstMentions lists.names imports ↔ imports = lists.file.imports) ∧
    ∀ (file : SourceFile) (indent : Indent),
      (file.render indent).value = Text.joinWith "\n" ((file.sections indent).filter (· ≠ "")) ∧
      (∀ text ∈ file.sections indent, text = "" ∨ ∃ body, text = body ++ "\n") ∧
      ((SwiftForge.render indent file.nodes).value = "" ↔ ∀ n ∈ file.nodes, n.isSilent = true) ∧
      (file.render indent).warnings = (SwiftForge.render indent file.nodes).warnings := by
  refine ⟨ofCalls_eq, fun text => ?_,
    fun lists hfinite hnesting => ⟨lists.load_text hfinite hnesting, fun hreads => ?_⟩, fun _ _ => firstMentions_iff,
    fun file indent => ⟨file.value_render_sections indent, file.sections_feed indent,
      value_render_eq_empty_iff indent file.nodes, ?_⟩⟩
  · rw [sourceFile_eq, loadText_map]
  · rw [lists.load_text hfinite hnesting, Document.reread_eq_self hreads]
  · rw [warnings_render, SwiftForge.warnings_render]
    exact List.append_nil _

/-- Lists with an import that is mentioned again, and a blank line between placeholders. -/
def repeated : Lists where
  header := ["Generated.\nDo not edit."]
  names := ["Foundation", "Combine", "Foundation"]
  nodes := [.empty, .blank, .empty]

theorem load_text_repeated : (∀ p ∈ partsOfNodes repeated.nodes, p.isFinite) ∧
    repeated.encode.nesting ≤ Reading.nestingLimit ∧
    Document.load repeated.encode.text = .ok (.file repeated.file) ∧
    repeated.file.imports = ["Foundation", "Combine"] := by
  refine ⟨by decide, by decide, ?_, by decide⟩
  exact (lists_and_sections.2.2.1 repeated (by decide) (by decide)).1.trans rfl

end SourceFile

end SwiftForge
