import SwiftForge.Tree.Node

/-!
Source files: a header comment, imports and top-level nodes.
-/

namespace SwiftForge

/-- A source file. The imports are in order of their first mention, each once. -/
structure SourceFile where
  header : List String := []
  imports : List String := []
  nodes : List Node := []
  imports_nodup : imports.Nodup := by simp

namespace SourceFile

/-- Adds a module at the end unless it is there. -/
def insertImport (imports : List String) (name : String) : List String :=
  if name ∈ imports then imports else imports ++ [name]

/-- The modules in order of their first mention. -/
def distinct (names : List String) : List String := names.foldl insertImport []

theorem nodup_insertImport {imports : List String} (h : imports.Nodup) (name : String) :
    (insertImport imports name).Nodup := by
  unfold insertImport
  split
  · exact h
  · rename_i hname
    refine List.nodup_append.2 ⟨h, by simp, fun a ha b hb => ?_⟩
    rintro rfl
    exact hname (List.mem_singleton.1 hb ▸ ha)

theorem nodup_foldl_insertImport (names : List String) {imports : List String} (h : imports.Nodup) :
    (names.foldl insertImport imports).Nodup := by
  induction names generalizing imports with
  | nil => exact h
  | cons name names ih => exact ih (nodup_insertImport h name)

theorem nodup_distinct (names : List String) : (distinct names).Nodup :=
  nodup_foldl_insertImport names List.nodup_nil

end SourceFile

end SwiftForge
