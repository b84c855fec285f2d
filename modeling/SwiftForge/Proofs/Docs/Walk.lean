import Mathlib.Data.List.TakeWhile
import SwiftForge.Docs.Inspection
import SwiftForge.Proofs.Docs.Trees

/-! Walking a directory. A walk comes to all that is below the directory, to everything once and in the order of the
    names from the top down. Each way that it goes gives a path to what is there, so keeping the files with a wanted
    name gives a path to each of these. -/

namespace SwiftForge.Docs

namespace FileTree

/-- A way leads from a directory down to a file with a wanted name and a text. -/
inductive Finds (wanted : String → Prop) : List (String × FileTree) → List String → Option String → Prop
  | file {entries : List (String × FileTree)} {name : String} {text : Option String}
      (h : (name, .file text) ∈ entries) (hname : wanted name) : Finds wanted entries [name] text
  | inside {entries inner : List (String × FileTree)} {name : String} {way : List String} {text : Option String}
      (h : (name, .directory inner) ∈ entries) (hname : isOutside name = false) (hway : Finds wanted inner way text) :
      Finds wanted entries (name :: way) text

/-- A way leads from a directory down to a file or a directory. -/
inductive Leads : List (String × FileTree) → List String → FileTree → Prop
  | file {entries : List (String × FileTree)} {name : String} {text : Option String}
      (h : (name, .file text) ∈ entries) : Leads entries [name] (.file text)
  | directory {entries inner : List (String × FileTree)} {name : String} (h : (name, .directory inner) ∈ entries)
      (hname : isOutside name = false) : Leads entries [name] (.directory inner)
  | inside {entries inner : List (String × FileTree)} {name : String} {way : List String} {tree : FileTree}
      (h : (name, .directory inner) ∈ entries) (hname : isOutside name = false) (hway : Leads inner way tree) :
      Leads entries (name :: way) tree

end FileTree

/-- What a walk promises of every directory in order: it comes to what is below the directory and to nothing else, tells
    files from directories, and goes the ways in their lexicographic order. That order puts a directory before all that
    is in it, and no way can stand in it twice. -/
structure Walk.Lawful (walk : Walk) : Prop where
  mem_iff : ∀ {entries}, (FileTree.directory entries).Ordered → ∀ found, found ∈ walk entries ↔
    ∃ tree, FileTree.Leads entries found.way tree ∧ (found.isFile = false ↔ tree.IsDirectory)
  sorted : ∀ {entries}, (FileTree.directory entries).Ordered → (walk entries).Pairwise fun a b => a.way < b.way

namespace FileTree

variable {entries inner rest : List (String × FileTree)} {name path : String} {way : List String}
variable {text : Option String} {tree : FileTree}

/-! ### Ways -/

theorem Leads.ne_nil (h : Leads entries way tree) : way ≠ [] := by
  cases h <;> exact List.cons_ne_nil _ _

theorem Leads.mono (h : Leads entries way tree) (hsub : entries ⊆ rest) : Leads rest way tree := by
  cases h with
  | file hmem => exact .file (hsub hmem)
  | directory hmem hname => exact .directory (hsub hmem) hname
  | inside hmem hname hway => exact .inside (hsub hmem) hname hway

theorem leads_cons_iff {e : String × FileTree} :
    Leads (e :: rest) way tree ↔ Leads [e] way tree ∨ Leads rest way tree := by
  constructor
  · intro h
    cases h with
    | file hmem =>
      rcases List.mem_cons.1 hmem with rfl | hmem
      · exact .inl (.file List.mem_cons_self)
      · exact .inr (.file hmem)
    | directory hmem hname =>
      rcases List.mem_cons.1 hmem with rfl | hmem
      · exact .inl (.directory List.mem_cons_self hname)
      · exact .inr (.directory hmem hname)
    | inside hmem hname hway =>
      rcases List.mem_cons.1 hmem with rfl | hmem
      · exact .inl (.inside List.mem_cons_self hname hway)
      · exact .inr (.inside hmem hname hway)
  · rintro (h | h)
    · exact h.mono (by simp)
    · exact h.mono (List.subset_cons_self e rest)

theorem leads_file_iff : Leads [(name, .file text)] way tree ↔ way = [name] ∧ tree = .file text := by
  constructor
  · intro h
    rcases h with ⟨hmem⟩ | ⟨hmem, -⟩ | ⟨hmem, -, -⟩ <;> cases List.mem_singleton.1 hmem
    exact ⟨rfl, rfl⟩
  · rintro ⟨rfl, rfl⟩
    exact .file List.mem_cons_self

theorem leads_directory_iff : Leads [(name, .directory inner)] way tree ↔ isOutside name = false ∧
    (way = [name] ∧ tree = .directory inner ∨ ∃ onward, way = name :: onward ∧ Leads inner onward tree) := by
  constructor
  · intro h
    rcases h with ⟨hmem⟩ | ⟨hmem, hname⟩ | ⟨hmem, hname, hway⟩ <;> cases List.mem_singleton.1 hmem
    · exact ⟨hname, .inl ⟨rfl, rfl⟩⟩
    · exact ⟨hname, .inr ⟨_, rfl, hway⟩⟩
  · rintro ⟨hname, ⟨rfl, rfl⟩ | ⟨onward, rfl, hway⟩⟩
    · exact .directory List.mem_cons_self hname
    · exact .inside List.mem_cons_self hname hway

/-- A way starts with the name of an entry. -/
theorem Leads.exists_mem (h : Leads entries way tree) : ∃ e ∈ entries, ∃ onward, way = e.1 :: onward := by
  cases h with
  | file hmem => exact ⟨_, hmem, [], rfl⟩
  | directory hmem _ => exact ⟨_, hmem, [], rfl⟩
  | inside hmem _ _ => exact ⟨_, hmem, _, rfl⟩

/-- Every way into the later entries comes after the first entry. -/
theorem Ordered.lt_of_leads {e : String × FileTree} (h : (FileTree.directory (e :: rest)).Ordered)
    (hway : Leads rest way tree) (onward : List String) : e.1 :: onward < way := by
  obtain _ | ⟨sorted, -, -⟩ := h
  obtain ⟨later, hlater, tail, rfl⟩ := hway.exists_mem
  exact List.cons_lt_cons_iff.2 (.inl (List.rel_of_pairwise_cons sorted hlater))

/-- The path at the end of a way leads to what is there. -/
theorem Leads.resolve? {root : FileTree} (hordered : (FileTree.directory entries).Ordered)
    (h : Leads entries way tree) (hpath : root.resolve? path = some (.directory entries)) :
    root.resolve? (along path way) = some tree := by
  induction h generalizing path with
  | file hmem =>
    have hname := hordered.isName hmem fun _ => id
    exact resolve?_join hpath hname (find?_of_mem hordered hmem)
  | directory hmem hinside =>
    have hname := hordered.isName hmem fun houtside => by simp [hinside] at houtside
    exact resolve?_join hpath hname (find?_of_mem hordered hmem)
  | inside hmem hinside _ ih =>
    have hname := hordered.isName hmem fun houtside => by simp [hinside] at houtside
    have hfind := find?_of_mem hordered hmem
    exact ih (hordered.of_find? hfind) (resolve?_join hpath hname hfind)

/-- A wanted file is found at the end of the ways that lead to it, if the last name on them is wanted. -/
theorem finds_iff_leads {P : String → Prop} :
    Finds P entries way text ↔ Leads entries way (.file text) ∧ ∃ last ∈ way.getLast?, P last := by
  constructor
  · intro h
    induction h with
    | file hmem hname => exact ⟨.file hmem, _, rfl, hname⟩
    | inside hmem hinside _ ih =>
      obtain ⟨hleads, last, hlast, hwanted⟩ := ih
      refine ⟨.inside hmem hinside hleads, last, ?_, hwanted⟩
      rwa [List.getLast?_cons_of_ne_nil hleads.ne_nil]
  · rintro ⟨h, last, hlast, hwanted⟩
    generalize htree : FileTree.file text = tree at h
    induction h with
    | file hmem =>
      cases htree
      cases hlast
      exact .file hmem hwanted
    | directory => cases htree
    | inside hmem hinside hway ih =>
      rw [List.getLast?_cons_of_ne_nil hway.ne_nil] at hlast
      exact .inside hmem hinside (ih hlast htree)

/-! ### The walk in order -/

variable {found : Found}

theorem Found.mem_map_under_iff {founds : List Found} : found ∈ founds.map (·.under name) ↔
    ∃ onward, found.way = name :: onward ∧ { found with way := onward } ∈ founds := by
  rw [List.mem_map]
  constructor
  · rintro ⟨first, hfirst, rfl⟩
    exact ⟨first.way, rfl, hfirst⟩
  · rintro ⟨onward, hway, hmem⟩
    refine ⟨_, hmem, ?_⟩
    rw [Found.under, ← hway]

/-- A walk comes to what is below a directory and to nothing else. -/
theorem mem_walk_iff :
    found ∈ walk entries ↔ ∃ tree, Leads entries found.way tree ∧ (found.isFile = false ↔ tree.IsDirectory) := by
  induction entries using walk.induct generalizing found with
  | case1 =>
    simp only [walk, List.not_mem_nil, false_iff, not_exists, not_and]
    intro tree h
    obtain ⟨e, he, -⟩ := h.exists_mem
    cases he
  | case2 name text rest ih =>
    rw [walk, List.mem_cons, ih, exists_congr fun _ => and_congr_left' leads_cons_iff]
    simp only [or_and_right, exists_or]
    refine or_congr ?_ Iff.rfl
    simp only [leads_file_iff]
    rcases found with ⟨way, isFile⟩
    cases isFile <;> simp [IsDirectory]
  | case3 name inner rest hinner ih =>
    rw [walk, List.mem_append, ih, exists_congr fun _ => and_congr_left' leads_cons_iff]
    simp only [or_and_right, exists_or]
    refine or_congr ?_ Iff.rfl
    rw [exists_congr fun _ => and_congr_left' leads_directory_iff]
    split
    · rename_i houtside
      simp [houtside]
    · rename_i hname
      rw [Bool.not_eq_true] at hname
      rw [List.mem_cons, Found.mem_map_under_iff, Found.ext_iff]
      constructor
      · rintro (⟨hway, hfile⟩ | ⟨onward, hway, hmem⟩)
        · exact ⟨_, ⟨hname, .inl ⟨hway, rfl⟩⟩, iff_of_true hfile trivial⟩
        · obtain ⟨tree, hleads, hfile⟩ := hinner.1 hmem
          exact ⟨tree, ⟨hname, .inr ⟨onward, hway, hleads⟩⟩, hfile⟩
      · rintro ⟨tree, ⟨-, ⟨hway, rfl⟩ | ⟨onward, hway, hleads⟩⟩, hfile⟩
        · exact .inl ⟨hway, hfile.2 trivial⟩
        · exact .inr ⟨onward, hway, hinner.2 ⟨tree, hleads, hfile⟩⟩

/-- A walk goes its ways in their lexicographic order. -/
theorem pairwise_walk (h : (FileTree.directory entries).Ordered) :
    (walk entries).Pairwise fun a b => a.way < b.way := by
  -- What comes after an entry and all that is below it starts with a later name.
  have hlater : ∀ {e : String × FileTree} {rest : List (String × FileTree)} {a b : Found} {onward : List String},
      (FileTree.directory (e :: rest)).Ordered → a.way = e.1 :: onward → b ∈ walk rest → a.way < b.way := by
    intro e rest a b onward hordered ha hb
    obtain ⟨tree, hleads, -⟩ := mem_walk_iff.1 hb
    rw [ha]
    exact hordered.lt_of_leads hleads onward
  induction entries using walk.induct with
  | case1 => simp [walk]
  | case2 name text rest ih =>
    rw [walk, List.pairwise_cons]
    exact ⟨fun b hb => hlater h rfl hb, ih h.tail⟩
  | case3 name inner rest hinner ih =>
    rw [walk, List.pairwise_append]
    refine ⟨?_, ih h.tail, ?_⟩
    · -- The ways below one directory share its name, so the names after it decide.
      split
      · exact .nil
      · rw [List.pairwise_cons, List.pairwise_map]
        refine ⟨fun b hb => ?_, (hinner h.head).imp fun hlt => List.cons_lt_cons_iff.2 (.inr ⟨rfl, hlt⟩)⟩
        obtain ⟨onward, hway, hmem⟩ := Found.mem_map_under_iff.1 hb
        obtain ⟨tree, hleads, -⟩ := mem_walk_iff.1 hmem
        obtain ⟨e, -, tail, rfl⟩ := hleads.exists_mem
        rw [hway]
        exact List.cons_lt_cons_iff.2 (.inr ⟨rfl, List.nil_lt_cons _ _⟩)
    · intro a ha b hb
      split at ha
      · cases ha
      · rcases List.mem_cons.1 ha with rfl | ha
        · exact hlater h rfl hb
        · obtain ⟨onward, hway, -⟩ := Found.mem_map_under_iff.1 ha
          exact hlater h hway hb

theorem walk_lawful : Walk.Lawful walk where
  mem_iff _ _ := mem_walk_iff
  sorted := pairwise_walk

end FileTree

namespace FileTree

/-! ### Wanted names -/

/-- A name ends in a dot and an extension, after at least one character. -/
def HasExtension (name ext : String) : Prop := ∃ stem, stem ≠ "" ∧ name = stem ++ "." ++ ext ∧ '.' ∉ ext.toList

theorem extension?_eq_some_iff {name ext : String} : extension? name = some ext ↔ HasExtension name ext := by
  unfold extension?
  dsimp only
  constructor
  · intro h
    have hparts := List.takeWhile_append_dropWhile (p := (· ≠ '.')) (l := name.toList.reverse)
    rcases hrest : name.toList.reverse.dropWhile (· ≠ '.') with _ | ⟨c, _ | ⟨d, rest⟩⟩ <;> rw [hrest] at h
    · cases h
    · cases h
    · obtain rfl : c = '.' := by
        have hc := List.head?_dropWhile_not (· ≠ '.') name.toList.reverse
        rw [hrest] at hc
        simpa using hc
      cases h
      rw [hrest] at hparts
      refine ⟨String.ofList (d :: rest).reverse, by simp, ?_, ?_⟩
      · rw [← String.toList_inj, ← List.reverse_inj]
        simpa using hparts.symm
      · intro hdot
        rw [String.toList_ofList, List.mem_reverse] at hdot
        exact absurd (List.mem_takeWhile_imp hdot) (by decide)
  · rintro ⟨stem, hstem, rfl, hext⟩
    have hreverse : (stem ++ "." ++ ext).toList.reverse = ext.toList.reverse ++ '.' :: stem.toList.reverse := by simp
    have hall : ∀ c ∈ ext.toList.reverse, decide (c ≠ '.') = true := by
      intro c hc
      rw [decide_eq_true_iff]
      rintro rfl
      exact hext (List.mem_reverse.1 hc)
    obtain ⟨c, cs, hcs⟩ := List.exists_cons_of_ne_nil (l := stem.toList.reverse) (by simpa using hstem)
    rw [hreverse, List.takeWhile_append_of_pos hall, List.dropWhile_append_of_pos hall, hcs]
    simp

end FileTree

end SwiftForge.Docs
