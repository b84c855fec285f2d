import Mathlib.Data.String.Basic
import SwiftForge.Docs.FileTree
import SwiftForge.Proofs.Layout.Lines

/-! Trees in order. The entries of every directory stand in the order of their names, and adding a file or a directory
    keeps it so. A name behind the path of a directory leads to its entry, however the path is spelled. -/

namespace SwiftForge.Docs.FileTree

/-- A name that a file or a directory can have. -/
def IsName (name : String) : Prop := name ≠ "" ∧ name ≠ "." ∧ name ≠ ".." ∧ '/' ∉ name.toList

def IsDirectory : FileTree → Prop
  | .file _ => False
  | .directory _ => True

/-- An entry can stand in a directory: it has a name, or it leads out of the tree to a directory. -/
def Fits (e : String × FileTree) : Prop := IsName e.1 ∨ isOutside e.1 = true ∧ e.2.IsDirectory

/-- In every directory the entries stand in the order of their names. -/
inductive Ordered : FileTree → Prop
  | file (text : Option String) : Ordered (.file text)
  | directory {entries : List (String × FileTree)} (sorted : entries.Pairwise fun a b => a.1 < b.1)
      (named : ∀ e ∈ entries, Fits e) (inner : ∀ e ∈ entries, Ordered e.2) : Ordered (.directory entries)

variable {entries rest : List (String × FileTree)} {name path : String} {way parts : List String}
variable {root here tree : FileTree} {above : List FileTree}

/-! ### Entries -/

theorem Ordered.tail {e : String × FileTree} (h : (FileTree.directory (e :: rest)).Ordered) :
    (FileTree.directory rest).Ordered := by
  obtain _ | ⟨sorted, named, inner⟩ := h
  exact .directory sorted.of_cons (fun x hx => named x (List.mem_cons_of_mem e hx))
    fun x hx => inner x (List.mem_cons_of_mem e hx)

theorem Ordered.head {e : String × FileTree} (h : (FileTree.directory (e :: rest)).Ordered) : e.2.Ordered := by
  obtain _ | ⟨-, -, inner⟩ := h
  exact inner e List.mem_cons_self

theorem Ordered.isName (h : (FileTree.directory entries).Ordered) (hmem : (name, tree) ∈ entries)
    (hinside : isOutside name = true → ¬ tree.IsDirectory) : IsName name := by
  obtain _ | ⟨-, named, -⟩ := h
  rcases named _ hmem with hname | ⟨houtside, hdirectory⟩
  · exact hname
  · exact absurd hdirectory (hinside houtside)

theorem find?_of_mem (h : (FileTree.directory entries).Ordered) (hmem : (name, tree) ∈ entries) :
    find? name entries = some tree := by
  induction entries with
  | nil => cases hmem
  | cons e rest ih =>
    rw [find?]
    rcases List.mem_cons.1 hmem with rfl | hmem
    · rw [if_pos rfl]
    · have hlt : e.1 < name := by
        obtain _ | ⟨sorted, -, -⟩ := h
        exact List.rel_of_pairwise_cons sorted hmem
      rw [if_neg hlt.ne, ih h.tail hmem]

theorem mem_of_find? (h : find? name entries = some tree) : (name, tree) ∈ entries := by
  induction entries with
  | nil => cases h
  | cons e rest ih =>
    rw [find?] at h
    split at h
    · rename_i hkey
      cases h
      rw [← hkey]
      exact List.mem_cons_self
    · exact List.mem_cons_of_mem e (ih h)

theorem Ordered.of_find? (h : (FileTree.directory entries).Ordered) (hfind : find? name entries = some tree) :
    tree.Ordered := by
  obtain _ | ⟨-, -, inner⟩ := h
  exact inner _ (mem_of_find? hfind)

theorem ordered_empty : (FileTree.directory []).Ordered := .directory .nil (by simp) (by simp)

/-! ### Adding entries -/

theorem mem_place {e : String × FileTree} (h : e ∈ place name tree entries) : e = (name, tree) ∨ e ∈ entries := by
  induction entries with
  | nil => exact .inl (List.mem_singleton.1 h)
  | cons first rest ih =>
    rw [place] at h
    split at h
    · exact (List.mem_cons.1 h).imp_right (List.mem_cons_of_mem first)
    · split at h
      · exact List.mem_cons.1 h
      · rcases List.mem_cons.1 h with rfl | h
        · exact .inr List.mem_cons_self
        · exact (ih h).imp_right (List.mem_cons_of_mem first)

theorem pairwise_place (h : entries.Pairwise fun a b => a.1 < b.1) :
    (place name tree entries).Pairwise fun a b => a.1 < b.1 := by
  induction entries with
  | nil => simp [place]
  | cons first rest ih =>
    obtain ⟨hfirst, hrest⟩ := List.pairwise_cons.1 h
    rw [place]
    split
    · rename_i hkey
      exact List.pairwise_cons.2 ⟨fun e he => hkey ▸ hfirst e he, hrest⟩
    · split
      · rename_i hlt
        refine List.pairwise_cons.2 ⟨fun e he => ?_, h⟩
        rcases List.mem_cons.1 he with rfl | he
        · exact hlt
        · exact hlt.trans (hfirst e he)
      · rename_i hne hnlt
        refine List.pairwise_cons.2 ⟨fun e he => ?_, ih hrest⟩
        rcases mem_place he with rfl | he
        · exact lt_of_le_of_ne (not_lt.1 hnlt) hne
        · exact hfirst e he

theorem Ordered.place (h : (FileTree.directory entries).Ordered) (htree : tree.Ordered) (hfits : Fits (name, tree)) :
    (FileTree.directory (place name tree entries)).Ordered := by
  obtain _ | ⟨sorted, named, inner⟩ := h
  refine .directory (pairwise_place sorted) (fun e he => ?_) fun e he => ?_
  · rcases mem_place he with rfl | he
    · exact hfits
    · exact named e he
  · rcases mem_place he with rfl | he
    · exact htree
    · exact inner e he

theorem insertAt_nil (tree here : FileTree) :
    insertAt tree [] here = tree ∨ insertAt tree [] here = here ∧ here.IsDirectory := by
  rcases tree with text | (_ | ⟨e, rest⟩) <;> rcases here with other | entries <;> simp [insertAt, IsDirectory]

theorem isDirectory_insertAt (h : tree.IsDirectory ∨ way ≠ []) : (insertAt tree way here).IsDirectory := by
  cases way with
  | nil =>
    rcases insertAt_nil tree here with heq | ⟨heq, hhere⟩
    · rw [heq]
      simpa using h
    · rwa [heq]
  | cons name way => cases here <;> trivial

theorem Ordered.insertAt (htree : tree.Ordered) (hhere : here.Ordered)
    (hway : ∀ name ∈ way, IsName name ∨ isOutside name = true)
    (hend : tree.IsDirectory ∨ ∀ name ∈ way.getLast?, IsName name) : (insertAt tree way here).Ordered := by
  induction way generalizing here with
  | nil =>
    rcases insertAt_nil tree here with heq | ⟨heq, -⟩
    · rwa [heq]
    · rwa [heq]
  | cons name way ih =>
    obtain ⟨hname, hrest⟩ := List.forall_mem_cons.1 hway
    -- The tree itself stands under the last name only; every name before it holds a directory.
    have hfits : ∀ next, Fits (name, FileTree.insertAt tree way next) := by
      intro next
      rcases hname with hname | hname
      · exact .inl hname
      · by_cases hnil : way = []
        · subst hnil
          rcases hend with hend | hend
          · exact .inr ⟨hname, isDirectory_insertAt (.inl hend)⟩
          · exact .inl (hend name rfl)
        · exact .inr ⟨hname, isDirectory_insertAt (.inr hnil)⟩
    have hnext : ∀ next : FileTree, next.Ordered → (FileTree.insertAt tree way next).Ordered := by
      intro next hnext
      refine ih hnext hrest (hend.imp_right fun hend last hlast => hend last ?_)
      cases way with
      | nil => cases hlast
      | cons other way => rwa [List.getLast?_cons_cons]
    cases here with
    | file text =>
      exact .directory (by simp) (by simpa using hfits _) (by simpa using hnext _ ordered_empty)
    | directory entries =>
      refine hhere.place (hnext _ ?_) (hfits _)
      cases hfind : find? name entries with
      | none => exact ordered_empty
      | some inner => exact hhere.of_find? hfind

theorem forall_mem_step {part : String} (hway : ∀ name ∈ way, IsName name ∨ isOutside name = true)
    (hpart : part = "/" ∨ '/' ∉ part.toList) : ∀ name ∈ step way part, IsName name ∨ isOutside name = true := by
  unfold step
  have hdots : IsName ".." ∨ isOutside ".." = true := .inr rfl
  split
  · exact hway
  · rename_i hstay
    split
    · cases way with
      | nil => simpa using hdots
      | cons last back =>
        dsimp only
        split
        · exact List.forall_mem_cons.2 ⟨hdots, hway⟩
        · exact (List.forall_mem_cons.1 hway).2
    · rename_i hback
      refine List.forall_mem_cons.2 ⟨?_, hway⟩
      rcases hpart with rfl | hpart
      · exact .inr rfl
      · exact .inl ⟨fun h => hstay (.inl h), fun h => hstay (.inr h), hback, hpart⟩

theorem Ordered.insertAlong (htree : tree.Ordered) (hroot : root.Ordered)
    (hparts : ∀ part ∈ parts, part = "/" ∨ '/' ∉ part.toList)
    (hway : ∀ name ∈ way, IsName name ∨ isOutside name = true)
    (hend : tree.IsDirectory ∨ ∀ name ∈ (parts.foldl step way).head?, IsName name) :
    (insertAlong tree way parts root).Ordered := by
  induction parts generalizing way root with
  | nil =>
    refine Ordered.insertAt htree hroot (by simpa using hway) ?_
    rwa [List.getLast?_reverse]
  | cons part parts ih =>
    obtain ⟨hpart, hrest⟩ := List.forall_mem_cons.1 hparts
    exact ih (Ordered.insertAt ordered_empty hroot (by simpa using hway) (.inl trivial)) hrest
      (forall_mem_step hway hpart) hend

theorem mem_components {part : String} (h : part ∈ components path) : part = "/" ∨ '/' ∉ part.toList := by
  have hsplit : ∀ cs, part ∈ (Text.splitAt '/' cs).map String.ofList → '/' ∉ part.toList := by
    intro cs hcs
    obtain ⟨piece, hpiece, rfl⟩ := List.mem_map.1 hcs
    rw [String.toList_ofList]
    exact Text.not_mem_of_mem_splitAt hpiece
  unfold components at h
  split at h
  · exact (List.mem_cons.1 h).imp_right (hsplit _)
  · exact .inr (hsplit _ h)

/-- Adding to an ordered tree leaves it ordered, if a file gets a name of its own. -/
theorem Ordered.insert (hroot : root.Ordered) (htree : tree.Ordered)
    (hend : tree.IsDirectory ∨ ∀ name ∈ ((components path).foldl step []).head?, IsName name) :
    (root.insert path tree).Ordered :=
  Ordered.insertAlong htree hroot (fun _ => mem_components) (by simp) hend

/-! ### Following paths -/

/-- Where one part of a path leads, with the directories above. -/
def move (above : List FileTree) (here : FileTree) (part : String) : Option (List FileTree × FileTree) :=
  match here with
  | .file _ => none
  | .directory entries =>
    if part = "" ∨ part = "." then some (above, here)
    else if part = ".." then
      match above with
      | [] => (find? ".." entries).map ([], ·)
      | parent :: above => some (above, parent)
    else (find? part entries).map (here :: above, ·)

theorem follow_cons (above : List FileTree) (here : FileTree) (part : String) (parts : List String) :
    follow above here (part :: parts) = (move above here part).bind fun next => follow next.1 next.2 parts := by
  cases here with
  | file text => rfl
  | directory entries =>
    simp only [follow, move]
    split
    · rfl
    · split
      · cases above with
        | nil => cases find? ".." entries <;> rfl
        | cons parent above => rfl
      · cases find? part entries <;> rfl

/-- What a name leads to in a directory stands behind the paths to the directory. -/
theorem follow_name (hname : IsName name) (hfind : find? name entries = some tree)
    (h : follow above here parts = some (.directory entries)) : follow above here (parts ++ [name]) = some tree := by
  induction parts generalizing above here with
  | nil =>
    obtain ⟨hempty, hdot, hdots, -⟩ := hname
    cases h
    simp [follow, hempty, hdot, hdots, hfind]
  | cons part parts ih =>
    rw [follow_cons] at h
    obtain ⟨next, hmove, hnext⟩ := Option.bind_eq_some_iff.1 h
    rw [List.cons_append, follow_cons, hmove]
    exact ih hnext

/-- An empty part at the end of a path changes nothing. -/
theorem follow_of_empty (h : follow above here (parts ++ [""]) = some tree) :
    follow above here parts = some tree := by
  induction parts generalizing above here with
  | nil => cases here <;> simp_all [follow]
  | cons part parts ih =>
    rw [List.cons_append, follow_cons] at h
    obtain ⟨next, hmove, hnext⟩ := Option.bind_eq_some_iff.1 h
    rw [follow_cons, hmove]
    exact ih hnext

theorem Ordered.move {part : String} {next : List FileTree × FileTree} (habove : ∀ t ∈ above, t.Ordered)
    (hhere : here.Ordered) (h : move above here part = some next) : (∀ t ∈ next.1, t.Ordered) ∧ next.2.Ordered := by
  cases here with
  | file text => cases h
  | directory entries =>
    simp only [FileTree.move] at h
    split at h
    · cases h
      exact ⟨habove, hhere⟩
    · split at h
      · cases above with
        | nil =>
          obtain ⟨outside, hfind, rfl⟩ := Option.map_eq_some_iff.1 h
          exact ⟨habove, hhere.of_find? hfind⟩
        | cons parent above =>
          cases h
          rw [List.forall_mem_cons] at habove
          exact ⟨habove.2, habove.1⟩
      · obtain ⟨inner, hfind, rfl⟩ := Option.map_eq_some_iff.1 h
        exact ⟨List.forall_mem_cons.2 ⟨hhere, habove⟩, hhere.of_find? hfind⟩

theorem Ordered.follow (habove : ∀ t ∈ above, t.Ordered) (hhere : here.Ordered)
    (h : follow above here parts = some tree) : tree.Ordered := by
  induction parts generalizing above here with
  | nil =>
    cases h
    exact hhere
  | cons part parts ih =>
    rw [follow_cons] at h
    obtain ⟨next, hmove, hnext⟩ := Option.bind_eq_some_iff.1 h
    obtain ⟨hnextAbove, hnextHere⟩ := Ordered.move habove hhere hmove
    exact ih hnextAbove hnextHere hnext

theorem Ordered.resolve? (h : root.Ordered) (hpath : root.resolve? path = some tree) : tree.Ordered := by
  rw [FileTree.resolve?] at hpath
  split at hpath
  · cases hpath
  · exact Ordered.follow (by simp) h hpath

theorem components_slash {cs : List Char} (h : cs ≠ []) (rest : List Char) :
    components (String.ofList (cs ++ '/' :: rest)) =
      components (String.ofList cs) ++ (Text.splitAt '/' rest).map String.ofList := by
  obtain ⟨c, cs, rfl⟩ := List.exists_cons_of_ne_nil h
  by_cases hc : c = '/'
  · subst hc
    simp [components, Text.splitAt_separator]
  · have hplain : ∀ tail,
        components (String.ofList (c :: tail)) = (Text.splitAt '/' (c :: tail)).map String.ofList := by
      intro tail
      simp [components, hc]
    rw [List.cons_append, hplain, hplain, ← List.cons_append, Text.splitAt_separator, List.map_append]

/-- A path and a name below it have the parts of the path, but for an empty part at its end, and then the name. -/
theorem exists_components_join (hpath : path ≠ "") (hname : IsName name) :
    ∃ parts, (components path = parts ∨ components path = parts ++ [""]) ∧
      components (join path name) = parts ++ [name] := by
  have hsplit : (Text.splitAt '/' name.toList).map String.ofList = [name] := by
    rw [Text.splitAt_eq_singleton hname.2.2.2, List.map_singleton, String.ofList_toList]
  unfold join
  split
  · rename_i hlast
    obtain ⟨cs, hcs⟩ := List.getLast?_eq_some_iff.1 hlast
    have hpath' : path = String.ofList (cs ++ ['/']) := by rw [← hcs, String.ofList_toList]
    have hjoin : path ++ name = String.ofList (cs ++ '/' :: name.toList) := by
      rw [hpath']
      simp [String.ofList_append, String.append_assoc]
    rw [hjoin, hpath']
    cases cs with
    | nil => exact ⟨["/"], .inr rfl, by simp [components, hsplit]⟩
    | cons c cs =>
      refine ⟨components (String.ofList (c :: cs)), .inr ?_, ?_⟩
      · exact components_slash (by simp) []
      · rw [components_slash (by simp), hsplit]
  · have hne : path.toList ≠ [] := by simpa using hpath
    have hjoin : path ++ "/" ++ name = String.ofList (path.toList ++ '/' :: name.toList) := by
      simp [String.ofList_append, String.append_assoc]
    refine ⟨components path, .inl rfl, ?_⟩
    rw [hjoin, components_slash hne, hsplit, String.ofList_toList]

theorem join_ne_empty (path : String) (hname : IsName name) : join path name ≠ "" := by
  unfold join
  split <;> simp [hname.1]

theorem resolve?_join (hpath : root.resolve? path = some (.directory entries))
    (hname : IsName name) (hfind : find? name entries = some tree) : root.resolve? (join path name) = some tree := by
  rw [resolve?] at hpath ⊢
  split at hpath
  · cases hpath
  · rename_i hne
    obtain ⟨parts, hparts, hjoin⟩ := exists_components_join (by simpa using hne) hname
    rw [if_neg (by simpa using join_ne_empty path hname), hjoin]
    refine follow_name hname hfind ?_
    rcases hparts with hparts | hparts
    · rwa [hparts] at hpath
    · rw [hparts] at hpath
      exact follow_of_empty hpath

end SwiftForge.Docs.FileTree
