import SwiftForge.Docs.Preparation
import SwiftForge.Proofs.Layout.Nested
import SwiftForge.Proofs.Text.Words

/-! Import lines. A line is taken for an import by its first words alone: words that start with `@`, the word `import`,
    perhaps a kind, and a word whose first part is the name of the module. Whether it is nothing but an import
    declaration is settled by what goes on from the name to the end of the line. -/

namespace SwiftForge

namespace Text

/-- Blanks at the end of a text are trimmed away. -/
theorem trim_append_blank {c : Char} (hc : isBlank c = true) (cs : List Char) : trim (cs ++ [c]) = trim cs := by
  have hend : ∀ ds, trimEnd (ds ++ [c]) = trimEnd ds := fun ds => by
    rw [trimEnd, dropEndWhile, List.reverse_append, List.reverse_singleton, List.singleton_append,
      List.dropWhile_cons_of_pos hc, ← dropEndWhile, ← trimEnd]
  rw [trim, trim, trimStart, List.dropWhile_append]
  split
  · rename_i hempty
    rw [List.dropWhile_cons_of_pos hc, trimStart, List.isEmpty_iff.1 hempty]
    rfl
  · exact hend _

end Text

open Text (isBlank words EndsWord OneWord SetsApart)

namespace Docs.Preparation

/-- The words of a line that is taken for an import: those up to the path, and those behind it. -/
structure ImportWords (line : List Char) (attributes kind : List (List Char)) (path : List Char)
    (behind : List (List Char)) : Prop where
  words_eq : words line = attributes ++ "import".toList :: kind ++ path :: behind
  attributes : ∀ word ∈ attributes, word.head? = some '@'
  kind : kind = [] ∧ path ∉ importKinds ∨ ∃ keyword ∈ importKinds, kind = [keyword]

/-- The line is taken for an import of the module, the part of the path before the first dot. -/
def Imports (line : List Char) (name : String) : Prop :=
  ∃ attributes kind path behind, ImportWords line attributes kind path behind ∧
    name.toList = path.takeWhile (· ≠ '.')

theorem dropWhile_attributes {attributes : List (List Char)} (h : ∀ word ∈ attributes, word.head? = some '@')
    (rest : List (List Char)) :
    (attributes ++ "import".toList :: rest).dropWhile (fun word => word.head? == some '@') =
      "import".toList :: rest := by
  rw [List.dropWhile_append_of_pos (by simpa using h), List.dropWhile_cons_of_neg (by decide)]

theorem importedModule?_eq_some_iff {line : List Char} {name : String} :
    importedModule? line = some name.toList ↔ Imports line name := by
  constructor
  · intro h
    have hsplit := List.takeWhile_append_dropWhile
      (p := fun word : List Char => word.head? == some '@') (l := words line)
    have hattributes : ∀ word ∈ (words line).takeWhile fun word => word.head? == some '@', word.head? = some '@' :=
      fun word hword => by simpa using List.mem_takeWhile_imp hword
    unfold importedModule? at h
    split at h
    · rename_i word path rest hdrop
      rw [hdrop] at hsplit
      split at h
      · cases h
      · rename_i himport
        obtain rfl : word = "import".toList := not_not.1 himport
        split at h
        · rename_i hkind
          obtain ⟨next, hnext, hname⟩ := Option.map_eq_some_iff.1 h
          obtain ⟨behind, rfl⟩ := List.head?_eq_some_iff.1 hnext
          exact ⟨_, [path], next, behind,
            ⟨hsplit.symm.trans (by simp), hattributes, .inr ⟨path, by simpa using hkind, rfl⟩⟩, hname.symm⟩
        · rename_i hkind
          exact ⟨_, [], path, rest, ⟨hsplit.symm.trans (by simp), hattributes, .inl ⟨rfl, by simpa using hkind⟩⟩,
            (Option.some.inj h).symm⟩
    · cases h
  · rintro ⟨attributes, kind, path, behind, ⟨hwords, hattributes, ⟨rfl, hpath⟩ | ⟨keyword, hkeyword, rfl⟩⟩, hname⟩
    · rw [importedModule?, hwords, List.append_assoc, List.cons_append, dropWhile_attributes hattributes]
      simp [hpath, hname]
    · rw [importedModule?, hwords, List.append_assoc, List.cons_append, dropWhile_attributes hattributes]
      simp [hkeyword, hname]

def IsImport (line : List Char) : Prop := ∃ name, Imports line name

theorem isSome_importedModule?_iff {line : List Char} : (importedModule? line).isSome = true ↔ IsImport line := by
  rw [Option.isSome_iff_exists]
  constructor
  · rintro ⟨name, hname⟩
    exact ⟨String.ofList name, importedModule?_eq_some_iff.1 (by rwa [String.toList_ofList])⟩
  · rintro ⟨name, hname⟩
    exact ⟨name.toList, importedModule?_eq_some_iff.2 hname⟩

instance (line : List Char) : Decidable (IsImport line) := decidable_of_iff _ isSome_importedModule?_iff

theorem importedModule?_eq_none_iff {line : List Char} : importedModule? line = none ↔ ¬IsImport line := by
  rw [← isSome_importedModule?_iff, Bool.not_eq_true, Option.isSome_eq_false_iff, Option.isNone_iff_eq_none]

/-! ### Nothing but an import -/

/-- Letters, digits and underscores. -/
def IsName (word : List Char) : Prop := OneWord word ∧ ∀ c ∈ word, Text.isWord c = true

/-- Names with dots between them. -/
def IsDotted (path : List Char) : Prop := ∀ name ∈ Text.splitAt '.' path, IsName name

/-- A dotted path that is no kind of import. -/
def IsModulePath (path : List Char) : Prop := IsDotted path ∧ path ∉ importKinds

/-- An attribute that is written as one word; its arguments stand in parentheses. -/
def IsAttribute (word : List Char) : Prop :=
  ∃ name arguments, word = '@' :: name ++ arguments ∧ IsDotted name ∧
    (arguments = [] ∨ ∃ inside, arguments = '(' :: inside ++ [')'] ∧ Nested (fun _ => False) inside)

/-- Nothing but blanks, or blanks and a comment. -/
def IsRemarkTail (tail : List Char) : Prop := Text.trimStart tail = [] ∨ "//".toList <+: Text.trimStart tail

instance (tail : List Char) : Decidable (IsRemarkTail tail) :=
  inferInstanceAs (Decidable (Text.trimStart tail = [] ∨ "//".toList <+: Text.trimStart tail))

/-- A line that holds an import declaration and nothing else: attributes, the word `import`, perhaps a kind, one module
    path, and a comment if there is any. -/
def IsImportOnly (line : List Char) : Prop :=
  ∃ code remark, line = code ++ remark ∧ (remark = [] ∨ "//".toList <+: remark) ∧
    ∃ attributes kind path, ImportWords code attributes kind path [] ∧ (∀ word ∈ attributes, IsAttribute word) ∧
      IsModulePath path

section

variable {path tail : List Char}

theorem IsDotted.of_mem (h : IsDotted path) {c : Char} (hc : c ∈ path) :
    c = '.' ∨ Text.isWord c = true ∧ isBlank c = false := by
  by_cases hdot : c = '.'
  · exact .inl hdot
  · have hparts : c ∈ (Text.splitAt '.' path).flatten := by
      rw [Text.flatten_splitAt, List.mem_filter]
      exact ⟨hc, by simpa using hdot⟩
    obtain ⟨name, hname, hmem⟩ := List.mem_flatten.1 hparts
    obtain ⟨hone, hword⟩ := h name hname
    exact .inr ⟨hword c hmem, hone.not_blank c hmem⟩

theorem IsDotted.oneWord (h : IsDotted path) : OneWord path := by
  refine ⟨?_, fun c hc => ?_⟩
  · rintro rfl
    exact (h [] (by simp [Text.splitAt])).1.ne_nil rfl
  · rcases h.of_mem hc with rfl | ⟨-, hblank⟩
    · rfl
    · exact hblank

/-- A comment ends where the path of a module goes on. -/
theorem IsRemarkTail.endsWord_or (h : IsRemarkTail tail) : EndsWord tail ∨ ∃ more, tail = '/' :: more := by
  cases tail with
  | nil => exact .inl Text.endsWord_nil
  | cons c tail =>
    cases hc : isBlank c with
    | true => exact .inl (Text.endsWord_cons.2 hc)
    | false =>
      rw [IsRemarkTail, Text.trimStart, List.dropWhile_cons_of_neg (by simp [hc])] at h
      rcases h with h | ⟨more, h⟩
      · cases h
      · exact .inr ⟨_, by rw [← h]; rfl⟩

/-- A character of a dotted path. -/
def isPathChar (c : Char) : Bool := c == '.' || (Text.isWord c && !isBlank c)

/-- Where a module path with a comment behind it ends is settled by its characters. -/
theorem exists_path_iff {text : List Char} :
    (∃ path tail, text = path ++ tail ∧ IsModulePath path ∧ IsRemarkTail tail) ↔
      IsModulePath (text.takeWhile isPathChar) ∧ IsRemarkTail (text.dropWhile isPathChar) := by
  constructor
  · rintro ⟨path, tail, rfl, hpath, htail⟩
    have hchars : ∀ c ∈ path, isPathChar c = true := fun c hc => by
      rcases hpath.1.of_mem hc with rfl | ⟨hword, hblank⟩
      · rfl
      · simp [isPathChar, hword, hblank]
    have hstop : Text.StopsAt isPathChar tail := by
      rcases htail.endsWord_or with hend | ⟨more, rfl⟩
      · intro c hc
        have hblank : isBlank c = true := by simpa using hend c hc
        have hdot : c ≠ '.' := by
          rintro rfl
          cases hblank
        simp [isPathChar, hblank, hdot]
      · exact Text.stopsAt_cons rfl
    rw [Text.takeWhile_append_stop hchars hstop, Text.dropWhile_append_stop hchars hstop]
    exact ⟨hpath, htail⟩
  · exact fun ⟨hpath, htail⟩ => ⟨_, _, List.takeWhile_append_dropWhile.symm, hpath, htail⟩

end

section

variable {line front text path : List Char} {attributes kind behind : List (List Char)}

/-- The words of an import line in their places: the text goes on with the path where the words before it end. -/
theorem ImportWords.exists_text (h : ImportWords line attributes kind path behind) :
    ∃ front rest, line = front ++ (path ++ rest) ∧ SetsApart front (attributes ++ "import".toList :: kind) ∧
      OneWord path ∧ EndsWord rest ∧ words rest = behind :=
  Text.exists_of_words_eq_append h.words_eq

theorem attributes_unique {attributes others rest more : List (List Char)}
    (hattributes : ∀ word ∈ attributes, word.head? = some '@') (hothers : ∀ word ∈ others, word.head? = some '@')
    (h : attributes ++ "import".toList :: rest = others ++ "import".toList :: more) :
    attributes = others ∧ rest = more := by
  have hdrop := congrArg (List.dropWhile fun word : List Char => word.head? == some '@') h
  rw [dropWhile_attributes hattributes, dropWhile_attributes hothers] at hdrop
  obtain ⟨-, rfl⟩ := List.cons.inj hdrop
  exact ⟨List.append_cancel_right h, rfl⟩

/-- A kind is no path with a comment behind it, so the kind of a line is that of any declaration it starts with. -/
theorem kind_unique {kind other tail : List (List Char)} {path next glued rest : List Char}
    (hkind : kind = [] ∧ path ∉ importKinds ∨ ∃ keyword ∈ importKinds, kind = [keyword])
    (hother : other = [] ∧ next ∉ importKinds ∨ ∃ keyword ∈ importKinds, other = [keyword])
    (hrest : IsRemarkTail (glued ++ rest)) (hglued : ∀ c ∈ glued, isBlank c = false)
    (h : kind ++ path :: behind = other ++ (next ++ glued) :: tail) : kind = other := by
  rcases hkind with ⟨rfl, hpath⟩ | ⟨keyword, hkeyword, rfl⟩
  · rcases hother with ⟨rfl, -⟩ | ⟨keyword, hkeyword, rfl⟩
    · rfl
    · obtain ⟨rfl, -⟩ := List.cons.inj h
      exact absurd hkeyword hpath
  · rcases hother with ⟨rfl, hnext⟩ | ⟨other, -, rfl⟩
    · obtain ⟨rfl, -⟩ := List.cons.inj h
      cases glued with
      | nil => exact absurd (by simpa using hkeyword) hnext
      | cons c glued =>
        have hslash : ∀ keyword ∈ importKinds, '/' ∉ keyword := by decide
        rcases hrest.endsWord_or with hblank | ⟨more, hmore⟩
        · exact absurd (Text.endsWord_cons.1 hblank) (by simp [hglued c List.mem_cons_self])
        · obtain ⟨rfl, -⟩ := List.cons.inj hmore
          exact absurd (by simp) (hslash _ hkeyword)
    · obtain ⟨rfl, -⟩ := List.cons.inj h
      rfl

theorem ImportWords.importOnly_iff (h : ImportWords line attributes kind path behind) (hline : line = front ++ text)
    (hfront : SetsApart front (attributes ++ "import".toList :: kind)) (htext : Text.StartsWord text) :
    IsImportOnly line ↔ (∀ word ∈ attributes, IsAttribute word) ∧
      ∃ path tail, text = path ++ tail ∧ IsModulePath path ∧ IsRemarkTail tail := by
  subst hline
  constructor
  · rintro ⟨code, remark, hsplit, hremark, others, other, next, hcode, hattributes, hnext⟩
    obtain ⟨start, rest, rfl, hstart, hone, hend, hrest⟩ := hcode.exists_text
    have hblank := Text.words_eq_nil_iff.1 hrest
    have htail : IsRemarkTail (rest ++ remark) := by
      rw [IsRemarkTail, Text.trimStart, List.dropWhile_append_of_pos hblank]
      rcases hremark with rfl | ⟨more, rfl⟩
      · exact .inl rfl
      · exact .inr ⟨more, rfl⟩
    have hsplit : front ++ text = start ++ (next ++ (rest ++ remark)) := by rw [hsplit]; simp only [List.append_assoc]
    obtain ⟨glued, last, hglue, hglued, hwords⟩ := hone.exists_words_append (rest ++ remark)
    have hboth := h.words_eq
    rw [hsplit, hstart, hwords, List.append_assoc, List.append_assoc, List.cons_append, List.cons_append] at hboth
    obtain ⟨rfl, hkinds⟩ := attributes_unique hcode.attributes h.attributes hboth
    obtain rfl := kind_unique h.kind hcode.kind (hglue ▸ htail) hglued hkinds.symm
    obtain ⟨-, rfl⟩ := hfront.unique hstart htext (hone.startsWord_append _) hsplit
    exact ⟨hattributes, next, _, rfl, hnext, htail⟩
  · rintro ⟨hattributes, next, tail, rfl, hnext, htail⟩
    have hblank : ∀ c ∈ tail.takeWhile isBlank, isBlank c = true := fun c hc => List.mem_takeWhile_imp hc
    refine ⟨front ++ (next ++ tail.takeWhile isBlank), Text.trimStart tail, ?_, htail, attributes, kind, next,
      ⟨?_, h.attributes, ?_⟩, hattributes, hnext⟩
    · rw [List.append_assoc, List.append_assoc, Text.trimStart, List.takeWhile_append_dropWhile]
    · rw [hfront, hnext.1.oneWord.words_append (Text.endsWord_of_blanks hblank), Text.words_of_blanks hblank]
    · rcases h.kind with ⟨hkind, -⟩ | hkind
      · exact .inl ⟨hkind, hnext.2⟩
      · exact .inr hkind

/-- A line that begins like the import of a module: attributes, the word `import` and perhaps a kind stand in front, and
    the text goes on with the name of the module, in a word that is no kind itself. -/
structure BeginsImport (line front : List Char) (attributes kind : List (List Char)) (text : List Char)
    (name : String) : Prop where
  line_eq : line = front ++ text
  front : SetsApart front (attributes ++ "import".toList :: kind)
  attributes : ∀ word ∈ attributes, word.head? = some '@'
  kind : kind = [] ∧ Text.beforeBlank text ∉ importKinds ∨ ∃ keyword ∈ importKinds, kind = [keyword]
  starts : Text.beforeBlank text ≠ []
  name : name.toList = (Text.beforeBlank text).takeWhile (· ≠ '.')

theorem BeginsImport.importWords {name : String} (h : BeginsImport line front attributes kind text name) :
    ImportWords line attributes kind (Text.beforeBlank text) (words (text.dropWhile fun c => !isBlank c)) where
  words_eq := by rw [h.line_eq, h.front, Text.words_eq_cons_of_beforeBlank h.starts]
  attributes := h.attributes
  kind := h.kind

theorem imports_iff_begins {name : String} :
    Imports line name ↔ ∃ front attributes kind text, BeginsImport line front attributes kind text name := by
  constructor
  · rintro ⟨attributes, kind, path, behind, hwords, hname⟩
    obtain ⟨front, rest, hline, hfront, hone, hrest, -⟩ := hwords.exists_text
    have hpath := hone.beforeBlank_append hrest
    exact ⟨front, attributes, kind, path ++ rest, hline, hfront, hwords.attributes, hpath.symm ▸ hwords.kind,
      hpath.symm ▸ hone.ne_nil, hpath.symm ▸ hname⟩
  · rintro ⟨front, attributes, kind, text, h⟩
    exact ⟨attributes, kind, _, _, h.importWords, h.name⟩

/-- A line that begins like an import is nothing but one if its attributes are well formed and the text from the name to
    the end of the line is a path of names with at most a comment behind it. -/
theorem BeginsImport.importOnly_iff {name : String} (h : BeginsImport line front attributes kind text name) :
    IsImportOnly line ↔ (∀ word ∈ attributes, IsAttribute word) ∧
      ∃ path tail, text = path ++ tail ∧ IsModulePath path ∧ IsRemarkTail tail :=
  h.importWords.importOnly_iff h.line_eq h.front (Text.startsWord_of_beforeBlank h.starts)

end

end Docs.Preparation

end SwiftForge
