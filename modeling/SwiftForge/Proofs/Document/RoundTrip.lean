import SwiftForge.Command.Run
import SwiftForge.Proofs.Document.Floats

/-! Loading what was written. A document whose floats are finite and whose text does not nest too deep loads if it
    breaks no rule, with each float as it is read of its text, and so as itself if its floats are read back; otherwise
    loading reports the first breach in the order in which the parts of the text are complete. -/

namespace SwiftForge

open Document Decoder

/-! ### Source files -/

namespace SourceFile

theorem foldl_insertImport (names : List String) {imports : List String} (h : (imports ++ names).Nodup) :
    names.foldl insertImport imports = imports ++ names := by
  induction names generalizing imports with
  | nil => simp
  | cons name names ih =>
    have hname : name ∉ imports := fun hmem =>
      (List.nodup_append.1 h).2.2 name hmem name (List.mem_cons_self ..) rfl
    rw [List.foldl_cons, insertImport, if_neg hname, ih (by simpa using h)]
    simp

/-- Names without repetition are their own first mentions. -/
theorem distinct_eq {names : List String} (h : names.Nodup) : distinct names = names := by
  rw [distinct, foldl_insertImport names (by simpa using h), List.nil_append]

theorem loads (file : SourceFile) {limit : Nat} (hlimit : limit ≤ depthLimit) :
    Loads limit sourceFile file.encode file.parts file := by
  obtain ⟨header, imports, nodes, himports⟩ := file
  refine Loads.of_eq (((((LoadsFields.pure _).andPlain (.strings header)).andPlain (.strings imports)).and
    (loads_nodesOf fun c _ => c.loads hlimit hlimit)).decoderWith (by simp) .refuse) ?_
  simp only [distinct_eq himports]

end SourceFile

/-! ### Documents -/

namespace Document

/-- The broken rules of a document in the order of its parts. -/
def breaches (d : Document) : List Breach := d.parts.flatMap Part.breaches

/-- Whether all floats of a document are finite. -/
def IsFinite (d : Document) : Prop := ∀ p ∈ d.parts, p.isFinite

instance (d : Document) : Decidable d.IsFinite := inferInstanceAs (Decidable (∀ p ∈ d.parts, p.isFinite))

theorem head?_trimStart {c : Char} {cs : List Char} (h : Text.isBlank c = false) :
    (Text.trimStart (c :: cs)).head? = some c := by
  rw [Text.trimStart, List.dropWhile_cons_of_neg (by simp [h]), List.head?_cons]

theorem head?_text_nodes (list : List Node) :
    (Text.trimStart (Document.nodes list).text.toList).head? = some '[' := by
  have htext : (Document.nodes list).text.toList =
      '[' :: ((Text.joinWith "," (Json.itemTexts (encodeNodes list))).toList ++ [']']) := by
    simp [text, encode, Json.text]
  rw [htext]
  exact head?_trimStart rfl

theorem head?_text_object (members : Members) :
    (Text.trimStart (Json.object members).text.toList).head? = some '\x7b' := by
  obtain ⟨cs, htext⟩ : ∃ cs, (Json.object members).text.toList = '\x7b' :: cs := by
    rw [Json.text, String.toList_append, String.toList_append]
    exact ⟨_, rfl⟩
  rw [htext]
  exact head?_trimStart rfl

/-- Whether each float of a document is read of its text as itself. The reader of numbers scales the digits by a power
    of ten, which is exact for short numbers; of others it may miss the last bit. -/
def ReadsBack (d : Document) : Prop := ∀ p ∈ d.parts, p.FloatIn Double.ReadsBack

theorem reread_eq_self {d : Document} (h : d.ReadsBack) : d.reread = d :=
  d.mapFloats_eq_self fun p hp => (h p hp).mono fun _ => Double.ReadsBack.reread_eq_self

theorem loadText_text {α : Type} {d : Load α} {j : Json} {parts : List Part} {value value' : α}
    (h : Loads Reading.nestingLimit d j parts value)
    (h' : Loads Reading.nestingLimit d (j.mapFloats Double.reread) (parts.map (Part.mapFloats Double.reread)) value')
    (hfinite : ∀ p ∈ parts, p.isFinite) (hj : j.nesting ≤ Reading.nestingLimit) :
    loadText d j.text = verdict parts value' := by
  have hspell : j.Spellable fun d => d.isFinite = true := h.spellable fun p hp => p.isFinite_iff.1 (hfinite p hp)
  have hdecodes := h'.decodes (Json.nesting_mapFloats j ▸ hj)
  rw [verdict, Part.flatMap_breaches_mapFloats, ← verdict] at hdecodes
  rw [loadText, Reading.ofText_text j hspell hj]
  simp only [hdecodes]
  exact verdict_bind_ok rfl

/-- What loading makes of a document that was written: its floats are those that are read of their texts. -/
theorem load_text (d : Document) (hfinite : d.IsFinite) (hnesting : d.encode.nesting ≤ Reading.nestingLimit) :
    load d.text = verdict d.parts d.reread := by
  have hlimit : Reading.nestingLimit ≤ depthLimit := Nat.le_succ _
  cases d with
  | nodes list =>
    have hreread : Loads Reading.nestingLimit (Decoder.list node) (Json.array _) _
        (nodesWithFloats Double.reread list) := loads_nodes fun c _ => c.loads hlimit hlimit
    rw [encodeNodes_withFloats, partsOfNodes_withFloats] at hreread
    have hlist := loadText_text (loads_nodes fun c _ => c.loads hlimit hlimit) hreread hfinite hnesting
    rw [load, if_pos (head?_text_nodes list)]
    exact (congrArg _ hlist).trans (verdict_map _ _ Document.nodes)
  | file source =>
    have hreread := (source.mapFloats Double.reread).loads hlimit
    rw [SourceFile.encode_mapFloats, SourceFile.parts_mapFloats] at hreread
    have hfile := loadText_text (source.loads hlimit) hreread hfinite hnesting
    rw [load, if_neg (by simp [text, encode, SourceFile.encode, head?_text_object])]
    exact (congrArg _ hfile).trans (verdict_map _ _ Document.file)

theorem breaches_eq_nil_iff (d : Document) : d.breaches = [] ↔ ∀ p ∈ d.parts, p.check = .ok () := by
  rw [breaches, List.flatMap_eq_nil_iff]
  exact forall₂_congr fun p _ => (p.check_eq_ok_iff).symm

/-- A document under all rules, with finite floats that are read back and a text of bounded nesting, is loaded from its
    text as it is; rendering the text is then rendering the document, whatever the indentation. -/
theorem load_text_of_rules (d : Document) (hrules : ∀ p ∈ d.parts, p.check = .ok ()) (hfinite : d.IsFinite)
    (hnesting : d.encode.nesting ≤ Reading.nestingLimit) (hreads : d.ReadsBack) :
    load d.text = .ok d ∧ ∀ indent, Command.renderText indent d.text =
      { stdout := (d.render indent).value, messages := (d.render indent).warnings.map (·.message) } := by
  have hload : load d.text = .ok d := by
    have hnone : d.parts.flatMap Part.breaches = [] := (breaches_eq_nil_iff d).2 hrules
    rw [load_text d hfinite hnesting, verdict, hnone, reread_eq_self hreads]
  refine ⟨hload, fun indent => ?_⟩
  rw [Command.renderText, hload]

/-- A file with a raw value, a computed property, a filtered loop and a `switch` inside it. -/
def tour : Document :=
  .file {
    header := ["Tour"], imports := ["UIKit", "Foundation"],
    nodes := [
      .typeDecl { flavor := .enumType true, name := "Step", conformances := [.named "Double"] } [
        .enumCase { name := "half" } (some (.float ⟨0x3FE0000000000000⟩)),
        .property { name := "next", ty := some (.optional (.named "Step")) } none
          (some [.returnStmt (some (.expression (.literal .nil)))])],
      .forIn (.pattern (.tuple [.identifier "key", .wildcard])) (.reference "steps") (some (.reference "isOpen")) [
        .switchStmt (.reference "key")
          [⟨[.raw "0...", .pattern (.enumCase ".some" ["x"])], none, [.jump .breakOut none]⟩] (some [])]] }

/-- The one float of the file is a half. -/
theorem readsBack_tour : tour.ReadsBack := by
  have hhalf : ∀ p ∈ tour.parts, p.FloatIn (· = ⟨0x3FE0000000000000⟩) := by decide
  rintro p hp
  exact (hhalf p hp).mono fun v hv => hv ▸ Double.readsBack_half

theorem load_text_tour :
    load tour.text = .ok tour ∧ ∀ indent, Command.renderText indent tour.text =
      { stdout := (tour.render indent).value, messages := (tour.render indent).warnings.map (·.message) } :=
  load_text_of_rules tour ((breaches_eq_nil_iff tour).1 (by decide)) (by decide) (by decide) readsBack_tour

/-- The parts up to the first broken rule. -/
theorem exists_first_breach {ps : List Part} {b : Breach} {bs : List Breach} (h : ps.flatMap Part.breaches = b :: bs) :
    ∃ before p after, ps = before ++ p :: after ∧ (∀ q ∈ before, q.check = .ok ()) ∧ p.breaches.head? = some b := by
  induction ps with
  | nil => simp at h
  | cons p ps ih =>
    cases hp : p.breaches with
    | nil =>
      rw [List.flatMap_cons, hp, List.nil_append] at h
      obtain ⟨before, q, after, rfl, hbefore, hq⟩ := ih h
      refine ⟨p :: before, q, after, rfl, ?_, hq⟩
      rintro r hr
      rcases List.mem_cons.1 hr with rfl | hr
      · exact r.check_eq_ok_iff.2 hp
      · exact hbefore r hr
    | cons c cs =>
      rw [List.flatMap_cons, hp, List.cons_append] at h
      cases h
      exact ⟨[], p, ps, rfl, by simp, by simp [hp]⟩

/-- A document with finite floats and a text of bounded nesting is loaded from its text exactly if all its parts
    obey their rules. Otherwise the fault is the first breach of the first part that breaks a rule: the parts that
    are complete before it obey theirs. -/
theorem load_text_reports_first (d : Document) (hfinite : d.IsFinite)
    (hnesting : d.encode.nesting ≤ Reading.nestingLimit) :
    ((∃ t, load d.text = .ok t) ↔ ∀ p ∈ d.parts, p.check = .ok ()) ∧
      ∀ e, load d.text = .error e → ∃ before p after b, d.parts = before ++ p :: after ∧
        (∀ q ∈ before, q.check = .ok ()) ∧ p.breaches.head? = some b ∧ e = .rule b ∧
          LoadError.message? e = some b.message := by
  rw [load_text d hfinite hnesting, ← breaches_eq_nil_iff d, verdict, ← breaches]
  cases hbreaches : d.breaches with
  | nil => simp
  | cons b bs =>
    refine ⟨by simp, ?_⟩
    rintro e ⟨⟩
    obtain ⟨before, p, after, hparts, hbefore, hp⟩ := exists_first_breach hbreaches
    exact ⟨before, p, after, b, hparts, hbefore, hp, rfl, rfl⟩

/-- A constant with a getter, and in the getter an enum case with an access level and a tuple as its raw value. -/
def misfit : Document :=
  .nodes [.property { name := "p", binding := .letBinding } none (some [
    .enumCase { name := "c", decor := { access := some .publicLevel } } (some (.tuple []))])]

theorem load_text_misfit :
    ((∃ t, load misfit.text = .ok t) ↔ ∀ p ∈ misfit.parts, p.check = .ok ()) ∧
      ∀ e, load misfit.text = .error e → ∃ before p after b, misfit.parts = before ++ p :: after ∧
        (∀ q ∈ before, q.check = .ok ()) ∧ p.breaches.head? = some b ∧ e = .rule b ∧
          LoadError.message? e = some b.message :=
  load_text_reports_first misfit (by decide) (by decide)

example : misfit.breaches =
    [.caseAccess "c" .publicLevel, .caseRawKind "c" "tuple", .computedConstant "p"] := by decide

end Document

end SwiftForge
