import SwiftForge.Proofs.Json.Number
import SwiftForge.Proofs.Layout.Nested
import SwiftForge.Proofs.Tree.Authored
import SwiftForge.Render.Header

/-! The texts that need no child nest: types, clauses of declarations, signatures, literals. Every bracket in them is
    written together with its partner, and the names between them hold none but those that are allowed. -/

namespace SwiftForge

open Text (Nests nests_empty nests_word nests_of_permits nests_joinWith)

variable {A : Char → Prop}

/-! ### Types -/

mutual

theorem TypeRef.nests_text : (t : TypeRef) → PermitsAll A t.authored → Nests A t.text
  | .named name, h => nests_of_permits (h name List.mem_cons_self)
  | .optional wrapped, h => by
    have hwrapped := wrapped.nests_text h
    rw [TypeRef.text]
    split
    · have hround : Nests A ("(" ++ wrapped.text ++ ")" ++ "?") := hwrapped.round.append (nests_word rfl)
      simpa [Nests, Text.flat] using hround
    · exact hwrapped.append (nests_word rfl)
  | .array element, h => by
    rw [TypeRef.text]
    exact (element.nests_text h).square
  | .dictionary key value, h => by
    rw [TypeRef.authored, permitsAll_append] at h
    have hentry : Nests A (key.text ++ ": " ++ value.text) :=
      ((key.nests_text h.1).append (nests_word rfl)).append (value.nests_text h.2)
    have hsquare : Nests A ("[" ++ (key.text ++ ": " ++ value.text) ++ "]") := hentry.square
    rw [TypeRef.text]
    simpa [String.append_assoc] using hsquare
  | .tuple elements, h => by
    rw [TypeRef.text]
    exact (nests_joinWith (nests_word rfl) (TypeRef.nests_texts elements h)).round
  | .generic base args, h => by
    rw [TypeRef.authored, permitsAll_cons] at h
    have hargs : Nests A (Text.joinWith ", " (TypeRef.texts args)) :=
      nests_joinWith (nests_word rfl) (TypeRef.nests_texts args h.2)
    rw [TypeRef.text]
    exact (((nests_of_permits h.1).append (nests_word rfl)).append hargs).append (nests_word rfl)
  | .function params effects returns, h => by
    rw [TypeRef.authored, permitsAll_append, permitsAll_append] at h
    have hparams : Nests A (Text.joinWith ", " (TypeRef.texts params)) :=
      nests_joinWith (nests_word rfl) (TypeRef.nests_texts params h.1.1)
    rw [TypeRef.text]
    exact ((hparams.round.append (effects.nests_suffix h.1.2)).append (nests_word rfl)).append
      (returns.nests_text h.2)

theorem TypeRef.nests_texts : (ts : List TypeRef) → PermitsAll A (authoredOfTypes ts) →
    ∀ s ∈ TypeRef.texts ts, Nests A s
  | [], _ => by simp [TypeRef.texts]
  | t :: rest, h => by
    rw [authoredOfTypes, permitsAll_append] at h
    rw [TypeRef.texts]
    exact List.forall_mem_cons.2 ⟨t.nests_text h.1, TypeRef.nests_texts rest h.2⟩

theorem Throws.nests_keyword : (t : Throws) → PermitsAll A t.authored → Nests A t.keyword
  | .throws .none, _ => nests_word rfl
  | .throws (.some error), h => by
    have hround : Nests A ("throws" ++ ("(" ++ error.text ++ ")")) :=
      (nests_word rfl).append (error.nests_text h).round
    rw [Throws.keyword]
    simpa [Nests, Text.flat] using hround
  | .rethrows, _ => nests_word rfl

theorem Effects.nests_suffix : (e : Effects) → PermitsAll A e.authored → Nests A e.suffix
  | .none, _ => nests_empty
  | .throws t, h => by
    rw [Effects.suffix]
    exact (nests_word rfl).append (t.nests_keyword h)
  | .async, _ => nests_word rfl
  | .asyncThrows t, h => by
    rw [Effects.suffix]
    exact ((nests_word rfl).append (nests_word rfl)).append (t.nests_keyword h)

end

theorem nests_returnClause {t : Option TypeRef} (h : PermitsAll A (authoredOfType? t)) : Nests A (returnClause t) := by
  cases t with
  | none => exact nests_empty
  | some t => exact (nests_word rfl).append (t.nests_text (h.flatMap (by simp)))

theorem nests_typeSuffix {t : Option TypeRef} (h : PermitsAll A (authoredOfType? t)) : Nests A ( annotation t) := by
  cases t with
  | none => exact nests_empty
  | some t => exact (nests_word rfl).append (t.nests_text (h.flatMap (by simp)))

theorem TypeRef.nests_inheritanceClause {types : List TypeRef} (h : PermitsAll A (authoredOfTypes types)) :
    Nests A (inheritanceClause types) := by
  unfold inheritanceClause
  split
  · exact nests_empty
  · exact (nests_word rfl).append (nests_joinWith (nests_word rfl) (nests_texts types h))

theorem GenericParam.nests_text {p : GenericParam} (h : PermitsAll A p.authored) : Nests A p.text := by
  rw [authored, permitsAll_cons] at h
  have hname : Nests A p.name := nests_of_permits h.1
  unfold text
  split
  · exact hname
  · exact (hname.append (nests_word rfl)).append (nests_joinWith (nests_word rfl) (TypeRef.nests_texts _ h.2))

theorem GenericParam.nests_clause {params : List GenericParam} (h : PermitsAll A (params.flatMap authored)) :
    Nests A (clause params) := by
  have hparams : ∀ s ∈ params.map text, Nests A s := by
    intro s hs
    obtain ⟨p, hp, rfl⟩ := List.mem_map.1 hs
    exact p.nests_text (h.flatMap hp)
  unfold clause
  split
  · exact nests_empty
  · exact ((nests_word rfl).append (nests_joinWith (nests_word rfl) hparams)).append (nests_word rfl)

/-! ### What stands around a declaration -/

theorem Attribute.nests_text {a : Attribute} (h : PermitsAll A a.authored) : Nests A a.text := by
  rw [authored, permitsAll_cons] at h
  have hname : Nests A ("@" ++ a.name) := (nests_word rfl).append (nests_of_permits h.1)
  have hargs : Nests A (Text.joinWith ", " a.args) :=
    nests_joinWith (nests_word rfl) fun s hs => nests_of_permits (h.2 s hs)
  unfold text
  split
  · exact hname
  · have hround := hname.append hargs.round
    simpa [String.append_assoc] using hround

theorem permits_physicalLines {text line : String} (h : Permits A text) (hline : line ∈ Text.physicalLines text) :
    Permits A line := by
  intro c hc
  have hflat : c ∈ Text.flat text := by
    rw [← Text.flatMap_physicalLines]
    exact List.mem_flatMap.2 ⟨line, hline, hc⟩
  exact h c (List.mem_filter.1 hflat).1

theorem nests_commentText {mark text : String} (hmark : Nests A mark) (h : Permits A text) :
    Nests A (Fragment.commentText mark text) := by
  unfold Fragment.commentText
  split
  · exact hmark
  · exact (hmark.append (nests_word rfl)).append (nests_of_permits h)

theorem nest_comments {text : String} (h : Permits A text) : Fragment.Nest A (Fragment.comments text) := by
  refine Fragment.nest_map fun line hline => ?_
  rw [Fragment.chars]
  exact nests_commentText (nests_word rfl) (permits_physicalLines h hline)

theorem nest_docComments {text : String} (h : Permits A text) : Fragment.Nest A (Fragment.docComments text) := by
  refine Fragment.nest_map fun line hline => ?_
  rw [Fragment.chars]
  exact nests_commentText (nests_word rfl) (permits_physicalLines h hline)

theorem Decor.nest_leading {d : Decor} (h : PermitsAll A d.authored) : Fragment.Nest A d.leading := by
  rw [authored, permitsAll_append, permitsAll_append] at h
  obtain ⟨⟨hcomments, hdoc⟩, hattributes⟩ := h
  have hlines : Fragment.Nest A (d.attributes.map fun a => .line a.text) := by
    refine Fragment.nest_map fun a ha => ?_
    rw [Fragment.chars]
    exact Inline.nests_ofText (Attribute.nests_text (hattributes.flatMap ha))
  exact ((Fragment.nest_flatMap fun text ht => nest_comments (hcomments _ ht)).append
    (Fragment.nest_flatMap fun text ht => nest_docComments (hdoc _ ht))).append hlines

theorem Decor.nests_accessLead (d : Decor) : Nests A d.accessLead := by
  unfold accessLead
  split
  · rename_i level _
    cases level <;> exact nests_word rfl
  · exact nests_empty

theorem nests_modifier {word : String} (applies : Bool) (h : Nests A word) : Nests A (modifier applies word) := by
  unfold modifier
  split
  · exact h
  · exact nests_empty

/-! ### Declarations -/

theorem Flavor.nests_keyword (f : Flavor) : Nests A f.keyword := by
  cases f with
  | structType => exact nests_word rfl
  | classType isFinal => exact (nests_modifier isFinal (nests_word rfl)).append (nests_word rfl)
  | enumType isIndirect => exact (nests_modifier isIndirect (nests_word rfl)).append (nests_word rfl)

theorem opens_typeOpening {decor : Decor} {keyword name : String} {generics : List GenericParam}
    {conformances : List TypeRef} (hkeyword : Nests A keyword) (hname : Permits A name)
    (hgenerics : PermitsAll A (generics.flatMap GenericParam.authored))
    (hconformances : PermitsAll A (authoredOfTypes conformances)) :
    Opens A (Inline.ofText (typeOpening decor keyword name generics conformances)).chars := by
  have hlead : Nests A (decor.accessLead ++ keyword ++ " " ++ name) :=
    ((decor.nests_accessLead.append hkeyword).append (nests_word rfl)).append (nests_of_permits hname)
  rw [Inline.chars_ofText]
  exact ((hlead.append (GenericParam.nests_clause hgenerics)).append
    (TypeRef.nests_inheritanceClause hconformances)).opens

theorem TypeHead.opens_opening {h : TypeHead} (ha : PermitsAll A h.authored) :
    Opens A (Inline.ofText h.opening).chars := by
  simp only [authored, permitsAll_append, permitsAll_cons] at ha
  obtain ⟨⟨⟨hname, -⟩, hgenerics⟩, hconformances⟩ := ha
  exact opens_typeOpening h.flavor.nests_keyword hname hgenerics hconformances

theorem ProtocolHead.opens_opening {h : ProtocolHead} (ha : PermitsAll A h.authored) :
    Opens A (Inline.ofText h.opening).chars := by
  simp only [authored, permitsAll_append, permitsAll_cons] at ha
  obtain ⟨⟨hname, -⟩, hconformances⟩ := ha
  exact opens_typeOpening (nests_word rfl) hname (by simp) hconformances

theorem ExtensionHead.opens_opening {h : ExtensionHead} (ha : PermitsAll A h.authored) :
    Opens A (Inline.ofText h.opening).chars := by
  simp only [authored, permitsAll_append] at ha
  obtain ⟨⟨⟨hextended, -⟩, hconformances⟩, hrequirements⟩ := ha
  have hlead : Nests A (h.decor.accessLead ++ "extension " ++ h.extended.text) :=
    (h.decor.nests_accessLead.append (nests_word rfl)).append (h.extended.nests_text hextended)
  have hwhere : Nests A (if h.requirements.isEmpty then "" else " where " ++ Text.joinWith ", " h.requirements) := by
    split
    · exact nests_empty
    · exact (nests_word rfl).append
        (nests_joinWith (nests_word rfl) fun s hs => nests_of_permits (hrequirements _ hs))
  rw [Inline.chars_ofText]
  exact ((hlead.append (TypeRef.nests_inheritanceClause hconformances)).append hwhere).opens

theorem CaseHead.nests_declared {h : CaseHead} (ha : PermitsAll A h.authored) : Nests A h.declared := by
  simp only [authored, permitsAll_append, permitsAll_cons] at ha
  obtain ⟨⟨hname, -⟩, hvalues⟩ := ha
  have hpayload : ∀ s ∈ h.associatedValues.map fun v => v.name ++ ": " ++ v.ty.text, Nests A s := by
    intro s hs
    obtain ⟨v, hv, rfl⟩ := List.mem_map.1 hs
    have hvalue := hvalues.flatMap hv
    rw [AssociatedValue.authored, permitsAll_cons] at hvalue
    exact ((nests_of_permits hvalue.1).append (nests_word rfl)).append (v.ty.nests_text hvalue.2)
  refine ((nests_word rfl).append (nests_of_permits hname)).append ?_
  split
  · exact nests_empty
  · exact (nests_joinWith (nests_word rfl) hpayload).round

theorem CaseHead.nests_applied {h : CaseHead} (ha : PermitsAll A h.authored) {lead : String} (hlead : Nests A lead) :
    Nests A (h.applied lead) := by
  simp only [authored, permitsAll_append, permitsAll_cons] at ha
  obtain ⟨⟨hname, -⟩, hvalues⟩ := ha
  have hpayload : ∀ s ∈ h.associatedValues.map fun v => lead ++ v.name, Nests A s := by
    intro s hs
    obtain ⟨v, hv, rfl⟩ := List.mem_map.1 hs
    have hvalue := hvalues.flatMap hv
    rw [AssociatedValue.authored, permitsAll_cons] at hvalue
    exact hlead.append (nests_of_permits hvalue.1)
  refine ((nests_word rfl).append (nests_of_permits hname)).append ?_
  split
  · exact nests_empty
  · exact (nests_joinWith (nests_word rfl) hpayload).round

theorem ParamHead.nests_text {h : ParamHead} (ha : PermitsAll A h.authored) : Nests A h.text := by
  rw [authored, permitsAll_append, permitsAll_cons] at ha
  obtain ⟨hlabel, hname, hty⟩ := ha
  rw [text]
  refine ((((Nests.append ?_ (nests_of_permits hname)).append (nests_word rfl)).append
    (nests_modifier _ (nests_word rfl))).append (h.ty.nests_text hty)).append (nests_modifier _ (nests_word rfl))
  cases hl : h.label with
  | none => exact nests_empty
  | some label => exact (nests_of_permits (hlabel label (by simp [hl]))).append (nests_word rfl)

theorem FunctionHead.nests_lead {h : FunctionHead} (ha : PermitsAll A h.authored) : Nests A h.lead := by
  simp only [authored, permitsAll_append, permitsAll_cons] at ha
  obtain ⟨⟨⟨⟨hname, -⟩, hgenerics⟩, -⟩, -⟩ := ha
  have hmodifiers : Nests A (h.decor.accessLead ++ modifier h.isOverride "override " ++
      modifier h.isStatic "static " ++ modifier h.isMutating "mutating ") :=
    ((h.decor.nests_accessLead.append (nests_modifier _ (nests_word rfl))).append
      (nests_modifier _ (nests_word rfl))).append (nests_modifier _ (nests_word rfl))
  exact ((hmodifiers.append (nests_word rfl)).append (nests_of_permits hname)).append
    (GenericParam.nests_clause hgenerics)

theorem FunctionHead.nests_trail {h : FunctionHead} (ha : PermitsAll A h.authored) : Nests A h.trail := by
  simp only [authored, permitsAll_append] at ha
  obtain ⟨⟨-, heffects⟩, hreturn⟩ := ha
  exact (h.effects.nests_suffix heffects).append (nests_returnClause hreturn)

theorem InitHead.nests_lead (h : InitHead) : Nests A h.lead :=
  ((h.decor.nests_accessLead.append (nests_modifier _ (nests_word rfl))).append (nests_word rfl)).append
    (nests_modifier _ (nests_word rfl))

theorem InitHead.nests_trail {h : InitHead} (ha : PermitsAll A h.authored) : Nests A h.trail := by
  rw [authored, permitsAll_append] at ha
  exact h.effects.nests_suffix ha.2

theorem Binding.nests_keyword (b : Binding) : Nests A b.keyword := by
  cases b <;> exact nests_word rfl

theorem PropertyHead.nests_lead {h : PropertyHead} (ha : PermitsAll A h.authored) : Nests A h.lead := by
  simp only [authored, permitsAll_append, permitsAll_cons] at ha
  obtain ⟨⟨hname, -⟩, hty⟩ := ha
  have hmodifiers : Nests A (h.decor.accessLead ++ modifier h.isStatic "static " ++ modifier h.isWeak "weak " ++
      modifier h.isLazy "lazy ") :=
    ((h.decor.nests_accessLead.append (nests_modifier _ (nests_word rfl))).append
      (nests_modifier _ (nests_word rfl))).append (nests_modifier _ (nests_word rfl))
  exact (((hmodifiers.append h.binding.nests_keyword).append (nests_word rfl)).append
    (nests_of_permits hname)).append (nests_typeSuffix hty)

theorem PropertyHead.nests_requirement {h : PropertyHead} (ha : PermitsAll A h.authored) (isComputed : Bool) :
    Nests A (h.requirement isComputed) := by
  simp only [authored, permitsAll_append, permitsAll_cons] at ha
  obtain ⟨⟨hname, -⟩, hty⟩ := ha
  have haccessors : ∀ word : String, Nests A word → Nests A ("\x7b" ++ word ++ "\x7d") := by
    intro word hword
    rw [Nests, Text.flat_append, Text.flat_append]
    exact Nested.braces hword
  refine (((((h.decor.nests_accessLead.append (nests_modifier _ (nests_word rfl))).append (nests_word rfl)).append
    (nests_of_permits hname)).append (nests_typeSuffix hty)).append (nests_word rfl)).append ?_
  split
  · exact haccessors " get " (nests_word rfl)
  · exact haccessors " get set " (nests_word rfl)

theorem AssociatedType.nests_text {t : AssociatedType} (h : PermitsAll A t.authored) : Nests A t.text := by
  simp only [authored, permitsAll_append, permitsAll_cons] at h
  obtain ⟨⟨hname, -⟩, hconformances⟩ := h
  exact ((nests_word rfl).append (nests_of_permits hname)).append (TypeRef.nests_inheritanceClause hconformances)

theorem TypeAlias.nests_text {t : TypeAlias} (h : PermitsAll A t.authored) : Nests A t.text := by
  simp only [authored, permitsAll_append, permitsAll_cons] at h
  obtain ⟨⟨⟨hname, -⟩, hgenerics⟩, htarget⟩ := h
  exact ((((t.decor.nests_accessLead.append (nests_word rfl)).append (nests_of_permits hname)).append
    (GenericParam.nests_clause hgenerics)).append (nests_word rfl)).append (t.target.nests_text htarget)

theorem ImportDecl.nests_text {i : ImportDecl} (h : PermitsAll A i.authored) : Nests A i.text := by
  rw [authored, permitsAll_cons] at h
  exact (i.decor.nests_accessLead.append (nests_word rfl)).append (nests_of_permits h.1)

/-! ### Closures -/

theorem Capture.nests_text {c : Capture} (h : Permits A c.name) : Nests A c.text := by
  have hname := nests_of_permits h
  unfold text
  split
  · exact hname
  · exact (nests_word rfl).append hname
  · exact (nests_word rfl).append hname

theorem ClosureHead.nests_paramParts {h : ClosureHead} (ha : PermitsAll A h.authored) :
    ∀ s ∈ h.paramParts, Nests A s := by
  simp only [authored, permitsAll_append] at ha
  obtain ⟨⟨⟨-, hparams⟩, heffects⟩, hreturn⟩ := ha
  have hparam : ∀ p ∈ h.params, Permits A p.name ∧ PermitsAll A (authoredOfType? p.ty) := by
    intro p hp
    have := hparams.flatMap hp
    rwa [ClosureParam.authored, permitsAll_cons] at this
  have hnames : ∀ s ∈ h.params.map (·.name), Nests A s := by
    intro s hs
    obtain ⟨p, hp, rfl⟩ := List.mem_map.1 hs
    exact nests_of_permits (hparam p hp).1
  have htyped : ∀ s ∈ h.params.map fun p => p.name ++ annotation p.ty, Nests A s := by
    intro s hs
    obtain ⟨p, hp, rfl⟩ := List.mem_map.1 hs
    exact (nests_of_permits (hparam p hp).1).append (nests_typeSuffix (hparam p hp).2)
  unfold paramParts
  split
  · split
    · simp
    · exact List.forall_mem_singleton.2 (nests_joinWith (nests_word rfl) hnames)
  · exact List.forall_mem_singleton.2 (((nests_joinWith (nests_word rfl) htyped).round.append
      (h.effects.nests_suffix heffects)).append (nests_returnClause hreturn))

theorem ClosureHead.nests_signature {h : ClosureHead} (ha : PermitsAll A h.authored) :
    ∀ s ∈ h.signature?, Nests A s := by
  have hparams := h.nests_paramParts ha
  simp only [authored, permitsAll_append] at ha
  obtain ⟨⟨⟨⟨hattributes, hcaptures⟩, -⟩, -⟩, -⟩ := ha
  have hparts : ∀ s ∈ h.parts, Nests A s := by
    intro s hs
    rcases List.mem_append.1 hs with hs | hs
    · rcases List.mem_append.1 hs with hs | hs
      · obtain ⟨a, hmem, rfl⟩ := List.mem_map.1 hs
        exact Attribute.nests_text (hattributes.flatMap hmem)
      · have hall : ∀ t ∈ h.captures.map Capture.text, Nests A t := by
          intro t ht
          obtain ⟨c, hc, rfl⟩ := List.mem_map.1 ht
          exact Capture.nests_text (hcaptures _ (List.mem_map_of_mem hc))
        split at hs
        · cases hs
        · obtain rfl := List.mem_singleton.1 hs
          exact (nests_joinWith (nests_word rfl) hall).square
    · exact hparams s hs
  intro s hs
  unfold signature? at hs
  split at hs
  · cases hs
  · obtain rfl := Option.mem_some_iff.1 hs
    exact (nests_joinWith (nests_word rfl) hparts).append (nests_word rfl)

/-! ### Statements and patterns -/

theorem nests_bindingTarget {names : List String} (h : PermitsAll A names) : Nests A (bindingTarget names) := by
  have hnames : ∀ s ∈ names, Nests A s := fun s hs => nests_of_permits (h _ hs)
  unfold bindingTarget
  split
  · exact hnames _ (by simp)
  · exact (nests_joinWith (nests_word rfl) hnames).round

theorem nests_jumpText {keyword : String} (hkeyword : Nests A keyword) {label : Option String}
    (h : PermitsAll A label.toList) : Nests A (Jump.text keyword label) := by
  cases label with
  | none => exact hkeyword
  | some label => exact (hkeyword.append (nests_word rfl)).append (nests_of_permits (h label (by simp)))

theorem nests_casePatternText {name : String} {bindings : List String} (h : PermitsAll A (name :: bindings)) :
    Nests A (casePatternText name bindings) := by
  rw [permitsAll_cons] at h
  have hname : Nests A ("." ++ name) := (nests_word rfl).append (nests_of_permits h.1)
  have hbindings : ∀ s ∈ bindings.map fun b => "let " ++ b, Nests A s := by
    intro s hs
    obtain ⟨b, hb, rfl⟩ := List.mem_map.1 hs
    exact (nests_word rfl).append (nests_of_permits (h.2 b hb))
  unfold casePatternText
  split
  · exact hname
  · have hround := hname.append (nests_joinWith (nests_word rfl) hbindings : Nests A (Text.joinWith ", " _)).round
    simpa [String.append_assoc] using hround

theorem CallEffects.nests_lead (e : CallEffects) : Nests A e.lead := by
  obtain ⟨isTry, isAwait⟩ := e
  cases isTry <;> cases isAwait <;> exact nests_word rfl

/-! ### Literals -/

theorem isBracket_of_isDigit {c : Char} (h : c.isDigit = true) : isBracket c = false := by
  rw [isBracket, decide_eq_false_iff_not]
  intro hmem
  fin_cases hmem <;> simp at h

/-- A character of a decimal text. -/
def isDecimal (c : Char) : Bool := c.isDigit || c ∈ ['.', '-', 'e']

theorem nests_of_isDecimal {cs : List Char} (h : ∀ c ∈ cs, isDecimal c) : Nests A (String.ofList cs) := by
  refine nests_word (List.all_eq_true.2 fun c hc => ?_)
  have hc := h c (by simpa using hc)
  rw [isDecimal, Bool.or_eq_true] at hc
  rcases hc with hc | hc
  · simp [isBracket_of_isDigit hc]
  · have hmem : c ∈ ['.', '-', 'e'] := by simpa using hc
    fin_cases hmem <;> rfl

theorem isDecimal_digitChars {n : Nat} : ∀ c ∈ Decimal.digitChars n, isDecimal c := by
  intro c hc
  simp [isDecimal, Reading.isDigit_digitChars hc]

theorem isDecimal_intText (n : Int) : ∀ c ∈ (Decimal.intText n).toList, isDecimal c := by
  intro c hc
  cases n with
  | ofNat n => exact isDecimal_digitChars c (by simpa [Decimal.intText] using hc)
  | negSucc n =>
    have hc : c = '-' ∨ c ∈ Decimal.digitChars (n + 1) := by simpa [Decimal.intText] using hc
    rcases hc with rfl | hc
    · rfl
    · exact isDecimal_digitChars c hc

theorem isDecimal_positional {digits : List Char} (h : ∀ c ∈ digits, isDecimal c) (point : Int) :
    ∀ c ∈ Decimal.positional digits point, isDecimal c := by
  have hzeros : ∀ n, ∀ c ∈ List.replicate n '0', isDecimal c := by
    intro n c hc
    obtain rfl := List.eq_of_mem_replicate hc
    rfl
  cases point with
  | ofNat n =>
    have htake : ∀ c ∈ digits.take n, isDecimal c := fun c hc => h c (List.mem_of_mem_take hc)
    have hdrop : ∀ c ∈ digits.drop n, isDecimal c := fun c hc => h c (List.mem_of_mem_drop hc)
    rw [Decimal.positional]
    refine List.forall_mem_append.2 ⟨List.forall_mem_append.2 ⟨?_, List.all_eq_true.1 rfl⟩, ?_⟩
    · split
      · exact List.all_eq_true.1 rfl
      · exact List.forall_mem_append.2 ⟨htake, hzeros _⟩
    · split
      · exact List.all_eq_true.1 rfl
      · exact hdrop
  | negSucc n =>
    rw [Decimal.positional]
    exact List.forall_mem_append.2 ⟨List.forall_mem_append.2 ⟨List.all_eq_true.1 rfl, hzeros _⟩, h⟩

theorem isDecimal_scientific {digits : List Char} (h : ∀ c ∈ digits, isDecimal c) (point : Int) :
    ∀ c ∈ Decimal.scientific "" digits point, isDecimal c := by
  unfold Decimal.scientific
  refine List.forall_mem_append.2 ⟨List.forall_mem_append.2 ⟨?_, ?_⟩, isDecimal_intText _⟩
  · refine List.forall_mem_append.2 ⟨?_, List.all_eq_true.1 rfl⟩
    split
    · exact List.all_eq_true.1 rfl
    · exact h
    · obtain ⟨hd, hrest⟩ := List.forall_mem_cons.1 h
      exact List.forall_mem_cons.2 ⟨hd, List.forall_mem_cons.2 ⟨rfl, hrest⟩⟩
  · split <;> simp

theorem nests_intText (n : Int) : Nests A (Decimal.intText n) := by
  have h : Nests A (String.ofList (Decimal.intText n).toList) := nests_of_isDecimal (isDecimal_intText n)
  rwa [String.ofList_toList] at h

theorem nests_swiftFloat (d : Double) : Nests A (swiftFloat d) := by
  unfold swiftFloat
  split
  · exact nests_word rfl
  · exact nests_word rfl
  · exact nests_word rfl
  · rename_i negative significand exponent _
    have hbody : ∀ c ∈ (
        let d := Decimal.shortest swiftFloatFormat.tie significand exponent
        let digits := Decimal.digitChars d.digits
        let point : Int := digits.length + d.exponent
        if d.digits = 0 then ['0', '.', '0']
        else if swiftFloatFormat.low < point ∧ point ≤ swiftFloatFormat.high then Decimal.positional digits point
        else Decimal.scientific swiftFloatFormat.plus digits point), isDecimal c := by
      dsimp only
      split
      · exact List.all_eq_true.1 rfl
      · split
        · exact isDecimal_positional isDecimal_digitChars _
        · exact isDecimal_scientific isDecimal_digitChars _
    refine nests_of_isDecimal ?_
    split
    · exact List.forall_mem_cons.2 ⟨rfl, hbody⟩
    · exact hbody

theorem nested_hexDigits (n : Nat) : Nested A (Text.hexDigits n) := by
  induction n using Nat.strongRecOn with
  | ind n ih =>
    have hdigit : ∀ m < 16, [m.digitChar].all (fun c => c ≠ '\n' && !isBracket c) = true := by decide
    rw [Text.hexDigits, Nat.toDigits_eq_if (by omega)]
    split
    · exact .plain (hdigit n ‹_›)
    · exact (ih (n / 16) (by omega)).append (.plain (hdigit (n % 16) (by omega)))

theorem nested_numbered (c : Char) : Nested A (Text.numbered c) := by
  have hnumber := (Nested.plain rfl : Nested A ['\\', 'u']).append (nested_hexDigits c.toNat).braces
  simpa [Text.numbered] using hnumber

theorem nested_swiftChar {c : Char} (h : isBracket c → A c) : Nested A (swiftChar c) := by
  unfold swiftChar
  split
  · exact .plain rfl
  · exact .plain rfl
  · exact .plain rfl
  · exact .plain rfl
  · exact .plain rfl
  · exact .plain rfl
  · rename_i hnewline _ _ _
    split
    · exact nested_numbered c
    · exact .char hnewline h

/-- A string literal stays on its line, and the braces of its escapes nest. -/
theorem nests_swiftString {s : String} (h : Permits A s) : Nests A (swiftString s) := by
  have hchars : Nested A (s.toList.flatMap swiftChar) := .flatMap fun c hc => nested_swiftChar (h c hc)
  exact Text.nests_ofList (((Nested.plain rfl : Nested A ['"']).append hchars).append (.plain rfl))

end SwiftForge
