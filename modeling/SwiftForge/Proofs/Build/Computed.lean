import SwiftForge.Proofs.Build.Rules
import SwiftForge.Proofs.Document.RoundTrip

/-! Computed properties and initial values. A getter is refused on a constant and on a property that has an initial
    value, but an initial value is taken whether there is a getter or not. So the rule of computed properties holds
    after calls on a new property exactly if no initial value was set after the getter; otherwise the declaration leaves
    the value out and what is written of the property cannot be loaded. -/

namespace SwiftForge.Property

/-- A call on a property. -/
inductive Edit where
  | withType (ty : TypeRef)
  | withValue (value : Node)
  | makeStatic
  | makeLazy
  | makeWeak
  | withGetter (body : Script)
  | withComment (line : String)
  | withDoc (line : String)
  | withAttribute (a : Attribute)
  | withAccess (level : AccessLevel)

namespace Edit

/-- The property after a call. -/
def apply : Edit → Property → Built Property
  | .withType ty, p => .ok (p.withType ty)
  | .withValue value, p => .ok (p.withValue value)
  | .makeStatic, p => .ok p.makeStatic
  | .makeLazy, p => .ok p.makeLazy
  | .makeWeak, p => .ok p.makeWeak
  | .withGetter body, p => p.withGetter body.run
  | .withComment line, p => .ok (SwiftForge.withComment line p)
  | .withDoc line, p => .ok (SwiftForge.withDoc line p)
  | .withAttribute a, p => .ok (SwiftForge.withAttribute a p)
  | .withAccess level, p => .ok (SwiftForge.withAccess level p)

def isValue : Edit → Bool
  | .withValue _ => true
  | _ => false

def isGetter : Edit → Bool
  | .withGetter _ => true
  | _ => false

end Edit

/-- The property after several calls. -/
def chain (edits : List Edit) (p : Property) : Built Property := edits.foldlM (fun p edit => edit.apply p) p

/-- No initial value is set after a getter. -/
def ValuesFirst (edits : List Edit) : Prop := edits.Pairwise fun a b => a.isGetter = true → b.isValue = false

instance (edits : List Edit) : Decidable (ValuesFirst edits) :=
  inferInstanceAs (Decidable (edits.Pairwise fun a b => a.isGetter = true → b.isValue = false))

/-! ### Calls -/

theorem checkComputable_eq_ok {p : Property} :
    p.checkComputable = .ok () ↔ p.binding = .varBinding ∧ p.value = none := by
  unfold checkComputable
  split
  · rename_i h
    simp [h]
  · rename_i h
    cases hvalue : p.value <;> simp_all

theorem check_eq_ok {p : Property} :
    p.check = .ok () ↔ (p.isComputed = true → p.binding = .varBinding ∧ p.value = none) := by
  unfold check
  split
  · rename_i h
    simp [h, checkComputable_eq_ok]
  · rename_i h
    simp [h]

theorem withGetter_eq_ok {body : Built (List Node)} {p q : Property} (h : p.withGetter body = .ok q) :
    p.binding = .varBinding ∧ p.value = none ∧ ∃ nodes, q = { p with getter := some nodes } := by
  obtain ⟨u, hrule, h⟩ := bind_eq_ok.1 h
  obtain ⟨nodes, -, h⟩ := bind_eq_ok.1 h
  cases h
  obtain ⟨hbinding, hvalue⟩ := checkComputable_eq_ok.1 (Built.ofRule_eq_ok.1 hrule)
  exact ⟨hbinding, hvalue, nodes, rfl⟩

/-- What a call does to the fields that the rule is about, and when it can be made. -/
theorem Edit.apply_eq_ok {edit : Edit} {p q : Property} (h : edit.apply p = .ok q) :
    q.binding = p.binding ∧ q.value.isSome = (p.value.isSome || edit.isValue) ∧
      q.isComputed = (p.isComputed || edit.isGetter) ∧
      (edit.isGetter = true → p.binding = .varBinding ∧ p.value.isSome = false) := by
  cases edit with
  | withGetter body =>
    obtain ⟨hbinding, hvalue, nodes, rfl⟩ := withGetter_eq_ok h
    simp [hbinding, hvalue, isComputed, isValue, isGetter]
  | withValue value =>
    cases h
    exact ⟨rfl, (Bool.or_true _).symm, (Bool.or_false _).symm, nofun⟩
  | _ =>
    cases h
    exact ⟨rfl, (Bool.or_false _).symm, (Bool.or_false _).symm, nofun⟩

theorem chain_cons (edit : Edit) (edits : List Edit) (p : Property) :
    chain (edit :: edits) p = edit.apply p >>= chain edits := List.foldlM_cons

/-- What calls make of a property: its binding stays, and it needs to be a variable for a getter. -/
theorem binding_of_chain {edits : List Edit} {p q : Property} (h : chain edits p = .ok q)
    (hp : p.isComputed = true → p.binding = .varBinding) :
    q.isComputed = true → q.binding = .varBinding := by
  induction edits generalizing p with
  | nil =>
    cases h
    exact hp
  | cons edit edits ih =>
    rw [chain_cons] at h
    obtain ⟨b, hb, h⟩ := bind_eq_ok.1 h
    obtain ⟨hbinding, -, hcomputed, hgetter⟩ := Edit.apply_eq_ok hb
    refine ih h fun hb' => ?_
    rw [hbinding]
    rw [hcomputed, Bool.or_eq_true] at hb'
    rcases hb' with hb' | hb'
    · exact hp hb'
    · exact (hgetter hb').1

/-- How a property comes to have a getter and an initial value: it had both, or its value was set after its getter. -/
theorem computed_with_value_iff {edits : List Edit} {p q : Property} (h : chain edits p = .ok q) :
    q.isComputed = true ∧ q.value.isSome = true ↔
      p.isComputed = true ∧ (p.value.isSome = true ∨ ∃ edit ∈ edits, edit.isValue = true) ∨ ¬ValuesFirst edits := by
  induction edits generalizing p with
  | nil =>
    cases h
    simp [ValuesFirst]
  | cons edit edits ih =>
    rw [chain_cons] at h
    obtain ⟨b, hb, h⟩ := bind_eq_ok.1 h
    obtain ⟨-, hvalue, hcomputed, hgetter⟩ := Edit.apply_eq_ok hb
    rw [ih h, hvalue, hcomputed, ValuesFirst, ValuesFirst, List.pairwise_cons]
    cases hg : edit.isGetter with
    | false => simp [or_assoc]
    | true =>
      -- The call is a getter, so it sets no value and there is none yet: what counts are the calls that follow.
      have hv : edit.isValue = false := by
        cases edit <;> simp_all [Edit.isGetter, Edit.isValue]
      simp only [(hgetter hg).2, hv]
      grind

/-! ### The rule -/

theorem obeys_parts {p : Property} :
    Obeys p.node.parts ↔ (∀ n ∈ p.node.children, Obeys n.parts) ∧ p.check = .ok () := by
  obtain ⟨head, value, getter⟩ := p
  have hgetter : partsOfBlock? getter = (getter.getD []).flatMap Node.parts := by
    rw [partsOfBlock?_eq]
    cases getter <;> simp
  rw [node, Node.parts, Node.children, partsOfNode?_eq, hgetter, ← List.flatMap_append, obeys_append, obeys_flatMap,
    obeys_singleton, Part.check]

/-- What is written of a property is loaded, with each float as it is read of its text, exactly if the property obeys
    its rule, once its children do. -/
theorem load_text_iff {p : Property} (hfinite : (Document.nodes [p.node]).IsFinite)
    (hnesting : (Document.nodes [p.node]).encode.nesting ≤ Reading.nestingLimit)
    (hchildren : ∀ n ∈ p.node.children, Obeys n.parts) :
    Document.load (Document.nodes [p.node]).text = .ok (Document.nodes [p.node]).reread ↔ p.check = .ok () := by
  have hparts : (Document.nodes [p.node]).parts = p.node.parts := by
    rw [Document.parts, partsOfNodes, partsOfNodes, List.append_nil]
  have hrules : (Document.nodes [p.node]).breaches = [] ↔ p.check = .ok () := by
    rw [Document.breaches_eq_nil_iff, hparts]
    exact obeys_parts.trans (and_iff_right hchildren)
  rw [Document.load_text _ hfinite hnesting, Document.verdict, ← Document.breaches, ← hrules]
  cases (Document.nodes [p.node]).breaches with
  | nil => simp
  | cons b bs => simp

theorem fragments_of_isComputed {p : Property} (h : p.isComputed = true) :
    p.node.fragments = ({ p with value := none } : Property).node.fragments := by
  obtain ⟨getter, hgetter⟩ := Option.isSome_iff_exists.1 h
  simp only [node, hgetter, Node.fragments]

theorem fragments_of_value {p : Property} (h : p.isComputed = false) {value : Node} (hvalue : p.value = some value) :
    p.node.fragments.value = p.decor.leading ++
      [.line (Inline.ofText p.lead ++ (Inline.ofText " = " ++ (value.inline .propertyValue).value))] := by
  have hgetter : p.getter = none := by simpa [isComputed] using h
  simp [node, hgetter, hvalue, Node.fragments, optionalInline]

/-- After calls on a new property that end without a fault, a property with a getter is a variable, and it has no
    initial value exactly if none was set after the getter. Under this condition it obeys its rule, what is written of
    it can be loaded, with each float as it is read of its text, and its declaration shows the initial value if there is
    one. -/
theorem computed_rule_iff_valuesFirst {name : String} {start p : Property} {edits : List Edit}
    (hstart : start = .newLet name ∨ start = .newVar name) (h : chain edits start = .ok p) :
    (p.isComputed = true → p.binding = .varBinding) ∧
      ((p.isComputed = true → p.value = none) ↔ ValuesFirst edits) ∧ (p.check = .ok () ↔ ValuesFirst edits) ∧
      ((Document.nodes [p.node]).IsFinite → (Document.nodes [p.node]).encode.nesting ≤ Reading.nestingLimit →
        (∀ n ∈ p.node.children, Obeys n.parts) →
        (Document.load (Document.nodes [p.node]).text = .ok (Document.nodes [p.node]).reread ↔ ValuesFirst edits)) ∧
      ((Document.nodes [p.node]).ReadsBack → (Document.nodes [p.node]).reread = .nodes [p.node]) ∧
      (ValuesFirst edits → ∀ value, p.value = some value → p.node.fragments.value = p.decor.leading ++
        [.line (Inline.ofText p.lead ++ (Inline.ofText " = " ++ (value.inline .propertyValue).value))]) := by
  have hnew : start.isComputed = false := by rcases hstart with rfl | rfl <;> rfl
  have hbinding : p.isComputed = true → p.binding = .varBinding := binding_of_chain h (by simp [hnew])
  have hvalue : (p.isComputed = true → p.value = none) ↔ ValuesFirst edits := by
    have hboth := computed_with_value_iff h
    simp only [hnew, Bool.false_eq_true, false_and, false_or, ← Option.ne_none_iff_isSome] at hboth
    rw [← not_iff_not, ← hboth, Classical.not_imp]
  have hcheck : p.check = .ok () ↔ ValuesFirst edits := by
    rw [check_eq_ok, ← hvalue]
    exact ⟨fun hrule hp => (hrule hp).2, fun hnone hp => ⟨hbinding hp, hnone hp⟩⟩
  refine ⟨hbinding, hvalue, hcheck, fun hfinite hnesting hchildren => ?_, Document.reread_eq_self,
    fun hfirst value hsome => ?_⟩
  · rw [load_text_iff hfinite hnesting hchildren, hcheck]
  · refine fragments_of_value ?_ hsome
    rw [Bool.eq_false_iff]
    intro hp
    rw [hvalue.2 hfirst hp] at hsome
    cases hsome

/-- Calls that describe a computed property. -/
def counted : List Edit :=
  [.withDoc "how many", .withType (.named "Int"), .withGetter [.push (.ok (.raw "v()"))], .makeStatic]

def countedProperty : Property :=
  { name := "count", decor := { doc := ["how many"] }, binding := .varBinding, ty := some (.named "Int"),
    isStatic := true, getter := some [.raw "v()"] }

theorem computed_rule_iff_valuesFirst_counted :
    chain counted (.newVar "count") = .ok countedProperty ∧ ValuesFirst counted ∧
      countedProperty.isComputed = true ∧ countedProperty.value = none ∧
      Document.load (Document.nodes [countedProperty.node]).text = .ok (.nodes [countedProperty.node]) := by
  have hcalls : chain counted (.newVar "count") = .ok countedProperty := rfl
  have hfirst : ValuesFirst counted := by decide
  have hchildren : ∀ n ∈ countedProperty.node.children, Obeys n.parts := by
    intro n hn
    obtain rfl := List.mem_singleton.1 hn
    exact obeys_nil
  obtain ⟨-, hvalue, -, hload, -⟩ := computed_rule_iff_valuesFirst (.inr rfl) hcalls
  exact ⟨hcalls, hfirst, rfl, hvalue.2 hfirst rfl, (hload (by decide) (by decide) hchildren).2 hfirst⟩

/-- Calls that give a property its getter first and an initial value afterwards. -/
def lateValue : List Edit :=
  [.withGetter [.push (.ok (Call.named "v").node)], .withValue (Literal.integer 3).node]

def lateProperty : Property :=
  { name := "p", binding := .varBinding, value := some (Literal.integer 3).node,
    getter := some [(Call.named "v").node] }

/-- A value that is set after the getter is taken without a fault: the declaration leaves it out, and what is written of
    the property is refused. -/
theorem computed_with_late_value :
    chain lateValue (.newVar "p") = .ok lateProperty ∧ lateProperty.isComputed = true ∧ lateProperty.value ≠ none ∧
      lateProperty.node.fragments = ({ lateProperty with value := none } : Property).node.fragments ∧
      Document.load (Document.nodes [lateProperty.node]).text = .error (.rule (.computedWithValue "p")) := by
  refine ⟨rfl, rfl, by simp [lateProperty], fragments_of_isComputed rfl, ?_⟩
  have hbreaches : (Document.nodes [lateProperty.node]).breaches = [.computedWithValue "p"] := by decide
  rw [Document.load_text _ (by decide) (by decide), Document.verdict, ← Document.breaches, hbreaches]

end SwiftForge.Property
