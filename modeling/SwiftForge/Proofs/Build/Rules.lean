import SwiftForge.Proofs.Build.Calls
import SwiftForge.Proofs.Outcome
import SwiftForge.Proofs.Tree.Parts

/-! The calls that put a part together and the rule that is checked when it is loaded agree: some calls end with the
    part exactly if it obeys its rule. What calls on an enum case end without a fault can be read off the calls,
    in whatever order they come. -/

namespace SwiftForge

variable {P : Node → Prop}

/-! ### Rules as steps -/

theorem Built.ofRule_eq_ok {rule : Except Breach Unit} : Built.ofRule rule = .ok () ↔ rule = .ok () := by
  cases rule with
  | ok u => simp [Built.ofRule]
  | error b => simp [Built.ofRule]

/-- A step that gives a value once a rule is obeyed. -/
theorem bind_ofRule_eq_ok {α : Type} {rule : Except Breach Unit} {a b : α} :
    (do Built.ofRule rule; pure a : Built α) = .ok b ↔ rule = .ok () ∧ a = b := by
  rw [bind_eq_ok]
  constructor
  · rintro ⟨u, hrule, hab⟩
    exact ⟨Built.ofRule_eq_ok.1 hrule, Except.ok.inj hab⟩
  · rintro ⟨hrule, rfl⟩
    exact ⟨(), Built.ofRule_eq_ok.2 hrule, rfl⟩

theorem requireExpression_eq_ok {place : Place} {n : Node} :
    requireExpression place n = .ok () ↔ n.isExpression := by
  unfold requireExpression
  split <;> simp_all

theorem requirePattern_eq_ok {place : Place} {n : Node} : requirePattern place n = .ok () ↔ n.isPattern := by
  unfold requirePattern
  split <;> simp_all

theorem requireClausePattern_eq_ok {clause : Clause} {n : Node} :
    requireClausePattern clause n = .ok () ↔ n.isPattern := by
  unfold requireClausePattern
  split <;> simp_all

theorem forM_requireClausePattern_eq_ok {clause : Clause} {nodes : List Node} :
    nodes.forM (requireClausePattern clause) = .ok () ↔ ∀ n ∈ nodes, n.isPattern := by
  induction nodes with
  | nil => simp [pure, Except.pure]
  | cons n nodes ih =>
    rw [List.forM, bind_eq_ok, List.forall_mem_cons, ← ih, ← requireClausePattern_eq_ok]
    exact ⟨fun ⟨_, hn, h⟩ => ⟨hn, h⟩, fun ⟨hn, h⟩ => ⟨(), hn, h⟩⟩

/-! ### Scripts -/

namespace Script

theorem allBuilt_map_ok (nodes : List Node) : allBuilt (nodes.map .ok) = .ok nodes := by
  induction nodes with
  | nil => rfl
  | cons n nodes ih => rw [List.map_cons, allBuilt, ih]; rfl

/-- Nodes at hand are put together by a script that appends them. -/
theorem makes_of_forall {nodes : List Node} (h : ∀ n ∈ nodes, P n) : Makes P nodes := by
  refine ⟨[.extend (nodes.map .ok)], ?_, ?_⟩
  · intro n hn
    simp only [outcomes, stepOutcomes, List.append_nil, List.mem_map, Except.ok.injEq, exists_eq_right] at hn
    exact h n hn
  · rw [run, runFrom, applyStep, allBuilt_map_ok]
    rfl

end Script

theorem single_eq_ok {wanted : Wanted} {rule : Place → Node → Except Breach Unit} {place : Place} {nodes : List Node}
    {n : Node} : single wanted rule place (.ok nodes) = .ok n ↔ nodes = [n] ∧ rule place n = .ok () := by
  match nodes with
  | [m] =>
    refine bind_ofRule_eq_ok.trans ?_
    rw [List.singleton_inj]
    constructor
    · rintro ⟨hm, rfl⟩
      exact ⟨rfl, hm⟩
    · rintro ⟨rfl, hm⟩
      exact ⟨hm, rfl⟩
  | [] => simp [single, bind, Except.bind]
  | _ :: _ :: _ => simp [single, bind, Except.bind]

theorem singleExpression_eq_ok {place : Place} {nodes : List Node} {n : Node} :
    singleExpression place (.ok nodes) = .ok n ↔ nodes = [n] ∧ n.isExpression :=
  single_eq_ok.trans (and_congr_right fun _ => requireExpression_eq_ok)

theorem singlePattern_eq_ok {place : Place} {nodes : List Node} {n : Node} :
    singlePattern place (.ok nodes) = .ok n ↔ nodes = [n] ∧ n.isPattern :=
  single_eq_ok.trans (and_congr_right fun _ => requirePattern_eq_ok)

/-! ### Statements -/

namespace TupleAssignment

theorem new_eq_ok {names : List String} {value : Node} {a : TupleAssignment} :
    new names value = .ok a ↔ ({ names, value } : TupleAssignment).check = .ok () ∧ { names, value } = a :=
  bind_ofRule_eq_ok

/-- The mode of an assignment bears on no rule. -/
theorem check_withMode (mode : AssignmentMode) (a : TupleAssignment) : (a.withMode mode).check = a.check := rfl

theorem Made.check_eq_ok {a : TupleAssignment} (h : a.Made P) : a.check = .ok () := by
  induction h with
  | new hvalue ha =>
    obtain ⟨hcheck, rfl⟩ := new_eq_ok.1 ha
    exact hcheck
  | withMode mode ha ih => rw [check_withMode, ih]

theorem made_of_check {a : TupleAssignment} (hvalue : P a.value) (h : a.check = .ok ()) : a.Made P := by
  obtain ⟨names, value, mode⟩ := a
  have hnew : new names value = .ok { names, value } := new_eq_ok.2 ⟨h, rfl⟩
  exact (Made.new hvalue hnew).withMode mode

end TupleAssignment

namespace Condition

theorem matching_eq_ok {pattern value : Node} {k : Condition} :
    matching pattern value = .ok k ↔ pattern.isPattern ∧ .caseMatch pattern value = k := by
  rw [← requireClausePattern_eq_ok]
  exact bind_ofRule_eq_ok

end Condition

namespace ConditionLoop

theorem check_eq_ok_iff {l : ConditionLoop} : l.check = .ok () ↔ l.condition.isExpression := requireExpression_eq_ok

theorem new_eq_ok {style : LoopStyle} {nodes : List Node} {l : ConditionLoop} :
    new style (.ok nodes) = .ok l ↔ ∃ condition : Node,
      nodes = [condition] ∧ condition.isExpression ∧ { style, condition } = l := by
  refine bind_eq_ok.trans (exists_congr fun condition => ?_)
  rw [singleExpression_eq_ok, and_assoc]
  exact and_congr_right fun _ => and_congr_right fun _ => ⟨Except.ok.inj, congrArg _⟩

theorem Made.check_eq_ok {l : ConditionLoop} (h : l.Made P) : l.check = .ok () := by
  rw [check_eq_ok_iff]
  induction h with
  | new hcondition hl =>
    obtain ⟨condition, rfl, hexpression, rfl⟩ := new_eq_ok.1 hl
    exact hexpression
  | addBody hl hbody ih => exact ih

theorem made_of_check {l : ConditionLoop} (hcondition : P l.condition) (hbody : ∀ n ∈ l.body, P n)
    (h : l.check = .ok ()) : l.Made P := by
  have hnew : new l.style (.ok [l.condition]) = .ok { style := l.style, condition := l.condition } :=
    new_eq_ok.2 ⟨l.condition, rfl, check_eq_ok_iff.1 h, rfl⟩
  exact .addBody (.new (Script.makes_of_forall (by simpa using hcondition)) hnew) (Script.makes_of_forall hbody)

end ConditionLoop

namespace ForIn

theorem check_eq_ok_iff {l : ForIn} : l.check = .ok () ↔ l.pattern.isPattern := requirePattern_eq_ok

theorem new_eq_ok {nodes : List Node} {sequence : Node} {l : ForIn} :
    new (.ok nodes) sequence = .ok l ↔ ∃ pattern : Node,
      nodes = [pattern] ∧ pattern.isPattern ∧ { pattern, sequence } = l := by
  refine bind_eq_ok.trans (exists_congr fun pattern => ?_)
  rw [singlePattern_eq_ok, and_assoc]
  exact and_congr_right fun _ => and_congr_right fun _ => ⟨Except.ok.inj, congrArg _⟩

theorem Made.check_eq_ok {l : ForIn} (h : l.Made P) : l.check = .ok () := by
  rw [check_eq_ok_iff]
  induction h with
  | new hpattern hsequence hl =>
    obtain ⟨pattern, rfl, hfits, rfl⟩ := new_eq_ok.1 hl
    exact hfits
  | binding hsequence hl =>
    obtain ⟨pattern, -, hfits, rfl⟩ := new_eq_ok.1 hl
    exact hfits
  | withFilter hl hfilter ih => exact ih
  | addBody hl hbody ih => exact ih

theorem made_of_check {l : ForIn} (hpattern : P l.pattern) (hsequence : P l.sequence) (hfilter : ∀ n ∈ l.filter, P n)
    (hbody : ∀ n ∈ l.body, P n) (h : l.check = .ok ()) : l.Made P := by
  obtain ⟨pattern, sequence, filter, body⟩ := l
  have hnew : new (.ok [pattern]) sequence = .ok { pattern, sequence } :=
    new_eq_ok.2 ⟨pattern, rfl, check_eq_ok_iff.1 h, rfl⟩
  have hstart : Made P { pattern, sequence } := .new (Script.makes_of_forall (by simpa using hpattern)) hsequence hnew
  cases filter with
  | none => exact hstart.addBody (Script.makes_of_forall hbody)
  | some filter => exact (hstart.withFilter (hfilter filter rfl)).addBody (Script.makes_of_forall hbody)

end ForIn

namespace SwitchCase

theorem check_eq_ok_iff {c : SwitchCase} :
    c.check = .ok () ↔ c.patterns ≠ [] ∧ ∀ n ∈ c.patterns, n.isPattern := by
  rw [check, ← @forM_requireClausePattern_eq_ok .switchCase]
  by_cases hpatterns : c.patterns = []
  · simp [hpatterns]
  · simp [hpatterns]

theorem new_eq_ok {pattern : Node} {c : SwitchCase} :
    new pattern = .ok c ↔ pattern.isPattern ∧ { patterns := [pattern] } = c := by
  rw [← @requireClausePattern_eq_ok .switchCase]
  exact bind_ofRule_eq_ok

theorem addPattern_eq_ok {pattern : Node} {b c : SwitchCase} :
    b.addPattern pattern = .ok c ↔ pattern.isPattern ∧ { b with patterns := b.patterns ++ [pattern] } = c := by
  rw [← @requireClausePattern_eq_ok .switchCase]
  exact bind_ofRule_eq_ok

theorem ofPatterns_eq_ok {patterns : List Node} {c : SwitchCase} :
    ofPatterns (.ok patterns) = .ok c ↔
      patterns ≠ [] ∧ (∀ n ∈ patterns, n.isPattern) ∧ { patterns } = c := by
  change (Built.ofRule (patterns.forM (requireClausePattern .switchCase)) >>= fun _ => _) = .ok c ↔ _
  rw [bind_eq_ok]
  constructor
  · rintro ⟨u, hrule, hc⟩
    cases patterns with
    | nil => cases hc
    | cons n patterns =>
      exact ⟨by simp, forM_requireClausePattern_eq_ok.1 (Built.ofRule_eq_ok.1 hrule), Except.ok.inj hc⟩
  · rintro ⟨hne, hfit, rfl⟩
    cases patterns with
    | nil => exact absurd rfl hne
    | cons n patterns => exact ⟨(), Built.ofRule_eq_ok.2 (forM_requireClausePattern_eq_ok.2 hfit), rfl⟩

theorem Made.check_eq_ok {c : SwitchCase} (h : c.Made P) : c.check = .ok () := by
  rw [check_eq_ok_iff]
  induction h with
  | new hpattern hc =>
    obtain ⟨hfits, rfl⟩ := new_eq_ok.1 hc
    exact ⟨by simp, by simpa using hfits⟩
  | ofPatterns hpatterns hc =>
    obtain ⟨hne, hfit, rfl⟩ := ofPatterns_eq_ok.1 hc
    exact ⟨hne, hfit⟩
  | addPattern hb hpattern hc ih =>
    obtain ⟨hfits, rfl⟩ := addPattern_eq_ok.1 hc
    exact ⟨by simp, List.forall_mem_append.2 ⟨ih.2, by simpa using hfits⟩⟩
  | withGuard hc hguard ih => exact ih
  | addBody hc hbody ih => exact ih

theorem made_of_check {c : SwitchCase} (hP : ∀ n ∈ c.children, P n) (h : c.check = .ok ()) : c.Made P := by
  obtain ⟨patterns, guard, body⟩ := c
  simp only [children, List.forall_mem_append] at hP
  obtain ⟨⟨hpatterns, hguard⟩, hbody⟩ := hP
  obtain ⟨hne, hfit⟩ := check_eq_ok_iff.1 h
  have hstart : Made P { patterns } :=
    .ofPatterns (Script.makes_of_forall hpatterns) (ofPatterns_eq_ok.2 ⟨hne, hfit, rfl⟩)
  cases guard with
  | none => exact hstart.addBody (Script.makes_of_forall hbody)
  | some guard => exact (hstart.withGuard (hguard guard (by simp))).addBody (Script.makes_of_forall hbody)

end SwitchCase

namespace Catch

theorem check_eq_ok_iff {c : Catch} : c.check = .ok () ↔ ∀ n ∈ c.pattern, n.isPattern := by
  unfold check
  cases c.pattern with
  | none => simp
  | some pattern => simp [requireClausePattern_eq_ok]

theorem matching_eq_ok {pattern : Node} {c : Catch} :
    matching pattern = .ok c ↔ pattern.isPattern ∧ { pattern := some pattern } = c := by
  rw [← @requireClausePattern_eq_ok .catchClause]
  exact bind_ofRule_eq_ok

theorem Made.check_eq_ok {c : Catch} (h : c.Made P) : c.check = .ok () := by
  rw [check_eq_ok_iff]
  induction h with
  | all => simp [Catch.all]
  | matching hpattern hc =>
    obtain ⟨hfits, rfl⟩ := matching_eq_ok.1 hc
    simpa using hfits
  | addBody hc hbody ih => exact ih

theorem made_of_check {c : Catch} (hP : ∀ n ∈ c.children, P n) (h : c.check = .ok ()) : c.Made P := by
  obtain ⟨pattern, body⟩ := c
  simp only [children, List.forall_mem_append] at hP
  have hbody : Script.Makes P body := Script.makes_of_forall hP.2
  cases pattern with
  | none => exact Made.all.addBody hbody
  | some pattern =>
    have hfits : pattern.isPattern := check_eq_ok_iff.1 h pattern rfl
    exact (Made.matching (hP.1 pattern (by simp)) (matching_eq_ok.2 ⟨hfits, rfl⟩)).addBody hbody

end Catch

/-! ### Enum cases -/

namespace EnumCase

/-- The raw values that a call sets. -/
def Edit.rawValues : Edit → List Literal
  | .setRawValue value => [value]
  | _ => []

/-- The associated values that a call adds. -/
def Edit.associatedValues : Edit → List AssociatedValue
  | .addAssociatedValue value => [value]
  | _ => []

/-- Raw values and associated values that one case may have: at most one raw value, a plain literal, and none beside
    associated values. -/
structure Allowed (raws : List Literal) (payload : List AssociatedValue) : Prop where
  once : raws.length ≤ 1
  plain : ∀ l ∈ raws, l.isRawValue
  apart : raws = [] ∨ payload = []

namespace Allowed

variable {raws raws' : List Literal} {payload payload' : List AssociatedValue}

theorem of_append (h : Allowed (raws ++ raws') (payload ++ payload')) : Allowed raws payload where
  once := Nat.le_trans (List.sublist_append_left _ _).length_le h.once
  plain l hl := h.plain l (List.mem_append_left _ hl)
  apart := h.apart.imp (fun hraws => (List.append_eq_nil_iff.1 hraws).1) fun hpayload =>
    (List.append_eq_nil_iff.1 hpayload).1

theorem perm (hraws : raws.Perm raws') (hpayload : payload.Perm payload') (h : Allowed raws payload) :
    Allowed raws' payload' where
  once := hraws.length_eq ▸ h.once
  plain l hl := h.plain l (hraws.mem_iff.2 hl)
  apart := h.apart.imp (fun h => (h ▸ hraws).nil_eq.symm) fun h => (h ▸ hpayload).nil_eq.symm

end Allowed

theorem check_eq_ok_iff {c : EnumCase} :
    c.check = .ok () ↔ c.decor.access = none ∧ Allowed c.rawValue.toList c.associatedValues := by
  unfold check
  cases c.decor.access with
  | some level => simp
  | none =>
    cases c.rawValue with
    | none => simpa using (⟨by simp, by simp, .inl rfl⟩ : Allowed [] c.associatedValues)
    | some raw =>
      by_cases hplain : raw.isRawValue
      · by_cases hpayload : c.associatedValues = []
        · simpa [hplain, hpayload] using (⟨by simp, by simpa using hplain, .inr rfl⟩ : Allowed [raw] [])
        · simpa [hplain, hpayload] using fun h : Allowed [raw] c.associatedValues =>
            hpayload (h.apart.resolve_left (by simp))
      · simpa [hplain] using fun h : Allowed [raw] c.associatedValues => hplain (h.plain raw (by simp))

theorem setRawValue_eq_ok {value : Literal} {c d : EnumCase} :
    c.setRawValue value = .ok d ↔ value.isRawValue ∧ c.rawValue = none ∧ c.associatedValues = [] ∧
      { c with rawValue := some value } = d := by
  unfold setRawValue
  by_cases hplain : value.isRawValue
  · cases hraw : c.rawValue with
    | some raw => simp [hplain]
    | none =>
      by_cases hpayload : c.associatedValues = []
      · simp [hplain, hpayload]
      · simp [hplain, hpayload]
  · simp [hplain]

theorem addAssociatedValue_eq_ok {value : AssociatedValue} {c d : EnumCase} :
    c.addAssociatedValue value = .ok d ↔
      c.rawValue = none ∧ { c with associatedValues := c.associatedValues ++ [value] } = d := by
  unfold addAssociatedValue
  cases hraw : c.rawValue with
  | some raw => simp
  | none => simp

/-- What a call does, once it ends without a fault. -/
theorem Edit.apply_eq_ok {edit : Edit} {c d : EnumCase} (h : edit.apply c = .ok d) :
    d.rawValue.toList = c.rawValue.toList ++ edit.rawValues ∧
      d.associatedValues = c.associatedValues ++ edit.associatedValues ∧ d.decor.access = c.decor.access := by
  cases edit with
  | setRawValue value =>
    obtain ⟨-, hraw, hpayload, rfl⟩ := setRawValue_eq_ok.1 h
    simp [rawValues, Edit.associatedValues, hraw]
  | addAssociatedValue value =>
    obtain ⟨hraw, rfl⟩ := addAssociatedValue_eq_ok.1 h
    simp [rawValues, Edit.associatedValues]
  | withComment line | withDoc line | withAttribute a =>
    cases h
    exact ⟨(List.append_nil _).symm, (List.append_nil _).symm, rfl⟩

/-- A call on a case that may be as it is ends without a fault exactly if the case may have what it adds. -/
theorem Edit.exists_apply_iff {edit : Edit} {c : EnumCase} (hc : Allowed c.rawValue.toList c.associatedValues) :
    (∃ d, edit.apply c = .ok d) ↔
      Allowed (c.rawValue.toList ++ edit.rawValues) (c.associatedValues ++ edit.associatedValues) := by
  cases edit with
  | setRawValue value =>
    simp only [apply, setRawValue_eq_ok, rawValues, Edit.associatedValues, List.append_nil]
    constructor
    · rintro ⟨d, hplain, hraw, hpayload, -⟩
      rw [hraw, hpayload]
      exact ⟨by simp, by simpa using hplain, .inr rfl⟩
    · intro h
      have hraw : c.rawValue = none := by simpa using h.once
      exact ⟨_, h.plain value (by simp), hraw, h.apart.resolve_left (by simp), rfl⟩
  | addAssociatedValue value =>
    simp only [apply, addAssociatedValue_eq_ok, rawValues, Edit.associatedValues, List.append_nil]
    constructor
    · rintro ⟨d, hraw, -⟩
      rw [hraw]
      exact ⟨by simp, by simp, .inl rfl⟩
    · intro h
      exact ⟨_, by simpa using h.apart.resolve_right (by simp), rfl⟩
  | withComment line | withDoc line | withAttribute a =>
    simpa [apply, rawValues, Edit.associatedValues] using hc

theorem chain_cons (edit : Edit) (edits : List Edit) (c : EnumCase) :
    chain (edit :: edits) c = edit.apply c >>= chain edits := List.foldlM_cons

theorem chain_append {edits edits' : List Edit} {b c d : EnumCase} (h : chain edits b = .ok c)
    (h' : chain edits' c = .ok d) : chain (edits ++ edits') b = .ok d :=
  List.foldlM_append.trans (bind_eq_ok.2 ⟨c, h, h'⟩)

/-- What calls do together, once they end without a fault. -/
theorem chain_eq_ok {edits : List Edit} {c d : EnumCase} (h : chain edits c = .ok d) :
    d.rawValue.toList = c.rawValue.toList ++ edits.flatMap Edit.rawValues ∧
      d.associatedValues = c.associatedValues ++ edits.flatMap Edit.associatedValues ∧
      d.decor.access = c.decor.access := by
  induction edits generalizing c with
  | nil =>
    cases h
    simp
  | cons edit edits ih =>
    rw [chain_cons] at h
    obtain ⟨b, hb, h⟩ := bind_eq_ok.1 h
    obtain ⟨hraw, hpayload, haccess⟩ := Edit.apply_eq_ok hb
    obtain ⟨hraw', hpayload', haccess'⟩ := ih h
    simp [hraw', hpayload', haccess', hraw, hpayload, haccess]

/-- Calls end without a fault exactly if the case may have all that they add. -/
theorem exists_chain_iff {edits : List Edit} {c : EnumCase} (hc : Allowed c.rawValue.toList c.associatedValues) :
    (∃ d, chain edits c = .ok d) ↔ Allowed (c.rawValue.toList ++ edits.flatMap Edit.rawValues)
      (c.associatedValues ++ edits.flatMap Edit.associatedValues) := by
  induction edits generalizing c with
  | nil => simpa [chain, pure, Except.pure] using hc
  | cons edit edits ih =>
    simp only [chain_cons, bind_eq_ok, List.flatMap_cons, ← List.append_assoc]
    constructor
    · rintro ⟨d, b, hb, hd⟩
      obtain ⟨hraw, hpayload, -⟩ := Edit.apply_eq_ok hb
      rw [← hraw, ← hpayload]
      exact (ih (hraw ▸ hpayload ▸ (Edit.exists_apply_iff hc).1 ⟨b, hb⟩)).1 ⟨d, hd⟩
    · intro h
      -- Nothing is ever taken back, so what is allowed in the end is allowed after the first call.
      obtain ⟨b, hb⟩ := (Edit.exists_apply_iff hc).2 h.of_append
      obtain ⟨hraw, hpayload, -⟩ := Edit.apply_eq_ok hb
      rw [← hraw, ← hpayload] at h
      obtain ⟨d, hd⟩ := (ih h.of_append).2 h
      exact ⟨d, b, hb, hd⟩

theorem allowed_nil : Allowed [] [] := ⟨by simp, by simp, .inl rfl⟩

theorem exists_chain_new_iff (name : String) (edits : List Edit) :
    (∃ d, chain edits { name } = .ok d) ↔
      Allowed (edits.flatMap Edit.rawValues) (edits.flatMap Edit.associatedValues) :=
  exists_chain_iff (c := { name }) allowed_nil

theorem Made.check_eq_ok {c : EnumCase} (h : c.Made P) : c.check = .ok () := by
  obtain ⟨name, edits, -, hc⟩ := h
  obtain ⟨hraw, hpayload, haccess⟩ := chain_eq_ok hc
  refine check_eq_ok_iff.2 ⟨haccess, ?_⟩
  rw [hraw, hpayload]
  exact (exists_chain_new_iff name edits).1 ⟨c, hc⟩

/-- Calls that each add one more item to a list of a case. -/
theorem chain_map {α : Type} (f : α → Edit) (withItems : List α → EnumCase)
    (h : ∀ xs x, (f x).apply (withItems xs) = .ok (withItems (xs ++ [x]))) (xs done : List α) :
    chain (xs.map f) (withItems done) = .ok (withItems (done ++ xs)) := by
  induction xs generalizing done with
  | nil => rw [List.append_nil]; rfl
  | cons x xs ih =>
    rw [List.map_cons, chain_cons, h, List.append_cons done x xs]
    exact ih (done ++ [x])

/-- The calls that give a case its comments, its documentation, its attributes and its associated values. -/
def fieldEdits (c : EnumCase) : List Edit :=
  c.decor.comments.map .withComment ++ c.decor.doc.map .withDoc ++ c.decor.attributes.map .withAttribute ++
    c.associatedValues.map .addAssociatedValue

theorem chain_fieldEdits {c : EnumCase} (haccess : c.decor.access = none) :
    chain c.fieldEdits { name := c.name } = .ok { c with rawValue := none } := by
  obtain ⟨⟨name, ⟨comments, doc, attributes, access⟩, payload⟩, raw⟩ := c
  cases haccess
  have hcomments := chain_map .withComment (fun comments => { name, decor := { comments } })
    (fun _ _ => rfl) comments []
  have hdoc := chain_map .withDoc (fun doc => { name, decor := { comments, doc } }) (fun _ _ => rfl) doc []
  have hattributes := chain_map .withAttribute (fun attributes => { name, decor := { comments, doc, attributes } })
    (fun _ _ => rfl) attributes []
  have hpayload := chain_map .addAssociatedValue
    (fun associatedValues => { name, decor := { comments, doc, attributes }, associatedValues })
    (fun _ _ => rfl) payload []
  exact chain_append (chain_append (chain_append hcomments hdoc) hattributes) hpayload

theorem children_fieldEdits {c : EnumCase} {edit : Edit} (h : edit ∈ c.fieldEdits) : edit.children = [] := by
  simp only [fieldEdits, List.mem_append, List.mem_map] at h
  rcases h with ((⟨_, _, rfl⟩ | ⟨_, _, rfl⟩) | ⟨_, _, rfl⟩) | ⟨_, _, rfl⟩ <;> rfl

theorem made_of_check {c : EnumCase} (hraw : ∀ l ∈ c.rawValue, ∀ n ∈ l.children, P n) (h : c.check = .ok ()) :
    c.Made P := by
  obtain ⟨haccess, hallowed⟩ := check_eq_ok_iff.1 h
  have hfields := chain_fieldEdits haccess
  have hnodes : ∀ edit ∈ c.fieldEdits, ∀ n ∈ edit.children, P n := by
    intro edit hedit n hn
    rw [children_fieldEdits hedit] at hn
    cases hn
  cases hvalue : c.rawValue with
  | none =>
    refine ⟨c.name, c.fieldEdits, hnodes, ?_⟩
    rw [hfields, ← hvalue]
  | some value =>
    rw [hvalue] at hallowed
    refine ⟨c.name, c.fieldEdits ++ [.setRawValue value], ?_, chain_append hfields ?_⟩
    · refine List.forall_mem_append.2 ⟨hnodes, List.forall_mem_singleton.2 ?_⟩
      exact hraw value hvalue
    · have hset : ({ c with rawValue := none } : EnumCase).setRawValue value = .ok c := by
        refine setRawValue_eq_ok.2 ⟨hallowed.plain value (by simp), rfl, hallowed.apart.resolve_left (by simp), ?_⟩
        rw [← hvalue]
      exact bind_eq_ok.2 ⟨c, hset, rfl⟩

/-- Which calls on a new case end with a fault. -/
theorem exists_fault_iff (name : String) (edits : List Edit) :
    (∃ fault, chain edits { name } = .error fault) ↔
      1 < (edits.flatMap Edit.rawValues).length ∨ (∃ l ∈ edits.flatMap Edit.rawValues, ¬l.isRawValue) ∨
        edits.flatMap Edit.rawValues ≠ [] ∧ edits.flatMap Edit.associatedValues ≠ [] := by
  have hfault : (∃ fault, chain edits { name } = .error fault) ↔ ¬∃ d, chain edits { name } = .ok d := by
    cases chain edits { name } with
    | ok d => simp
    | error fault => simp
  rw [hfault, exists_chain_new_iff]
  constructor
  · intro h
    by_contra hnone
    simp only [not_or, not_exists, not_and, not_not, Nat.not_lt] at hnone
    exact h ⟨hnone.1, fun l hl => hnone.2.1 l hl, or_iff_not_imp_left.2 hnone.2.2⟩
  · rintro (honce | ⟨l, hl, hplain⟩ | ⟨hraws, hpayload⟩) h
    · exact absurd h.once (Nat.not_le.2 honce)
    · exact hplain (h.plain l hl)
    · exact h.apart.elim hraws hpayload

theorem exists_chain_perm {edits edits' : List Edit} (h : edits.Perm edits') {name : String}
    (hd : ∃ d, chain edits { name } = .ok d) : ∃ d, chain edits' { name } = .ok d := by
  rw [exists_chain_new_iff] at hd ⊢
  exact hd.perm (h.flatMap_right _) (h.flatMap_right _)

end EnumCase

theorem Literal.not_isRawValue_iff {l : Literal} :
    ¬l.isRawValue ↔ (∃ ns, l = .tuple ns) ∨ (∃ ns, l = .array ns) ∨ ∃ es, l = .dictionary es := by
  cases l <;> simp [isRawValue]

/-- A part that may break a rule obeys it exactly if some calls end with that part, whatever nodes it holds. Calls on
    a new enum case end with a fault exactly if they set a raw value twice, set one that is a tuple, an array or a
    dictionary, or set one and add an associated value; so their order does not matter. -/
theorem check_eq_ok_iff_made :
    (∀ c : EnumCase, c.check = .ok () ↔ c.Made fun _ => True) ∧
      (∀ c : SwitchCase, c.check = .ok () ↔ c.Made fun _ => True) ∧
      (∀ c : Catch, c.check = .ok () ↔ c.Made fun _ => True) ∧
      (∀ l : ConditionLoop, l.check = .ok () ↔ l.Made fun _ => True) ∧
      (∀ l : ForIn, l.check = .ok () ↔ l.Made fun _ => True) ∧
      (∀ a : TupleAssignment, a.check = .ok () ↔ a.Made fun _ => True) ∧
      ∀ (name : String) (edits : List EnumCase.Edit),
        ((∃ fault, EnumCase.chain edits { name } = .error fault) ↔
          1 < (edits.flatMap EnumCase.Edit.rawValues).length ∨
          (∃ l ∈ edits.flatMap EnumCase.Edit.rawValues,
            (∃ ns, l = .tuple ns) ∨ (∃ ns, l = .array ns) ∨ ∃ es, l = .dictionary es) ∨
          edits.flatMap EnumCase.Edit.rawValues ≠ [] ∧ edits.flatMap EnumCase.Edit.associatedValues ≠ []) ∧
        ∀ edits' : List EnumCase.Edit, edits.Perm edits' →
          ((∃ d, EnumCase.chain edits { name } = .ok d) ↔ ∃ d, EnumCase.chain edits' { name } = .ok d) := by
  refine ⟨fun c => ⟨EnumCase.made_of_check (by simp), (·.check_eq_ok)⟩,
    fun c => ⟨SwitchCase.made_of_check (by simp), (·.check_eq_ok)⟩,
    fun c => ⟨Catch.made_of_check (by simp), (·.check_eq_ok)⟩,
    fun l => ⟨ConditionLoop.made_of_check trivial (by simp), (·.check_eq_ok)⟩,
    fun l => ⟨ForIn.made_of_check trivial trivial (by simp) (by simp), (·.check_eq_ok)⟩,
    fun a => ⟨TupleAssignment.made_of_check trivial, (·.check_eq_ok)⟩, fun name edits => ⟨?_, fun edits' h => ?_⟩⟩
  · simp only [EnumCase.exists_fault_iff, Literal.not_isRawValue_iff]
  · exact ⟨EnumCase.exists_chain_perm h, EnumCase.exists_chain_perm h.symm⟩

/-- A raw value and an associated value do not go together, whichever comes first. -/
theorem made_clash :
    (∃ fault, EnumCase.chain [.setRawValue (.integer 1), .addAssociatedValue { name := "x", ty := .named "Int" }]
      { name := "c" } = .error fault) ∧
    ¬∃ d, EnumCase.chain [.addAssociatedValue { name := "x", ty := .named "Int" }, .setRawValue (.integer 1)]
      { name := "c" } = .ok d := by
  obtain ⟨hfault, hperm⟩ := check_eq_ok_iff_made.2.2.2.2.2.2 "c"
    [.setRawValue (.integer 1), .addAssociatedValue { name := "x", ty := .named "Int" }]
  obtain ⟨fault, h⟩ := hfault.2 (by simp [EnumCase.Edit.rawValues, EnumCase.Edit.associatedValues])
  refine ⟨⟨fault, h⟩, fun hd => ?_⟩
  obtain ⟨d, hd⟩ := (hperm _ (.swap ..)).2 hd
  rw [h] at hd
  cases hd

end SwiftForge
