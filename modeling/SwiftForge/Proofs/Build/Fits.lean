import SwiftForge.Command.Run
import SwiftForge.Proofs.Build.Rules
import SwiftForge.Proofs.Document.Sound
import SwiftForge.Proofs.Render.Slots

/-! Trees that are at hand, because they were loaded or put together by calls, have fitting nodes in all checked
    places. So none of these places is ever left out when such a tree is rendered. -/

namespace SwiftForge

variable {P : Node → Prop}

/-! ### Scripts -/

namespace Script

theorem eq_of_allBuilt {outcomes : List (Built Node)} {nodes : List Node} (h : allBuilt outcomes = .ok nodes) :
    outcomes = nodes.map .ok := by
  induction outcomes generalizing nodes with
  | nil =>
    cases h
    rfl
  | cons outcome outcomes ih =>
    rw [allBuilt] at h
    obtain ⟨n, hn, h⟩ := bind_eq_ok.1 h
    obtain ⟨rest, hrest, h⟩ := bind_eq_ok.1 h
    cases h
    rw [hn, ih hrest, List.map_cons]

/-- What an operation appends to a list keeps to what holds of the list. -/
theorem forall_mem_append_of_map {x : Built (List Node)} {list nodes : List Node}
    (h : x.map (fun new => list ++ new) = .ok nodes) (hlist : ∀ n ∈ list, P n)
    (hnew : ∀ new, x = .ok new → ∀ n ∈ new, P n) : ∀ n ∈ nodes, P n := by
  obtain ⟨new, hx, rfl⟩ := map_eq_ok.1 h
  exact List.forall_mem_append.2 ⟨hlist, hnew new hx⟩

/-- What an operation pushes keeps to what holds of the list. -/
theorem forall_mem_of_push {x : Built Node} {list nodes : List Node} (h : x.map (fun n => list ++ [n]) = .ok nodes)
    (hlist : ∀ n ∈ list, P n) (hx : ∀ n, x = .ok n → P n) : ∀ n ∈ nodes, P n := by
  obtain ⟨n, hn, rfl⟩ := map_eq_ok.1 h
  exact List.forall_mem_append.2 ⟨hlist, List.forall_mem_singleton.2 (hx n hn)⟩

mutual

/-- One operation. -/
theorem forall_mem_of_applyStep (hempty : P .empty) : (step : Step) → {list nodes : List Node} →
    applyStep list step = .ok nodes → (∀ n, .ok n ∈ stepOutcomes step → P n) → (∀ n ∈ list, P n) → ∀ n ∈ nodes, P n
  | .push node, _, _, h, hnodes, hlist => by
    rw [applyStep] at h
    exact forall_mem_of_push h hlist fun n hn => hnodes n (by simp [stepOutcomes, hn])
  | .pushOptional none, _, _, h, _, hlist => by
    rw [applyStep] at h
    cases h
    exact List.forall_mem_append.2 ⟨hlist, List.forall_mem_singleton.2 hempty⟩
  | .pushOptional (some node), _, _, h, hnodes, hlist => by
    rw [applyStep] at h
    exact forall_mem_of_push h hlist fun n hn => hnodes n (by simp [stepOutcomes, hn])
  | .extend nodes, _, _, h, hnodes, hlist => by
    rw [applyStep] at h
    refine forall_mem_append_of_map h hlist fun new hnew n hn => hnodes n ?_
    rw [stepOutcomes, eq_of_allBuilt hnew]
    exact List.mem_map_of_mem hn
  | .append script, _, _, h, hnodes, hlist => by
    rw [applyStep] at h
    exact forall_mem_append_of_map h hlist fun new hnew =>
      forall_mem_of_runFrom hempty script hnew hnodes (by simp)
  | .onlyIf true script, _, _, h, hnodes, hlist => by
    rw [applyStep] at h
    exact forall_mem_append_of_map h hlist fun new hnew =>
      forall_mem_of_runFrom hempty script hnew hnodes (by simp)
  | .onlyIf false _, _, _, h, _, hlist => by
    rw [applyStep] at h
    cases h
    exact hlist
  | .either true yes no, _, _, h, hnodes, hlist => by
    rw [applyStep] at h
    exact forall_mem_append_of_map h hlist fun new hnew =>
      forall_mem_of_runFrom hempty yes hnew (fun n hn => hnodes n (List.mem_append_left _ hn)) (by simp)
  | .either false yes no, _, _, h, hnodes, hlist => by
    rw [applyStep] at h
    exact forall_mem_append_of_map h hlist fun new hnew =>
      forall_mem_of_runFrom hempty no hnew (fun n hn => hnodes n (List.mem_append_right _ hn)) (by simp)
  | .each scripts, _, _, h, hnodes, hlist => by
    rw [applyStep] at h
    exact forall_mem_of_runEach hempty scripts h hnodes hlist

/-- Several operations. -/
theorem forall_mem_of_runFrom (hempty : P .empty) : (script : List Step) → {list nodes : List Node} →
    runFrom list script = .ok nodes → (∀ n, .ok n ∈ outcomes script → P n) → (∀ n ∈ list, P n) → ∀ n ∈ nodes, P n
  | [], _, _, h, _, hlist => by
    rw [runFrom] at h
    cases h
    exact hlist
  | step :: rest, _, _, h, hnodes, hlist => by
    rw [runFrom] at h
    obtain ⟨list', hstep, hrest⟩ := bind_eq_ok.1 h
    have hlist' := forall_mem_of_applyStep hempty step hstep (fun n hn => hnodes n (List.mem_append_left _ hn)) hlist
    exact forall_mem_of_runFrom hempty rest hrest (fun n hn => hnodes n (List.mem_append_right _ hn)) hlist'

/-- Several scripts. -/
theorem forall_mem_of_runEach (hempty : P .empty) : (scripts : List (List Step)) → {list nodes : List Node} →
    runEach list scripts = .ok nodes → (∀ n, .ok n ∈ outcomesOfEach scripts → P n) → (∀ n ∈ list, P n) →
    ∀ n ∈ nodes, P n
  | [], _, _, h, _, hlist => by
    rw [runEach] at h
    cases h
    exact hlist
  | script :: rest, _, _, h, hnodes, hlist => by
    rw [runEach] at h
    obtain ⟨new, hnew, hrest⟩ := bind_eq_ok.1 h
    have hnew' := forall_mem_of_runFrom hempty script hnew (fun n hn => hnodes n (List.mem_append_left _ hn)) (by simp)
    exact forall_mem_of_runEach hempty rest hrest (fun n hn => hnodes n (List.mem_append_right _ hn))
      (List.forall_mem_append.2 ⟨hlist, hnew'⟩)

end

/-- Every node that a script puts together was given to it, or is a placeholder. -/
theorem Makes.forall_mem {nodes : List Node} (h : Makes P nodes) : ∀ n ∈ nodes, P n ∨ n = .empty := by
  obtain ⟨script, hnodes, hrun⟩ := h
  exact forall_mem_of_runFrom (P := fun n => P n ∨ n = .empty) (.inr rfl) script hrun
    (fun n hn => .inl (hnodes n hn)) (by simp)

end Script

section

variable (hP : ∀ n, P n → AllFit n.parts)

include hP

theorem Script.Makes.allFit {nodes : List Node} (h : Makes P nodes) : ∀ n ∈ nodes, AllFit n.parts := by
  intro n hn
  rcases h.forall_mem n hn with hn | rfl
  · exact hP n hn
  · exact allFit_nil

/-! ### Declarations -/

omit hP in
/-- Decorations touch nothing but what stands around a declaration. -/
theorem Decorates.exists_modifyDecor {α : Type} [Accessible α] {f : α → α} (hf : Decorates f) :
    ∃ g, f = Annotated.modifyDecor g := by
  cases hf with
  | annotate hf => cases hf <;> exact ⟨_, rfl⟩
  | withAccess level => exact ⟨_, rfl⟩

theorem TypeDecl.Made.allFit {d : TypeDecl} (h : d.Made P) : ∀ n ∈ d.members, AllFit n.parts := by
  induction h with
  | newStruct name | newClass name | newEnum name => exact List.forall_mem_nil _
  | @makeFinal d hd ih =>
    have hmembers : d.makeFinal.members = d.members := by
      unfold TypeDecl.makeFinal
      split <;> rfl
    rwa [hmembers]
  | @makeIndirect d hd ih =>
    have hmembers : d.makeIndirect.members = d.members := by
      unfold TypeDecl.makeIndirect
      split <;> rfl
    rwa [hmembers]
  | addMembers hd hmembers ih => exact List.forall_mem_append.2 ⟨ih, hmembers.allFit hP⟩
  | decorate hd hf ih =>
    obtain ⟨g, rfl⟩ := hf.exists_modifyDecor
    exact ih
  | inherit types hd ih => exact ih
  | generic param hd ih => exact ih

theorem ProtocolDecl.Made.allFit {d : ProtocolDecl} (h : d.Made P) : ∀ n ∈ d.members, AllFit n.parts := by
  induction h with
  | new name => exact List.forall_mem_nil _
  | addMembers hd hmembers ih => exact List.forall_mem_append.2 ⟨ih, hmembers.allFit hP⟩
  | decorate hd hf ih =>
    obtain ⟨g, rfl⟩ := hf.exists_modifyDecor
    exact ih
  | inherit types hd ih => exact ih

theorem ExtensionDecl.Made.allFit {d : ExtensionDecl} (h : d.Made P) : ∀ n ∈ d.members, AllFit n.parts := by
  induction h with
  | new extended => exact List.forall_mem_nil _
  | addRequirement requirement hd ih => exact ih
  | addMembers hd hmembers ih => exact List.forall_mem_append.2 ⟨ih, hmembers.allFit hP⟩
  | decorate hd hf ih =>
    obtain ⟨g, rfl⟩ := hf.exists_modifyDecor
    exact ih
  | inherit types hd ih => exact ih

theorem Param.Made.allFit {p : Param} (h : p.Made P) : AllFit p.parts := by
  induction h with
  | new name ty => exact allFit_nil
  | withDefault hp hvalue ih => exact hP _ hvalue
  | @withLabel p label hp ih =>
    obtain ⟨head, default⟩ := p
    exact ih
  | @makeInout p hp ih | @makeVariadic p hp ih =>
    obtain ⟨head, default⟩ := p
    exact ih

theorem FunctionDecl.Made.allFit {d : FunctionDecl} (h : d.Made P) :
    (∀ p ∈ d.params, AllFit p.parts) ∧ ∀ n ∈ d.body, AllFit n.parts := by
  induction h with
  | new name => exact ⟨List.forall_mem_nil _, List.forall_mem_nil _⟩
  | addParams hd hparams ih =>
    exact ⟨List.forall_mem_append.2 ⟨ih.1, fun p hp => (hparams p hp).allFit hP⟩, ih.2⟩
  | addBody hd hbody ih => exact ⟨ih.1, List.forall_mem_append.2 ⟨ih.2, hbody.allFit hP⟩⟩
  | decorate hd hf ih =>
    obtain ⟨g, rfl⟩ := hf.exists_modifyDecor
    exact ih
  | returning ty hd ih => exact ih
  | makeStatic hd ih | makeOverride hd ih | makeMutating hd ih => exact ih
  | generic param hd ih => exact ih
  | effect step hd ih => exact ih

theorem InitDecl.Made.allFit {d : InitDecl} (h : d.Made P) :
    (∀ p ∈ d.params, AllFit p.parts) ∧ ∀ n ∈ d.body, AllFit n.parts := by
  induction h with
  | new => exact ⟨List.forall_mem_nil _, List.forall_mem_nil _⟩
  | addParam hd hparam ih =>
    exact ⟨List.forall_mem_append.2 ⟨ih.1, List.forall_mem_singleton.2 (hparam.allFit hP)⟩, ih.2⟩
  | addBody hd hbody ih => exact ⟨ih.1, List.forall_mem_append.2 ⟨ih.2, hbody.allFit hP⟩⟩
  | decorate hd hf ih =>
    obtain ⟨g, rfl⟩ := hf.exists_modifyDecor
    exact ih
  | makeFailable hd ih | makeConvenience hd ih => exact ih
  | effect step hd ih => exact ih

theorem Property.Made.allFit {p : Property} (h : p.Made P) :
    (∀ n ∈ p.value, AllFit n.parts) ∧ ∀ body ∈ p.getter, ∀ n ∈ body, AllFit n.parts := by
  induction h with
  | newLet name | newVar name => exact ⟨fun _ h => (by cases h), fun _ h => (by cases h)⟩
  | withType ty hp ih => exact ih
  | withValue hp hvalue ih =>
    refine ⟨?_, ih.2⟩
    rintro n ⟨⟩
    exact hP _ hvalue
  | makeStatic hp ih | makeLazy hp ih | makeWeak hp ih => exact ih
  | withGetter hp hbody hq ih =>
    obtain ⟨-, -, hq⟩ := bind_eq_ok.1 hq
    cases hq
    refine ⟨ih.1, ?_⟩
    rintro body ⟨⟩
    exact hbody.allFit hP
  | decorate hp hf ih =>
    obtain ⟨g, rfl⟩ := hf.exists_modifyDecor
    exact ih

/-! ### Expressions -/

theorem Closure.Made.allFit {k : Closure} (h : k.Made P) : ∀ n ∈ k.body, AllFit n.parts := by
  induction h with
  | new => exact List.forall_mem_nil _
  | addBody hk hbody ih => exact List.forall_mem_append.2 ⟨ih, hbody.allFit hP⟩
  | addCaptures captures hk ih => exact ih
  | addParam param hk ih => exact ih
  | returning ty hk ih => exact ih
  | addAttribute a hk ih => exact ih
  | effect step hk ih => exact ih

theorem Call.Made.allFit {c : Call} (h : c.Made P) :
    AllFit c.callee.parts ∧ (∀ a ∈ c.args, AllFit a.parts) ∧ ∀ k ∈ c.trailing, AllFit k.parts := by
  induction h with
  | new hcallee => exact ⟨hP _ hcallee, List.forall_mem_nil _, fun _ h => (by cases h)⟩
  | named name => exact ⟨(allFit_singleton _).2 trivial, List.forall_mem_nil _, fun _ h => (by cases h)⟩
  | addArgument label hc hvalue ih =>
    exact ⟨ih.1, List.forall_mem_append.2 ⟨ih.2.1, List.forall_mem_singleton.2 (hP _ hvalue)⟩, ih.2.2⟩
  | @withTrailing c k hc hk ih =>
    refine ⟨ih.1, ih.2.1, ?_⟩
    rintro k ⟨⟩
    obtain ⟨head, body⟩ := k
    rw [Closure.parts, partsOfNodes_eq, allFit_flatMap]
    exact hk.allFit hP
  | makeTry hc ih | makeAwait hc ih => exact ih

theorem Binary.Made.allFit {b : Binary} (h : b.Made P) : AllFit b.lhs.parts ∧ AllFit b.rhs.parts := by
  induction h with
  | new op hlhs hrhs => exact ⟨hP _ hlhs, hP _ hrhs⟩
  | parenthesize hb ih => exact ih

/-! ### Statements -/

theorem TupleAssignment.Made.allFit {a : TupleAssignment} (h : a.Made P) : AllFit a.value.parts := by
  induction h with
  | new hvalue ha =>
    obtain ⟨-, rfl⟩ := TupleAssignment.new_eq_ok.1 ha
    exact hP _ hvalue
  | withMode mode ha ih => exact ih

theorem Condition.Made.allFit {k : Condition} (h : k.Made P) : AllFit k.parts := by
  induction h with
  | expr hvalue => exact (allFit_append _ _).2 ⟨hP _ hvalue, (allFit_singleton _).2 trivial⟩
  | letBound name hvalue => exact (allFit_append _ _).2 ⟨hP _ hvalue, (allFit_singleton _).2 trivial⟩
  | unwrap name => exact (allFit_singleton _).2 trivial
  | matching hpattern hvalue hk =>
    obtain ⟨hfits, rfl⟩ := Condition.matching_eq_ok.1 hk
    simp only [Condition.parts, allFit_append, allFit_singleton]
    exact ⟨⟨hP _ hpattern, hP _ hvalue⟩, hfits⟩

omit hP in
theorem Branch.allFit_iff {b : Branch} :
    AllFit b.parts ↔ (∀ k ∈ b.conditions, AllFit k.parts) ∧ ∀ n ∈ b.body, AllFit n.parts := by
  obtain ⟨conditions, body⟩ := b
  simp only [Branch.parts, partsOfConditions_eq, partsOfNodes_eq, allFit_append, allFit_flatMap]

theorem If.Made.allFit {i : If} (h : i.Made P) :
    AllFit i.first.parts ∧ (∀ b ∈ i.elseIfs, AllFit b.parts) ∧ ∀ body ∈ i.otherwise, ∀ n ∈ body, AllFit n.parts := by
  induction h with
  | new hk =>
    refine ⟨Branch.allFit_iff.2 ⟨List.forall_mem_singleton.2 (hk.allFit hP), List.forall_mem_nil _⟩,
      List.forall_mem_nil _, fun _ h => (by cases h)⟩
  | addCondition hi hk ih =>
    obtain ⟨hconditions, hbody⟩ := Branch.allFit_iff.1 ih.1
    refine ⟨Branch.allFit_iff.2 ⟨?_, hbody⟩, ih.2⟩
    exact List.forall_mem_append.2 ⟨hconditions, List.forall_mem_singleton.2 (hk.allFit hP)⟩
  | addBody hi hbody ih =>
    obtain ⟨hconditions, hdone⟩ := Branch.allFit_iff.1 ih.1
    exact ⟨Branch.allFit_iff.2 ⟨hconditions, List.forall_mem_append.2 ⟨hdone, hbody.allFit hP⟩⟩, ih.2⟩
  | withElse hi hbody ih =>
    refine ⟨ih.1, List.forall_mem_nil _, fun body h => ?_⟩
    simp only [If.withElse] at h
    split at h
    · cases h
    · cases h
      exact hbody.allFit hP
  | withElseIf hi hnext ih ihnext =>
    exact ⟨ih.1, List.forall_mem_cons.2 ⟨ihnext.1, ihnext.2.1⟩, ihnext.2.2⟩

theorem Guard.Made.allFit {g : Guard} (h : g.Made P) :
    (∀ k ∈ g.conditions, AllFit k.parts) ∧ ∀ n ∈ g.otherwise, AllFit n.parts := by
  induction h with
  | new hk => exact ⟨List.forall_mem_singleton.2 (hk.allFit hP), List.forall_mem_nil _⟩
  | addCondition hg hk ih =>
    exact ⟨List.forall_mem_append.2 ⟨ih.1, List.forall_mem_singleton.2 (hk.allFit hP)⟩, ih.2⟩
  | addElse hg hbody ih => exact ⟨ih.1, List.forall_mem_append.2 ⟨ih.2, hbody.allFit hP⟩⟩

theorem ConditionLoop.Made.allFit {l : ConditionLoop} (h : l.Made P) :
    AllFit l.condition.parts ∧ ∀ n ∈ l.body, AllFit n.parts := by
  induction h with
  | new hcondition hl =>
    obtain ⟨condition, rfl, -, rfl⟩ := ConditionLoop.new_eq_ok.1 hl
    exact ⟨hcondition.allFit hP condition (by simp), List.forall_mem_nil _⟩
  | addBody hl hbody ih => exact ⟨ih.1, List.forall_mem_append.2 ⟨ih.2, hbody.allFit hP⟩⟩

theorem ForIn.Made.allFit {l : ForIn} (h : l.Made P) :
    AllFit l.pattern.parts ∧ AllFit l.sequence.parts ∧ (∀ n ∈ l.filter, AllFit n.parts) ∧
      ∀ n ∈ l.body, AllFit n.parts := by
  induction h with
  | new hpattern hsequence hl =>
    obtain ⟨pattern, rfl, -, rfl⟩ := ForIn.new_eq_ok.1 hl
    exact ⟨hpattern.allFit hP pattern (by simp), hP _ hsequence, fun _ h => (by cases h), List.forall_mem_nil _⟩
  | binding hsequence hl =>
    obtain ⟨pattern, hpattern, -, rfl⟩ := ForIn.new_eq_ok.1 hl
    cases hpattern
    exact ⟨allFit_nil, hP _ hsequence, fun _ h => (by cases h), List.forall_mem_nil _⟩
  | withFilter hl hfilter ih =>
    refine ⟨ih.1, ih.2.1, ?_, ih.2.2.2⟩
    rintro n ⟨⟩
    exact hP _ hfilter
  | addBody hl hbody ih =>
    exact ⟨ih.1, ih.2.1, ih.2.2.1, List.forall_mem_append.2 ⟨ih.2.2.2, hbody.allFit hP⟩⟩

omit hP in
theorem SwitchCase.allFit_iff {c : SwitchCase} :
    AllFit c.parts ↔ ((∀ n ∈ c.patterns, AllFit n.parts) ∧ (∀ n ∈ c.guard, AllFit n.parts) ∧
      ∀ n ∈ c.body, AllFit n.parts) ∧ (Part.switchCase c).Fits := by
  obtain ⟨patterns, guard, body⟩ := c
  simp only [SwitchCase.parts, partsOfNodes_eq, partsOfNode?_eq, allFit_append, allFit_flatMap, allFit_singleton,
    Option.mem_toList, Option.mem_def, and_assoc]

theorem SwitchCase.Made.allFit {c : SwitchCase} (h : c.Made P) : AllFit c.parts := by
  have hfits : (Part.switchCase c).Fits := Part.fits_of_check h.check_eq_ok
  refine SwitchCase.allFit_iff.2 ⟨?_, hfits⟩
  -- The rule covers the clause itself; its calls are followed for the nodes inside.
  clear hfits
  induction h with
  | new hpattern hc =>
    obtain ⟨-, rfl⟩ := SwitchCase.new_eq_ok.1 hc
    exact ⟨List.forall_mem_singleton.2 (hP _ hpattern), fun _ h => (by cases h), List.forall_mem_nil _⟩
  | ofPatterns hpatterns hc =>
    obtain ⟨-, -, rfl⟩ := SwitchCase.ofPatterns_eq_ok.1 hc
    exact ⟨hpatterns.allFit hP, fun _ h => (by cases h), List.forall_mem_nil _⟩
  | addPattern hb hpattern hc ih =>
    obtain ⟨-, rfl⟩ := SwitchCase.addPattern_eq_ok.1 hc
    exact ⟨List.forall_mem_append.2 ⟨ih.1, List.forall_mem_singleton.2 (hP _ hpattern)⟩, ih.2⟩
  | withGuard hc hguard ih =>
    refine ⟨ih.1, ?_, ih.2.2⟩
    rintro n ⟨⟩
    exact hP _ hguard
  | addBody hc hbody ih => exact ⟨ih.1, ih.2.1, List.forall_mem_append.2 ⟨ih.2.2, hbody.allFit hP⟩⟩

theorem Switch.Made.allFit {s : Switch} (h : s.Made P) :
    AllFit s.subject.parts ∧ (∀ c ∈ s.cases, AllFit c.parts) ∧ ∀ body ∈ s.default, ∀ n ∈ body, AllFit n.parts := by
  induction h with
  | new hsubject => exact ⟨hP _ hsubject, List.forall_mem_nil _, fun _ h => (by cases h)⟩
  | addCase hs hc ih =>
    exact ⟨ih.1, List.forall_mem_append.2 ⟨ih.2.1, List.forall_mem_singleton.2 (hc.allFit hP)⟩, ih.2.2⟩
  | @addDefault s body hs hbody ih =>
    refine ⟨ih.1, ih.2.1, ?_⟩
    rintro _ ⟨⟩
    refine List.forall_mem_append.2 ⟨?_, hbody.allFit hP⟩
    cases hdefault : s.default with
    | none => exact List.forall_mem_nil _
    | some done => exact ih.2.2 done hdefault

omit hP in
theorem Catch.allFit_iff {c : Catch} :
    AllFit c.parts ↔ ((∀ n ∈ c.pattern, AllFit n.parts) ∧ ∀ n ∈ c.body, AllFit n.parts) ∧
      (Part.catchClause c).Fits := by
  obtain ⟨pattern, body⟩ := c
  simp only [Catch.parts, partsOfNodes_eq, partsOfNode?_eq, allFit_append, allFit_flatMap, allFit_singleton,
    Option.mem_toList, Option.mem_def, and_assoc]

theorem Catch.Made.allFit {c : Catch} (h : c.Made P) : AllFit c.parts := by
  have hfits : (Part.catchClause c).Fits := Part.fits_of_check h.check_eq_ok
  refine Catch.allFit_iff.2 ⟨?_, hfits⟩
  clear hfits
  induction h with
  | all => exact ⟨fun _ h => (by cases h), List.forall_mem_nil _⟩
  | matching hpattern hc =>
    obtain ⟨-, rfl⟩ := Catch.matching_eq_ok.1 hc
    refine ⟨?_, List.forall_mem_nil _⟩
    rintro n ⟨⟩
    exact hP _ hpattern
  | addBody hc hbody ih => exact ⟨ih.1, List.forall_mem_append.2 ⟨ih.2, hbody.allFit hP⟩⟩

theorem DoCatch.Made.allFit {d : DoCatch} (h : d.Made P) :
    (∀ n ∈ d.body, AllFit n.parts) ∧ ∀ c ∈ d.catches, AllFit c.parts := by
  induction h with
  | new => exact ⟨List.forall_mem_nil _, List.forall_mem_nil _⟩
  | addBody hd hbody ih => exact ⟨List.forall_mem_append.2 ⟨ih.1, hbody.allFit hP⟩, ih.2⟩
  | addCatch hd hc ih =>
    exact ⟨ih.1, List.forall_mem_append.2 ⟨ih.2, List.forall_mem_singleton.2 (hc.allFit hP)⟩⟩

end

/-! ### Nodes and files -/

mutual

theorem Pattern.allFit_of_children : (p : Pattern) → (∀ n ∈ p.children, AllFit n.parts) → AllFit p.parts
  | .tuple elements, h => allFit_patterns_of_children elements h
  | .expression value, h => h value (by simp [Pattern.children])
  | .identifier _, _ => allFit_nil
  | .enumCase .., _ => allFit_nil
  | .wildcard, _ => allFit_nil

theorem allFit_patterns_of_children :
    (ps : List Pattern) → (∀ n ∈ childrenOfPatterns ps, AllFit n.parts) → AllFit (partsOfPatterns ps)
  | [], _ => allFit_nil
  | p :: ps, h => by
    rw [childrenOfPatterns, List.forall_mem_append] at h
    exact (allFit_append _ _).2 ⟨p.allFit_of_children h.1, allFit_patterns_of_children ps h.2⟩

end

theorem Literal.allFit_of_children {l : Literal} (h : ∀ n ∈ l.children, AllFit n.parts) : AllFit l.parts := by
  cases l with
  | tuple elements | array elements =>
    rw [Literal.parts, partsOfNodes_eq, allFit_append, allFit_flatMap, allFit_singleton]
    exact ⟨h, trivial⟩
  | dictionary entries =>
    rw [Literal.parts, partsOfEntries_eq, allFit_append, allFit_flatMap, allFit_singleton]
    refine ⟨fun entry hentry => ?_, trivial⟩
    have hchildren := fun n hn => h n (List.mem_flatMap.2 ⟨entry, hentry, hn⟩)
    obtain ⟨key, value⟩ := entry
    exact (allFit_append _ _).2 ⟨hchildren key (by simp [Entry.children]), hchildren value (by simp [Entry.children])⟩
  | _ => exact (allFit_singleton _).2 trivial

theorem EnumCase.Made.allFit (hP : ∀ n, P n → AllFit n.parts) {c : EnumCase} (h : c.Made P) :
    ∀ l ∈ c.rawValue, AllFit l.parts := by
  obtain ⟨name, edits, hnodes, hc⟩ := h
  intro l hl
  obtain ⟨hraw, -, -⟩ := EnumCase.chain_eq_ok hc
  have hmem : l ∈ c.rawValue.toList := Option.mem_toList.2 hl
  rw [hraw] at hmem
  obtain ⟨edit, hedit, hl⟩ := List.mem_flatMap.1 hmem
  cases edit with
  | setRawValue value =>
    cases List.mem_singleton.1 hl
    exact Literal.allFit_of_children fun n hn => hP n (hnodes _ hedit n hn)
  | _ => cases hl

/-- Calls that end without a fault put only fitting nodes into checked places. -/
theorem Node.Made.allFit {n : Node} (h : n.Made) : AllFit n.parts := by
  -- The nodes that the calls are given fit by induction, and the calls on each kind of part keep that.
  induction h with
  | loaded h hn =>
    have hfit := (Document.obeys_of_load h).allFit
    rw [Document.parts, partsOfNodes_eq, allFit_flatMap] at hfit
    exact hfit _ hn
  | typeDecl hP hd ih =>
    rw [TypeDecl.node, Node.parts, partsOfNodes_eq, allFit_flatMap]
    exact hd.allFit ih
  | enumCase hP hc ih =>
    rw [EnumCase.node, Node.parts, partsOfLiteral?_eq, allFit_append, allFit_flatMap, allFit_singleton]
    exact ⟨fun l hl => hc.allFit ih l (Option.mem_toList.1 hl), trivial⟩
  | protocolDecl hP hd ih =>
    rw [ProtocolDecl.node, Node.parts, partsOfNodes_eq, allFit_flatMap]
    exact hd.allFit ih
  | extensionDecl hP hd ih =>
    rw [ExtensionDecl.node, Node.parts, partsOfNodes_eq, allFit_flatMap]
    exact hd.allFit ih
  | function hP hd ih =>
    rw [FunctionDecl.node, Node.parts, partsOfParams_eq, partsOfNodes_eq, allFit_append, allFit_flatMap,
      allFit_flatMap]
    exact hd.allFit ih
  | initializer hP hd ih =>
    rw [InitDecl.node, Node.parts, partsOfParams_eq, partsOfNodes_eq, allFit_append, allFit_flatMap, allFit_flatMap]
    exact hd.allFit ih
  | property hP hp ih =>
    obtain ⟨hvalue, hgetter⟩ := hp.allFit ih
    simp only [Property.node, Node.parts, partsOfNode?_eq, partsOfBlock?_eq, allFit_append, allFit_flatMap,
      allFit_singleton, Option.mem_toList]
    exact ⟨⟨hvalue, hgetter⟩, trivial⟩
  | literal hl ih => exact Literal.allFit_of_children ih
  | call hP hc ih =>
    obtain ⟨hcallee, hargs, htrailing⟩ := hc.allFit ih
    simp only [Call.node, Node.parts, Expr.parts, partsOfArguments_eq, partsOfClosure?_eq, allFit_append,
      allFit_flatMap, Option.mem_toList]
    exact ⟨⟨hcallee, hargs⟩, htrailing⟩
  | member name hbase ih =>
    simp only [Node.parts, Expr.parts, partsOfNode?_eq, allFit_flatMap, Option.mem_toList]
    exact ih
  | binary hP hb ih => exact (allFit_append _ _).2 (hb.allFit ih)
  | unary op hoperand ih | postfixed mark hoperand ih => exact ih
  | @closure _ k hP hk ih =>
    obtain ⟨head, body⟩ := k
    rw [Closure.node, Node.parts, Expr.parts, Closure.parts, partsOfNodes_eq, allFit_flatMap]
    exact hk.allFit ih
  | assignment op htarget hvalue iht ihv => exact (allFit_append _ _).2 ⟨iht, ihv⟩
  | tupleAssignment hP ha ih =>
    exact (allFit_append _ _).2 ⟨ha.allFit ih, (allFit_singleton _).2 trivial⟩
  | ifStmt hP hi ih =>
    obtain ⟨hfirst, helseIfs, hotherwise⟩ := hi.allFit ih
    simp only [If.node, Node.parts, partsOfBranches_eq, partsOfBlock?_eq, allFit_append, allFit_flatMap,
      Option.mem_toList]
    exact ⟨⟨hfirst, helseIfs⟩, hotherwise⟩
  | guardStmt hP hg ih =>
    rw [Guard.node, Node.parts, partsOfConditions_eq, partsOfNodes_eq, allFit_append, allFit_flatMap, allFit_flatMap]
    exact hg.allFit ih
  | loop hP hl ih =>
    obtain ⟨hcondition, hbody⟩ := hl.allFit ih
    rw [ConditionLoop.node, Node.parts, partsOfNodes_eq, allFit_append, allFit_append, allFit_flatMap,
      allFit_singleton]
    exact ⟨⟨hcondition, hbody⟩, ConditionLoop.check_eq_ok_iff.1 hl.check_eq_ok⟩
  | forIn hP hl ih =>
    obtain ⟨hpattern, hsequence, hfilter, hbody⟩ := hl.allFit ih
    simp only [ForIn.node, Node.parts, partsOfNodes_eq, partsOfNode?_eq, allFit_append, allFit_flatMap,
      allFit_singleton, Option.mem_toList]
    exact ⟨⟨⟨⟨hpattern, hsequence⟩, hfilter⟩, hbody⟩, ForIn.check_eq_ok_iff.1 hl.check_eq_ok⟩
  | switchStmt hP hs ih =>
    obtain ⟨hsubject, hcases, hdefault⟩ := hs.allFit ih
    simp only [Switch.node, Node.parts, partsOfCases_eq, partsOfBlock?_eq, allFit_append, allFit_flatMap,
      Option.mem_toList]
    exact ⟨⟨hsubject, hcases⟩, hdefault⟩
  | doCatch hP hd ih =>
    rw [DoCatch.node, Node.parts, partsOfNodes_eq, partsOfCatches_eq, allFit_append, allFit_flatMap, allFit_flatMap]
    exact hd.allFit ih
  | returnStmt hvalue ih =>
    simp only [Node.parts, partsOfNode?_eq, allFit_flatMap, Option.mem_toList]
    exact ih
  | throwStmt herror ih => exact ih
  | deferStmt hP hbody ih =>
    rw [Node.parts, partsOfNodes_eq, allFit_flatMap]
    exact hbody.allFit ih
  | pattern hp ih => exact Pattern.allFit_of_children _ ih
  | singleExpression hP hnodes hn ih =>
    obtain ⟨rfl, -⟩ := singleExpression_eq_ok.1 hn
    exact hnodes.allFit ih _ (by simp)
  | singlePattern hP hnodes hn ih =>
    obtain ⟨rfl, -⟩ := singlePattern_eq_ok.1 hn
    exact hnodes.allFit ih _ (by simp)
  | _ => exact allFit_nil

theorem SourceFile.Made.allFit {f : SourceFile} (h : f.Made) : ∀ n ∈ f.nodes, AllFit n.parts := by
  induction h with
  | loaded h =>
    have hfit := (Document.obeys_of_load h).allFit
    rwa [Document.parts, SourceFile.parts, partsOfNodes_eq, allFit_flatMap] at hfit
  | new => exact List.forall_mem_nil _
  | addHeader line hf ih => exact ih
  | addImport name hf ih => exact ih
  | addNodes hf hnodes ih =>
    exact List.forall_mem_append.2 ⟨ih, hnodes.allFit fun n hn => Node.Made.allFit hn⟩

namespace Document

theorem Made.allFit {d : Document} (h : d.Made) : AllFit d.parts := by
  cases d with
  | nodes list =>
    rw [parts, partsOfNodes_eq, allFit_flatMap]
    exact Script.Makes.allFit (fun n hn => Node.Made.allFit hn) h
  | file f =>
    rw [parts, SourceFile.parts, partsOfNodes_eq, allFit_flatMap]
    exact SourceFile.Made.allFit h

theorem clean_render (indent : Indent) {d : Document} (hfit : AllFit d.parts) : (d.render indent).Clean := by
  cases d with
  | nodes list => exact SwiftForge.clean_render indent hfit
  | file f => exact f.clean_render indent hfit

end Document

/-- The words for the roles of the checked places. -/
theorem Role.isChecked_iff (role : Role) : role.isChecked ↔
    role.text ∈ ["a loop condition", "a loop pattern", "a case pattern", "a catch pattern", "a case condition"] := by
  cases role <;> decide

/-- A document that was loaded, from whatever text, or put together by calls that ended without a fault is rendered
    without a warning about a checked place, at any depth and with any indentation. -/
theorem checked_places_kept {d : Document} (h : (∃ text, Document.load text = .ok d) ∨ d.Made) (indent : Indent)
    {kind : String} {role : Role} (hwarning : .unfit kind role ∈ (d.render indent).warnings) :
    role.text ∉ ["a loop condition", "a loop pattern", "a case pattern", "a catch pattern", "a case condition"] := by
  have hfit : AllFit d.parts := by
    rcases h with ⟨text, h⟩ | h
    · exact (Document.obeys_of_load h).allFit
    · exact h.allFit
  rw [← Role.isChecked_iff, Document.clean_render indent hfit kind role hwarning]
  decide

/-- A closure whose body is a loop, over a comment in place of a sequence. -/
def looping : Closure := Closure.addBody
  [.forIn (.pattern (.identifier "x")) (.comment "none") none [.expression (.literal .nil)]] {}

theorem looping_made : Node.Made looping.node := by
  have hloop : ForIn.Made Node.Made
      ⟨.pattern (.identifier "x"), .comment "none", none, [.expression (.literal .nil)]⟩ := by
    refine ForIn.made_of_check (.pattern (by simp [Pattern.children])) (.comment _) (by simp) ?_ rfl
    exact List.forall_mem_singleton.2 (.literal (by simp [Literal.children]))
  refine .closure (fun _ h => h) (.addBody .new (Script.makes_of_forall ?_))
  exact List.forall_mem_singleton.2 (.forIn (fun _ h => h) hloop)

/-- The loop is rendered, with a warning about its sequence only. -/
theorem checked_places_looping :
    Document.Made (.nodes [looping.node]) ∧
      .unfit "comment" .loopSequence ∈ ((Document.nodes [looping.node]).render .tab).warnings ∧
      Role.text .loopSequence ∉
        ["a loop condition", "a loop pattern", "a case pattern", "a catch pattern", "a case condition"] := by
  have hmade : Document.Made (.nodes [looping.node]) :=
    Script.makes_of_forall (List.forall_mem_singleton.2 looping_made)
  have hwarning : .unfit "comment" .loopSequence ∈ ((Document.nodes [looping.node]).render .tab).warnings := by decide
  exact ⟨hmade, hwarning, checked_places_kept (.inr hmade) .tab hwarning⟩

end SwiftForge
