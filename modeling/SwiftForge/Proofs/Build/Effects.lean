import SwiftForge.Build.Decl
import SwiftForge.Build.Expr
import SwiftForge.Proofs.Tree.TypeText

/-! Effects step by step. Effects are two facts that do not see each other, whether there is `async` and which throwing
    effect there is; a step writes one of them and keeps the other. So what steps in a row end with is read off the
    steps: `async` if one of them asks for it, and the throwing effect that is set last. A function, an initializer and
    a closure take the same steps in one field and keep all the others. -/

namespace SwiftForge

/-! ### The two parts -/

namespace Effects

theorem eq_of_parts {e e' : Effects} (hasync : e.isAsync = e'.isAsync) (hthrowing : e.throwing? = e'.throwing?) :
    e = e' := by
  rw [← ofParts_eq e, ← ofParts_eq e', hasync, hthrowing]

theorem isThrowing_eq (e : Effects) : e.isThrowing = e.throwing?.isSome := by
  cases e <;> rfl

end Effects

namespace EffectStep

def isAsync : EffectStep → Bool
  | .async => true
  | .throwing _ => false

/-- The throwing effect that a step sets. -/
def throwing? : EffectStep → Option Throws
  | .async => none
  | .throwing t => some t

theorem isAsync_iff {step : EffectStep} : step.isAsync = true ↔ step = .async := by
  cases step <;> simp [isAsync]

theorem throwing?_eq_some_iff {step : EffectStep} {t : Throws} : step.throwing? = some t ↔ step = .throwing t := by
  cases step <;> simp [throwing?]

theorem throwing?_eq_none_iff {step : EffectStep} : step.throwing? = none ↔ step = .async := by
  cases step <;> simp [throwing?]

theorem isAsync_apply (step : EffectStep) (e : Effects) : (step.apply e).isAsync = (e.isAsync || step.isAsync) := by
  cases step <;> cases e <;> rfl

theorem throwing?_apply (step : EffectStep) (e : Effects) :
    (step.apply e).throwing? = step.throwing?.or e.throwing? := by
  cases step <;> cases e <;> rfl

/-! ### Steps in a row -/

/-- The throwing effect that steps set last. -/
def lastThrows? (steps : List EffectStep) : Option Throws := (steps.filterMap throwing?).getLast?

theorem lastThrows?_append (steps steps' : List EffectStep) :
    lastThrows? (steps ++ steps') = (lastThrows? steps').or (lastThrows? steps) := by
  rw [lastThrows?, List.filterMap_append, List.getLast?_append]
  rfl

theorem lastThrows?_singleton (step : EffectStep) : lastThrows? [step] = step.throwing? := by
  cases step <;> rfl

theorem lastThrows?_cons (step : EffectStep) (steps : List EffectStep) :
    lastThrows? (step :: steps) = (lastThrows? steps).or step.throwing? := by
  rw [← lastThrows?_singleton, ← lastThrows?_append, List.singleton_append]

theorem isAsync_applyAll (steps : List EffectStep) (e : Effects) :
    (applyAll steps e).isAsync = (e.isAsync || steps.any isAsync) := by
  induction steps generalizing e with
  | nil => exact (Bool.or_false _).symm
  | cons step rest ih =>
    calc (applyAll rest (step.apply e)).isAsync
      _ = ((step.apply e).isAsync || rest.any isAsync) := ih _
      _ = (e.isAsync || (step :: rest).any isAsync) := by rw [isAsync_apply, Bool.or_assoc, List.any_cons]

theorem throwing?_applyAll (steps : List EffectStep) (e : Effects) :
    (applyAll steps e).throwing? = (lastThrows? steps).or e.throwing? := by
  induction steps generalizing e with
  | nil => rfl
  | cons step rest ih =>
    calc (applyAll rest (step.apply e)).throwing?
      _ = (lastThrows? rest).or (step.apply e).throwing? := ih _
      _ = (lastThrows? (step :: rest)).or e.throwing? := by rw [throwing?_apply, lastThrows?_cons, Option.or_assoc]

/-- Steps that ask for the same lead from the same effects to the same effects. -/
theorem applyAll_congr {steps steps' : List EffectStep} (hasync : steps.any isAsync = steps'.any isAsync)
    (hthrows : lastThrows? steps = lastThrows? steps') (e : Effects) : applyAll steps e = applyAll steps' e := by
  apply Effects.eq_of_parts
  · rw [isAsync_applyAll, isAsync_applyAll, hasync]
  · rw [throwing?_applyAll, throwing?_applyAll, hthrows]

/-! ### What is asked for -/

/-- The steps set a throwing effect, and nothing but `async` comes after it. -/
def SetsLast (steps : List EffectStep) (t : Throws) : Prop :=
  ∃ before after, steps = before ++ .throwing t :: after ∧ ∀ step ∈ after, step = .async

theorem any_isAsync_iff {steps : List EffectStep} : steps.any isAsync = true ↔ .async ∈ steps := by
  simp only [List.any_eq_true, isAsync_iff, exists_eq_right]

theorem lastThrows?_of_forall_async {steps : List EffectStep} (h : ∀ step ∈ steps, step = .async) :
    lastThrows? steps = none := by
  have hnil : steps.filterMap throwing? = [] :=
    List.filterMap_eq_nil_iff.2 fun step hstep => throwing?_eq_none_iff.2 (h step hstep)
  rw [lastThrows?, hnil, List.getLast?_nil]

theorem lastThrows?_eq_some_iff {steps : List EffectStep} {t : Throws} :
    lastThrows? steps = some t ↔ SetsLast steps t := by
  constructor
  · -- The throwing effects are cut before the last of them, and the steps are cut along.
    intro h
    obtain ⟨earlier, hearlier⟩ := List.getLast?_eq_some_iff.1 h
    obtain ⟨before, rest, rfl, -, hrest⟩ := List.filterMap_eq_append_iff.1 hearlier
    obtain ⟨between, step, after, rfl, -, hstep, hafter⟩ := List.filterMap_eq_cons_iff.1 hrest
    obtain rfl := throwing?_eq_some_iff.1 hstep
    refine ⟨before ++ between, after, (List.append_assoc ..).symm, fun step hmem => ?_⟩
    exact throwing?_eq_none_iff.1 (List.filterMap_eq_nil_iff.1 hafter step hmem)
  · rintro ⟨before, after, rfl, hafter⟩
    rw [lastThrows?_append, lastThrows?_cons, lastThrows?_of_forall_async hafter]
    rfl

theorem isSome_lastThrows?_iff {steps : List EffectStep} :
    (lastThrows? steps).isSome = true ↔ ∃ t, .throwing t ∈ steps := by
  constructor
  · intro h
    obtain ⟨t, ht⟩ := Option.isSome_iff_exists.1 h
    obtain ⟨before, after, rfl, -⟩ := lastThrows?_eq_some_iff.1 ht
    exact ⟨t, List.mem_append_right _ List.mem_cons_self⟩
  · rintro ⟨t, hmem⟩
    rw [lastThrows?, List.getLast?_isSome]
    exact List.ne_nil_of_mem (List.mem_filterMap.2 ⟨_, hmem, rfl⟩)

end EffectStep

/-- The effects that steps ask for: `async` if one of them does, a throwing effect if one of them sets one, and of
    these the last. -/
structure Effects.Asked (steps : List EffectStep) (e : Effects) : Prop where
  async_iff : e.isAsync = true ↔ .async ∈ steps
  throwing_iff : e.isThrowing = true ↔ ∃ t, .throwing t ∈ steps
  last_iff : ∀ t, e.throwing? = some t ↔ EffectStep.SetsLast steps t

theorem Effects.Asked.eq_of_same {steps steps' : List EffectStep} {e e' : Effects} (h : e.Asked steps)
    (h' : e'.Asked steps') (hasync : .async ∈ steps ↔ .async ∈ steps')
    (hlast : ∀ t, EffectStep.SetsLast steps t ↔ EffectStep.SetsLast steps' t) : e = e' := by
  apply eq_of_parts
  · exact Bool.eq_iff_iff.2 (h.async_iff.trans (hasync.trans h'.async_iff.symm))
  · exact Option.ext fun t => (h.last_iff t).trans ((hlast t).trans (h'.last_iff t).symm)

namespace EffectStep

theorem asked_applyAll (steps : List EffectStep) : (applyAll steps .none).Asked steps := by
  have hthrowing : (applyAll steps .none).throwing? = lastThrows? steps := by
    rw [throwing?_applyAll]
    exact Option.or_none
  refine ⟨?_, ?_, fun t => ?_⟩
  · rw [isAsync_applyAll]
    exact any_isAsync_iff
  · rw [Effects.isThrowing_eq, hthrowing]
    exact isSome_lastThrows?_iff
  · rw [hthrowing]
    exact lastThrows?_eq_some_iff

/-- Only one specifier is what steps ask for. -/
theorem asked_iff {steps : List EffectStep} {e : Effects} : e.Asked steps ↔ e = applyAll steps .none := by
  refine ⟨fun h => ?_, fun h => h ▸ asked_applyAll steps⟩
  exact h.eq_of_same (asked_applyAll steps) Iff.rfl fun _ => Iff.rfl

theorem applyAll_eq_iff {steps steps' : List EffectStep} : applyAll steps .none = applyAll steps' .none ↔
    (.async ∈ steps ↔ .async ∈ steps') ∧ ∀ t, SetsLast steps t ↔ SetsLast steps' t := by
  have hasked := asked_applyAll steps
  have hasked' := asked_applyAll steps'
  constructor
  · intro h
    rw [← h] at hasked'
    exact ⟨hasked.async_iff.symm.trans hasked'.async_iff,
      fun t => (hasked.last_iff t).symm.trans (hasked'.last_iff t)⟩
  · rintro ⟨hasync, hlast⟩
    exact hasked.eq_of_same hasked' hasync hlast

/-- Neighbours of the two kinds may change places. -/
theorem applyAll_swap (before after : List EffectStep) (t : Throws) (e : Effects) :
    applyAll (before ++ .async :: .throwing t :: after) e = applyAll (before ++ .throwing t :: .async :: after) e := by
  apply applyAll_congr
  · simp only [List.any_append, List.any_cons, isAsync, Bool.true_or, Bool.or_true]
  · simp only [lastThrows?_append, lastThrows?_cons, throwing?, Option.or_none]

/-- Asking for `async` once more changes nothing, however much later. -/
theorem applyAll_async_again (before between after : List EffectStep) (e : Effects) :
    applyAll (before ++ .async :: between ++ .async :: after) e =
      applyAll (before ++ .async :: between ++ after) e := by
  apply applyAll_congr
  · simp only [List.any_append, List.any_cons, isAsync, Bool.true_or, Bool.or_true]
  · simp only [lastThrows?_append, lastThrows?_cons, throwing?, Option.or_none]

end EffectStep

/-! ### Parts with effects -/

/-- Parts that keep their effects in a place of their own: a change that changes no effects changes nothing, and
    changes in a row are one change. -/
class LawfulEffectful (α : Type) [Effectful α] : Prop where
  modifyEffects_id (a : α) : Effectful.modifyEffects id a = a
  modifyEffects_comp (f g : Effects → Effects) (a : α) :
    Effectful.modifyEffects g (Effectful.modifyEffects f a) = Effectful.modifyEffects (g ∘ f) a

instance : LawfulEffectful FunctionDecl := ⟨fun _ => rfl, fun _ _ _ => rfl⟩

instance : LawfulEffectful InitDecl := ⟨fun _ => rfl, fun _ _ _ => rfl⟩

-- Closures are recursive, so one is put together again only after it is taken apart.
instance : LawfulEffectful Closure := ⟨fun ⟨_, _⟩ => rfl, fun _ _ _ => rfl⟩

/-- The part after several steps. -/
def withEffects {α : Type} [Effectful α] (steps : List EffectStep) (a : α) : α :=
  steps.foldl (fun a step => withEffect step a) a

/-- Steps on a part are the same steps on its effects. -/
theorem withEffects_eq {α : Type} [Effectful α] [LawfulEffectful α] (steps : List EffectStep) (a : α) :
    withEffects steps a = Effectful.modifyEffects (EffectStep.applyAll steps) a := by
  induction steps generalizing a with
  | nil => exact (LawfulEffectful.modifyEffects_id a).symm
  | cons step rest ih =>
    calc withEffects rest (withEffect step a)
      _ = Effectful.modifyEffects (EffectStep.applyAll rest) (Effectful.modifyEffects step.apply a) := ih _
      _ = Effectful.modifyEffects (EffectStep.applyAll rest ∘ step.apply) a :=
        LawfulEffectful.modifyEffects_comp ..

/-! ### The text -/

/-- `async` comes first, then the throwing effect; an error type stands in parentheses directly behind `throws`. -/
theorem Effects.suffix_spelled (e : Effects) : e.suffix = (if e.isAsync then " async" else "") ++
    match e.throwing? with
    | .none => ""
    | some (.throws .none) => " throws"
    | some (.throws (some error)) => " throws(" ++ error.text ++ ")"
    | some .rethrows => " rethrows" := by
  rw [TypeRef.suffix_eq]
  congr 1
  rcases e.throwing? with - | ⟨- | error⟩ | -
  · rfl
  · rfl
  · exact String.append_assoc.symm
  · rfl

namespace EffectStep

/-- Effects are what was asked for, in whatever order. From no effects, steps lead to the one specifier that has `async`
    exactly if one of them asks for it, throws exactly if one of them sets a throwing effect, and throws as the last of
    these says; so two rows of steps end alike exactly if they agree on the two. In any row, and from any effects,
    neighbours of the two kinds may change places, and a second `async` may go. The text has `async` first, then the
    throwing effect. A function, an initializer and a closure take steps as their effects do, and keep the rest. -/
theorem effects_as_asked (steps : List EffectStep) :
    (∀ e : Effects, e = applyAll steps .none ↔ e.Asked steps) ∧
    (∀ steps', applyAll steps .none = applyAll steps' .none ↔
      (.async ∈ steps ↔ .async ∈ steps') ∧ ∀ t, SetsLast steps t ↔ SetsLast steps' t) ∧
    (∀ (after : List EffectStep) (t : Throws) (e : Effects),
      applyAll (steps ++ .async :: .throwing t :: after) e = applyAll (steps ++ .throwing t :: .async :: after) e) ∧
    (∀ (between after : List EffectStep) (e : Effects),
      applyAll (steps ++ .async :: between ++ .async :: after) e = applyAll (steps ++ .async :: between ++ after) e) ∧
    (∀ e : Effects, e.suffix = (if e.isAsync then " async" else "") ++
      match e.throwing? with
      | none => ""
      | some (.throws none) => " throws"
      | some (.throws (some error)) => " throws(" ++ error.text ++ ")"
      | some .rethrows => " rethrows") ∧
    (∀ d : FunctionDecl, withEffects steps d = { d with effects := applyAll steps d.effects }) ∧
    (∀ d : InitDecl, withEffects steps d = { d with effects := applyAll steps d.effects }) ∧
    ∀ k : Closure,
      withEffects steps k = { k with head := { k.head with effects := applyAll steps k.head.effects } } := by
  refine ⟨fun e => asked_iff.symm, fun steps' => applyAll_eq_iff, ?_, ?_, Effects.suffix_spelled, ?_, ?_, ?_⟩
  · intro after t e
    exact applyAll_swap steps after t e
  · intro between after e
    exact applyAll_async_again steps between after e
  · exact withEffects_eq steps
  · exact withEffects_eq steps
  · exact withEffects_eq steps

end EffectStep

end SwiftForge
