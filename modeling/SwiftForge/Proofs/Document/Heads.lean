import SwiftForge.Proofs.Document.Loads

/-! Types, effects and the other parts of a tree that hold no nodes load as they were written. Nothing in them is
    under a rule, so loading them cannot end in a breach. -/

namespace SwiftForge

open Document Decoder

variable {limit : Nat}

/-! ### Names -/

/-- A level is written as its keyword, and each keyword names one level; the same holds of the other plain names. -/
theorem AccessLevel.loads (level : AccessLevel) : Loads limit accessLevel (.string level.keyword) [] level :=
  Loads.unitName (by cases level <;> rfl)

theorem Binding.loads (b : Binding) : Loads limit binding (.string b.keyword) [] b :=
  Loads.unitName (by cases b <;> rfl)

theorem AssignmentMode.loads (m : AssignmentMode) : Loads limit assignmentMode (.string m.name) [] m :=
  Loads.unitName (by cases m <;> rfl)

theorem CaptureStrength.loads (s : CaptureStrength) : Loads limit captureStrength (.string s.name) [] s :=
  Loads.unitName (by cases s <;> rfl)

theorem PostfixMark.loads (m : PostfixMark) : Loads limit postfixMark (.string m.name) [] m :=
  Loads.unitName (by cases m <;> rfl)

/-! ### Types and effects -/

/-- A list of types is written type by type. -/
theorem TypeRef.encodeAll_eq (types : List TypeRef) : TypeRef.encodeAll types = types.map TypeRef.encode := by
  induction types with
  | nil => rfl
  | cons t types ih => rw [TypeRef.encodeAll, ih, List.map_cons]

/-- No type is written as `null`, so a `null` in a field always means that there is none. -/
theorem TypeRef.encode_ne_null (t : TypeRef) : t.encode ≠ .null := by
  cases t <;> simp [TypeRef.encode, tagged]

mutual

/-- A type is loaded within any depth that the document keeps to. The induction carries the depth, since the loader
    goes down by one with each type inside a type. -/
theorem TypeRef.loadsWithin : (t : TypeRef) → ∀ depth limit, limit ≤ depth →
    Loads limit (typeWithin depth) t.encode [] t
  | .named name, _, _, hle =>
    Loads.within (fun _ => rfl) (fun _ => rfl) hle fun _ _ _ _ => (Loads.string name).map TypeRef.named
  | .optional wrapped, _, _, hle =>
    Loads.within (fun _ => rfl) (fun _ => rfl) hle fun k l hl _ => (wrapped.loadsWithin k l hl).map TypeRef.optional
  | .array element, _, _, hle =>
    Loads.within (fun _ => rfl) (fun _ => rfl) hle fun k l hl _ => (element.loadsWithin k l hl).map TypeRef.array
  | .dictionary key value, _, _, hle =>
    Loads.within (fun _ => rfl) (fun _ => rfl) hle fun k l hl _ =>
      (((LoadsFields.pure TypeRef.dictionary).andPlain (.required (key.loadsWithin k l hl))).andPlain
        (.required (value.loadsWithin k l hl))).objectDecoder (by simp)
  | .tuple elements, _, _, hle =>
    Loads.within (fun _ => rfl) (fun _ => rfl) hle fun k l hl _ => by
      rw [TypeRef.encodeAll_eq]
      exact (Loads.listPlain fun t ht => TypeRef.loadsAll elements t ht k l hl).map TypeRef.tuple
  | .generic base args, _, _, hle =>
    Loads.within (fun _ => rfl) (fun _ => rfl) hle fun k l hl _ => by
      rw [TypeRef.encodeAll_eq]
      exact (((LoadsFields.pure TypeRef.generic).andPlain (.string base)).andPlain
        (.required (Loads.listPlain fun t ht => TypeRef.loadsAll args t ht k l hl))).objectDecoder (by simp)
  | .function params effects returns, _, _, hle =>
    Loads.within (fun _ => rfl) (fun _ => rfl) hle fun k l hl _ => by
      have heffects : Loads l (effectsWith (typeWithin k)) effects.encode [] effects := effects.loadsWithin k l hl
      rw [TypeRef.encodeAll_eq]
      exact ((((LoadsFields.pure TypeRef.function).andPlain
        (.required (Loads.listPlain fun t ht => TypeRef.loadsAll params t ht k l hl))).andPlain
        (.required heffects)).andPlain (.required (returns.loadsWithin k l hl))).objectDecoder (by simp)

theorem TypeRef.loadsAll : (types : List TypeRef) → ∀ t ∈ types, ∀ depth limit, limit ≤ depth →
    Loads limit (typeWithin depth) t.encode [] t
  | [], _, ht => by simp at ht
  | t :: rest, u, hu => by
    rcases List.mem_cons.1 hu with heq | hu
    · rw [heq]
      exact t.loadsWithin
    · exact TypeRef.loadsAll rest u hu

/-- `throws` without a type is written with `null` for it, and that is read as no type. -/
theorem Throws.loadsWithin : (t : Throws) → ∀ depth limit, limit ≤ depth →
    Loads limit (throwing (typeWithin depth)) t.encode [] t
  | .throws .none => fun depth _ _ => Loads.external ((Loads.null (typeWithin depth)).map Throws.throws) rfl
  | .throws (.some error) => fun depth limit hle =>
    Loads.external (((error.loadsWithin depth limit hle).nullable error.encode_ne_null).map Throws.throws) rfl
  | .rethrows => fun _ _ _ => Loads.unitName rfl

/-- The effects of a function type may name an error type, so they take part in the induction. -/
theorem Effects.loadsWithin : (e : Effects) → ∀ depth limit, limit ≤ depth →
    Loads limit (effectsWith (typeWithin depth)) e.encode [] e
  | .none => fun _ _ _ => Loads.unitName rfl
  | .throws t => fun depth limit hle => Loads.external ((t.loadsWithin depth limit hle).map Effects.throws) rfl
  | .async => fun _ _ _ => Loads.unitName rfl
  | .asyncThrows t => fun depth limit hle =>
    Loads.external ((t.loadsWithin depth limit hle).map Effects.asyncThrows) rfl

end

/-- A type is loaded within the depth that the loader sets. -/
theorem TypeRef.loads (t : TypeRef) (h : limit ≤ depthLimit) : Loads limit type t.encode [] t :=
  t.loadsWithin depthLimit limit h

theorem Effects.loads (e : Effects) (h : limit ≤ depthLimit) : Loads limit effects e.encode [] e :=
  e.loadsWithin depthLimit limit h

/-- The `try` and `await` of a call are loaded as two flags. -/
theorem CallEffects.loads (e : CallEffects) : Loads limit callEffects e.encode [] e :=
  (((LoadsFields.pure CallEffects.mk).andPlain (.required (.bool e.isTry))).andPlain
    (.required (.bool e.isAwait))).decoder (by simp)

theorem GenericParam.loads (p : GenericParam) (h : limit ≤ depthLimit) : Loads limit genericParam p.encode [] p := by
  rw [GenericParam.encode, TypeRef.encodeAll_eq]
  exact (((LoadsFields.pure GenericParam.mk).andPlain (.string p.name)).andPlain
    (.required (Loads.listPlain fun t _ => t.loads h))).decoder (by simp)

/-! ### Heads -/

/-- An attribute is loaded with its arguments in their order. -/
theorem Attribute.loads (a : Attribute) : Loads limit attributeItem a.encode [] a :=
  (((LoadsFields.pure Attribute.mk).andPlain (.string a.name)).andPlain
    (.required (Loads.strings a.args))).decoder (by simp)

/-- Comments, documentation, attributes and access level are loaded as they are; each that is missing stands for
    none. -/
theorem Decor.loads (d : Decor) : Loads limit decor d.encode [] d :=
  (((((LoadsFields.pure Decor.mk).andPlain (.strings d.comments)).andPlain (.strings d.doc)).andPlain
    (.listPlain fun a _ => a.loads)).andPlain
    (.nullablePlain (fun level _ => level.loads) fun _ => by simp)).decoder (by simp)

@[simp] theorem keys_decorField : decorField.keys = ["decor"] := rfl

@[simp] theorem keys_genericParams : genericParams.keys = ["generics"] := rfl

@[simp] theorem keys_conformances : conformances.keys = ["conformances"] := rfl

@[simp] theorem keys_effectsField : effectsField.keys = ["effects"] := rfl

@[simp] theorem keys_returnType : returnType.keys = ["return_type"] := rfl

/-- What stands around a declaration is always written, and loaded as it is. -/
theorem loads_decorField (d : Decor) : LoadsFields limit decorField (field "decor" d.encode) [] d :=
  .withDefault d.loads _

/-- Generic parameters are left out if there are none, and loaded in their order. -/
theorem loads_genericParams (ps : List GenericParam) (h : limit ≤ depthLimit) :
    LoadsFields limit genericParams (genericsField ps) [] ps := .listPlain fun p _ => p.loads h

/-- Conformances are left out if there are none, and loaded in their order. -/
theorem loads_conformances (ts : List TypeRef) (h : limit ≤ depthLimit) :
    LoadsFields limit conformances (typesField "conformances" ts) [] ts := by
  rw [typesField, TypeRef.encodeAll_eq]
  exact .listPlain fun t _ => t.loads h

/-- The effects of a declaration are always written, and loaded as they are. -/
theorem loads_effectsField (e : Effects) (h : limit ≤ depthLimit) :
    LoadsFields limit effectsField (field "effects" e.encode) [] e := .withDefault (e.loads h) _

/-- A return type is left out if there is none. -/
theorem loads_returnType (t : Option TypeRef) (h : limit ≤ depthLimit) :
    LoadsFields limit returnType (optional "return_type" (t.map TypeRef.encode)) [] t :=
  .nullablePlain (fun t _ => t.loads h) TypeRef.encode_ne_null

theorem Capture.loads (c : Capture) : Loads limit capture c.encode [] c :=
  (((LoadsFields.pure Capture.mk).andPlain (.withDefault c.strength.loads _)).andPlain
    (.string c.name)).decoder (by simp)

theorem ClosureParam.loads (p : ClosureParam) (h : limit ≤ depthLimit) : Loads limit closureParam p.encode [] p :=
  (((LoadsFields.pure ClosureParam.mk).andPlain (.string p.name)).andPlain
    (.nullablePlain (fun t _ => t.loads h) TypeRef.encode_ne_null)).decoder (by simp)

theorem AssociatedValue.loads (v : AssociatedValue) (h : limit ≤ depthLimit) :
    Loads limit associatedValue v.encode [] v :=
  (((LoadsFields.pure AssociatedValue.mk).andPlain (.string v.name)).andPlain
    (.required (v.ty.loads h))).decoder (by simp)

theorem AssociatedType.loads (t : AssociatedType) (h : limit ≤ depthLimit) :
    Loads limit associatedType t.encode [] t :=
  ((((LoadsFields.pure AssociatedType.mk).andPlain (.string t.name)).andPlain (loads_decorField t.decor)).andPlain
    (loads_conformances t.conformances h)).decoder (by simp)

theorem TypeAlias.loads (t : TypeAlias) (h : limit ≤ depthLimit) : Loads limit typeAlias t.encode [] t :=
  (((((LoadsFields.pure TypeAlias.mk).andPlain (.string t.name)).andPlain (loads_decorField t.decor)).andPlain
    (loads_genericParams t.generics h)).andPlain (.required (t.target.loads h))).decoder
    (by simp)

theorem ImportDecl.loads (i : ImportDecl) : Loads limit importDecl i.encode [] i :=
  (((LoadsFields.pure ImportDecl.mk).andPlain (.string i.moduleName)).andPlain (loads_decorField i.decor)).decoder
    (by simp)

end SwiftForge
