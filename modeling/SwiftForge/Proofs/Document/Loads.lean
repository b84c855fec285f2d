import SwiftForge.Document.Decode
import SwiftForge.Proofs.Json.Text
import SwiftForge.Proofs.Tree.Parts

/-! What loading makes of a written value: the value, unless one of its parts breaks a rule; then the first breach in
    the order of the parts. The relation `Loads` says this of one decoder and one written value, and there is a
    lemma for each way to put decoders together. -/

namespace SwiftForge

namespace Json

theorem itemsNesting_le_iff {items : List Json} {limit : Nat} :
    itemsNesting items ≤ limit ↔ ∀ item ∈ items, item.nesting ≤ limit := by
  induction items with
  | nil => simp [itemsNesting]
  | cons item items ih => simp [itemsNesting, ih]

theorem membersNesting_le_iff {members : List (String × Json)} {limit : Nat} :
    membersNesting members ≤ limit ↔ ∀ m ∈ members, m.2.nesting ≤ limit := by
  induction members with
  | nil => simp [membersNesting]
  | cons m members ih =>
    obtain ⟨key, value⟩ := m
    simp [membersNesting, ih]

theorem reading_ne_null {j : Json} (h : j ≠ .null) : j.reading ≠ .null := by
  cases j with
  | null => exact absurd rfl h
  | _ => simp [reading]

end Json

/-! ### Documents -/

def SourceFile.parts (file : SourceFile) : List Part := partsOfNodes file.nodes

/-- The parts of a document, each after those inside it. -/
def Document.parts : Document → List Part
  | .nodes list => partsOfNodes list
  | .file source => source.parts

/-! ### Members of an object -/

namespace Decoder.Fields

variable {R α β : Type}

@[simp] theorem keys_pure (value : α) : (Fields.pure value : Fields R α).keys = [] := rfl

@[simp] theorem keys_and (f : Fields R (α → β)) (a : Fields R α) : (f.and a).keys = f.keys ++ a.keys := rfl

@[simp] theorem keys_one (key : String) (absent : Option α) (d : Decoder R α) : (one key absent d).keys = [key] := rfl

@[simp] theorem keys_required (key : String) (d : Decoder R α) : (required key d).keys = [key] := rfl

@[simp] theorem keys_withDefault (key : String) (absent : α) (d : Decoder R α) :
    (withDefault key absent d).keys = [key] := rfl

@[simp] theorem keys_nullableField (key : String) (d : Decoder R α) : (nullableField key d).keys = [key] := rfl

@[simp] theorem keys_listOf (key : String) (d : Decoder R α) : (listOf key d).keys = [key] := rfl

@[simp] theorem keys_flag (key : String) : (flag key : Fields R Bool).keys = [key] := rfl

/-- Members that belong to the first of two groups of fields leave the second as it is. -/
theorem feedAll_and_left (f : Fields R (α → β)) (a : Fields R α) (unknown : Unknown) (mode : Mode)
    (ms : List (String × Json)) (hms : ∀ m ∈ ms, m.1 ∈ f.keys) (s : f.State) (t : a.State) :
    (f.and a).feedAll unknown mode (Json.memberReadings ms) (s, t) =
      (f.feedAll unknown mode (Json.memberReadings ms) s).map fun s => (s, t) := by
  induction ms generalizing s with
  | nil => rfl
  | cons m ms ih =>
    obtain ⟨key, value⟩ := m
    have hkey : key ∈ f.keys := hms (key, value) (by simp)
    have hboth : key ∈ (f.and a).keys := List.mem_append_left a.keys hkey
    simp only [Json.memberReadings, feedAll, if_pos hkey, if_pos hboth]
    have hfeed : (f.and a).feed mode key value.reading (s, t) =
        (f.feed mode key value.reading s).map fun s => (s, t) := if_pos hkey
    rw [hfeed]
    cases f.feed mode key value.reading s with
    | error e => rfl
    | ok s => exact ih (fun m hm => hms m (List.mem_cons_of_mem _ hm)) s

theorem feedAll_and_right (f : Fields R (α → β)) (a : Fields R α) (unknown : Unknown) (mode : Mode)
    (ms : List (String × Json)) (hms : ∀ m ∈ ms, m.1 ∈ a.keys) (hdisjoint : ∀ key ∈ a.keys, key ∉ f.keys)
    (s : f.State) (t : a.State) :
    (f.and a).feedAll unknown mode (Json.memberReadings ms) (s, t) =
      (a.feedAll unknown mode (Json.memberReadings ms) t).map fun t => (s, t) := by
  induction ms generalizing t with
  | nil => rfl
  | cons m ms ih =>
    obtain ⟨key, value⟩ := m
    have hkey : key ∈ a.keys := hms (key, value) (by simp)
    have hboth : key ∈ (f.and a).keys := List.mem_append_right f.keys hkey
    simp only [Json.memberReadings, feedAll, if_pos hkey, if_pos hboth]
    have hfeed : (f.and a).feed mode key value.reading (s, t) =
        (a.feed mode key value.reading t).map fun t => (s, t) := if_neg (hdisjoint key hkey)
    rw [hfeed]
    cases a.feed mode key value.reading t with
    | error e => rfl
    | ok t => exact ih (fun m hm => hms m (List.mem_cons_of_mem _ hm)) t

theorem feedAll_append (f : Fields R α) (unknown : Unknown) (mode : Mode) (ms ns : List (String × Json))
    (hms : ∀ m ∈ ms, m.1 ∈ f.keys) (s : f.State) :
    f.feedAll unknown mode (Json.memberReadings (ms ++ ns)) s =
      f.feedAll unknown mode (Json.memberReadings ms) s >>= f.feedAll unknown mode (Json.memberReadings ns) := by
  induction ms generalizing s with
  | nil => rfl
  | cons m ms ih =>
    obtain ⟨key, value⟩ := m
    have hkey : key ∈ f.keys := hms (key, value) (by simp)
    simp only [List.cons_append, Json.memberReadings, feedAll, if_pos hkey]
    cases f.feed mode key value.reading s with
    | error e => rfl
    | ok s => exact ih (fun m hm => hms m (List.mem_cons_of_mem _ hm)) s

end Decoder.Fields

namespace Document

open Decoder
open Decoder.Fields (required withDefault nullableField listOf flag)

variable {α β : Type} {limit : Nat}

/-! ### Verdicts -/

/-- The outcome of loading a value with these parts: the value, or the first breach. -/
def verdict (parts : List Part) (value : α) : Except LoadError α :=
  match parts.flatMap Part.breaches with
  | [] => .ok value
  | b :: _ => .error (.rule b)

theorem verdict_nil (value : α) : verdict [] value = .ok value := rfl

theorem verdict_map (parts : List Part) (value : α) (f : α → β) :
    (verdict parts value).map f = verdict parts (f value) := by
  unfold verdict
  cases parts.flatMap Part.breaches <;> rfl

/-- Two verdicts in a row are the verdict on the parts in a row. -/
theorem verdict_bind {ps qs : List Part} {a : α} {b : β} {f : α → Except LoadError β} (h : f a = verdict qs b) :
    verdict ps a >>= f = verdict (ps ++ qs) b := by
  unfold verdict
  rw [List.flatMap_append]
  cases ps.flatMap Part.breaches with
  | nil => exact h
  | cons b bs => rfl

theorem verdict_bind_ok {ps : List Part} {a : α} {b : β} {f : α → Except LoadError β} (h : f a = .ok b) :
    verdict ps a >>= f = verdict ps b := by
  rw [verdict_bind (h.trans (verdict_nil b).symm), List.append_nil]

theorem verdict_part (part : Part) (value : α) :
    verdict [part] value = (match part.check with | .ok () => pure value | .error b => .error (.rule b)) := by
  unfold verdict
  rw [List.flatMap_singleton, Part.check_eq]
  cases part.breaches <;> rfl

/-! ### Values -/

/-- A decoder makes of a written value what the parts of the value decide, if the value nests at most `limit`
    deep; and the floats that are written are those of the parts. -/
structure Loads (limit : Nat) (d : Load α) (j : Json) (parts : List Part) (value : α) : Prop where
  spellable : ∀ {double : Double → Prop}, (∀ p ∈ parts, p.FloatIn double) → j.Spellable double
  decodes : j.nesting ≤ limit → d .streamed j.reading = verdict parts value

namespace Loads

variable {d : Load α} {j : Json} {parts : List Part} {value : α}

/-- Only the value itself has to be the one wanted, not the way to it. -/
theorem of_eq {value' : α} (h : Loads limit d j parts value) (heq : value = value') :
    Loads limit d j parts value' := heq ▸ h

theorem mono {limit' : Nat} (h : Loads limit d j parts value) (hle : limit' ≤ limit) :
    Loads limit' d j parts value :=
  ⟨h.spellable, fun hj => h.decodes (Nat.le_trans hj hle)⟩

/-- A value that nests too deep need only be spelled. -/
theorem of_lt (hspell : ∀ {double : Double → Prop}, (∀ p ∈ parts, p.FloatIn double) → j.Spellable double)
    (hlt : limit < j.nesting) : Loads limit d j parts value :=
  ⟨hspell, fun hj => absurd hj (Nat.not_le.2 hlt)⟩

theorem map (h : Loads limit d j parts value) (f : α → β) :
    Loads limit (Decoder.map f d) j parts (f value) where
  spellable := h.spellable
  decodes hj := by rw [Decoder.map, h.decodes hj, verdict_map]

theorem checked {rule : α → Except Breach Unit} (h : Loads limit d j parts value) (part : Part)
    (hrule : rule value = part.check) :
    Loads limit (d.checked rule) j (parts ++ [part]) value where
  spellable hparts := h.spellable fun p hp => hparts p (List.mem_append_left _ hp)
  decodes hj := by
    rw [Decoder.checked, h.decodes hj]
    refine verdict_bind ?_
    rw [verdict_part, ← hrule]
    cases rule value <;> rfl

theorem string (s : String) : Loads limit Decoder.string (.string s) [] s := ⟨fun _ => trivial, fun _ => rfl⟩

theorem bool (b : Bool) : Loads limit Decoder.bool (.bool b) [] b := ⟨fun _ => trivial, fun _ => rfl⟩

theorem null (d : Load α) : Loads limit (nullable d) .null [] none := ⟨fun _ => trivial, fun _ => rfl⟩

theorem nullable (h : Loads limit d j parts value) (hj : j ≠ .null) :
    Loads limit (Decoder.nullable d) j parts (some value) where
  spellable := h.spellable
  decodes hlimit := by
    have hnull := Json.reading_ne_null hj
    unfold Decoder.nullable
    split
    · contradiction
    · rw [h.decodes hlimit, verdict_map]

end Loads

/-! ### Lists -/

theorem mapM_reading {limit : Nat} {d : Load α} {encode : α → Json} {parts : α → List Part} (xs : List α)
    (h : ∀ x ∈ xs, Loads limit d (encode x) (parts x) x) (hj : ∀ x ∈ xs, (encode x).nesting ≤ limit) :
    (Json.itemReadings (xs.map encode)).mapM (d .streamed) = verdict (xs.flatMap parts) xs := by
  induction xs with
  | nil => rfl
  | cons x xs ih =>
    have hx := (h x (by simp)).decodes (hj x (by simp))
    have hxs := ih (fun y hy => h y (List.mem_cons_of_mem x hy)) fun y hy => hj y (List.mem_cons_of_mem x hy)
    rw [List.map_cons, Json.itemReadings, List.mapM_cons, hx, List.flatMap_cons]
    refine verdict_bind ?_
    rw [hxs]
    exact verdict_map _ _ (x :: ·)

theorem Loads.list {d : Load α} {encode : α → Json} {parts : α → List Part} {xs : List α}
    (h : ∀ x ∈ xs, Loads limit d (encode x) (parts x) x) :
    Loads limit (Decoder.list d) (.array (xs.map encode)) (xs.flatMap parts) xs where
  spellable hparts := by
    refine (Json.itemsSpellable_iff _ _).2 fun item hitem => ?_
    obtain ⟨x, hx, rfl⟩ := List.mem_map.1 hitem
    exact (h x hx).spellable fun p hp => hparts p (List.mem_flatMap.2 ⟨x, hx, hp⟩)
  decodes hj := by
    have hnesting : ∀ x ∈ xs, (encode x).nesting ≤ limit := fun x hx =>
      Json.itemsNesting_le_iff.1 (Nat.le_of_succ_le hj) _ (List.mem_map_of_mem hx)
    rw [Json.reading, Decoder.list, mapM_reading xs h hnesting]
    exact verdict_bind_ok rfl

theorem flatMap_noParts (xs : List α) : xs.flatMap (fun _ => ([] : List Part)) = [] :=
  List.flatMap_eq_nil_iff.2 fun _ _ => rfl

/-- A list of values without parts. -/
theorem Loads.listPlain {d : Load α} {encode : α → Json} {xs : List α} (h : ∀ x ∈ xs, Loads limit d (encode x) [] x) :
    Loads limit (Decoder.list d) (.array (xs.map encode)) [] xs := by
  have hlist := Loads.list h
  rwa [flatMap_noParts] at hlist

theorem Loads.strings (xs : List String) :
    Loads limit (Decoder.list Decoder.string) (.array (xs.map .string)) [] xs :=
  Loads.listPlain fun x _ => Loads.string x

/-! ### Fields -/

/-- As `Loads`, for the fields of a record and the members of an object. No field is read twice as long as no two
    have the same key. -/
structure LoadsFields (limit : Nat) (f : Fields Breach α) (members : Members) (parts : List Part) (value : α) :
    Prop where
  keys : ∀ m ∈ members, m.1 ∈ f.keys
  spellable : ∀ {double : Double → Prop}, (∀ p ∈ parts, p.FloatIn double) → ∀ m ∈ members, m.2.Spellable double
  decodes : f.keys.Nodup → (∀ m ∈ members, m.2.nesting ≤ limit) → ∀ unknown, ∃ s,
    f.feedAll unknown .streamed (Json.memberReadings members) f.start = verdict parts s ∧ f.finish s = .ok value

namespace LoadsFields

variable {d : Load α} {j : Json} {parts : List Part} {value : α} {key : String}

theorem pure (value : α) : LoadsFields limit (Fields.pure value) [] [] value where
  keys := by simp
  spellable := by simp
  decodes _ _ _ := ⟨(), rfl, rfl⟩

theorem and {f : Fields Breach (α → β)} {a : Fields Breach α} {ms ns : Members} {ps qs : List Part} {g : α → β}
    {x : α} (hf : LoadsFields limit f ms ps g) (ha : LoadsFields limit a ns qs x) :
    LoadsFields limit (f.and a) (ms ++ ns) (ps ++ qs) (g x) where
  keys m hm := by
    rcases List.mem_append.1 hm with hm | hm
    · exact List.mem_append_left _ (hf.keys m hm)
    · exact List.mem_append_right _ (ha.keys m hm)
  spellable hparts m hm := by
    rcases List.mem_append.1 hm with hm | hm
    · exact hf.spellable (fun p hp => hparts p (List.mem_append_left _ hp)) m hm
    · exact ha.spellable (fun p hp => hparts p (List.mem_append_right _ hp)) m hm
  decodes hnodup hj unknown := by
    obtain ⟨hnf, hna, hdisjoint⟩ := List.nodup_append.1 hnodup
    obtain ⟨s, hs, hfinish⟩ := hf.decodes hnf (fun m hm => hj m (List.mem_append_left _ hm)) unknown
    obtain ⟨t, ht, hfinish'⟩ := ha.decodes hna (fun m hm => hj m (List.mem_append_right _ hm)) unknown
    refine ⟨(s, t), ?_, ?_⟩
    -- The keys are apart, so each half of the members changes its own half of the state.
    · rw [Fields.feedAll_append _ _ _ _ _ fun m hm => List.mem_append_left a.keys (hf.keys m hm)]
      have hleft := Fields.feedAll_and_left f a unknown .streamed ms hf.keys f.start a.start
      rw [hs, verdict_map] at hleft
      refine Eq.trans (congrArg (· >>= _) hleft) (verdict_bind ?_)
      rw [Fields.feedAll_and_right f a unknown .streamed ns ha.keys
        (fun key hkey hkey' => hdisjoint key hkey' key hkey rfl), ht, verdict_map]
      rfl
    · simp only [Fields.and, hfinish, hfinish']
      rfl

/-- A field whose value has no parts. -/
theorem andPlain {f : Fields Breach (α → β)} {a : Fields Breach α} {ms ns : Members} {ps : List Part} {g : α → β}
    {x : α} (hf : LoadsFields limit f ms ps g) (ha : LoadsFields limit a ns [] x) :
    LoadsFields limit (f.and a) (ms ++ ns) ps (g x) := by
  have h := hf.and ha
  rwa [List.append_nil] at h

/-- A field that is written. -/
theorem one (h : Loads limit d j parts value) (absent : Option α) :
    LoadsFields limit (Fields.one key absent d) [(key, j)] parts value where
  keys := by simp [Fields.one]
  spellable hparts := by simpa using h.spellable hparts
  decodes _ hj _ := by
    refine ⟨some value, ?_, rfl⟩
    have hd := h.decodes (hj (key, j) (by simp))
    simp only [Json.memberReadings, Fields.feedAll, Fields.one, List.mem_singleton, if_true, hd, verdict_map]
    exact verdict_bind_ok rfl

/-- A field that is left out. -/
theorem absent (value : α) (d : Load α) : LoadsFields limit (Fields.one key (some value) d) [] [] value where
  keys := by simp
  spellable := by simp
  decodes _ _ _ := ⟨none, rfl, rfl⟩

theorem required (h : Loads limit d j parts value) :
    LoadsFields limit (Fields.required key d) (field key j) parts value := one h none

theorem withDefault (h : Loads limit d j parts value) (absent : α) :
    LoadsFields limit (Fields.withDefault key absent d) (field key j) parts value := one h (some absent)

theorem flag (b : Bool) : LoadsFields limit (Fields.flag key) (field key (.bool b)) [] b := one (Loads.bool b) _

theorem string (s : String) : LoadsFields limit (Fields.required key Decoder.string) (field key (.string s)) [] s :=
  required (Loads.string s)

/-- An option that is left out if it is absent. -/
theorem nullableField {encode : α → Json} {parts : α → List Part} {o : Option α}
    (h : ∀ x ∈ o, Loads limit d (encode x) (parts x) x) (hnull : ∀ x, encode x ≠ .null) :
    LoadsFields limit (Fields.nullableField key d) (optional key (o.map encode)) (o.toList.flatMap parts) o := by
  cases o with
  | none => exact absent none _
  | some x =>
    rw [Option.toList_some, List.flatMap_singleton]
    exact one ((h x rfl).nullable (hnull x)) _

theorem listOf {encode : α → Json} {parts : α → List Part} {xs : List α}
    (h : ∀ x ∈ xs, Loads limit d (encode x) (parts x) x) :
    LoadsFields limit (Fields.listOf key d) (listField key (xs.map encode)) (xs.flatMap parts) xs := by
  cases xs with
  | nil => exact absent [] _
  | cons x xs => exact one (Loads.list h) _

theorem nullablePlain {encode : α → Json} {o : Option α} (h : ∀ x ∈ o, Loads limit d (encode x) [] x)
    (hnull : ∀ x, encode x ≠ .null) :
    LoadsFields limit (Fields.nullableField key d) (optional key (o.map encode)) [] o := by
  have hfield : LoadsFields limit (Fields.nullableField key d) _ _ o := nullableField h hnull
  rwa [flatMap_noParts] at hfield

theorem listPlain {encode : α → Json} {xs : List α} (h : ∀ x ∈ xs, Loads limit d (encode x) [] x) :
    LoadsFields limit (Fields.listOf key d) (listField key (xs.map encode)) [] xs := by
  have hfield : LoadsFields limit (Fields.listOf key d) _ _ xs := listOf h
  rwa [flatMap_noParts] at hfield

theorem strings (xs : List String) :
    LoadsFields limit (Fields.listOf key Decoder.string) (textsField key xs) [] xs :=
  listPlain fun x _ => Loads.string x

/-- The object of a record. -/
theorem decoderWith {f : Fields Breach α} {ms : Members} (h : LoadsFields limit f ms parts value)
    (hkeys : f.keys.Nodup) (unknown : Fields.Unknown) :
    Loads limit (Fields.decoderWith unknown f) (.object ms) parts value where
  spellable hparts := (Json.membersSpellable_iff _ ms).2 (h.spellable hparts)
  decodes hj := by
    have hnesting := Json.membersNesting_le_iff.1 (Nat.le_of_succ_le hj)
    obtain ⟨s, hs, hfinish⟩ := h.decodes hkeys hnesting unknown
    rw [Json.reading, Fields.decoderWith, hs]
    exact verdict_bind_ok hfinish

theorem decoder {f : Fields Breach α} {ms : Members} (h : LoadsFields limit f ms parts value)
    (hkeys : f.keys.Nodup) : Loads limit f.decoder (.object ms) parts value := h.decoderWith hkeys .ignore

theorem objectDecoder {f : Fields Breach α} {ms : Members} (h : LoadsFields limit f ms parts value)
    (hkeys : f.keys.Nodup) : Loads limit f.objectDecoder (.object ms) parts value where
  spellable := (h.decoder hkeys).spellable
  decodes := (h.decoder hkeys).decodes

end LoadsFields

/-! ### Alternatives -/

theorem find_eq {vs : Variants Breach α} {name : String} {v : Variant Breach α} (h : vs.lookup name = some v) :
    vs.find name = .ok v := by
  rw [Variants.find, h]

theorem kind_string {vs : Variants Breach α} {name : String} {v : Variant Breach α} (h : vs.lookup name = some v) :
    vs.kind .streamed (.string name) = .ok v := by
  have hlookup : (vs.map fun (name, v) => (name, Variant.unit (R := Breach) v)).lookup name = some (.unit v) := by
    induction vs with
    | nil => simp at h
    | cons head vs ih =>
      obtain ⟨key, w⟩ := head
      rw [List.lookup_cons] at h
      rw [List.map_cons, List.lookup_cons]
      split
      · rename_i heq
        rw [heq] at h
        cases h
        rfl
      · rename_i heq
        rw [heq] at h
        exact ih h
  rw [Variants.kind, Variants.external, find_eq hlookup]
  rfl

namespace Loads

variable {d : Load α} {j : Json} {parts : List Part} {value : α} {name : String}

/-- An alternative with content: one more level around the content. -/
theorem tagged {vs : Variants Breach α} (h : Loads limit d j parts value)
    (hfind : vs.lookup name = some (.content d)) :
    Loads (limit + 1) vs.tagged (Document.tagged name j) parts value where
  spellable hparts := ⟨trivial, h.spellable hparts, trivial⟩
  decodes hj := by
    have hnesting : j.nesting ≤ limit := by
      simp [Document.tagged, Json.nesting, Json.membersNesting] at hj
      exact hj
    have hvalue : Variants.value (Variant.content d) .streamed j.reading = verdict parts value := h.decodes hnesting
    simp only [Document.tagged, Json.reading, Json.memberReadings, Variants.tagged, Variants.ofMembers,
      Variants.nextKey, kind_string hfind, bind, Except.bind]
    rw [hvalue]
    exact verdict_bind_ok rfl

theorem deeper {vs : Variants Breach α} (h : Loads (limit - 1) d j parts value)
    (hfind : vs.lookup name = some (.content d)) : Loads limit vs.tagged (Document.tagged name j) parts value :=
  (tagged h hfind).mono (by omega)

/-- An alternative without content. -/
theorem bare {vs : Variants Breach α} (hfind : vs.lookup name = some (.unit value)) :
    Loads limit vs.tagged (Document.bare name) [] value where
  spellable _ := ⟨trivial, trivial⟩
  decodes _ := by
    simp only [Document.bare, Json.reading, Json.memberReadings, Variants.tagged, Variants.ofMembers,
      Variants.nextKey, kind_string hfind, bind, Except.bind]
    rfl

/-- An alternative given by its name alone. -/
theorem unitName {vs : Variants Breach α} (hfind : vs.lookup name = some (.unit value)) :
    Loads limit vs.external (.string name) [] value where
  spellable _ := trivial
  decodes _ := by
    rw [Json.reading, Variants.external, find_eq hfind]
    rfl

/-- An alternative as the only member of an object. -/
theorem external {vs : Variants Breach α} (h : Loads limit d j parts value)
    (hfind : vs.lookup name = some (.content d)) :
    Loads limit vs.external (.object [(name, j)]) parts value where
  spellable hparts := ⟨h.spellable hparts, trivial⟩
  decodes hj := by
    have hnesting : j.nesting ≤ limit := by
      simp [Json.nesting, Json.membersNesting] at hj
      omega
    have hnamed : Variants.named (Variant.content d) .streamed j.reading = verdict parts value := h.decodes hnesting
    simp only [Json.reading, Json.memberReadings, Variants.external, find_eq hfind, bind, Except.bind]
    rw [hnamed]
    exact verdict_bind_ok rfl

/-- A decoder that may go down `depth` levels goes one down with each alternative that it opens. -/
theorem within {d : Nat → Load α} {vs : Nat → Variants Breach α} {content : Nat → Load α} {depth : Nat}
    (hd : ∀ k, d (k + 1) = (vs k).tagged) (hfind : ∀ k, (vs k).lookup name = some (.content (content k)))
    (hle : limit ≤ depth) (h : ∀ k l, l ≤ k → l ≤ limit → Loads l (content k) j parts value) :
    Loads limit (d depth) (Document.tagged name j) parts value := by
  cases depth with
  | zero =>
    refine of_lt (fun hparts => ⟨trivial, (h 0 0 (Nat.le_refl 0) (Nat.zero_le _)).spellable hparts, trivial⟩) ?_
    exact Nat.lt_of_le_of_lt hle (Nat.zero_lt_succ _)
  | succ depth =>
    rw [hd depth]
    exact (tagged (h depth (limit - 1) (by omega) (by omega)) (hfind depth)).mono (by omega)

theorem bareWithin {d : Nat → Load α} {vs : Nat → Variants Breach α} {depth : Nat}
    (hd : ∀ k, d (k + 1) = (vs k).tagged) (hfind : ∀ k, (vs k).lookup name = some (.unit value))
    (hle : limit ≤ depth) : Loads limit (d depth) (Document.bare name) [] value := by
  cases depth with
  | zero => exact of_lt (fun _ => ⟨trivial, trivial⟩) (Nat.lt_of_le_of_lt hle (Nat.zero_lt_succ _))
  | succ depth =>
    rw [hd depth]
    exact bare (hfind depth)

end Loads

end Document

end SwiftForge
