import Mathlib.Tactic
import SwiftForge.Json.Decoder
import SwiftForge.Proofs.Outcome

/-! What a decoder may give, whatever it is given to read: a predicate on its values that holds each time it
    succeeds. There is a lemma for each way to put decoders together. -/

namespace SwiftForge

namespace Decoder

variable {R α β : Type}

/-- Every value that a decoder gives satisfies the predicate. -/
def Ensures (d : Decoder R α) (P : α → Prop) : Prop := ∀ mode r value, d mode r = .ok value → P value

namespace Ensures

variable {d : Decoder R α} {P Q : α → Prop}

theorem all (h : ∀ value, P value) : Ensures d P := fun _ _ value _ => h value

theorem mono (h : Ensures d P) (hPQ : ∀ value, P value → Q value) : Ensures d Q :=
  fun mode r value hvalue => hPQ value (h mode r value hvalue)

theorem map {f : α → β} {S : β → Prop} (h : Ensures d fun a => S (f a)) : Ensures (Decoder.map f d) S := by
  intro mode r value hvalue
  obtain ⟨a, ha, rfl⟩ := map_eq_ok.1 hvalue
  exact h mode r a ha

theorem checked {rule : α → Except R Unit} (h : Ensures d fun a => rule a = .ok () → P a) :
    Ensures (d.checked rule) P := by
  intro mode r value hvalue
  obtain ⟨a, ha, hrule⟩ := bind_eq_ok.1 hvalue
  split at hrule
  · rename_i hok
    cases hrule
    exact h mode r value ha hok
  · cases hrule

theorem nullable (h : Ensures d P) : Ensures (Decoder.nullable d) fun o => ∀ a ∈ o, P a := by
  intro mode r value hvalue
  unfold Decoder.nullable at hvalue
  split at hvalue
  · cases hvalue
    simp
  · obtain ⟨a, ha, rfl⟩ := map_eq_ok.1 hvalue
    rintro b ⟨⟩
    exact h _ _ a ha

theorem list (h : Ensures d P) : Ensures (Decoder.list d) fun xs => ∀ x ∈ xs, P x := by
  intro mode r value hvalue
  unfold Decoder.list at hvalue
  split at hvalue
  · cases hvalue
  · obtain ⟨xs, hxs, hvalue⟩ := bind_eq_ok.1 hvalue
    obtain ⟨-, -, hvalue⟩ := bind_eq_ok.1 hvalue
    cases hvalue
    exact forall_mem_of_mapM (h _) hxs
  · cases hvalue

end Ensures

/-! ### Records -/

namespace Fields

/-- Every record that is put together from these fields satisfies the predicate. The fields read so far satisfy an
    invariant from which the predicate follows in the end. -/
def Ensures (f : Fields R α) (P : α → Prop) : Prop :=
  ∃ I : f.State → Prop, I f.start ∧
    (∀ mode key r s t, I s → f.feed mode key r s = .ok t → I t) ∧
    (∀ s value, I s → f.finish s = .ok value → P value) ∧
    ∀ mode index items ending value rest, f.take mode index items ending = .ok (value, rest) → P value

namespace Ensures

variable {f : Fields R α} {P : α → Prop}

theorem pure {value : α} (h : P value) : (Fields.pure value : Fields R α).Ensures P := by
  refine ⟨fun _ => True, trivial, fun _ _ _ _ _ _ _ => trivial, ?_, ?_⟩
  · rintro s v - ⟨⟩
    exact h
  · rintro mode index items ending v rest ⟨⟩
    exact h

theorem and {g : Fields R (α → β)} {a : Fields R α} {S : β → Prop} (hg : g.Ensures fun make => ∀ x, P x → S (make x))
    (ha : a.Ensures P) : (g.and a).Ensures S := by
  obtain ⟨I, hstart, hfeed, hfinish, htake⟩ := hg
  obtain ⟨J, hstart', hfeed', hfinish', htake'⟩ := ha
  refine ⟨fun s => I s.1 ∧ J s.2, ⟨hstart, hstart'⟩, ?_, ?_, ?_⟩
  · rintro mode key r ⟨s, s'⟩ t ⟨hs, hs'⟩ ht
    simp only [Fields.and] at ht
    split at ht
    · obtain ⟨u, hu, rfl⟩ := map_eq_ok.1 ht
      exact ⟨hfeed mode key r s u hs hu, hs'⟩
    · obtain ⟨u, hu, rfl⟩ := map_eq_ok.1 ht
      exact ⟨hs, hfeed' mode key r s' u hs' hu⟩
  · rintro ⟨s, s'⟩ value ⟨hs, hs'⟩ hvalue
    obtain ⟨make, hmake, hvalue⟩ := bind_eq_ok.1 hvalue
    obtain ⟨x, hx, hvalue⟩ := bind_eq_ok.1 hvalue
    cases hvalue
    exact hfinish s make hs hmake x (hfinish' s' x hs' hx)
  · rintro mode index items ending value rest hvalue
    obtain ⟨⟨make, rest'⟩, hmake, hvalue⟩ := bind_eq_ok.1 hvalue
    obtain ⟨⟨x, rest''⟩, hx, hvalue⟩ := bind_eq_ok.1 hvalue
    cases hvalue
    exact htake mode index items ending make rest' hmake x (htake' _ _ _ _ x _ hx)

theorem one {d : Decoder R α} {key : String} {absent : Option α} (h : d.Ensures P) (habsent : ∀ a ∈ absent, P a) :
    (Fields.one key absent d).Ensures P := by
  -- The state of a field is the value it was given, if it was given one.
  refine ⟨fun (s : Option α) => ∀ a ∈ s, P a, fun a ha => absurd ha (by simp [Fields.one]), ?_, ?_, ?_⟩
  · intro mode key' r s t hs ht
    cases s with
    | some a => cases ht
    | none =>
      obtain ⟨a, ha, rfl⟩ := map_eq_ok.1 ht
      rintro b ⟨⟩
      exact h mode r a ha
  · intro s value hs hvalue
    cases s with
    | some a =>
      cases hvalue
      exact hs value rfl
    | none =>
      cases absent with
      | some a =>
        cases hvalue
        exact habsent value rfl
      | none => cases hvalue
  · intro mode index items ending value rest hvalue
    cases items with
    | cons r items =>
      obtain ⟨a, ha, heq⟩ := map_eq_ok.1 hvalue
      cases heq
      exact h mode r value ha
    | nil =>
      obtain ⟨-, -, hvalue⟩ := bind_eq_ok.1 hvalue
      cases absent with
      | some a =>
        cases hvalue
        exact habsent value rfl
      | none => cases hvalue

theorem all (h : ∀ value, P value) : f.Ensures P :=
  ⟨fun _ => True, trivial, fun _ _ _ _ _ _ _ => trivial, fun _ value _ _ => h value,
    fun _ _ _ _ value _ _ => h value⟩

/-- A field of which nothing has to be known. -/
theorem andAny {g : Fields R (α → β)} {a : Fields R α} {S : β → Prop} (hg : g.Ensures fun make => ∀ x, S (make x)) :
    (g.and a).Ensures S := by
  have ha : a.Ensures fun _ => True := all fun _ => trivial
  obtain ⟨I, hI⟩ := hg
  exact and ⟨I, hI.1, hI.2.1, fun s make hs hmake x _ => hI.2.2.1 s make hs hmake x,
    fun mode index items ending make rest h x _ => hI.2.2.2 mode index items ending make rest h x⟩ ha

theorem required {d : Decoder R α} {key : String} (h : d.Ensures P) : (Fields.required key d).Ensures P :=
  one h (by simp)

/-- Members in any order keep the invariant. -/
theorem feedAll {I : f.State → Prop} (hfeed : ∀ mode key r s t, I s → f.feed mode key r s = .ok t → I t)
    {unknown : Unknown} {mode : Mode} {members : List (Reading × Reading)} {s t : f.State} (hs : I s)
    (ht : f.feedAll unknown mode members s = .ok t) : I t := by
  induction members generalizing s with
  | nil =>
    cases ht
    exact hs
  | cons member members ih =>
    unfold Fields.feedAll at ht
    split at ht
    · contradiction
    · rename_i key r rest heq
      cases heq
      split at ht
      · obtain ⟨u, hu, ht⟩ := bind_eq_ok.1 ht
        exact ih (hfeed _ _ _ _ u hs hu) ht
      · split at ht
        · cases ht
        · obtain ⟨-, -, ht⟩ := bind_eq_ok.1 ht
          exact ih hs ht
    · cases ht

theorem decoderWith (h : f.Ensures P) (unknown : Unknown) : (Fields.decoderWith unknown f).Ensures P := by
  obtain ⟨I, hstart, hfeed, hfinish, htake⟩ := h
  intro mode r value hvalue
  unfold Fields.decoderWith at hvalue
  split at hvalue
  · obtain ⟨s, hs, hvalue⟩ := bind_eq_ok.1 hvalue
    obtain ⟨-, -, hvalue⟩ := bind_eq_ok.1 hvalue
    exact hfinish s value (feedAll hfeed hstart hs) hvalue
  · obtain ⟨⟨v, rest⟩, hv, hvalue⟩ := bind_eq_ok.1 hvalue
    obtain ⟨-, -, hvalue⟩ := bind_eq_ok.1 hvalue
    obtain ⟨-, -, hvalue⟩ := bind_eq_ok.1 hvalue
    cases hvalue
    exact htake _ _ _ _ _ _ hv
  · cases hvalue

theorem decoder (h : f.Ensures P) : f.decoder.Ensures P := h.decoderWith .ignore

theorem objectDecoder (h : f.Ensures P) : f.objectDecoder.Ensures P := by
  intro mode r value hvalue
  unfold Fields.objectDecoder at hvalue
  split at hvalue
  · exact h.decoder _ _ value hvalue
  · cases hvalue

end Ensures

end Fields

theorem Ensures.pair {a : Decoder R α} {b : Decoder R β} {P : α → Prop} {Q : β → Prop} (ha : a.Ensures P)
    (hb : b.Ensures Q) : (Decoder.pair a b).Ensures fun v => P v.1 ∧ Q v.2 := by
  intro mode r value hvalue
  unfold Decoder.pair at hvalue
  split at hvalue
  · have h : (((Fields.pure Prod.mk).and (Fields.required "0" a)).and (Fields.required "1" b)).Ensures
        fun v => P v.1 ∧ Q v.2 :=
      ((Fields.Ensures.pure fun x hx y hy => ⟨hx, hy⟩).and (.required ha)).and (.required hb)
    exact h.decoder _ _ value hvalue
  · cases hvalue

/-! ### Alternatives -/

namespace Variants

/-- What an alternative may give. -/
def VariantEnsures (v : Variant R α) (P : α → Prop) : Prop :=
  match v with
  | .unit value => P value
  | .content d => d.Ensures P

/-- What the alternatives may give. -/
def Ensures (vs : Variants R α) (P : α → Prop) : Prop := ∀ v ∈ vs, VariantEnsures v.2 P

variable {vs : Variants R α} {P : α → Prop}

theorem Ensures.find (h : vs.Ensures P) {name : String} {v : Variant R α} (hv : vs.find name = .ok v) :
    VariantEnsures v P := by
  unfold Variants.find at hv
  split at hv
  · rename_i w hw
    cases hv
    obtain ⟨ls, rs, rfl, -⟩ := List.lookup_eq_some_iff.1 hw
    exact h (name, v) (by simp)
  · cases hv

variable {v : Variant R α}

theorem VariantEnsures.bare (h : VariantEnsures v P) {value : α} (hvalue : Variants.bare v = .ok value) : P value := by
  cases v with
  | unit x =>
    cases hvalue
    exact h
  | content d => cases hvalue

theorem VariantEnsures.valueless (h : VariantEnsures v P) {value : α} (hvalue : Variants.valueless v = .ok value) :
    P value := by
  cases v with
  | unit x =>
    cases hvalue
    exact h
  | content d => cases hvalue

theorem VariantEnsures.named (h : VariantEnsures v P) : (Variants.named v).Ensures P := by
  intro mode r value hvalue
  cases v with
  | content d => exact h mode r value hvalue
  | unit x =>
    unfold Variants.named at hvalue
    simp only at hvalue
    split at hvalue
    · cases hvalue
      exact h
    · cases hvalue
      exact h
    · cases hvalue

theorem VariantEnsures.value (h : VariantEnsures v P) : (Variants.value v).Ensures P := by
  intro mode r value hvalue
  cases v with
  | content d => exact h mode r value hvalue
  | unit x =>
    unfold Variants.value at hvalue
    simp only at hvalue
    split at hvalue
    · cases hvalue
      exact h
    · cases hvalue

theorem Ensures.external (h : vs.Ensures P) : vs.external.Ensures P := by
  intro mode r value hvalue
  unfold Variants.external at hvalue
  split at hvalue
  · obtain ⟨v, hv, hvalue⟩ := bind_eq_ok.1 hvalue
    exact (h.find hv).bare hvalue
  · obtain ⟨v, hv, hvalue⟩ := bind_eq_ok.1 hvalue
    obtain ⟨result, hresult, hvalue⟩ := bind_eq_ok.1 hvalue
    split at hvalue
    · have hend : expectEnd _ >>= (fun _ => pure result) = .ok value := hvalue
      obtain ⟨-, -, heq⟩ := bind_eq_ok.1 hend
      cases heq
      exact (h.find hv).named _ _ value hresult
    · cases hvalue
  · cases hvalue
  · obtain ⟨v, hv, hvalue⟩ := bind_eq_ok.1 hvalue
    exact (h.find hv).named _ _ value hvalue
  · cases hvalue
  · cases hvalue

theorem Ensures.kind (h : vs.Ensures P) : vs.kind.Ensures fun v => VariantEnsures v P := by
  refine Ensures.external fun w hw => ?_
  obtain ⟨⟨name, v⟩, hv, rfl⟩ := List.mem_map.1 hw
  exact h (name, v) hv

theorem Ensures.firstItem (h : vs.Ensures P) : vs.firstItem.Ensures fun v => VariantEnsures v P := by
  intro mode r v hv
  unfold Variants.firstItem at hv
  split at hv
  · exact h.find hv
  · split at hv
    · cases hv
    · split at hv
      · rename_i hget
        cases hv
        exact h _ (List.mem_of_getElem? hget)
      · cases hv
  · cases hv

/-- A value that comes before its kind is read like one that comes after it. -/
theorem Ensures.ofMembers (h : vs.Ensures P) {mode : Mode} {members : List (Reading × Reading)} {ending : Ending}
    {value : α} (hvalue : vs.ofMembers mode members ending = .ok value) : P value := by
  obtain ⟨key, -, hvalue⟩ := bind_eq_ok.1 hvalue
  split at hvalue
  · cases hvalue
  · obtain ⟨v, hv, hvalue⟩ := bind_eq_ok.1 hvalue
    have hensures := h.kind _ _ v hv
    obtain ⟨key, -, hvalue⟩ := bind_eq_ok.1 hvalue
    split at hvalue
    · exact hensures.valueless hvalue
    · cases hvalue
    · obtain ⟨result, hresult, hvalue⟩ := bind_eq_ok.1 hvalue
      obtain ⟨-, -, hvalue⟩ := bind_eq_ok.1 hvalue
      cases hvalue
      exact hensures.value _ _ value hresult
  · obtain ⟨-, -, hvalue⟩ := bind_eq_ok.1 hvalue
    obtain ⟨key, -, hvalue⟩ := bind_eq_ok.1 hvalue
    split at hvalue
    · cases hvalue
    · cases hvalue
    · obtain ⟨v, hv, hvalue⟩ := bind_eq_ok.1 hvalue
      obtain ⟨result, hresult, hvalue⟩ := bind_eq_ok.1 hvalue
      obtain ⟨-, -, hvalue⟩ := bind_eq_ok.1 hvalue
      cases hvalue
      exact (h.kind _ _ v hv).value _ _ value hresult

theorem Ensures.ofItems (h : vs.Ensures P) {mode : Mode} {items : List Reading} {ending : Ending} {value : α}
    (hvalue : vs.ofItems mode items ending = .ok value) : P value := by
  cases items with
  | nil =>
    obtain ⟨-, -, hvalue⟩ := bind_eq_ok.1 hvalue
    cases hvalue
  | cons kind items =>
    obtain ⟨v, hv, hvalue⟩ := bind_eq_ok.1 hvalue
    cases items with
    | nil =>
      obtain ⟨-, -, hvalue⟩ := bind_eq_ok.1 hvalue
      cases hvalue
    | cons content items =>
      obtain ⟨result, hresult, hvalue⟩ := bind_eq_ok.1 hvalue
      obtain ⟨-, -, hvalue⟩ := bind_eq_ok.1 hvalue
      obtain ⟨-, -, hvalue⟩ := bind_eq_ok.1 hvalue
      cases hvalue
      exact (h.firstItem _ _ v hv).value _ _ value hresult

theorem Ensures.tagged (h : vs.Ensures P) : vs.tagged.Ensures P := by
  intro mode r value hvalue
  unfold Variants.tagged at hvalue
  split at hvalue
  · exact h.ofMembers hvalue
  · exact h.ofItems hvalue
  · cases hvalue

end Variants

end Decoder

end SwiftForge
