import Mathlib.Algebra.Order.Group.Multiset
import SwiftForge.Proofs.Layout.Standing
import SwiftForge.Proofs.Render.Written

/-! Lines that stay whole on the way up a tree. What stands at a place stands at the place above it, whichever of the
    renderings is used there, and so at every place from which a rendering comes to it. -/

namespace SwiftForge

open Fragment (Stand stand_line stand_header stand_close)

variable {texts : List String} {t : Site}

/-- The texts stand in what is rendered of a place. -/
def Site.Stands (texts : List String) : Site → Prop
  | .statement n => Stand texts n.fragments.value
  | .requirement n => Stand texts (requirements [n]).value
  | .slot role n => (n.inline role).value.Holds texts ∧
    ∀ p, role = .loopPattern → n = .pattern p → p.bindingInline.value.Holds texts
  | .conditions _ _ => False

theorem stand_clauseBody {body : List Fragment} (h : Stand texts body) : Stand texts [clauseBody body] := by
  unfold clauseBody
  split
  · rename_i hempty
    rw [List.isEmpty_iff.1 hempty] at h
    exact h.of_nil _
  · exact h.indented

theorem holds_closure {fs : List Fragment} (h : Stand texts fs) (signature : Option String) :
    (closureInline signature (some (Fragment.linesOf 0 fs))).Holds texts := by
  cases signature <;> exact Inline.holds_block h _ _

namespace Track

/-- The texts stand in whatever the place `t` is a part of. -/
def standing (texts : List String) (t : Site) : Track default (Multiset Site) where
  text m u _ := t ∈ m → u.Holds texts
  fragments m fs _ := t ∈ m → Stand texts fs
  own _ := 0
  empty h := absurd h (Multiset.notMem_zero t)
  ofText _ h := absurd h (Multiset.notMem_zero t)
  ofString _ h := absurd h (Multiset.notMem_zero t)
  append hu hv h := by
    rcases Multiset.mem_add.1 h with h | h
    · exact (hu h).append_right _
    · exact (hv h).append_left _
  closure signature hfs h := holds_closure (hfs h) signature
  nil h := absurd h (Multiset.notMem_zero t)
  concat hf hg h := by
    rcases Multiset.mem_add.1 h with h | h
    · exact (hf h).append_right _
    · exact (hg h).append_left _
  line hu h := stand_line (hu h)
  block hu hbody hclose h := by
    rcases Multiset.mem_add.1 h with h | h
    · rcases Multiset.mem_add.1 h with h | h
      · exact stand_header (hu h) _ _
      · exact (hbody h).block _ _
    · exact stand_close (hclose h) _ _
  openBlock hu hbody h := by
    rcases Multiset.mem_add.1 h with h | h
    · exact stand_header (hu h) _ _
    · exact (hbody h).block _ _
  clause hfs h := stand_clauseBody (hfs h)
  blank h := absurd h (Multiset.notMem_zero t)
  comments _ h := absurd h (Multiset.notMem_zero t)
  docComments _ h := absurd h (Multiset.notMem_zero t)

theorem standing_at (ht : t.Stands texts) (s : Site) : (standing texts t).At {s} s := by
  have hwarnings := written_at default s
  cases s with
  | statement n =>
    refine ⟨fun h => ?_, hwarnings.warnings⟩
    obtain rfl := Multiset.mem_singleton.1 h
    exact ht
  | requirement n =>
    refine ⟨fun h => ?_, hwarnings.warnings⟩
    obtain rfl := Multiset.mem_singleton.1 h
    exact ht
  | slot role n =>
    refine ⟨⟨fun h => ?_, hwarnings.1.warnings⟩, fun p hrole hp => ⟨fun h => ?_, (hwarnings.2 p hrole hp).warnings⟩⟩
    · obtain rfl := Multiset.mem_singleton.1 h
      exact ht.1
    · obtain rfl := Multiset.mem_singleton.1 h
      exact ht.2 p hrole hp
  | conditions keyword list =>
    intro n u s hu h
    rcases Multiset.mem_add.1 h with h | h
    · obtain rfl := Multiset.mem_singleton.1 h
      exact absurd ht id
    · exact hu h

/-- Every place weighs itself. -/
theorem mem_totalWeight {sites : List Site} (h : t ∈ sites) :
    t ∈ totalWeight (fun s => ({s} : Multiset Site)) sites := by
  induction sites with
  | nil => cases h
  | cons s rest ih =>
    rw [totalWeight_cons, Multiset.mem_add]
    rcases List.mem_cons.1 h with rfl | h
    · exact .inl (Multiset.mem_singleton_self _)
    · exact .inr (ih h)

end Track

theorem stand_statements (ht : t.Stands texts) {nodes : List Node} (h : t ∈ nodes.map .statement) :
    Stand texts (statements nodes).value :=
  (Track.statements fun c _ => Track.standing_at ht c).value (Track.mem_totalWeight h)

namespace Site

theorem stands_of_below (ht : t.Stands texts) {s : Site} (h : t ∈ s.below) : s.Stands texts := by
  have hat := Track.layer (s := s) fun c _ => Track.standing_at ht c
  have hmem : t ∈ (Track.standing texts t).ownAt s + totalWeight (fun s => ({s} : Multiset Site)) s.below :=
    Multiset.mem_add.2 (.inr (Track.mem_totalWeight h))
  cases s with
  | statement n => exact hat.value hmem
  | requirement n => exact hat.value hmem
  | slot role n => exact ⟨hat.1.value hmem, fun p hrole hp => (hat.2 p hrole hp).value hmem⟩
  | conditions keyword list => cases h

/-- What stands at a place stands at every place from which a rendering comes to it. -/
theorem stands_of_reached (ht : t.Stands texts) {s : Site} (h : t ∈ s.reached) : s.Stands texts := by
  induction s using induct with
  | step s ih =>
    rw [reached_eq] at h
    rcases List.mem_cons.1 h with rfl | h
    · exact ht
    · obtain ⟨u, hu, h⟩ := List.mem_flatMap.1 h
      exact stands_of_below (ih u hu h) hu

end Site

end SwiftForge
