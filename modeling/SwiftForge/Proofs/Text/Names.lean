import Mathlib.Data.List.TakeWhile
import SwiftForge.Text.Lines

/-! What readers of a text share. Names stand in it as runs of letters, digits and underscores, which end where another
    character stands; and a reader of nested text gets fuel, of which any amount from some on is enough. -/

namespace SwiftForge.Text

/-- A letter, a digit or an underscore. Beyond ASCII every character passes for a letter. -/
def isWord (c : Char) : Bool := c.isAlphanum || c == '_' || 128 ≤ c.toNat

/-- A name: letters, digits and underscores, at least one of them. -/
def isName (s : String) : Bool := !s.isEmpty && s.toList.all isWord

/-- The text does not start with a character that satisfies `p`. -/
def StopsAt (p : Char → Bool) (rest : List Char) : Prop := ∀ c ∈ rest.head?, p c = false

section

variable {p : Char → Bool} {run rest : List Char}

theorem stopsAt_cons {c : Char} (h : p c = false) : StopsAt p (c :: rest) := by
  rintro d ⟨⟩
  exact h

theorem takeWhile_of_stopsAt (h : StopsAt p rest) : rest.takeWhile p = [] := by
  cases rest with
  | nil => rfl
  | cons c cs => exact List.takeWhile_cons_of_neg (by simp [h c rfl])

theorem dropWhile_of_stopsAt (h : StopsAt p rest) : rest.dropWhile p = rest := by
  cases rest with
  | nil => rfl
  | cons c cs => exact List.dropWhile_cons_of_neg (by simp [h c rfl])

/-- A run of characters is read up to where it stops. -/
theorem takeWhile_append_stop (hrun : ∀ c ∈ run, p c = true) (h : StopsAt p rest) :
    (run ++ rest).takeWhile p = run := by
  rw [List.takeWhile_append_of_pos hrun, takeWhile_of_stopsAt h, List.append_nil]

theorem dropWhile_append_stop (hrun : ∀ c ∈ run, p c = true) (h : StopsAt p rest) :
    (run ++ rest).dropWhile p = rest := by
  rw [List.dropWhile_append_of_pos hrun, dropWhile_of_stopsAt h]

end

section

variable {s : String}

theorem isWord_of_mem_name (h : isName s = true) : ∀ c ∈ s.toList, isWord c = true := by
  rw [isName, Bool.and_eq_true] at h
  exact List.all_eq_true.1 h.2

/-- A name starts with a character of its own. -/
theorem exists_head_of_name (h : isName s = true) : ∃ c cs, s.toList = c :: cs ∧ isWord c = true := by
  have hne : s.toList ≠ [] := by
    rintro hnil
    rw [String.toList_eq_nil_iff] at hnil
    subst hnil
    cases h
  obtain ⟨c, cs, hcs⟩ := List.exists_cons_of_ne_nil hne
  exact ⟨c, cs, hcs, isWord_of_mem_name h c (by simp [hcs])⟩

end

/-! ### Fuel -/

/-- The statement holds of every amount of fuel from some on. -/
def Enough (P : Nat → Prop) : Prop := ∃ least, ∀ fuel, least ≤ fuel → P fuel

section

variable {P Q : Nat → Prop}

theorem Enough.exists (h : Enough P) : ∃ fuel, P fuel := by
  obtain ⟨least, h⟩ := h
  exact ⟨least, h least (Nat.le_refl _)⟩

theorem Enough.mono (h : Enough P) (himp : ∀ fuel, P fuel → Q fuel) : Enough Q := by
  obtain ⟨least, h⟩ := h
  exact ⟨least, fun fuel hfuel => himp fuel (h fuel hfuel)⟩

theorem Enough.and (hp : Enough P) (hq : Enough Q) : Enough fun fuel => P fuel ∧ Q fuel := by
  obtain ⟨m, hp⟩ := hp
  obtain ⟨n, hq⟩ := hq
  exact ⟨max m n, fun fuel hfuel => ⟨hp fuel (by omega), hq fuel (by omega)⟩⟩

theorem Enough.succ (h : Enough P) : Enough fun fuel => P (fuel + 1) := by
  obtain ⟨least, h⟩ := h
  exact ⟨least, fun fuel hfuel => h (fuel + 1) (by omega)⟩

/-- What takes some more steps than another reading has enough fuel if that has. -/
theorem Enough.steps (k : Nat) (h : Enough P) (hstep : ∀ fuel, P fuel → Q (fuel + k)) : Enough Q := by
  obtain ⟨least, h⟩ := h
  refine ⟨least + k, fun fuel hfuel => ?_⟩
  obtain ⟨m, rfl⟩ : ∃ m, fuel = m + k := ⟨fuel - k, by omega⟩
  exact hstep m (h m (by omega))

theorem Enough.step (h : Enough P) (hstep : ∀ fuel, P fuel → Q (fuel + 1)) : Enough Q := h.steps 1 hstep

theorem enough_of_succ (h : ∀ fuel, Q (fuel + 1)) : Enough Q := by
  have hall : Enough fun _ => True := ⟨0, fun _ _ => trivial⟩
  exact hall.step fun fuel _ => h fuel

end

@[simp]
theorem toList_joinWith_cons_cons (sep s t : String) (rest : List String) :
    (joinWith sep (s :: t :: rest)).toList = s.toList ++ (sep.toList ++ (joinWith sep (t :: rest)).toList) := by
  simp [joinWith]

end SwiftForge.Text
