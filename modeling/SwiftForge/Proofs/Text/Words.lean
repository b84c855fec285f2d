import SwiftForge.Proofs.Text.Names
import SwiftForge.Text.Blank

/-! Words of a text, its runs without blanks. A blank keeps what is before it apart from what is behind it, and all that
    is said here about words follows from that: blanks around a text change nothing, and a word can be found again in
    the text, with the words before it on its left and the words behind it on its right. -/

namespace SwiftForge.Text

/-- A word starts with the next character or none does: the text is empty or goes on with a blank. -/
def EndsWord (cs : List Char) : Prop := StopsAt (fun c => !isBlank c) cs

theorem endsWord_nil : EndsWord [] := by
  rintro c ⟨⟩

theorem endsWord_cons {c : Char} {cs : List Char} : EndsWord (c :: cs) ↔ isBlank c = true := by
  simp [EndsWord, StopsAt]

/-- Characters without a blank among them, at least one. -/
structure OneWord (w : List Char) : Prop where
  ne_nil : w ≠ []
  not_blank : ∀ c ∈ w, isBlank c = false

theorem runsFrom_append_break {p : Char → Bool} {c : Char} (hc : p c = true) (run a b : List Char) :
    runsFrom p run (a ++ c :: b) = runsFrom p run a ++ runsFrom p [] b := by
  fun_induction runsFrom p run a with
  | case1 => simp [runsFrom, hc]
  | case2 run hne =>
    obtain ⟨d, run, rfl⟩ := List.exists_cons_of_ne_nil hne
    simp [runsFrom, hc]
  | case3 d rest hd ih => rw [List.cons_append, runsFrom, if_pos hd, ih]
  | case4 d rest hd ih => rw [List.cons_append, runsFrom, if_neg hd, ih]
  | case5 e run d rest hd ih => rw [List.cons_append, runsFrom, if_pos hd, ih, List.cons_append]
  | case6 e run d rest hd ih => rw [List.cons_append, runsFrom, if_neg hd, ih]

theorem runsFrom_of_forall_not {p : Char → Bool} {cs : List Char} (h : ∀ c ∈ cs, p c = false) {run : List Char}
    (hrun : run ≠ []) : runsFrom p run cs = [run.reverse ++ cs] := by
  induction cs generalizing run with
  | nil =>
    obtain ⟨d, run, rfl⟩ := List.exists_cons_of_ne_nil hrun
    simp [runsFrom]
  | cons c cs ih =>
    obtain ⟨hc, hcs⟩ := List.forall_mem_cons.1 h
    obtain ⟨d, run, rfl⟩ := List.exists_cons_of_ne_nil hrun
    rw [runsFrom, if_neg (by simp [hc]), ih hcs (by simp)]
    simp

/-! ### Blanks -/

section

variable {c : Char} {cs lead tail w : List Char}

/-- Words break at a blank. -/
theorem words_append_blank (hc : isBlank c = true) (a b : List Char) : words (a ++ c :: b) = words a ++ words b :=
  runsFrom_append_break hc [] a b

theorem words_nil : words [] = [] := rfl

theorem words_cons_blank (hc : isBlank c = true) (cs : List Char) : words (c :: cs) = words cs :=
  words_append_blank hc [] cs

theorem words_blanks_append (h : ∀ c ∈ lead, isBlank c = true) (cs : List Char) : words (lead ++ cs) = words cs := by
  induction lead with
  | nil => rfl
  | cons c lead ih =>
    obtain ⟨hc, hlead⟩ := List.forall_mem_cons.1 h
    rw [List.cons_append, words_cons_blank hc, ih hlead]

theorem words_of_blanks (h : ∀ c ∈ cs, isBlank c = true) : words cs = [] := by
  have := words_blanks_append h []
  rwa [List.append_nil] at this

theorem words_append_of_endsWord (h : EndsWord tail) (a : List Char) : words (a ++ tail) = words a ++ words tail := by
  cases tail with
  | nil => rw [List.append_nil, words_nil, List.append_nil]
  | cons c tail => rw [words_append_blank (endsWord_cons.1 h), words_cons_blank (endsWord_cons.1 h)]

/-! ### One word -/

theorem OneWord.words (h : OneWord w) : words w = [w] := by
  obtain ⟨c, w, rfl⟩ := List.exists_cons_of_ne_nil h.ne_nil
  obtain ⟨hc, hw⟩ := List.forall_mem_cons.1 h.not_blank
  rw [Text.words, runsFrom, if_neg (by simp [hc]), runsFrom_of_forall_not hw (by simp)]
  rfl

theorem OneWord.words_append (h : OneWord w) (htail : EndsWord tail) :
    Text.words (w ++ tail) = w :: Text.words tail := by
  rw [words_append_of_endsWord htail, h.words, List.singleton_append]

/-- A text up to its first blank. -/
def beforeBlank (cs : List Char) : List Char := cs.takeWhile fun c => !isBlank c

theorem not_blank_of_mem_beforeBlank (h : c ∈ beforeBlank cs) : isBlank c = false := by
  simpa using List.mem_takeWhile_imp h

theorem endsWord_dropWhile (cs : List Char) : EndsWord (cs.dropWhile fun c => !isBlank c) := fun c hc => by
  have hhead := List.head?_dropWhile_not (fun c => !isBlank c) cs
  rwa [Option.mem_def.1 hc] at hhead

theorem OneWord.beforeBlank_append (h : OneWord w) (htail : EndsWord tail) : beforeBlank (w ++ tail) = w :=
  takeWhile_append_stop (by simpa using h.not_blank) htail

theorem words_eq_cons_of_beforeBlank (h : beforeBlank cs ≠ []) :
    Text.words cs = beforeBlank cs :: Text.words (cs.dropWhile fun c => !isBlank c) := by
  have hone : OneWord (beforeBlank cs) := ⟨h, fun c => not_blank_of_mem_beforeBlank⟩
  have happend := hone.words_append (endsWord_dropWhile cs)
  rwa [beforeBlank, List.takeWhile_append_dropWhile] at happend

/-- A text falls into what is before its first blank and the rest. -/
theorem exists_glued (tail : List Char) :
    ∃ glued rest, tail = glued ++ rest ∧ (∀ c ∈ glued, isBlank c = false) ∧ EndsWord rest :=
  ⟨beforeBlank tail, _, List.takeWhile_append_dropWhile.symm, fun _ => not_blank_of_mem_beforeBlank,
    endsWord_dropWhile tail⟩

/-- Behind a word the text may go on with the same word. -/
theorem OneWord.exists_words_append (h : OneWord w) (tail : List Char) :
    ∃ glued rest, tail = glued ++ rest ∧ (∀ c ∈ glued, isBlank c = false) ∧
      Text.words (w ++ tail) = (w ++ glued) :: Text.words rest := by
  obtain ⟨glued, rest, rfl, hglued, hrest⟩ := exists_glued tail
  have hone : OneWord (w ++ glued) := ⟨by simp [h.ne_nil], List.forall_mem_append.2 ⟨h.not_blank, hglued⟩⟩
  exact ⟨glued, rest, rfl, hglued, by rw [← hone.words_append hrest, List.append_assoc]⟩

theorem oneWord_singleton (hc : isBlank c = false) : OneWord [c] := ⟨by simp, by simpa using hc⟩

theorem words_eq_nil_iff : words cs = [] ↔ ∀ c ∈ cs, isBlank c = true := by
  refine ⟨fun h => ?_, words_of_blanks⟩
  induction cs with
  | nil => simp
  | cons c cs ih =>
    cases hc : isBlank c with
    | true =>
      rw [words_cons_blank hc] at h
      exact List.forall_mem_cons.2 ⟨hc, ih h⟩
    | false =>
      obtain ⟨glued, rest, -, -, hwords⟩ := (oneWord_singleton hc).exists_words_append cs
      rw [← List.singleton_append, hwords] at h
      cases h

/-! ### Finding a word -/

/-- The first word of a text, with the blanks before it and with what is behind it. -/
theorem exists_of_words_eq_cons {ws : List (List Char)} (h : words cs = w :: ws) :
    ∃ lead tail, cs = lead ++ (w ++ tail) ∧ (∀ c ∈ lead, isBlank c = true) ∧ OneWord w ∧ EndsWord tail ∧
      words tail = ws := by
  induction cs with
  | nil => cases h
  | cons c cs ih =>
    cases hc : isBlank c with
    | true =>
      rw [words_cons_blank hc] at h
      obtain ⟨lead, tail, rfl, hlead, hrest⟩ := ih h
      exact ⟨c :: lead, tail, rfl, List.forall_mem_cons.2 ⟨hc, hlead⟩, hrest⟩
    | false =>
      obtain ⟨glued, tail, rfl, hglued, htail⟩ := exists_glued cs
      have hone : OneWord (c :: glued) := ⟨by simp, List.forall_mem_cons.2 ⟨hc, hglued⟩⟩
      rw [← List.cons_append, hone.words_append htail] at h
      obtain ⟨rfl, rfl⟩ := List.cons.inj h
      exact ⟨[], tail, rfl, by simp, hone, htail, rfl⟩

/-- These are the words of a text, and the next word starts anew, whatever follows. -/
def SetsApart (cs : List Char) (ws : List (List Char)) : Prop := ∀ rest, words (cs ++ rest) = ws ++ words rest

theorem SetsApart.words_eq {ws : List (List Char)} (h : SetsApart cs ws) : words cs = ws := by
  have := h []
  rwa [List.append_nil, words_nil, List.append_nil] at this

/-- Any word of a text, with the words before it on its left and the words behind it on its right. -/
theorem exists_of_words_eq_append {before after : List (List Char)} (h : words cs = before ++ w :: after) :
    ∃ a b, cs = a ++ (w ++ b) ∧ SetsApart a before ∧ OneWord w ∧ EndsWord b ∧ words b = after := by
  induction before generalizing cs with
  | nil =>
    obtain ⟨lead, tail, rfl, hlead, hrest⟩ := exists_of_words_eq_cons h
    exact ⟨lead, tail, rfl, words_blanks_append hlead, hrest⟩
  | cons first before ih =>
    obtain ⟨lead, tail, rfl, hlead, hfirst, htail, hbefore⟩ := exists_of_words_eq_cons h
    obtain ⟨a, b, rfl, ha, hw, hb⟩ := ih hbefore
    refine ⟨lead ++ (first ++ a), b, by simp only [List.append_assoc], fun rest => ?_, hw, hb⟩
    -- What is between the two words starts with the blank that ends the first one.
    have hstop : EndsWord (a ++ rest) := by
      cases a with
      | nil =>
        obtain ⟨c, w, rfl⟩ := List.exists_cons_of_ne_nil hw.ne_nil
        have hc := hw.not_blank c List.mem_cons_self
        rw [endsWord_cons.1 htail] at hc
        cases hc
      | cons c a => exact endsWord_cons.2 (endsWord_cons.1 htail)
    rw [List.append_assoc, List.append_assoc, words_blanks_append hlead, hfirst.words_append hstop, ha,
      List.cons_append]

/-- A text starts with a word of its own: its first character is no blank. -/
def StartsWord (cs : List Char) : Prop := ∀ c ∈ cs.head?, isBlank c = false

theorem OneWord.startsWord_append (h : OneWord w) (tail : List Char) : StartsWord (w ++ tail) := by
  obtain ⟨c, w, rfl⟩ := List.exists_cons_of_ne_nil h.ne_nil
  rintro d ⟨⟩
  exact h.not_blank c List.mem_cons_self

theorem startsWord_of_beforeBlank (h : beforeBlank cs ≠ []) : StartsWord cs := by
  cases cs with
  | nil => exact absurd rfl h
  | cons c cs =>
    rintro d ⟨⟩
    by_contra hc
    exact h (List.takeWhile_cons_of_neg (by simpa using hc))

/-- A text falls in one way only into the words that come first and what starts with the next word. -/
theorem SetsApart.unique {a b x y : List Char} {ws : List (List Char)} (ha : SetsApart a ws) (hb : SetsApart b ws)
    (hx : StartsWord x) (hy : StartsWord y) (h : a ++ x = b ++ y) : a = b ∧ x = y := by
  -- What one of the two first parts has more holds no word, and it starts with no blank.
  have hsame : ∀ {a d x : List Char}, SetsApart a ws → SetsApart (a ++ d) ws → StartsWord (d ++ x) → d = [] := by
    intro a d x ha had hd
    have hwords := had.words_eq
    rw [ha d, List.append_right_eq_self, words_eq_nil_iff] at hwords
    cases d with
    | nil => rfl
    | cons c d =>
      have hc := hd c rfl
      rw [hwords c List.mem_cons_self] at hc
      cases hc
  rcases List.append_eq_append_iff.1 h with ⟨d, rfl, rfl⟩ | ⟨d, rfl, rfl⟩
  · obtain rfl := hsame ha hb hx
    simp
  · obtain rfl := hsame hb ha hy
    simp

theorem endsWord_of_blanks (h : ∀ c ∈ cs, isBlank c = true) : EndsWord cs := by
  cases cs with
  | nil => exact endsWord_nil
  | cons c cs => exact endsWord_cons.2 (h c List.mem_cons_self)

end

end SwiftForge.Text
