import SwiftForge.Proofs.Json.Number

/-! The compact text of a JSON value is read as that value, with no fault in it and each float as it is read of its own
    text. What a text may hold is bounded in two ways: numbers have to be ones that the text can spell, and containers
    may nest only so deep. -/

namespace SwiftForge

namespace Json

mutual

/-- A value as it is read when nothing is wrong with it. -/
def reading : Json → Reading
  | .null => .null
  | .bool value => .bool value
  | .integer value => .integer value
  | .float value => .float value
  | .string value => .string value
  | .array items => .array false (itemReadings items) .closed
  | .object members => .object false (memberReadings members) .closed

def itemReadings : List Json → List Reading
  | [] => []
  | item :: rest => item.reading :: itemReadings rest

def memberReadings : List (String × Json) → List (Reading × Reading)
  | [] => []
  | (key, value) :: rest => (.string key, value.reading) :: memberReadings rest

end

mutual

/-- How many arrays and objects stand inside each other. -/
def nesting : Json → Nat
  | .array items => itemsNesting items + 1
  | .object members => membersNesting members + 1
  | _ => 0

def itemsNesting : List Json → Nat
  | [] => 0
  | item :: rest => max item.nesting (itemsNesting rest)

def membersNesting : List (String × Json) → Nat
  | [] => 0
  | (_, value) :: rest => max value.nesting (membersNesting rest)

end

mutual

/-- Every number has a spelling of its own: integers of at most 64 bits, and doubles of a certain kind. -/
def Spellable (double : Double → Prop) : Json → Prop
  | .integer value => -(2 ^ 63) ≤ value ∧ value < 2 ^ 64
  | .float value => double value
  | .array items => ItemsSpellable double items
  | .object members => MembersSpellable double members
  | _ => True

def ItemsSpellable (double : Double → Prop) : List Json → Prop
  | [] => True
  | item :: rest => item.Spellable double ∧ ItemsSpellable double rest

def MembersSpellable (double : Double → Prop) : List (String × Json) → Prop
  | [] => True
  | (_, value) :: rest => value.Spellable double ∧ MembersSpellable double rest

end

theorem itemsSpellable_iff (double : Double → Prop) (items : List Json) :
    ItemsSpellable double items ↔ ∀ item ∈ items, item.Spellable double := by
  induction items with
  | nil => simp [ItemsSpellable]
  | cons item items ih => simp [ItemsSpellable, ih]

theorem membersSpellable_iff (double : Double → Prop) (members : List (String × Json)) :
    MembersSpellable double members ↔ ∀ m ∈ members, m.2.Spellable double := by
  induction members with
  | nil => simp [MembersSpellable]
  | cons m members ih => simp [MembersSpellable, ih]

/-! ### Floats -/

mutual

/-- A value with other floats. -/
def mapFloats (f : Double → Double) : Json → Json
  | .float value => .float (f value)
  | .array items => .array (mapItems f items)
  | .object members => .object (mapMembers f members)
  | value => value

def mapItems (f : Double → Double) : List Json → List Json
  | [] => []
  | item :: rest => item.mapFloats f :: mapItems f rest

def mapMembers (f : Double → Double) : List (String × Json) → List (String × Json)
  | [] => []
  | (key, value) :: rest => (key, value.mapFloats f) :: mapMembers f rest

end

variable {f : Double → Double}

mutual

theorem nesting_mapFloats : (j : Json) → (j.mapFloats f).nesting = j.nesting
  | .null => rfl
  | .bool _ => rfl
  | .integer _ => rfl
  | .float _ => rfl
  | .string _ => rfl
  | .array items => congrArg (· + 1) (nesting_mapItems items)
  | .object members => congrArg (· + 1) (nesting_mapMembers members)

theorem nesting_mapItems : (items : List Json) → itemsNesting (mapItems f items) = itemsNesting items
  | [] => rfl
  | item :: rest => congrArg₂ max (nesting_mapFloats item) (nesting_mapItems rest)

theorem nesting_mapMembers : (members : List (String × Json)) →
    membersNesting (mapMembers f members) = membersNesting members
  | [] => rfl
  | (_, value) :: rest => congrArg₂ max (nesting_mapFloats value) (nesting_mapMembers rest)

end

mutual

/-- Where no float changes, nothing does. -/
theorem mapFloats_eq_self : (j : Json) → j.Spellable (fun d => f d = d) → j.mapFloats f = j
  | .null, _ => rfl
  | .bool _, _ => rfl
  | .integer _, _ => rfl
  | .float _, h => congrArg Json.float h
  | .string _, _ => rfl
  | .array items, h => congrArg Json.array (mapItems_eq_self items h)
  | .object members, h => congrArg Json.object (mapMembers_eq_self members h)

theorem mapItems_eq_self : (items : List Json) → ItemsSpellable (fun d => f d = d) items → mapItems f items = items
  | [], _ => rfl
  | item :: rest, h => congrArg₂ List.cons (mapFloats_eq_self item h.1) (mapItems_eq_self rest h.2)

theorem mapMembers_eq_self : (members : List (String × Json)) → MembersSpellable (fun d => f d = d) members →
    mapMembers f members = members
  | [], _ => rfl
  | (key, value) :: rest, h =>
    congrArg₂ List.cons (congrArg (Prod.mk key) (mapFloats_eq_self value h.1)) (mapMembers_eq_self rest h.2)

end

end Json

namespace Reading
open Json (escapedChar hexDigit)

/-! ### Strings -/

theorem hex4?_control : ∀ n < 32, hex4? '0' '0' (hexDigit (n / 16)) (hexDigit n) = some n := by decide

/-- A numbered escape that is not half of a surrogate pair. -/
theorem readString_numbered {a b c d : Char} {n : Nat} {tail text out : List Char} (hn : hex4? a b c d = some n)
    (hhigh : isHighSurrogate n = false) (hlow : isLowSurrogate n = false)
    (h : readString tail = some (some text, out)) :
    readString ('\\' :: 'u' :: a :: b :: c :: d :: tail) = some (some (Char.ofNat n :: text), out) := by
  rw [readString.eq_def]
  split
  · contradiction
  · rename_i heq
    exact absurd (List.head_eq_of_cons_eq heq) (by decide)
  · rename_i heq
    cases heq
    simp [hn, hhigh, hlow, h]
  · rename_i heq
    cases heq
    simp [hn, hhigh, hlow, h]
  · rename_i hne heq
    cases heq
    exact absurd rfl (hne a b c d tail rfl)
  · rename_i hne heq
    cases heq
    exact absurd rfl (hne 'u' _ rfl)

/-- A character that stands for itself. -/
theorem readString_plain {c : Char} (hquote : c ≠ '"') (hslash : c ≠ '\\') (hcontrol : ¬c.toNat < 32)
    {tail text out : List Char} (h : readString tail = some (some text, out)) :
    readString (c :: tail) = some (some (c :: text), out) := by
  rw [readString.eq_def]
  split
  · contradiction
  · rename_i heq
    cases heq
    exact absurd rfl hquote
  · rename_i heq
    cases heq
    exact absurd rfl hslash
  · rename_i heq
    cases heq
    exact absurd rfl hslash
  · rename_i heq
    cases heq
    exact absurd rfl hslash
  · rename_i heq
    cases heq
    simp [hcontrol, h]

theorem readString_char (c : Char) {tail text out : List Char} (h : readString tail = some (some text, out)) :
    readString (escapedChar c ++ tail) = some (some (c :: text), out) := by
  unfold escapedChar
  split
  · simp [readString, simpleEscape?, h]
  · simp [readString, simpleEscape?, h]
  · simp [readString, simpleEscape?, h]
  · simp [readString, simpleEscape?, h]
  · simp [readString, simpleEscape?, h]
  · simp [readString, simpleEscape?, h]
  · simp [readString, simpleEscape?, h]
  · rename_i hquote hslash _ _ _ _ _
    split
    · rename_i hcontrol
      have hn := hex4?_control c.toNat hcontrol
      have := readString_numbered hn (by simp [isHighSurrogate]; omega) (by simp [isLowSurrogate]; omega) h
      rwa [Char.ofNat_toNat] at this
    · rename_i hcontrol
      exact readString_plain hquote hslash hcontrol h

theorem readString_escaped (cs rest : List Char) :
    readString (cs.flatMap escapedChar ++ '"' :: rest) = some (some cs, rest) := by
  induction cs with
  | nil => simp [readString]
  | cons c cs ih =>
    rw [List.flatMap_cons, List.append_assoc]
    exact readString_char c ih

theorem readText_stringText (s : String) (rest : List Char) :
    ∃ tail, (Json.stringText s).toList ++ rest = '"' :: tail ∧ readText tail = (.string s, some rest) := by
  refine ⟨s.toList.flatMap escapedChar ++ '"' :: rest, by simp [Json.stringText], ?_⟩
  rw [readText, readString_escaped]
  simp

/-! ### Values -/

/-- What may follow a value inside a text: nothing, or a mark that ends it. -/
def EndsValue (rest : List Char) : Prop := ∀ c ∈ rest.head?, c = ',' ∨ c = ']' ∨ c = '\x7d'

theorem EndsValue.endsNumber {rest : List Char} (h : EndsValue rest) : EndsNumber rest := fun c hc => by
  rcases h c hc with rfl | rfl | rfl <;> decide

theorem skipSpace_cons {c : Char} {cs : List Char} (h : isSpace c = false) : skipSpace (c :: cs) = c :: cs := by
  simp [skipSpace, h]

theorem ne_of_isDigit {c d : Char} (hc : c.isDigit = true) (hd : d.isDigit = false) : c ≠ d := by
  rintro rfl
  rw [hc] at hd
  exact absurd hd (by simp)

theorem isSpace_of_isDigit {c : Char} (h : c.isDigit = true) : isSpace c = false := by
  have hne : ∀ d, d.isDigit = false → c ≠ d := fun _ => ne_of_isDigit h
  simp [isSpace, hne ' ' rfl, hne '\n' rfl, hne '\t' rfl, hne '\r' rfl]

theorem readValue_digit (fuel depth : Nat) {c : Char} (hc : c.isDigit = true) (cs : List Char) :
    readValue (fuel + 1) depth (c :: cs) = scalar (readNumber false (c :: cs)) := by
  have hne : ∀ d, d.isDigit = false → c ≠ d := fun _ => ne_of_isDigit hc
  rw [readValue, skipSpace_cons (isSpace_of_isDigit hc)]
  split
  · exact absurd (List.head_eq_of_cons_eq ‹_›) (hne _ rfl)
  · exact absurd (List.head_eq_of_cons_eq ‹_›) (hne _ rfl)
  · exact absurd (List.head_eq_of_cons_eq ‹_›) (hne _ rfl)
  · exact absurd (List.head_eq_of_cons_eq ‹_›) (hne _ rfl)
  · exact absurd (List.head_eq_of_cons_eq ‹_›) (hne _ rfl)
  · exact absurd (List.head_eq_of_cons_eq ‹_›) (hne _ rfl)
  · exact absurd (List.head_eq_of_cons_eq ‹_›) (hne _ rfl)
  · rename_i heq
    cases heq
    rw [if_pos hc]
  · contradiction

theorem readValue_spells {text : List Char} {r : Reading} (h : Spells text r) (fuel depth : Nat)
    {rest : List Char} (hr : EndsValue rest) : readValue (fuel + 1) depth (text ++ rest) = (r, some rest) := by
  obtain ⟨negative, body, rfl, ⟨c, cs, rfl, hc⟩, hread⟩ := h
  have hread := hread rest hr.endsNumber
  cases negative with
  | true =>
    rw [if_pos rfl, List.cons_append, readValue, skipSpace_cons rfl]
    simp only
    rw [hread]
    rfl
  | false =>
    rw [if_neg (by simp), List.cons_append, readValue_digit fuel depth hc, ← List.cons_append, hread]
    rfl

theorem ofText_spells {text : List Char} {r : Reading} (h : Spells text r) : ofText text = (r, true) := by
  have hnil : EndsValue [] := by simp [EndsValue]
  have hread := readValue_spells h (3 * text.length + 2) 0 hnil
  rw [List.append_nil] at hread
  rw [ofText, hread]
  rfl

end Reading

/-! ### Floats read again -/

namespace Double

/-- What is read of the text of a double. -/
def reread (d : Double) : Double :=
  match Reading.ofText (Json.floatText d).toList with
  | (.float value, _) => value
  | _ => d

/-- The text of a double is read as the double itself. -/
def ReadsBack (d : Double) : Prop := Reading.ofText (Json.floatText d).toList = (.float d, true)

variable {d : Double} {negative : Bool} {m : Nat} {q : Int}

theorem reread_eq (hview : d.view = .finite negative m q) : d.reread = Reading.rescaled negative m q := by
  rw [reread, Reading.ofText_spells (Reading.spells_floatText hview).2]

theorem spells_reread (hd : d.isFinite = true) : Reading.Spells (Json.floatText d).toList (.float d.reread) := by
  obtain ⟨negative, m, q, hview⟩ := exists_view hd
  rw [reread_eq hview]
  exact (Reading.spells_floatText hview).2

theorem ReadsBack.reread_eq_self (h : d.ReadsBack) : d.reread = d := by
  rw [reread, h]

theorem readsBack_iff (hd : d.isFinite = true) : d.ReadsBack ↔ d.reread = d := by
  refine ⟨ReadsBack.reread_eq_self, fun h => ?_⟩
  rw [ReadsBack, Reading.ofText_spells (spells_reread hd), h]

/-- A double is read as itself if the digits that are printed fit into 53 bits, with the zeros behind them, and the
    power of ten that goes with them is at most the 22nd. -/
theorem readsBack_of_digits (hview : d.view = .finite negative m q)
    (hdigits : (Reading.printedParts Json.floatFormat (Decimal.shortest .toEven m q)).1 < 2 ^ 53)
    (hlow : -22 ≤ (Reading.printedParts Json.floatFormat (Decimal.shortest .toEven m q)).2)
    (hhigh : (Reading.printedParts Json.floatFormat (Decimal.shortest .toEven m q)).2 ≤ 22) : d.ReadsBack := by
  rw [readsBack_iff (isFinite_of_view hview), reread_eq hview]
  exact Reading.rescaled_eq_self hview hdigits hlow hhigh

theorem readsBack_half : ReadsBack ⟨0x3FE0000000000000⟩ := by
  have hview : (Double.mk 0x3FE0000000000000).view = .finite false (2 ^ 52) (-53) := by decide
  exact readsBack_of_digits hview (by decide) (by decide) (by decide)

end Double

namespace Reading

/-! ### Containers and what stands in them -/

/-- The first character of a value is no blank and does not end an array. -/
theorem exists_head_text (j : Json) (hj : j.Spellable fun d => d.isFinite = true) :
    ∃ c cs, j.text.toList = c :: cs ∧ isSpace c = false ∧ c ≠ ']' := by
  have hnumber : ∀ {text : List Char} {r : Reading}, Spells text r →
      ∃ c cs, text = c :: cs ∧ isSpace c = false ∧ c ≠ ']' := by
    rintro text r ⟨negative, body, rfl, ⟨c, cs, rfl, hc⟩, -⟩
    cases negative with
    | true => exact ⟨'-', c :: cs, rfl, rfl, by decide⟩
    | false => exact ⟨c, cs, rfl, isSpace_of_isDigit hc, ne_of_isDigit hc rfl⟩
  cases j with
  | null => exact ⟨'n', _, by simp [Json.text]; rfl, rfl, by decide⟩
  | bool value =>
    cases value with
    | true => exact ⟨'t', _, by simp [Json.text]; rfl, rfl, by decide⟩
    | false => exact ⟨'f', _, by simp [Json.text]; rfl, rfl, by decide⟩
  | integer value => exact hnumber (spells_intText hj.1 hj.2)
  | float value => exact hnumber (Double.spells_reread hj)
  | string value => exact ⟨'"', _, by simp [Json.text, Json.stringText]; rfl, rfl, by decide⟩
  | array items => exact ⟨'[', _, by simp [Json.text]; rfl, rfl, by decide⟩
  | object members => exact ⟨'\x7b', _, by simp [Json.text]; rfl, rfl, by decide⟩

theorem toList_joinWith_cons (s t : String) (rest : List String) :
    (Text.joinWith "," (s :: t :: rest)).toList = s.toList ++ ',' :: (Text.joinWith "," (t :: rest)).toList := by
  simp [Text.joinWith]

theorem endsValue_comma (rest : List Char) : EndsValue (',' :: rest) := by
  rintro c ⟨⟩
  exact Or.inl rfl

theorem endsValue_bracket (rest : List Char) : EndsValue (']' :: rest) := by
  rintro c ⟨⟩
  exact Or.inr (Or.inl rfl)

theorem endsValue_brace (rest : List Char) : EndsValue ('\x7d' :: rest) := by
  rintro c ⟨⟩
  exact Or.inr (Or.inr rfl)

/-! ### Containers -/

/-- What is read of an array, given what its items are read as. -/
theorem readValue_array {fuel depth : Nat} {c : Char} {cs rest : List Char} {items : List Reading}
    (hspace : isSpace c = false) (hc : c ≠ ']') (hd : depth < nestingLimit)
    (h : readItem fuel (depth + 1) (c :: cs) = (items, .closed, some rest)) :
    readValue (fuel + 2) depth ('[' :: c :: cs) = (.array false items .closed, some rest) := by
  have hitems : readItems (fuel + 1) (depth + 1) (c :: cs) = (items, .closed, some rest) := by
    rw [readItems, skipSpace_cons hspace]
    split
    · exact absurd (List.head_eq_of_cons_eq ‹_›) hc
    · exact h
  rw [readValue, skipSpace_cons rfl]
  simp only
  rw [hitems]
  simp only [decide_eq_false (Nat.not_le.2 hd)]

theorem readItem_last {fuel depth : Nat} {cs rest : List Char} {r : Reading}
    (h : readValue fuel depth cs = (r, some (']' :: rest))) :
    readItem (fuel + 1) depth cs = ([r], .closed, some rest) := by
  rw [readItem, h]
  simp only [Option.map_some, skipSpace_cons (c := ']') rfl]

theorem readItem_next {fuel depth : Nat} {c : Char} {cs tail rest : List Char} {r : Reading}
    {items : List Reading} (h : readValue fuel depth cs = (r, some (',' :: c :: tail)))
    (hspace : isSpace c = false) (hc : c ≠ ']')
    (hitems : readItem fuel depth (c :: tail) = (items, .closed, some rest)) :
    readItem (fuel + 1) depth cs = (r :: items, .closed, some rest) := by
  rw [readItem, h]
  simp only [Option.map_some, skipSpace_cons (c := ',') rfl, skipSpace_cons hspace]
  split
  · exact absurd (List.head_eq_of_cons_eq ‹_›) hc
  · rw [hitems]

/-- What is read of an object, given what its members are read as. -/
theorem readValue_object {fuel depth : Nat} {cs rest : List Char} {members : List (Reading × Reading)}
    (hd : depth < nestingLimit) (h : readMember fuel (depth + 1) cs = (members, .closed, some rest)) :
    readValue (fuel + 2) depth ('\x7b' :: '"' :: cs) = (.object false members .closed, some rest) := by
  have hmembers : readMembers (fuel + 1) (depth + 1) ('"' :: cs) = (members, .closed, some rest) := by
    rw [readMembers, skipSpace_cons rfl]
    exact h
  rw [readValue, skipSpace_cons rfl]
  simp only
  rw [hmembers]
  simp only [decide_eq_false (Nat.not_le.2 hd)]

theorem readMember_last {fuel depth : Nat} {cs tail rest : List Char} {key r : Reading}
    (hkey : readText cs = (key, some (':' :: tail)))
    (h : readValue fuel depth tail = (r, some ('\x7d' :: rest))) :
    readMember (fuel + 1) depth cs = ([(key, r)], .closed, some rest) := by
  rw [readMember, hkey]
  simp only [Option.map_some, skipSpace_cons (c := ':') rfl]
  rw [h]
  simp only [Option.map_some, skipSpace_cons (c := '\x7d') rfl]

theorem readMember_next {fuel depth : Nat} {cs tail next rest : List Char} {key r : Reading}
    {members : List (Reading × Reading)} (hkey : readText cs = (key, some (':' :: tail)))
    (h : readValue fuel depth tail = (r, some (',' :: '"' :: next)))
    (hmembers : readMember fuel depth next = (members, .closed, some rest)) :
    readMember (fuel + 1) depth cs = ((key, r) :: members, .closed, some rest) := by
  rw [readMember, hkey]
  simp only [Option.map_some, skipSpace_cons (c := ':') rfl]
  rw [h]
  simp only [Option.map_some, skipSpace_cons (c := ',') rfl, skipSpace_cons (c := '"') rfl]
  rw [hmembers]

/-- A text that begins with the text of a value begins like the value. -/
theorem exists_head_append (j : Json) (hj : j.Spellable fun d => d.isFinite = true) (rest : List Char) :
    ∃ c cs, j.text.toList ++ rest = c :: cs ∧ isSpace c = false ∧ c ≠ ']' := by
  obtain ⟨c, cs, htext, hspace, hc⟩ := exists_head_text j hj
  exact ⟨c, cs ++ rest, by rw [htext, List.cons_append], hspace, hc⟩

theorem toList_text_array (item : Json) (items : List Json) (rest : List Char) :
    (Json.array (item :: items)).text.toList ++ rest =
      '[' :: ((Text.joinWith "," (Json.itemTexts (item :: items))).toList ++ ']' :: rest) := by
  simp [Json.text]

theorem toList_text_object (member : String × Json) (members : List (String × Json)) (rest : List Char) :
    (Json.object (member :: members)).text.toList ++ rest =
      '\x7b' :: ((Text.joinWith "," (Json.memberTexts (member :: members))).toList ++ '\x7d' :: rest) := by
  simp [Json.text]

theorem exists_succ {fuel n : Nat} (h : n + 1 ≤ fuel) : ∃ m, fuel = m + 1 ∧ n ≤ m :=
  ⟨fuel - 1, by omega, by omega⟩

theorem length_text_pos (j : Json) (hj : j.Spellable fun d => d.isFinite = true) : 1 ≤ j.text.toList.length := by
  obtain ⟨c, cs, htext, -⟩ := exists_head_text j hj
  simp [htext]

theorem exists_head_items (item : Json) (items : List Json) (hj : item.Spellable fun d => d.isFinite = true)
    (rest : List Char) :
    ∃ c cs, (Text.joinWith "," (Json.itemTexts (item :: items))).toList ++ rest = c :: cs ∧
      isSpace c = false ∧ c ≠ ']' := by
  cases items with
  | nil => exact exists_head_append item hj rest
  | cons next items =>
    obtain ⟨c, cs, htext, hhead⟩ := exists_head_append item hj
      (',' :: (Text.joinWith "," (Json.itemTexts (next :: items))).toList ++ rest)
    refine ⟨c, cs, ?_, hhead⟩
    rw [← htext, Json.itemTexts, Json.itemTexts, toList_joinWith_cons]
    simp

/-- The texts of members after a first one, with the separator in front of them. -/
theorem toList_memberTexts_cons (key : String) (value : Json) (member : String × Json)
    (members : List (String × Json)) (rest : List Char) :
    (Text.joinWith "," (Json.memberTexts ((key, value) :: member :: members))).toList ++ rest =
      (Json.stringText key).toList ++ ':' :: (value.text.toList ++
        ',' :: ((Text.joinWith "," (Json.memberTexts (member :: members))).toList ++ rest)) := by
  rw [Json.memberTexts, Json.memberTexts, toList_joinWith_cons]
  simp

/-- The text of a value is read as the value, whatever may follow it; three steps for each character are
    enough. -/
def Reads (j : Json) : Prop :=
  ∀ (fuel depth : Nat) (rest : List Char), depth + j.nesting ≤ nestingLimit → EndsValue rest →
    3 * j.text.toList.length ≤ fuel →
      readValue fuel depth (j.text.toList ++ rest) = ((j.mapFloats Double.reread).reading, some rest)

theorem readItem_text (depth : Nat) (rest : List Char) (items : List Json) (fuel : Nat) (hne : items ≠ [])
    (hj : Json.ItemsSpellable (fun d => d.isFinite = true) items) (hitems : ∀ item ∈ items, Reads item)
    (hd : depth + Json.itemsNesting items ≤ nestingLimit)
    (hf : 3 * (Text.joinWith "," (Json.itemTexts items)).toList.length + 1 ≤ fuel) :
    readItem fuel depth ((Text.joinWith "," (Json.itemTexts items)).toList ++ ']' :: rest) =
      (Json.itemReadings (Json.mapItems Double.reread items), .closed, some rest) := by
  induction items generalizing fuel with
  | nil => exact absurd rfl hne
  | cons item items ih =>
    obtain ⟨fuel, rfl, hfuel⟩ := exists_succ hf
    rw [Json.itemsNesting] at hd
    cases items with
    | nil => exact readItem_last (hitems item (by simp) fuel depth _ (by omega) (endsValue_bracket rest) hfuel)
    | cons next items =>
      rw [Json.itemTexts, Json.itemTexts, toList_joinWith_cons, ← Json.itemTexts] at hfuel ⊢
      rw [List.length_append, List.length_cons] at hfuel
      obtain ⟨c, cs, hhead, hspace, hc⟩ := exists_head_items next items hj.2.1 (']' :: rest)
      have hrest := ih fuel (by simp) hj.2 (fun i hi => hitems i (List.mem_cons_of_mem item hi)) (by omega)
        (by omega)
      rw [hhead] at hrest
      rw [List.append_assoc, List.cons_append, hhead]
      exact readItem_next (hitems item (by simp) fuel depth _ (by omega) (endsValue_comma _) (by omega)) hspace hc hrest

/-- Members are read from the quote of the first key on. -/
theorem readMember_text (depth : Nat) (rest : List Char) (members : List (String × Json)) (fuel : Nat)
    (hne : members ≠ []) (hmembers : ∀ m ∈ members, Reads m.2)
    (hd : depth + Json.membersNesting members ≤ nestingLimit)
    (hf : 3 * (Text.joinWith "," (Json.memberTexts members)).toList.length + 1 ≤ fuel) :
    ∃ tail, (Text.joinWith "," (Json.memberTexts members)).toList ++ '\x7d' :: rest = '"' :: tail ∧
      readMember fuel depth tail =
        (Json.memberReadings (Json.mapMembers Double.reread members), .closed, some rest) := by
  induction members generalizing fuel with
  | nil => exact absurd rfl hne
  | cons member members ih =>
    obtain ⟨key, value⟩ := member
    obtain ⟨fuel, rfl, hfuel⟩ := exists_succ hf
    rw [Json.membersNesting] at hd
    have hvalue : Reads value := hmembers (key, value) (by simp)
    cases members with
    | nil =>
      obtain ⟨tail, htail, hkey⟩ := readText_stringText key (':' :: (value.text.toList ++ '\x7d' :: rest))
      have hjoin : (Text.joinWith "," (Json.memberTexts [(key, value)])).toList =
          (Json.stringText key).toList ++ ':' :: value.text.toList := by simp [Json.memberTexts, Text.joinWith]
      rw [hjoin, List.length_append, List.length_cons] at hfuel
      refine ⟨tail, by rw [hjoin, ← htail, List.append_assoc, List.cons_append], ?_⟩
      exact readMember_last hkey (hvalue fuel depth _ (by omega) (endsValue_brace rest) (by omega))
    | cons next members =>
      have hlength := congrArg List.length (toList_memberTexts_cons key value next members [])
      simp only [List.append_nil, List.length_cons, List.length_append] at hlength
      -- The others take less text, so the fuel that is left will do for them.
      obtain ⟨tail, htail, hrest⟩ := ih fuel (by simp) (fun m hm => hmembers m (List.mem_cons_of_mem _ hm))
        (by omega) (by omega)
      obtain ⟨start, hstart, hkey⟩ := readText_stringText key (':' :: (value.text.toList ++ ',' :: '"' :: tail))
      refine ⟨start, by rw [toList_memberTexts_cons, htail, hstart], ?_⟩
      exact readMember_next hkey (hvalue fuel depth _ (by omega) (endsValue_comma _) (by omega)) hrest

theorem reads_scalar {j : Json} (hj : j.Spellable fun d => d.isFinite = true)
    (h : ∀ (fuel depth : Nat) (rest : List Char), EndsValue rest →
      readValue (fuel + 1) depth (j.text.toList ++ rest) = ((j.mapFloats Double.reread).reading, some rest)) :
    Reads j := by
  intro fuel depth rest _ hr hf
  have hpos := length_text_pos j hj
  obtain ⟨fuel, rfl, -⟩ := exists_succ (n := 0) (by omega : 0 + 1 ≤ fuel)
  exact h fuel depth rest hr

theorem reads_array {items : List Json} (hj : Json.ItemsSpellable (fun d => d.isFinite = true) items)
    (hitems : ∀ item ∈ items, Reads item) : Reads (.array items) := by
  intro fuel depth rest hd _ hf
  rw [Json.nesting] at hd
  cases items with
  | nil =>
    have hlimit : ¬nestingLimit ≤ depth := by omega
    obtain ⟨fuel, rfl⟩ : ∃ n, fuel = n + 2 :=
      ⟨fuel - 2, by simp [Json.text, Json.itemTexts, Text.joinWith] at hf; omega⟩
    simp [Json.text, Json.itemTexts, Text.joinWith, readValue, readItems, skipSpace, isSpace, Json.mapFloats,
      Json.mapItems, Json.reading, Json.itemReadings, hlimit]
  | cons item items =>
    obtain ⟨c, cs, hhead, hspace, hc⟩ := exists_head_items item items hj.1 (']' :: rest)
    have hlength := congrArg List.length (toList_text_array item items [])
    simp only [List.append_nil, List.length_cons, List.length_append, List.length_nil] at hlength
    obtain ⟨fuel, rfl⟩ : ∃ n, fuel = n + 2 := ⟨fuel - 2, by omega⟩
    have hread := readItem_text (depth + 1) rest (item :: items) fuel (by simp) hj
      hitems (by omega) (by omega)
    rw [hhead] at hread
    rw [toList_text_array, hhead]
    exact readValue_array hspace hc (by omega) hread

theorem reads_object {members : List (String × Json)} (hmembers : ∀ m ∈ members, Reads m.2) :
    Reads (.object members) := by
  intro fuel depth rest hd _ hf
  rw [Json.nesting] at hd
  cases members with
  | nil =>
    have hlimit : ¬nestingLimit ≤ depth := by omega
    obtain ⟨fuel, rfl⟩ : ∃ n, fuel = n + 2 :=
      ⟨fuel - 2, by simp [Json.text, Json.memberTexts, Text.joinWith] at hf; omega⟩
    simp [Json.text, Json.memberTexts, Text.joinWith, readValue, readMembers, skipSpace, isSpace, Json.mapFloats,
      Json.mapMembers, Json.reading, Json.memberReadings, hlimit]
  | cons member members =>
    have hlength := congrArg List.length (toList_text_object member members [])
    simp only [List.append_nil, List.length_cons, List.length_append, List.length_nil] at hlength
    obtain ⟨fuel, rfl⟩ : ∃ n, fuel = n + 2 := ⟨fuel - 2, by omega⟩
    obtain ⟨tail, htail, hread⟩ := readMember_text (depth + 1) rest (member :: members) fuel (by simp) hmembers
       (by omega) (by omega)
    rw [toList_text_object, htail]
    exact readValue_object (by omega) hread

theorem reads_of_spellable : (j : Json) → j.Spellable (fun d => d.isFinite = true) → Reads j
  | .null, hj => reads_scalar hj fun _ _ _ _ => by
    simp [Json.text, readValue, skipSpace, isSpace, Json.mapFloats, Json.reading]
  | .bool true, hj => reads_scalar hj fun _ _ _ _ => by
    simp [Json.text, readValue, skipSpace, isSpace, Json.mapFloats, Json.reading]
  | .bool false, hj => reads_scalar hj fun _ _ _ _ => by
    simp [Json.text, readValue, skipSpace, isSpace, Json.mapFloats, Json.reading]
  | .integer _, hj => reads_scalar hj fun _ _ _ => readValue_spells (spells_intText hj.1 hj.2) _ _
  | .float _, hj => reads_scalar hj fun _ _ _ => readValue_spells (Double.spells_reread hj) _ _
  | .string value, hj => reads_scalar hj fun _ _ rest _ => by
    obtain ⟨tail, htail, hread⟩ := readText_stringText value rest
    rw [Json.text, htail, readValue, skipSpace_cons rfl]
    exact hread
  | .array items, hj => reads_array hj fun item hitem =>
    reads_of_spellable item ((Json.itemsSpellable_iff _ items).1 hj item hitem)
  | .object members, hj => reads_object fun (key, value) hm =>
    reads_of_spellable value ((Json.membersSpellable_iff _ members).1 hj (key, value) hm)
termination_by j => sizeOf j
decreasing_by
  · have := List.sizeOf_lt_of_mem hitem
    simp only [Json.array.sizeOf_spec]
    omega
  · have := List.sizeOf_lt_of_mem hm
    simp only [Json.object.sizeOf_spec, Prod.mk.sizeOf_spec] at this ⊢
    omega

/-- The compact text of a value is a whole text, and read as the value, but for the floats in it. -/
theorem ofText_text (j : Json) (hj : j.Spellable fun d => d.isFinite = true) (hd : j.nesting ≤ nestingLimit) :
    ofText j.text.toList = ((j.mapFloats Double.reread).reading, true) := by
  have hread := reads_of_spellable j hj (3 * j.text.toList.length + 3) 0 []
    (by omega) (by simp [EndsValue]) (by omega)
  rw [List.append_nil] at hread
  rw [ofText, hread]
  rfl

end Reading

end SwiftForge
