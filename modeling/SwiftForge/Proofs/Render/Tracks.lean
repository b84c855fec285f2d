import Mathlib.Algebra.BigOperators.Group.List.Basic
import SwiftForge.Proofs.Render.Sites
import SwiftForge.Render.Written

/-! What can be followed through a rendering. A track relates laid out text to the text that is written with a style; it
    has a clause for each operation of the renderer and a weight, which says how much of what is followed a text has. A
    track that holds at the places right below a place holds at the place, and so it holds everywhere: a fact about
    rendering needs its clauses only, and the split over all kinds of nodes is here once.

    The text with a style, the string literals and the lines that stand whole are followed so; a fact about the layout
    alone leaves the written text aside. Matched brackets are not: the halves of a pair are texts of their own, and
    neither is matched. Two trees, of which a track goes along one, are compared by the congruence of the renderer. -/

namespace SwiftForge

open Logged (value_bind value_pure warnings_bind warnings_pure)

namespace Logged

/-- Results that are related, with the same warnings where `W` asks for them. -/
structure Agree (W : Prop) {α β : Type} (R : α → β → Prop) (x : Logged α) (y : Logged β) : Prop where
  value : R x.value y.value
  warnings : W → x.warnings = y.warnings

/-- Results that are related, with the same warnings. -/
abbrev Alike {α β : Type} (R : α → β → Prop) (x : Logged α) (y : Logged β) : Prop := Agree True R x y

namespace Agree

variable {W : Prop} {α β γ δ : Type} {R : α → β → Prop} {S : γ → δ → Prop}

theorem pure {a : α} {b : β} (h : R a b) : Agree W R (Pure.pure a) (Pure.pure b) := ⟨h, fun _ => rfl⟩

theorem bind {x : Logged α} {y : Logged β} {f : α → Logged γ} {g : β → Logged δ} (h : Agree W R x y)
    (hf : ∀ {a b}, R a b → Agree W S (f a) (g b)) : Agree W S (x >>= f) (y >>= g) where
  value := (hf h.value).value
  warnings hW := by rw [warnings_bind, warnings_bind, h.warnings hW, (hf h.value).warnings hW]

theorem refl (x : Logged α) : Agree W Eq x x := ⟨rfl, fun _ => rfl⟩

/-- What has the same result on both sides can go first. -/
theorem bind_eq {x y : Logged α} {f : α → Logged γ} {g : α → Logged δ} (h : Agree W Eq x y)
    (hf : ∀ a, Agree W S (f a) (g a)) : Agree W S (x >>= f) (y >>= g) :=
  h.bind fun hab => hab ▸ hf _

theorem after {x : Logged α} {f : α → Logged γ} {g : α → Logged δ} (hf : ∀ a, Agree W S (f a) (g a)) :
    Agree W S (x >>= f) (x >>= g) := (refl x).bind_eq hf

theorem eq {x y : Logged α} (h : Alike Eq x y) : x = y := by
  obtain ⟨value, warnings⟩ := x
  obtain ⟨rfl, hwarnings⟩ := h
  obtain rfl := hwarnings trivial
  rfl

end Agree

end Logged

open Logged (Agree Alike)

/-! ### Weights -/

/-- What places weigh together. -/
def totalWeight {M : Type} [AddCommMonoid M] (w : Site → M) (sites : List Site) : M := (sites.map w).sum

section

variable {M : Type} [AddCommMonoid M] (w : Site → M)

@[simp] theorem totalWeight_nil : totalWeight w [] = 0 := rfl

@[simp] theorem totalWeight_cons (s : Site) (rest : List Site) :
    totalWeight w (s :: rest) = w s + totalWeight w rest := List.sum_cons

@[simp] theorem totalWeight_append (a b : List Site) : totalWeight w (a ++ b) = totalWeight w a + totalWeight w b := by
  rw [totalWeight, List.map_append, List.sum_append]
  rfl

end

/-- The value of a literal that is a string. -/
def Literal.strings : Literal → List String
  | .string value => [value]
  | _ => []

def Expr.strings : Expr → List String
  | .literal value => value.strings
  | _ => []

/-- The string literals at a place itself. The raw value of an enum case is written where the case is declared. -/
def Site.strings : Site → List String
  | .statement (.expression e) | .requirement (.expression e) | .slot _ (.expression e) => e.strings
  | .statement (.enumCase _ rawValue) | .requirement (.enumCase _ rawValue) => rawValue.toList.flatMap Literal.strings
  | _ => []

/-! ### Tracks -/

/-- A relation between the layout of a text and the text as it is written, and one between fragments with text of the
    one and of the other kind. Only string literals have a weight of their own. -/
structure Track (indent : Indent) (M : Type) [AddCommMonoid M] where
  text : M → Inline → String → Prop
  fragments : M → List Fragment → List Fragment → Prop
  own : String → M
  empty : text 0 ∅ ""
  ofText (s : String) : text 0 (Inline.ofText s) s
  ofString (value : String) : text (own value) (Inline.ofText (swiftString value)) (swiftString value)
  append {m n : M} {t u : Inline} {s v : String} : text m t s → text n u v → text (m + n) (t ++ u) (s ++ v)
  closure {m : M} {fs gs : List Fragment} (signature : Option String) : fragments m fs gs →
    text m (closureInline signature (some (Fragment.linesOf 0 fs)))
      (Written.closureText signature (some (Written.nestedText indent gs)))
  nil : fragments 0 [] []
  concat {m n : M} {fs gs fs' gs' : List Fragment} : fragments m fs gs → fragments n fs' gs' →
    fragments (m + n) (fs ++ fs') (gs ++ gs')
  line {m : M} {t : Inline} {s : String} : text m t s → fragments m [.line t] [Written.line s]
  block {m n k : M} {t u : Inline} {s v : String} {fs gs : List Fragment} : text m t s → fragments n fs gs →
    text k u v → fragments (m + n + k) [.block t fs (some u)] [.block (.ofText s) gs (some (.ofText v))]
  openBlock {m n : M} {t : Inline} {s : String} {fs gs : List Fragment} : text m t s → fragments n fs gs →
    fragments (m + n) [.block t fs none] [.block (.ofText s) gs none]
  clause {m : M} {fs gs : List Fragment} : fragments m fs gs → fragments m [clauseBody fs] [clauseBody gs]
  blank : fragments 0 [.blank] [.blank]
  comments (text : String) : fragments 0 (Fragment.comments text) (Fragment.comments text)
  docComments (text : String) : fragments 0 (Fragment.docComments text) (Fragment.docComments text)

namespace Track

variable {indent : Indent} {M : Type} [AddCommMonoid M] (K : Track indent M)

/-! ### Derived operations -/

section

variable {K}
variable {m n : M} {t u : Inline} {s v : String}

theorem weighed {x : Logged (List Fragment)} {y : Logged (List Fragment)} (h : Alike (K.fragments m) x y)
    (heq : m = n) : Alike (K.fragments n) x y := heq ▸ h

theorem weighedText {x : Logged Inline} {y : Logged String} (h : Alike (K.text m) x y) (heq : m = n) :
    Alike (K.text n) x y := heq ▸ h

/-- Text behind a text that has no weight. -/
theorem behind (h : K.text m t s) (hlead : K.text 0 u v) : K.text m (u ++ t) (v ++ s) := by
  have hall := K.append hlead h
  rwa [zero_add] at hall

theorem after (h : K.text m t s) (lead : String) : K.text m (Inline.ofText lead ++ t) (lead ++ s) :=
  behind h (K.ofText lead)

theorem before (h : K.text m t s) (trail : String) : K.text m (t ++ Inline.ofText trail) (s ++ trail) := by
  have hall := K.append h (K.ofText trail)
  rwa [add_zero] at hall

theorem between (h : K.text m t s) (lead trail : String) :
    K.text m (Inline.ofText lead ++ t ++ Inline.ofText trail) (lead ++ s ++ trail) := before (after h lead) trail

theorem braced (h : K.text m t s) {fs gs : List Fragment} (hbody : K.fragments n fs gs) :
    K.fragments (m + n) [.braced t fs] [Written.braced s gs] := by
  have hall := K.block h hbody (K.ofText "\x7d")
  rwa [add_zero] at hall

/-- Fragments below others that have no weight. -/
theorem below {fs gs above : List Fragment} (h : K.fragments m fs gs) (habove : K.fragments 0 above above) :
    K.fragments m (above ++ fs) (above ++ gs) := by
  have hall := K.concat habove h
  rwa [zero_add] at hall

theorem flatMap {α : Type} {f : α → List Fragment} (xs : List α) (h : ∀ x, K.fragments 0 (f x) (f x)) :
    K.fragments 0 (xs.flatMap f) (xs.flatMap f) := by
  induction xs with
  | nil => exact K.nil
  | cons x xs ih => exact below ih (h x)

theorem leading (d : Decor) : K.fragments 0 d.leading d.leading := by
  rw [Decor.leading, List.map_eq_flatMap]
  have hcomments := flatMap (K := K) d.comments fun text => K.comments text
  have hdocs := flatMap (K := K) d.doc fun text => K.docComments text
  exact below (flatMap d.attributes fun a => K.line (K.ofText a.text)) (below hdocs hcomments)

end

/-- Inline texts one by one, with the weight of all of them. -/
inductive Texts : M → List Inline → List String → Prop
  | nil : Texts 0 [] []
  | cons {m n : M} {t : Inline} {s : String} {ts : List Inline} {ss : List String} (h : K.text m t s)
      (hrest : Texts n ts ss) : Texts (m + n) (t :: ts) (s :: ss)

/-- A text that may be missing. -/
inductive Maybe : M → Option Inline → Option String → Prop
  | none : Maybe 0 none none
  | some {m : M} {t : Inline} {s : String} (h : K.text m t s) : Maybe m (some t) (some s)

/-- Headers and bodies one by one. -/
inductive Blocks : M → List (Inline × List Fragment) → List (String × List Fragment) → Prop
  | nil : Blocks 0 [] []
  | cons {m n k : M} {t : Inline} {s : String} {fs gs : List Fragment} {bs : List (Inline × List Fragment)}
      {cs : List (String × List Fragment)} (h : K.text m t s) (hbody : K.fragments n fs gs) (hrest : Blocks k bs cs) :
      Blocks (m + n + k) ((t, fs) :: bs) ((s, gs) :: cs)

section

variable {K}
variable {m n : M}

theorem Texts.isEmpty_eq {ts : List Inline} {ss : List String} (h : K.Texts m ts ss) : ts.isEmpty = ss.isEmpty := by
  cases h <;> rfl

theorem Texts.eq_zero {ts : List Inline} {ss : List String} (h : K.Texts m ts ss) (hempty : ts.isEmpty = true) :
    m = 0 := by
  cases h with
  | nil => rfl
  | cons => cases hempty

theorem Texts.joinWith {ts : List Inline} {ss : List String} (h : K.Texts m ts ss) (sep : String) :
    K.text m (Inline.joinWith sep ts) (Text.joinWith sep ss) := by
  induction h with
  | nil => exact K.empty
  | @cons m n t s ts ss h hrest ih =>
    cases hrest with
    | nil =>
      rw [add_zero]
      exact h
    | cons => exact K.append (before h sep) ih

/-- Without arguments a closure takes the place of the parentheses, which weigh nothing. -/
theorem call {k : M} (lead : String) {callee : Inline} {name : String} (hcallee : K.text m callee name)
    {args : List Inline} {texts : List String} (hargs : K.Texts n args texts) {trailing : Option Inline}
    {closure : Option String} (htrailing : K.Maybe k trailing closure) :
    K.text (m + n + k) (callInline lead callee args trailing) (Written.callText lead name texts closure) := by
  have hhead := after hcallee lead
  have hlist := between (hargs.joinWith ", ") "(" ")"
  cases htrailing with
  | none =>
    rw [add_zero]
    exact K.append hhead hlist
  | some hclosure =>
    unfold callInline Written.callText
    dsimp only
    rw [← hargs.isEmpty_eq]
    split
    · rename_i hempty
      rw [hargs.eq_zero hempty, add_zero]
      exact K.append (before hhead " ") hclosure
    · exact K.append (before (K.append hhead hlist) " ") hclosure

theorem Blocks.append {a b : List (Inline × List Fragment)} {c d : List (String × List Fragment)}
    (h : K.Blocks m a c) (h' : K.Blocks n b d) : K.Blocks (m + n) (a ++ b) (c ++ d) := by
  induction h with
  | nil =>
    rw [zero_add]
    exact h'
  | cons h hbody _ ih =>
    rw [add_assoc]
    exact .cons h hbody ih

theorem Blocks.chain {bs : List (Inline × List Fragment)} {cs : List (String × List Fragment)} (h : K.Blocks m bs cs) :
    K.fragments m (Fragment.chain bs) (Written.chain cs) := by
  induction h with
  | nil => exact K.nil
  | cons h hbody hrest ih =>
    cases hrest with
    | nil =>
      rw [add_zero]
      exact braced h hbody
    | cons => exact K.concat (K.openBlock h hbody) ih

end

/-! ### Places -/

/-- A track at a place, with the weight of the place. After `for` a pattern is also written in its binding form. A
    condition list is no text, so its weight must not matter. -/
def At (m : M) : Site → Prop
  | .statement n => Alike (K.fragments m) n.fragments (Written.fragments indent n)
  | .requirement n => Alike (K.fragments m) (SwiftForge.requirements [n]) (Written.requirements indent [n])
  | .slot role n => Alike (K.text m) (n.inline role) (Written.text indent n role) ∧
    ∀ p, role = .loopPattern → n = .pattern p → Alike (K.text m) p.bindingInline (Written.bindingPattern indent p)
  | .conditions _ _ => ∀ {n t s}, K.text n t s → K.text (m + n) t s

variable {K}
variable {w : Site → M}

/-! ### Lists and options of nodes -/

theorem statements {nodes : List Node} (h : ∀ c ∈ nodes.map Site.statement, K.At (w c) c) :
    Alike (K.fragments (totalWeight w (nodes.map .statement))) (SwiftForge.statements nodes)
      (Written.statements indent nodes) := by
  induction nodes with
  | nil => exact .pure K.nil
  | cons node nodes ih =>
    obtain ⟨hnode, hnodes⟩ := List.forall_mem_cons.1 h
    rw [SwiftForge.statements, Written.statements, List.map_cons, totalWeight_cons]
    exact Agree.bind hnode fun hhere => (ih hnodes).bind fun hafter => .pure (K.concat hhere hafter)

end Track

namespace Written

/-- The members of a protocol are written one by one. -/
theorem value_requirements_cons (indent : Indent) (node : Node) (rest : List Node) :
    (requirements indent (node :: rest)).value =
      (requirements indent [node]).value ++ (requirements indent rest).value := by
  cases node with
  | function head params body => cases body <;> simp [requirements]
  | _ => simp [requirements]

theorem warnings_requirements_cons (indent : Indent) (node : Node) (rest : List Node) :
    (requirements indent (node :: rest)).warnings =
      (requirements indent [node]).warnings ++ (requirements indent rest).warnings := by
  cases node with
  | function head params body => cases body <;> simp [requirements]
  | _ => simp [requirements]

end Written

namespace Track

variable {indent : Indent} {M : Type} [AddCommMonoid M] {K : Track indent M} {w : Site → M}

theorem requirements {nodes : List Node} (h : ∀ c ∈ nodes.map Site.requirement, K.At (w c) c) :
    Alike (K.fragments (totalWeight w (nodes.map .requirement))) (SwiftForge.requirements nodes)
      (Written.requirements indent nodes) := by
  induction nodes with
  | nil => exact .pure K.nil
  | cons node nodes ih =>
    obtain ⟨hnode, hnodes⟩ := List.forall_mem_cons.1 h
    rw [List.map_cons, totalWeight_cons]
    refine ⟨?_, fun hwarnings => ?_⟩
    · rw [SwiftForge.value_requirements_cons, Written.value_requirements_cons]
      exact K.concat hnode.value (ih hnodes).value
    · rw [SwiftForge.warnings_requirements_cons, Written.warnings_requirements_cons, hnode.warnings hwarnings,
        (ih hnodes).warnings hwarnings]

theorem texts (role : Role) {nodes : List Node} (h : ∀ c ∈ nodes.map (Site.slot role), K.At (w c) c) :
    Alike (K.Texts (totalWeight w (nodes.map (.slot role)))) (inlines role nodes)
      (Written.texts indent role nodes) := by
  induction nodes with
  | nil => exact .pure .nil
  | cons node nodes ih =>
    obtain ⟨hnode, hnodes⟩ := List.forall_mem_cons.1 h
    rw [inlines, Written.texts, List.map_cons, totalWeight_cons]
    exact Agree.bind hnode.1 fun hhere => (ih hnodes).bind fun hafter => .pure (.cons hhere hafter)

theorem optional (lead : String) (role : Role) {o : Option Node}
    (h : ∀ c ∈ o.toList.map (Site.slot role), K.At (w c) c) :
    Alike (K.text (totalWeight w (o.toList.map (.slot role)))) (optionalInline lead role o)
      (Written.optional indent lead role o) := by
  cases o with
  | none => exact .pure K.empty
  | some node =>
    rw [optionalInline, Written.optional, Option.toList_some, List.map_singleton, totalWeight_cons, totalWeight_nil,
      add_zero]
    exact Agree.bind (List.forall_mem_singleton.1 h).1 fun htext => .pure (after htext lead)

/-! ### Expressions -/

theorem params {list : List Param} (h : ∀ c ∈ list.flatMap Param.sites, K.At (w c) c) :
    Alike (K.Texts (totalWeight w (list.flatMap Param.sites))) (paramInlines list) (Written.params indent list) := by
  induction list with
  | nil => exact .pure .nil
  | cons param list ih =>
    obtain ⟨head, default⟩ := param
    obtain ⟨hdefault, hlist⟩ := List.forall_mem_append.1 h
    rw [paramInlines, Written.params, List.flatMap_cons, totalWeight_append]
    exact (optional " = " .defaultArgument hdefault).bind fun hdefault => (ih hlist).bind fun hafter =>
      .pure (.cons (after hdefault head.text) hafter)

theorem entries {list : List Entry} (h : ∀ c ∈ list.flatMap Entry.sites, K.At (w c) c) :
    Alike (K.Texts (totalWeight w (list.flatMap Entry.sites))) (entryInlines list) (Written.entries indent list) := by
  induction list with
  | nil => exact .pure .nil
  | cons entry list ih =>
    obtain ⟨key, value⟩ := entry
    obtain ⟨hentry, hlist⟩ := List.forall_mem_append.1 h
    obtain ⟨hkey, hrest⟩ := List.forall_mem_cons.1 hentry
    have hvalue := List.forall_mem_singleton.1 hrest
    rw [entryInlines, Written.entries, List.flatMap_cons, totalWeight_append]
    refine hkey.1.bind fun hkey => hvalue.1.bind fun hvalue => (ih hlist).bind fun hafter => .pure ?_
    rw [Entry.sites, totalWeight_cons, totalWeight_cons, totalWeight_nil, add_zero]
    exact .cons (K.append (before hkey ": ") hvalue) hafter

theorem arguments {list : List Argument} (h : ∀ c ∈ list.flatMap Argument.sites, K.At (w c) c) :
    Alike (K.Texts (totalWeight w (list.flatMap Argument.sites))) (argumentInlines list)
      (Written.arguments indent list) := by
  induction list with
  | nil => exact .pure .nil
  | cons argument list ih =>
    obtain ⟨label, value⟩ := argument
    obtain ⟨hvalue, hlist⟩ := List.forall_mem_append.1 h
    unfold argumentInlines Written.arguments
    rw [List.flatMap_cons, totalWeight_append]
    refine (List.forall_mem_singleton.1 hvalue).1.bind fun hvalue => (ih hlist).bind fun hafter => .pure ?_
    rw [Argument.sites, totalWeight_cons, totalWeight_nil, add_zero]
    refine .cons ?_ hafter
    cases label with
    | none => exact after hvalue ""
    | some label => exact behind hvalue (before (K.ofText label) ": ")

/-- What the strings of a literal weigh, and what stands below it. -/
theorem literal {l : Literal} (h : ∀ c ∈ l.sites, K.At (w c) c) :
    Alike (K.text ((l.strings.map K.own).sum + totalWeight w l.sites)) l.inline (Written.literal indent l) := by
  cases l with
  | string value =>
    refine weighedText (.pure (K.ofString value)) ?_
    simp [Literal.strings, Literal.sites]
  | tuple elements =>
    rw [Literal.inline, Written.literal]
    refine (weighedText · (zero_add _).symm) ((texts .tupleElement h).bind fun helements => .pure ?_)
    exact between (helements.joinWith ", ") "(" ")"
  | array elements =>
    rw [Literal.inline, Written.literal]
    refine (weighedText · (zero_add _).symm) ((texts .arrayElement h).bind fun helements => .pure ?_)
    exact between (helements.joinWith ", ") "[" "]"
  | dictionary list =>
    rw [Literal.inline, Written.literal]
    refine (weighedText · (zero_add _).symm) ((entries h).bind fun {ts ss} hentries => .pure ?_)
    rw [← hentries.isEmpty_eq]
    split
    · rename_i hempty
      rw [Literal.sites, hentries.eq_zero hempty]
      exact K.ofText "[:]"
    · exact between (hentries.joinWith ", ") "[" "]"
  | integer value => exact weighedText (.pure (K.ofText _)) (zero_add 0).symm
  | float value => exact weighedText (.pure (K.ofText _)) (zero_add 0).symm
  | boolean value => exact weighedText (.pure (K.ofText _)) (zero_add 0).symm
  | nil => exact weighedText (.pure (K.ofText _)) (zero_add 0).symm
  | reference name => exact weighedText (.pure (K.ofText _)) (zero_add 0).symm

theorem rawValue {o : Option Literal} (h : ∀ c ∈ o.toList.flatMap Literal.sites, K.At (w c) c) :
    Alike (K.text (((o.toList.flatMap Literal.strings).map K.own).sum +
      totalWeight w (o.toList.flatMap Literal.sites))) (rawValueInline o) (Written.rawValue indent o) := by
  cases o with
  | none => exact weighedText (.pure K.empty) (zero_add 0).symm
  | some value =>
    rw [Option.toList_some, List.flatMap_singleton] at h
    rw [rawValueInline, Written.rawValue, Option.toList_some, List.flatMap_singleton, List.flatMap_singleton]
    exact (literal h).bind fun hvalue => .pure (after hvalue " = ")

theorem closureExpr {k : Closure} (h : ∀ c ∈ k.sites, K.At (w c) c) :
    Alike (K.text (totalWeight w k.sites)) k.inline (Written.closure indent k) := by
  obtain ⟨head, body⟩ := k
  rw [Closure.inline, Written.closure]
  refine (statements h).bind fun hbody => .pure ?_
  cases body with
  | nil =>
    cases head.signature? with
    | none => exact K.ofText "\x7b\x7d"
    | some signature => exact between (K.ofText signature) "\x7b " " \x7d"
  | cons node rest => exact K.closure head.signature? hbody

theorem trailing {o : Option Closure} (h : ∀ c ∈ o.toList.flatMap Closure.sites, K.At (w c) c) :
    Alike (K.Maybe (totalWeight w (o.toList.flatMap Closure.sites))) (trailingInline o)
      (Written.trailingClosure indent o) := by
  cases o with
  | none => exact .pure .none
  | some k =>
    rw [Option.toList_some, List.flatMap_singleton] at h ⊢
    rw [trailingInline, Written.trailingClosure]
    exact (closureExpr h).bind fun htext => .pure (.some htext)

/-- What the string of an expression weighs, if it is one, and what stands below it. -/
theorem expr {e : Expr} (h : ∀ c ∈ e.sites, K.At (w c) c) :
    Alike (K.text ((e.strings.map K.own).sum + totalWeight w e.sites)) e.inline (Written.expr indent e) := by
  cases e with
  | literal value => exact literal h
  | call callee args o effects =>
    obtain ⟨hhead, htrailing⟩ := List.forall_mem_append.1 h
    obtain ⟨hcallee, hargs⟩ := List.forall_mem_cons.1 hhead
    rw [Expr.inline, Written.expr]
    refine (weighedText · ?_) (hcallee.1.bind fun hcallee => (arguments hargs).bind fun hargs =>
      (trailing htrailing).bind fun htrailing => .pure (call effects.lead hcallee hargs htrailing))
    simp [Expr.strings, Expr.sites, add_assoc]
  | member base name =>
    rw [Expr.inline, Written.expr]
    refine (weighedText · (zero_add _).symm) ((optional "" .memberBase h).bind fun hbase => .pure ?_)
    exact before (before hbase ".") name
  | binary lhs op rhs isParenthesized =>
    obtain ⟨hlhs, hrest⟩ := List.forall_mem_cons.1 h
    have hrhs := List.forall_mem_singleton.1 hrest
    rw [Expr.inline, Written.expr]
    refine weighedText (m := w (.slot .operand lhs) + w (.slot .operand rhs)) ?_ (by simp [Expr.strings, Expr.sites])
    refine hlhs.1.bind fun hlhs => hrhs.1.bind fun hrhs => .pure ?_
    have htext := K.append (before (before (before hlhs " ") op) " ") hrhs
    cases isParenthesized with
    | true => exact between htext "(" ")"
    | false => exact htext
  | unary op operand =>
    rw [Expr.inline, Written.expr]
    refine (weighedText · ?_) ((List.forall_mem_singleton.1 h).1.bind fun hoperand => .pure (after hoperand op))
    simp [Expr.strings, Expr.sites]
  | postfixed operand mark =>
    rw [Expr.inline, Written.expr]
    refine (weighedText · ?_) ((List.forall_mem_singleton.1 h).1.bind fun hoperand => .pure (before hoperand mark.text))
    simp [Expr.strings, Expr.sites]
  | closure k => exact weighedText (closureExpr h) (zero_add _).symm

/-! ### Patterns -/

mutual

theorem pattern : (p : Pattern) → (∀ c ∈ p.children.map (Site.slot .expressionPattern), K.At (w c) c) →
    Alike (K.text (totalWeight w (p.children.map (.slot .expressionPattern)))) p.inline (Written.pattern indent p)
  | .identifier name, _ => .pure (after (K.ofText name) "let ")
  | .enumCase _ _, _ => .pure (K.ofText _)
  | .wildcard, _ => .pure (K.ofText "_")
  | .tuple elements, h => by
    rw [Pattern.inline, Written.pattern]
    exact (patterns elements h).bind fun helements => .pure (between (helements.joinWith ", ") "(" ")")
  | .expression value, h => by
    rw [Pattern.inline, Written.pattern, Pattern.children, List.map_singleton, totalWeight_cons, totalWeight_nil,
      add_zero]
    exact (List.forall_mem_singleton.1 h).1

theorem patterns : (list : List Pattern) →
    (∀ c ∈ (childrenOfPatterns list).map (Site.slot .expressionPattern), K.At (w c) c) →
    Alike (K.Texts (totalWeight w ((childrenOfPatterns list).map (.slot .expressionPattern)))) (patternInlines list)
      (Written.patterns indent list)
  | [], _ => .pure .nil
  | p :: rest, h => by
    rw [childrenOfPatterns, List.map_append] at h ⊢
    obtain ⟨hp, hrest⟩ := List.forall_mem_append.1 h
    rw [patternInlines, Written.patterns, totalWeight_append]
    exact (pattern p hp).bind fun hhere => (patterns rest hrest).bind fun hafter => .pure (.cons hhere hafter)

end

mutual

theorem bindingPattern : (p : Pattern) → (∀ c ∈ p.children.map (Site.slot .expressionPattern), K.At (w c) c) →
    Alike (K.text (totalWeight w (p.children.map (.slot .expressionPattern)))) p.bindingInline
      (Written.bindingPattern indent p)
  | .identifier name, _ => .pure (K.ofText name)
  | .enumCase _ _, _ => .pure (after (K.ofText _) "case ")
  | .wildcard, _ => .pure (K.ofText "_")
  | .tuple elements, h => by
    rw [Pattern.bindingInline, Written.bindingPattern]
    exact (bindingPatterns elements h).bind fun helements => .pure (between (helements.joinWith ", ") "(" ")")
  | .expression value, h => by
    rw [Pattern.bindingInline, Written.bindingPattern, Pattern.children, List.map_singleton, totalWeight_cons,
      totalWeight_nil, add_zero]
    exact (List.forall_mem_singleton.1 h).1.bind fun htext => .pure (after htext "case ")

theorem bindingPatterns : (list : List Pattern) →
    (∀ c ∈ (childrenOfPatterns list).map (Site.slot .expressionPattern), K.At (w c) c) →
    Alike (K.Texts (totalWeight w ((childrenOfPatterns list).map (.slot .expressionPattern)))) (bindingInlines list)
      (Written.bindingPatterns indent list)
  | [], _ => .pure .nil
  | p :: rest, h => by
    rw [childrenOfPatterns, List.map_append] at h ⊢
    obtain ⟨hp, hrest⟩ := List.forall_mem_append.1 h
    rw [bindingInlines, Written.bindingPatterns, totalWeight_append]
    exact (bindingPattern p hp).bind fun hhere => (bindingPatterns rest hrest).bind fun hafter =>
      .pure (.cons hhere hafter)

end

/-! ### Clauses -/

theorem condition {clause : Condition} (h : ∀ c ∈ clause.sites, K.At (w c) c) :
    Alike (K.text (totalWeight w clause.sites)) clause.inline (Written.condition indent clause) := by
  cases clause with
  | expr value =>
    rw [Condition.inline, Written.condition, Condition.sites, totalWeight_cons, totalWeight_nil, add_zero]
    exact (List.forall_mem_singleton.1 h).1
  | binding keyword name value =>
    rw [Condition.inline, Written.condition]
    refine (optional " = " .boundValue h).bind fun hvalue => .pure ?_
    exact behind hvalue (before (before (K.ofText keyword.keyword) " ") name)
  | caseMatch pattern value =>
    obtain ⟨hpattern, hrest⟩ := List.forall_mem_cons.1 h
    have hvalue := List.forall_mem_singleton.1 hrest
    rw [Condition.inline, Written.condition, Condition.sites, totalWeight_cons, totalWeight_cons, totalWeight_nil,
      add_zero]
    refine hpattern.1.bind fun hpattern => hvalue.1.bind fun hvalue => .pure ?_
    exact K.append (between hpattern "case " " = ") hvalue

theorem clauses {list : List Condition} (h : ∀ c ∈ list.flatMap Condition.sites, K.At (w c) c) :
    Alike (K.Texts (totalWeight w (list.flatMap Condition.sites))) (conditionInlines list)
      (Written.conditions indent list) := by
  induction list with
  | nil => exact .pure .nil
  | cons clause list ih =>
    obtain ⟨hclause, hrest⟩ := List.forall_mem_append.1 h
    rw [conditionInlines, Written.conditions, List.flatMap_cons, totalWeight_append]
    exact (condition hclause).bind fun hhere => (ih hrest).bind fun hafter => .pure (.cons hhere hafter)

/-- A header with a condition list. The list itself is no text, only its clauses are. -/
theorem header {keyword : String} {list : List Condition} (h : ∀ c ∈ sitesOfConditions keyword list, K.At (w c) c)
    (lead trail : String) :
    Alike (fun ts ss => K.text (totalWeight w (sitesOfConditions keyword list))
        (Inline.ofText lead ++ Inline.joinWith ", " ts ++ Inline.ofText trail) (lead ++ Text.joinWith ", " ss ++ trail))
      (conditionInlines list) (Written.conditions indent list) := by
  obtain ⟨hlist, hclauses⟩ := List.forall_mem_cons.1 h
  have htexts := clauses hclauses
  refine ⟨?_, htexts.warnings⟩
  rw [sitesOfConditions, totalWeight_cons]
  exact hlist (between (htexts.value.joinWith ", ") lead trail)

theorem elseIfBlocks {branches : List Branch} (h : ∀ c ∈ branches.flatMap Branch.sites, K.At (w c) c) :
    Alike (K.Blocks (totalWeight w (branches.flatMap Branch.sites))) (SwiftForge.elseIfBlocks branches)
      (Written.elseIfBlocks indent branches) := by
  induction branches with
  | nil => exact .pure .nil
  | cons branch branches ih =>
    obtain ⟨list, body⟩ := branch
    obtain ⟨hbranch, hrest⟩ := List.forall_mem_append.1 h
    obtain ⟨hlist, hbody⟩ := List.forall_mem_append.1 hbranch
    rw [SwiftForge.elseIfBlocks, Written.elseIfBlocks, List.flatMap_cons, totalWeight_append, Branch.sites,
      totalWeight_append]
    exact .after fun _ => (header hlist "\x7d else if " " \x7b").bind fun hheader => (statements hbody).bind
      fun hbody => (ih hrest).bind fun hafter => .pure (.cons hheader hbody hafter)

theorem elseBlock {block : Option (List Node)} (h : ∀ c ∈ (block.getD []).map Site.statement, K.At (w c) c) :
    Alike (K.Blocks (totalWeight w ((block.getD []).map .statement))) (SwiftForge.elseBlock block)
      (Written.elseBlock indent block) := by
  cases block with
  | none => exact .pure .nil
  | some body =>
    rw [SwiftForge.elseBlock, Written.elseBlock]
    refine (statements h).bind fun hbody => .pure ?_
    have hblock := Blocks.cons (K.ofText "\x7d else \x7b") hbody .nil
    rwa [zero_add, add_zero] at hblock

theorem switchClauses {list : List SwitchCase} (h : ∀ c ∈ list.flatMap SwitchCase.sites, K.At (w c) c) :
    Alike (K.fragments (totalWeight w (list.flatMap SwitchCase.sites))) (SwiftForge.switchClauses list)
      (Written.switchClauses indent list) := by
  induction list with
  | nil => exact .pure K.nil
  | cons clause list ih =>
    obtain ⟨patterns, guard, body⟩ := clause
    obtain ⟨hclause, hrest⟩ := List.forall_mem_append.1 h
    obtain ⟨hlabel, hbody⟩ := List.forall_mem_append.1 hclause
    obtain ⟨hpatterns, hguard⟩ := List.forall_mem_append.1 hlabel
    rw [SwiftForge.switchClauses, Written.switchClauses, List.flatMap_cons, totalWeight_append, SwitchCase.sites,
      totalWeight_append, totalWeight_append]
    refine (texts .casePattern hpatterns).bind fun hpatterns => ?_
    refine (optional " where " .caseGuard hguard).bind fun hguard => (statements hbody).bind fun hbody => ?_
    refine (ih hrest).bind fun hafter => .pure ?_
    have hline := before (K.append (after (hpatterns.joinWith ", ") "case ") hguard) ":"
    exact K.concat (K.concat (K.line hline) (K.clause hbody)) hafter

theorem defaultClause {block : Option (List Node)} (h : ∀ c ∈ (block.getD []).map Site.statement, K.At (w c) c) :
    Alike (K.fragments (totalWeight w ((block.getD []).map .statement))) (SwiftForge.defaultClause block)
      (Written.defaultClause indent block) := by
  cases block with
  | none => exact .pure K.nil
  | some body =>
    rw [SwiftForge.defaultClause, Written.defaultClause]
    exact (statements h).bind fun hbody => .pure (K.below (K.clause hbody) (K.line (K.ofText "default:")))

theorem catchBlocks {catches : List Catch} (h : ∀ c ∈ catches.flatMap Catch.sites, K.At (w c) c) :
    Alike (K.Blocks (totalWeight w (catches.flatMap Catch.sites))) (SwiftForge.catchBlocks catches)
      (Written.catchBlocks indent catches) := by
  induction catches with
  | nil => exact .pure .nil
  | cons clause catches ih =>
    obtain ⟨pattern, body⟩ := clause
    obtain ⟨hclause, hrest⟩ := List.forall_mem_append.1 h
    obtain ⟨hpattern, hbody⟩ := List.forall_mem_append.1 hclause
    rw [SwiftForge.catchBlocks, Written.catchBlocks, List.flatMap_cons, totalWeight_append, Catch.sites,
      totalWeight_append]
    exact (optional " " .catchPattern hpattern).bind fun hpattern => (statements hbody).bind fun hbody =>
      (ih hrest).bind fun hafter => .pure (.cons (between hpattern "\x7d catch" " \x7b") hbody hafter)

/-- The header of a function with the weight of its parameters. -/
theorem signature {m : M} {ts : List Inline} {ss : List String} (h : K.Texts m ts ss) (lead trail : String) :
    K.text m (signatureInline lead ts trail) (Written.signatureText lead ss trail) :=
  before (before (behind (h.joinWith ", ") (before (K.ofText lead) "(")) ")") trail

/-! ### Nodes -/

/-- What the strings at a place weigh. -/
def ownAt (K : Track indent M) (s : Site) : M := (s.strings.map K.own).sum

theorem loopOver {binding : Inline} {text : String} {m n k l : M} {sequence filter : Inline} {elements clause : String}
    {fs gs : List Fragment} (lead : String) (hbinding : K.text m binding text) (hsequence : K.text n sequence elements)
    (hfilter : K.text k filter clause) (hbody : K.fragments l fs gs) :
    K.fragments (m + n + k + l)
      [.braced
        (Inline.ofText lead ++ binding ++ Inline.ofText " in " ++ sequence ++ filter ++ Inline.ofText " \x7b") fs]
      [Written.braced (lead ++ text ++ " in " ++ elements ++ clause ++ " \x7b") gs] := by
  have hheader := K.append (K.append (between hbinding lead " in ") hsequence) hfilter
  exact braced (before hheader " \x7b") hbody

/-- A node in statement position, from the places below it. Documentation, comments and attributes stand before a
    declaration and weigh nothing. -/
theorem node {n : Node} (h : ∀ c ∈ n.sites, K.At (w c) c) :
    Alike (K.fragments (K.ownAt (.statement n) + totalWeight w n.sites)) n.fragments (Written.fragments indent n) := by
  cases n with
  | typeDecl head members =>
    rw [Node.fragments, Written.fragments]
    refine weighed ((statements h).bind fun hmembers => .pure ?_) (zero_add _).symm
    have hblock := braced (K.ofText head.opening) hmembers
    rw [zero_add] at hblock
    exact below hblock (leading head.decor)
  | enumCase head rawValue =>
    rw [Node.fragments, Written.fragments]
    exact (Track.rawValue h).bind fun hvalue => .pure (below (K.line (after hvalue head.declared)) (leading head.decor))
  | protocolDecl head members =>
    rw [Node.fragments, Written.fragments]
    refine weighed ((requirements h).bind fun hmembers => .pure ?_) (zero_add _).symm
    have hblock := braced (K.ofText head.opening) hmembers
    rw [zero_add] at hblock
    exact below hblock (leading head.decor)
  | extensionDecl head members =>
    rw [Node.fragments, Written.fragments]
    refine weighed ((statements h).bind fun hmembers => .pure ?_) (zero_add _).symm
    have hblock := braced (K.ofText head.opening) hmembers
    rw [zero_add] at hblock
    exact below hblock (leading head.decor)
  | function head list body =>
    obtain ⟨hparams, hbody⟩ := List.forall_mem_append.1 h
    rw [Node.fragments, Written.fragments, Node.sites, totalWeight_append]
    refine weighed ((params hparams).bind fun hparams => (statements hbody).bind fun hbody => .pure ?_)
      (zero_add _).symm
    exact below (braced (before (signature hparams head.lead head.trail) " \x7b") hbody) (leading head.decor)
  | initializer head list body =>
    obtain ⟨hparams, hbody⟩ := List.forall_mem_append.1 h
    rw [Node.fragments, Written.fragments, Node.sites, totalWeight_append]
    refine weighed ((params hparams).bind fun hparams => (statements hbody).bind fun hbody => .pure ?_)
      (zero_add _).symm
    exact below (braced (before (signature hparams head.lead head.trail) " \x7b") hbody) (leading head.decor)
  | property head value getter =>
    cases getter with
    | none =>
      rw [Node.fragments, Written.fragments]
      refine weighed ((optional " = " .propertyValue h).bind fun hvalue => .pure ?_) (zero_add _).symm
      exact below (K.line (after hvalue head.lead)) (leading head.decor)
    | some getter =>
      rw [Node.fragments, Written.fragments]
      refine weighed ((statements h).bind fun hgetter => .pure ?_) (zero_add _).symm
      have hblock := braced (before (K.ofText head.lead) " \x7b") hgetter
      rw [zero_add] at hblock
      exact below hblock (leading head.decor)
  | expression e =>
    rw [Node.fragments, Written.fragments]
    exact (expr h).bind fun htext => .pure (K.line htext)
  | assignment target op value =>
    obtain ⟨htarget, hrest⟩ := List.forall_mem_cons.1 h
    have hvalue := List.forall_mem_singleton.1 hrest
    rw [Node.fragments, Written.fragments]
    refine weighed (m := w (.slot .assignmentTarget target) + w (.slot .assignedValue value)) ?_
      (by simp [ownAt, Site.strings, Node.sites])
    refine htarget.1.bind fun htarget => hvalue.1.bind fun hvalue => .pure ?_
    exact K.line (K.append (before (before (before htarget " ") op) " ") hvalue)
  | tupleAssignment names value mode =>
    have hvalue := List.forall_mem_singleton.1 h
    rw [Node.fragments, Written.fragments]
    refine weighed (m := w (.slot .tupleValue value)) ?_ (by simp [ownAt, Site.strings, Node.sites])
    have htarget := before (before (K.ofText mode.bindingKeyword) " ") (bindingTarget names)
    exact hvalue.1.bind fun hvalue => .pure (K.line (behind hvalue (before (before htarget " = ") mode.valueLead)))
  | ifStmt first elseIfs otherwise =>
    obtain ⟨list, body⟩ := first
    obtain ⟨hleft, hotherwise⟩ := List.forall_mem_append.1 h
    obtain ⟨hfirst, helseIfs⟩ := List.forall_mem_append.1 hleft
    obtain ⟨hlist, hbody⟩ := List.forall_mem_append.1 hfirst
    rw [Node.fragments, Written.fragments, Node.sites, Branch.sites, totalWeight_append, totalWeight_append,
      totalWeight_append, add_assoc _ (totalWeight w (elseIfs.flatMap Branch.sites))]
    refine weighed (.after fun _ => (header hlist "if " " \x7b").bind fun hheader => (statements hbody).bind
      fun hbody => (elseIfBlocks helseIfs).bind fun hmiddle => (elseBlock hotherwise).bind fun hlast => .pure ?_)
      (zero_add _).symm
    exact (Blocks.cons hheader hbody (hmiddle.append hlast)).chain
  | guardStmt list otherwise =>
    obtain ⟨hlist, hbody⟩ := List.forall_mem_append.1 h
    rw [Node.fragments, Written.fragments, Node.sites, totalWeight_append]
    refine weighed (.after fun _ => (header hlist "guard " " else \x7b").bind fun hheader =>
      (statements hbody).bind fun hbody => .pure ?_) (zero_add _).symm
    exact braced hheader hbody
  | loop style condition body =>
    obtain ⟨hcondition, hbody⟩ := List.forall_mem_cons.1 h
    rw [Node.fragments, Written.fragments, Node.sites, totalWeight_cons]
    refine weighed (hcondition.1.bind fun hcondition => (statements hbody).bind fun hbody => ?_) (zero_add _).symm
    cases style with
    | whileLoop => exact .pure (braced (between hcondition "while " " \x7b") hbody)
    | repeatWhile =>
      -- The condition is written behind the body.
      have hblock := K.block (K.ofText "repeat \x7b") hbody (after hcondition "\x7d while ")
      rw [zero_add, add_comm] at hblock
      exact .pure hblock
  | forIn binding sequence filter body =>
    obtain ⟨hleft, hbody⟩ := List.forall_mem_append.1 h
    obtain ⟨hbinding, hrest⟩ := List.forall_mem_cons.1 hleft
    obtain ⟨hsequence, hfilter⟩ := List.forall_mem_cons.1 hrest
    have hweight : K.ownAt (.statement (.forIn binding sequence filter body)) +
        totalWeight w (Node.forIn binding sequence filter body).sites = w (.slot .loopPattern binding) +
          w (.slot .loopSequence sequence) + totalWeight w (filter.toList.map (.slot .loopFilter)) +
          totalWeight w (body.map .statement) := by
      simp [ownAt, Site.strings, Node.sites, add_assoc]
    rw [hweight]
    cases binding with
    | pattern p =>
      rw [Node.fragments, Written.fragments]
      exact (hbinding.2 p rfl rfl).bind fun hbinding => hsequence.1.bind fun hsequence =>
        (optional " where " .loopFilter hfilter).bind fun hfilter => (statements hbody).bind fun hbody =>
          .pure (loopOver "for " hbinding hsequence hfilter hbody)
    | _ =>
      rw [Node.fragments, Written.fragments]
      · exact hbinding.1.bind fun hbinding => hsequence.1.bind fun hsequence =>
          (optional " where " .loopFilter hfilter).bind fun hfilter => (statements hbody).bind fun hbody =>
            .pure (loopOver "for case " hbinding hsequence hfilter hbody)
      all_goals simp
  | switchStmt subject list default =>
    obtain ⟨hleft, hdefault⟩ := List.forall_mem_append.1 h
    obtain ⟨hsubject, hlist⟩ := List.forall_mem_cons.1 hleft
    rw [Node.fragments, Written.fragments, Node.sites, totalWeight_append, totalWeight_cons]
    refine weighed (hsubject.1.bind fun hsubject => (switchClauses hlist).bind fun hlist =>
      (defaultClause hdefault).bind fun hlast => .pure ?_) (zero_add _).symm
    have hopen := K.line (between hsubject "switch " " \x7b")
    have hall := K.concat (K.concat (K.concat hopen hlist) hlast) (K.line (K.ofText "\x7d"))
    rwa [add_zero] at hall
  | doCatch body catches =>
    obtain ⟨hbody, hcatches⟩ := List.forall_mem_append.1 h
    rw [Node.fragments, Written.fragments, Node.sites, totalWeight_append]
    refine weighed ((statements hbody).bind fun hbody => (catchBlocks hcatches).bind fun hcatches => .pure ?_)
      (zero_add _).symm
    have hblocks := Blocks.cons (K.ofText "do \x7b") hbody hcatches
    rw [zero_add] at hblocks
    exact hblocks.chain
  | returnStmt value =>
    rw [Node.fragments, Written.fragments]
    exact weighed ((optional " " .returnValue h).bind fun hvalue => .pure (K.line (after hvalue "return")))
      (zero_add _).symm
  | throwStmt error =>
    have herror := List.forall_mem_singleton.1 h
    rw [Node.fragments, Written.fragments]
    refine weighed (herror.1.bind fun herror => .pure (K.line (after herror "throw "))) ?_
    simp [ownAt, Site.strings, Node.sites]
  | deferStmt body =>
    rw [Node.fragments, Written.fragments]
    refine weighed ((statements h).bind fun hbody => .pure ?_) (zero_add _).symm
    have hblock := braced (K.ofText "defer \x7b") hbody
    rwa [zero_add] at hblock
  | associatedType decl => exact weighed (.pure (below (K.line (K.ofText _)) (leading decl.decor))) (zero_add 0).symm
  | typeAlias decl => exact weighed (.pure (below (K.line (K.ofText _)) (leading decl.decor))) (zero_add 0).symm
  | importDecl decl => exact weighed (.pure (below (K.line (K.ofText _)) (leading decl.decor))) (zero_add 0).symm
  | jump kind label => exact weighed (.pure (K.line (K.ofText _))) (zero_add 0).symm
  | pattern p => exact weighed (.after fun _ => .pure K.nil) (zero_add 0).symm
  | comment text => exact weighed (.pure (K.comments text)) (zero_add 0).symm
  | blank => exact weighed (.pure K.blank) (zero_add 0).symm
  | raw code => exact weighed (.pure (K.line (K.ofText code))) (zero_add 0).symm
  | empty => exact weighed (.pure K.nil) (zero_add 0).symm

/-- A function or an initializer without its body, and what follows it. -/
theorem declared {m : M} {ts : List Inline} {ss : List String} {fs gs : List Fragment} (d : Decor)
    (lead trail : String) (hparams : K.Texts m ts ss) (hafter : K.fragments 0 fs gs) :
    K.fragments m (d.leading ++ .line (signatureInline lead ts trail) :: fs)
      (d.leading ++ Written.line (Written.signatureText lead ss trail) :: gs) := by
  have hall := K.concat (K.line (signature hparams lead trail)) hafter
  rw [add_zero] at hall
  exact below hall (leading d)

/-- A direct member of a protocol is a statement without its body, value and getter. -/
theorem member {n : Node} (h : ∀ c ∈ n.memberSites, K.At (w c) c) :
    Alike (K.fragments (K.ownAt (.requirement n) + totalWeight w n.memberSites)) (SwiftForge.requirements [n])
      (Written.requirements indent [n]) := by
  have hstatement : (∀ c ∈ n.sites, K.At (w c) c) →
      Alike (K.fragments (K.ownAt (.statement n) + totalWeight w n.sites)) n.fragments
        (Written.fragments indent n) := node
  have hnone : Alike (K.fragments 0) (SwiftForge.requirements []) (Written.requirements indent []) := .pure K.nil
  cases n with
  | function head list body =>
    refine weighed ?_ (zero_add _).symm
    have hdeclared := (params h).bind fun hparams => hnone.bind fun hafter =>
      .pure (declared head.decor head.lead head.trail hparams hafter)
    cases body with
    | nil =>
      rw [SwiftForge.requirements, Written.requirements]
      exact hdeclared
    | cons first rest =>
      rw [SwiftForge.requirements, Written.requirements]
      exact .after fun _ => hdeclared
  | initializer head list body =>
    rw [SwiftForge.requirements, Written.requirements]
    exact weighed ((params h).bind fun hparams => hnone.bind fun hafter =>
      .pure (declared head.decor head.lead head.trail hparams hafter)) (zero_add _).symm
  | property head value getter =>
    rw [SwiftForge.requirements, Written.requirements]
    exact weighed (.pure (below (K.line (K.ofText _)) (leading head.decor))) (zero_add 0).symm
  | _ =>
    rw [SwiftForge.requirements, Written.requirements]
    · exact weighed ((hstatement h).bind fun hnode => hnone.bind fun hafter => .pure (K.concat hnode hafter))
        (add_zero _)
    all_goals simp

end Track

namespace Written

/-- A node that does not fit its role is replaced. -/
theorem text_of_unfit {indent : Indent} {n : Node} {role : Role} (h : role.fits n = false) :
    text indent n role = placeholder n.kindName role := by
  cases n with
  | expression e =>
    cases e with
    | closure k =>
      have hrole : role.wantsPattern = true := by
        simpa [Role.fits, Node.isPattern, Node.isExpression, Expr.isPattern] using h
      simp [text, hrole, Node.kindName, Expr.kindName]
    | _ => simp [Role.fits, Node.isPattern, Expr.isPattern, Node.isExpression] at h
  | pattern p =>
    have hrole : role.wantsPattern = false := by simpa [Role.fits, Node.isPattern, Node.isExpression] using h
    simp [text, hrole, Node.kindName]
  | enumCase head rawValue => simp [Role.fits, Node.isPattern, Node.isExpression] at h
  | raw code => simp [Role.fits, Node.isPattern, Node.isExpression] at h
  | _ => rfl

theorem text_expression {indent : Indent} {e : Expr} {role : Role} (h : role.fits (.expression e) = true) :
    text indent (.expression e) role = expr indent e := by
  cases e with
  | closure k =>
    have hrole : role.wantsPattern = false := by
      simpa [Role.fits, Node.isPattern, Node.isExpression, Expr.isPattern] using h
    simp [text, expr, hrole]
  | _ => rfl

theorem text_pattern {indent : Indent} {p : Pattern} {role : Role} (h : role.fits (.pattern p) = true) :
    text indent (.pattern p) role = pattern indent p := by
  have hrole : role.wantsPattern = true := by simpa [Role.fits, Node.isPattern, Node.isExpression] using h
  rw [text, if_pos hrole]

end Written

namespace Track

variable {indent : Indent} {M : Type} [AddCommMonoid M] {K : Track indent M} {w : Site → M}

/-- In expression or pattern position a node that does not fit is replaced by nothing, with a warning. -/
theorem slot {role : Role} {n : Node} (h : ∀ c ∈ (Site.slot role n).below, K.At (w c) c) :
    Alike (K.text (K.ownAt (.slot role n) + totalWeight w (Site.slot role n).below)) (n.inline role)
      (Written.text indent n role) := by
  cases hfit : role.fits n with
  | true =>
    rw [Site.below, if_pos hfit] at h ⊢
    cases n with
    | expression e =>
      rw [Node.inline_expression hfit, Written.text_expression hfit]
      exact expr h
    | pattern p =>
      rw [Node.inline_pattern hfit, Written.text_pattern hfit]
      exact weighedText (pattern p h) (zero_add _).symm
    | enumCase head rawValue => exact weighedText (.pure (K.ofText _)) (zero_add 0).symm
    | raw code => exact weighedText (.pure (K.ofText code)) (zero_add 0).symm
    | _ => simp [Role.fits, Node.isPattern, Node.isExpression] at hfit
  | false =>
    have hempty : K.ownAt (.slot role n) = 0 := by
      cases n with
      | expression e =>
        -- Of all expressions only a closure is ever replaced.
        cases e with
        | closure k => rfl
        | _ => simp [Role.fits, Node.isPattern, Expr.isPattern, Node.isExpression] at hfit
      | _ => rfl
    have hbelow : (Site.slot role n).below = [] := by rw [Site.below, hfit, if_neg Bool.false_ne_true]
    rw [Node.inline_of_unfit hfit, Written.text_of_unfit hfit, hempty, hbelow]
    exact weighedText (.after fun _ => .pure K.empty) (zero_add 0).symm

/-- A track that holds right below a place holds at the place. -/
theorem layer {s : Site} (h : ∀ c ∈ s.below, K.At (w c) c) : K.At (K.ownAt s + totalWeight w s.below) s := by
  cases s with
  | statement n => exact node h
  | requirement n => exact member h
  | slot role n =>
    refine ⟨slot h, ?_⟩
    rintro p rfl rfl
    have hfit : Role.loopPattern.fits (.pattern p) = true := rfl
    rw [Site.below, if_pos hfit] at h ⊢
    exact weighedText (bindingPattern p h) (zero_add _).symm
  | conditions keyword list =>
    intro n t s htext
    have hzero : K.ownAt (.conditions keyword list) + totalWeight w (Site.conditions keyword list).below = 0 :=
      zero_add 0
    rwa [hzero, zero_add]

/-- Everywhere, if a place weighs what its own strings and the places below it weigh. -/
theorem everywhere (hw : ∀ s : Site, w s = K.ownAt s + totalWeight w s.below) (s : Site) : K.At (w s) s := by
  induction s using Site.induct with
  | step s ih =>
    rw [hw s]
    exact layer ih

end Track

end SwiftForge
