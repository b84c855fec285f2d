/-!
Warnings of a rendering. A child that cannot play its part is replaced by nothing, and a warning
says so; warnings come in the order in which the tree is read.
-/

namespace SwiftForge

/-- The part that a parent wants a child to play. -/
inductive Role where
  | expression
  | callee
  | callArgument
  | memberBase
  | operand
  | tupleElement
  | arrayElement
  | dictionaryKey
  | dictionaryValue
  | expressionPattern
  | defaultArgument
  | propertyValue
  | assignmentTarget
  | assignedValue
  | tupleValue
  | condition
  | boundValue
  | matchedValue
  | loopCondition
  | loopSequence
  | loopFilter
  | switchSubject
  | caseGuard
  | returnValue
  | thrownError
  | loopPattern
  | casePattern
  | catchPattern
  | caseCondition
deriving DecidableEq, Repr

namespace Role

def text : Role → String
  | .expression => "an expression"
  | .callee => "a callee"
  | .callArgument => "a call argument"
  | .memberBase => "a member base"
  | .operand => "an operand"
  | .tupleElement => "a tuple element"
  | .arrayElement => "an array element"
  | .dictionaryKey => "a dictionary key"
  | .dictionaryValue => "a dictionary value"
  | .expressionPattern => "an expression pattern"
  | .defaultArgument => "a default argument"
  | .propertyValue => "a property value"
  | .assignmentTarget => "an assignment target"
  | .assignedValue => "an assigned value"
  | .tupleValue => "a tuple value"
  | .condition => "a condition"
  | .boundValue => "a bound value"
  | .matchedValue => "a matched value"
  | .loopCondition => "a loop condition"
  | .loopSequence => "a loop sequence"
  | .loopFilter => "a loop filter"
  | .switchSubject => "a switch subject"
  | .caseGuard => "a case guard"
  | .returnValue => "a return value"
  | .thrownError => "a thrown error"
  | .loopPattern => "a loop pattern"
  | .casePattern => "a case pattern"
  | .catchPattern => "a catch pattern"
  | .caseCondition => "a case condition"

/-- The roles that want a pattern; all others want an expression. -/
def wantsPattern : Role → Bool
  | .loopPattern | .casePattern | .catchPattern | .caseCondition => true
  | _ => false

end Role

/-- What a rendering had to leave out. -/
inductive Warning where
  /-- A node of this kind cannot play the role. -/
  | unfit (kind : String) (role : Role)
  /-- An `if` or `guard` without conditions. -/
  | noConditions (keyword : String)
  /-- A pattern in place of a statement. -/
  | strayPattern
  /-- A protocol requirement with a body. -/
  | requirementBody (name : String)
deriving DecidableEq, Repr

def Warning.message : Warning → String
  | .unfit kind role =>
    "`" ++ kind ++ "` node cannot be rendered as " ++ role.text ++
      "; substituting an empty placeholder"
  | .noConditions keyword =>
    "`" ++ keyword ++ "` without conditions; substituting an empty placeholder"
  | .strayPattern => "a pattern cannot stand alone as a statement; substituting nothing"
  | .requirementBody name => "protocol requirement `" ++ name ++ "` has a body; dropping it"

/-- A result and the warnings on the way to it. -/
structure Logged (α : Type) where
  value : α
  warnings : List Warning

namespace Logged

instance : Monad Logged where
  pure a := ⟨a, []⟩
  bind x f := ⟨(f x.value).value, x.warnings ++ (f x.value).warnings⟩

def warn (w : Warning) : Logged Unit := ⟨(), [w]⟩

@[simp] theorem value_pure {α : Type} (a : α) : (pure a : Logged α).value = a := rfl

@[simp] theorem warnings_pure {α : Type} (a : α) : (pure a : Logged α).warnings = [] := rfl

@[simp] theorem value_bind {α β : Type} (x : Logged α) (f : α → Logged β) :
    (x >>= f).value = (f x.value).value := rfl

@[simp] theorem warnings_bind {α β : Type} (x : Logged α) (f : α → Logged β) :
    (x >>= f).warnings = x.warnings ++ (f x.value).warnings := rfl

end Logged

end SwiftForge
