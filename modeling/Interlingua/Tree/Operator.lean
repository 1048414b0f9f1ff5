namespace Interlingua

inductive BinaryOperator where
  | add | subtract | multiply | divide | modulo
  | equal | notEqual | lessThan | lessThanOrEqual | greaterThan | greaterThanOrEqual
  | and | or | exclusiveOr
  | bitwiseAnd | bitwiseOr | bitwiseXor | leftShift | rightShift
  | isType | asType
  /-- A token that stands for none of the others. -/
  | unknown
deriving DecidableEq

/-- Where an operator of one operand stands is said by the expression, not here. -/
inductive UnaryOperator where
  | increment | decrement | not | negate | plus | bitwiseNot
  | unknown
deriving DecidableEq

inductive Fixity where
  | before | after
deriving DecidableEq

namespace BinaryOperator

def all : List BinaryOperator :=
  [add, subtract, multiply, divide, modulo, equal, notEqual, lessThan, lessThanOrEqual,
    greaterThan, greaterThanOrEqual, and, or, exclusiveOr, bitwiseAnd, bitwiseOr, bitwiseXor,
    leftShift, rightShift, isType, asType, unknown]

theorem mem_all (op : BinaryOperator) : op ∈ all := by
  cases op <;> decide

def name : BinaryOperator → String
  | add => "Add"
  | subtract => "Subtract"
  | multiply => "Multiply"
  | divide => "Divide"
  | modulo => "Modulo"
  | equal => "Equal"
  | notEqual => "NotEqual"
  | lessThan => "LessThan"
  | lessThanOrEqual => "LessThanOrEqual"
  | greaterThan => "GreaterThan"
  | greaterThanOrEqual => "GreaterThanOrEqual"
  | and => "And"
  | or => "Or"
  | exclusiveOr => "ExclusiveOr"
  | bitwiseAnd => "BitwiseAnd"
  | bitwiseOr => "BitwiseOr"
  | bitwiseXor => "BitwiseXor"
  | leftShift => "LeftShift"
  | rightShift => "RightShift"
  | isType => "Is"
  | asType => "As"
  | unknown => "Unknown"

def ofName? (name : String) : Option BinaryOperator := all.find? (·.name == name)

theorem ofName?_name (op : BinaryOperator) : ofName? op.name = some op := by
  cases op <;> decide

end BinaryOperator

namespace UnaryOperator

def all : List UnaryOperator := [increment, decrement, not, negate, plus, bitwiseNot, unknown]

def name : UnaryOperator → String
  | increment => "Increment"
  | decrement => "Decrement"
  | not => "Not"
  | negate => "Negate"
  | plus => "Plus"
  | bitwiseNot => "BitwiseNot"
  | unknown => "Unknown"

def ofName? (name : String) : Option UnaryOperator := all.find? (·.name == name)

theorem ofName?_name (op : UnaryOperator) : ofName? op.name = some op := by
  cases op <;> decide

end UnaryOperator

end Interlingua
