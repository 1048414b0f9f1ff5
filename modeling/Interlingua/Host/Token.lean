import Interlingua.Tree.Operator

namespace Interlingua.Host.Token

/-- Comparisons that heed case (`C…`) and those that do not (`I…`) are one operator. -/
def binaryTable : List (String × BinaryOperator) :=
  [("Plus", .add), ("Minus", .subtract), ("Multiply", .multiply), ("Divide", .divide),
    ("Rem", .modulo), ("Ieq", .equal), ("Ceq", .equal), ("Ine", .notEqual), ("Cne", .notEqual),
    ("Ilt", .lessThan), ("Clt", .lessThan), ("Ile", .lessThanOrEqual), ("Cle", .lessThanOrEqual),
    ("Igt", .greaterThan), ("Cgt", .greaterThan), ("Ige", .greaterThanOrEqual),
    ("Cge", .greaterThanOrEqual), ("And", .and), ("Or", .or), ("Xor", .exclusiveOr),
    ("Band", .bitwiseAnd), ("Bor", .bitwiseOr), ("Bxor", .bitwiseXor), ("Shl", .leftShift),
    ("Shr", .rightShift), ("Is", .isType), ("As", .asType)]

def unaryTable : List (String × UnaryOperator × Fixity) :=
  [("PlusPlus", .increment, .before), ("MinusMinus", .decrement, .before),
    ("PostfixPlusPlus", .increment, .after), ("PostfixMinusMinus", .decrement, .after),
    ("Not", .not, .before), ("Exclaim", .not, .before), ("Minus", .negate, .before),
    ("Plus", .plus, .before), ("Bnot", .bitwiseNot, .before)]

def compoundTable : List (String × BinaryOperator) :=
  [("PlusEquals", .add), ("MinusEquals", .subtract), ("MultiplyEquals", .multiply),
    ("DivideEquals", .divide), ("RemainderEquals", .modulo)]

/-- A token in no table stands for the unknown operator. -/
def binary (token : String) : BinaryOperator := (binaryTable.lookup token).getD .unknown

/-- An unknown token is taken to stand before its operand. -/
def unary (token : String) : UnaryOperator × Fixity :=
  (unaryTable.lookup token).getD (.unknown, .before)

def compound (token : String) : BinaryOperator := (compoundTable.lookup token).getD .unknown

end Interlingua.Host.Token
