/-!
# Operators and callees

The overloadable operators.  A unary and a binary operator may share a symbol,
and then they also share the name under which their functions are declared.
-/

namespace CallResolution

/-- An overloadable operator. -/
inductive Operator where
  | add
  | sub
  | mul
  | div
  | mod
  | eq
  | ne
  | lt
  | le
  | gt
  | ge
  | bitAnd
  | bitOr
  | bitXor
  | shl
  | shr
  | assign
  | addAssign
  | subAssign
  | index
  | neg
  | plus
  | not
  | bitNot
  | preInc
  | preDec
  deriving DecidableEq, Repr

namespace Operator

def symbol : Operator → String
  | .add | .plus => "+"
  | .sub | .neg => "-"
  | .mul => "*"
  | .div => "/"
  | .mod => "%"
  | .eq => "=="
  | .ne => "!="
  | .lt => "<"
  | .le => "<="
  | .gt => ">"
  | .ge => ">="
  | .bitAnd => "&"
  | .bitOr => "|"
  | .bitXor => "^"
  | .shl => "<<"
  | .shr => ">>"
  | .assign => "="
  | .addAssign => "+="
  | .subAssign => "-="
  | .index => "[]"
  | .not => "!"
  | .bitNot => "~"
  | .preInc => "++"
  | .preDec => "--"

/-- The name under which functions for this operator are declared. -/
def declaredName (op : Operator) : String :=
  "operator" ++ op.symbol

def isUnary : Operator → Bool
  | .neg | .plus | .not | .bitNot | .preInc | .preDec => true
  | _ => false

def arity (op : Operator) : Nat :=
  if op.isUnary then 1 else 2

end Operator

/-- What a call names: a function, or an operator. -/
inductive Callee where
  | named (name : String)
  | operator (op : Operator)
  deriving DecidableEq, Repr

namespace Callee

/-- The name that is looked up, which is also how the callee is printed. -/
def lookupName : Callee → String
  | .named name => name
  | .operator op => op.declaredName

end Callee
end CallResolution
