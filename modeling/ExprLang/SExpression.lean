import ExprLang.Decimal
import ExprLang.Node

/-!
Trees on one line, as symbolic expressions: every composite node is a list in
parentheses that starts with its operator or with a word for its kind.
-/
namespace ExprLang

def Prototype.sexpr (proto : Prototype) : String :=
  "(proto " ++ proto.name ++ " (" ++ " ".intercalate proto.params ++ "))"

namespace Node

mutual

def sexpr : Node → String
  | number value _ => value.text
  | var name _ => name
  | binary op lhs rhs _ =>
    "(" ++ op.symbol.toString ++ " " ++ sexpr lhs ++ " " ++ sexpr rhs ++ ")"
  | call callee args _ => "(call " ++ callee ++ sexprArgs args ++ ")"
  | prototype proto => proto.sexpr
  | function proto body _ => "(def " ++ proto.sexpr ++ " " ++ sexpr body ++ ")"

def sexprArgs : List Node → String
  | [] => ""
  | arg :: args => " " ++ sexpr arg ++ sexprArgs args

end

end Node

end ExprLang
