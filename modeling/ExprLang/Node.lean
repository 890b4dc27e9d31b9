import ExprLang.Binary64
import ExprLang.Operator

/-!
Syntax trees. A node is an expression, a prototype or a function definition,
and knows the span it was read from. Parentheses leave no node.
-/
namespace ExprLang

structure Prototype where
  name : String
  params : List String
  span : Span
deriving DecidableEq

/-- A tree. The span of a prototype is kept with the prototype. -/
inductive Node where
  | number (value : Binary64) (span : Span)
  | var (name : String) (span : Span)
  | binary (op : Operator) (lhs rhs : Node) (span : Span)
  | call (callee : String) (args : List Node) (span : Span)
  | prototype (proto : Prototype)
  | function (proto : Prototype) (body : Node) (span : Span)

namespace Node

def span : Node → Span
  | number _ span | var _ span | binary _ _ _ span | call _ _ span | function _ _ span => span
  | prototype proto => proto.span

mutual

def same : Node → Node → Bool
  | number x s, number y t => x.sameValue y && s == t
  | var x s, var y t => x == y && s == t
  | binary o l r s, binary p m q t => o == p && same l m && same r q && s == t
  | call f xs s, call g ys t => f == g && sameList xs ys && s == t
  | prototype p, prototype q => p == q
  | function p b s, function q c t => p == q && same b c && s == t
  | _, _ => false

def sameList : List Node → List Node → Bool
  | [], [] => true
  | x :: xs, y :: ys => same x y && sameList xs ys
  | _, _ => false

end

end Node

end ExprLang
