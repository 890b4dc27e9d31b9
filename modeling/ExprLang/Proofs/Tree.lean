import ExprLang.Node

/-!
Abstract trees: nodes without their spans. Two nodes are the same construct,
wherever it stands, if they have the same tree.
-/
namespace ExprLang

/-- A node without spans. -/
inductive Tree where
  | number (value : Binary64)
  | var (name : String)
  | binary (op : Operator) (lhs rhs : Tree)
  | call (callee : String) (args : List Tree)
  | prototype (name : String) (params : List String)
  | function (name : String) (params : List String) (body : Tree)

namespace Tree

mutual

def Only (number : Binary64 → Prop) (name : String → Prop) : Tree → Prop
  | .number value => number value
  | .var word => name word
  | .binary _ lhs rhs => lhs.Only number name ∧ rhs.Only number name
  | .call callee args => name callee ∧ AllOnly number name args
  | .prototype word params => name word ∧ ∀ param ∈ params, name param
  | .function word params body =>
    (name word ∧ ∀ param ∈ params, name param) ∧ body.Only number name

def AllOnly (number : Binary64 → Prop) (name : String → Prop) : List Tree → Prop
  | [] => True
  | tree :: trees => tree.Only number name ∧ AllOnly number name trees

end

end Tree

namespace Node

mutual

def tree : Node → Tree
  | number value _ => .number value
  | var name _ => .var name
  | binary op lhs rhs _ => .binary op (tree lhs) (tree rhs)
  | call callee args _ => .call callee (trees args)
  | prototype proto => .prototype proto.name proto.params
  | function proto body _ => .function proto.name proto.params (tree body)

def trees : List Node → List Tree
  | [] => []
  | node :: nodes => tree node :: trees nodes

end

theorem trees_eq_map (nodes : List Node) : trees nodes = nodes.map tree := by
  induction nodes with
  | nil => rfl
  | cons node nodes ih => rw [trees, ih, List.map_cons]

end Node

end ExprLang
