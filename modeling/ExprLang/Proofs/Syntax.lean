import ExprLang.Proofs.Reading
import ExprLang.Proofs.Tree
import Mathlib.Data.List.Induction

/-!
The context-free grammar of the language and the trees it assigns. A derivation
of an expression is a flat chain of operands and operators. Its tree has at the
root the last of the operators that bind loosest, so that multiplication binds
tighter and operators that bind equally group to the left; there is just one
such tree for each chain. The grammar sets no order on derivations: a name in
front of a parenthesis may be read as a call or as an expression of its own.
-/
namespace ExprLang

/-- Multiplication binds tighter than addition and subtraction, which bind equally. -/
def Operator.Tighter (op other : Operator) : Prop := op = .multiply ∧ other ≠ .multiply

/-- The tree of a chain, given by its first operand and the operators with the
operands behind them. The root binds no tighter than what is left of it, and
everything right of it binds tighter. -/
inductive Groups : Tree → List (Operator × Tree) → Tree → Prop
  | operand (first : Tree) : Groups first [] first
  | root {first second lhs rhs : Tree} {left right : List (Operator × Tree)} {op : Operator}
      (hlhs : Groups first left lhs) (hrhs : Groups second right rhs)
      (hleft : ∀ link ∈ left, ¬ op.Tighter link.1)
      (hright : ∀ link ∈ right, link.1.Tighter op) :
      Groups first (left ++ (op, second) :: right) (.binary op lhs rhs)

inductive Phrase where
  | primary (tree : Tree)
  | links (links : List (Operator × Tree))
  | expression (tree : Tree)
  | arguments (trees : List Tree)
  | prototype (name : String) (params : List String)
  | top (tree : Tree)

open Token.Kind (mark)

inductive Derives : Phrase → List Token.Kind → Prop
  | name (name : String) : Derives (.primary (.var name)) [.identifier name]
  | call {args kinds} (name : String) (hargs : Derives (.arguments args) kinds) :
      Derives (.primary (.call name args))
        (.identifier name :: mark '(' :: (kinds ++ [mark ')']))
  | number {digits value} (hvalue : Binary64.ofDigits? digits = some value) :
      Derives (.primary (.number value)) [.number digits]
  | parentheses {tree kinds} (hinner : Derives (.expression tree) kinds) :
      Derives (.primary tree) (mark '(' :: (kinds ++ [mark ')']))
  | noLinks : Derives (.links []) []
  | link {tree kinds links kinds'} (op : Operator) (hoperand : Derives (.primary tree) kinds)
      (hlinks : Derives (.links links) kinds') :
      Derives (.links ((op, tree) :: links)) (mark op.symbol :: (kinds ++ kinds'))
  | expression {first kinds links kinds' tree} (hfirst : Derives (.primary first) kinds)
      (hlinks : Derives (.links links) kinds') (hgroups : Groups first links tree) :
      Derives (.expression tree) (kinds ++ kinds')
  | noArguments : Derives (.arguments []) []
  | lastArgument {tree kinds} (harg : Derives (.expression tree) kinds) :
      Derives (.arguments [tree]) kinds
  | argument {tree kinds next args kinds'} (harg : Derives (.expression tree) kinds)
      (hargs : Derives (.arguments (next :: args)) kinds') :
      Derives (.arguments (tree :: next :: args)) (kinds ++ mark ',' :: kinds')
  | prototype (name : String) (params : List String) :
      Derives (.prototype name params)
        (.identifier name :: mark '(' :: (params.map .identifier ++ [mark ')']))
  | definition {name params kinds tree kinds'} (hproto : Derives (.prototype name params) kinds)
      (hbody : Derives (.expression tree) kinds') :
      Derives (.top (.function name params tree)) (.define :: (kinds ++ kinds'))
  | declaration {name params kinds} (hproto : Derives (.prototype name params) kinds) :
      Derives (.top (.prototype name params)) (.declare :: kinds)
  | top {tree kinds} (hexpression : Derives (.expression tree) kinds) :
      Derives (.top tree) kinds

def IsProgram (kinds : List Token.Kind) : Prop :=
  ∃ constructs : List (List Token.Kind), kinds = constructs.flatten ∧
    ∀ construct ∈ constructs, ∃ tree, Derives (.top tree) construct

namespace Groups

/-- Of two operators that both may be the root neither stands left of the
other: the right one would bind tighter than the left one and not tighter. -/
theorem root_not_left {left left' right right' : List (Operator × Tree)}
    {link link' : Operator × Tree} (h : left ++ link :: right = left' ++ link' :: right')
    (hright : ∀ other ∈ right, other.1.Tighter link.1)
    (hleft' : ∀ other ∈ left', ¬ link'.1.Tighter other.1) :
    ¬ left.length < left'.length := by
  intro hless
  rcases List.append_eq_append_iff.mp h with ⟨between, rfl, hrest⟩ | ⟨between, rfl, hrest⟩
  · cases between with
    | nil => simp at hless
    | cons first between =>
      obtain ⟨rfl, rfl⟩ := List.cons.inj hrest
      exact hleft' link (by simp) (hright link' (by simp))
  · simp only [List.length_append] at hless
    omega

/-- A chain has one tree. -/
theorem unique {first : Tree} {links : List (Operator × Tree)} {tree tree' : Tree}
    (h : Groups first links tree) (h' : Groups first links tree') : tree = tree' := by
  induction h generalizing tree' with
  | operand first =>
    generalize hlinks : ([] : List (Operator × Tree)) = links at h'
    cases h' with
    | operand => rfl
    | root => simp at hlinks
  | @root first second lhs rhs left right op hlhs hrhs hleft hright ih₁ ih₂ =>
    generalize hlinks : left ++ (op, second) :: right = links at h'
    cases h' with
    | operand => simp at hlinks
    | @root _ second' lhs' rhs' left' right' op' hlhs' hrhs' hleft' hright' =>
      have hlength : left.length = left'.length := by
        have h₁ := root_not_left hlinks hright hleft'
        have h₂ := root_not_left hlinks.symm hright' hleft
        omega
      obtain ⟨rfl, hrest⟩ := List.append_inj hlinks hlength
      obtain ⟨hlink, rfl⟩ := List.cons.inj hrest
      obtain ⟨rfl, rfl⟩ := Prod.mk.inj hlink
      rw [ih₁ hlhs', ih₂ hrhs']

/-- A further multiplication groups to the left. -/
theorem multiply {first lhs second : Tree} {links : List (Operator × Tree)}
    (h : Groups first links lhs) (hlinks : ∀ link ∈ links, link.1 = .multiply) :
    Groups first (links ++ [(.multiply, second)]) (.binary .multiply lhs second) := by
  exact .root h (.operand second) (fun link hlink htighter => htighter.2 (hlinks link hlink))
    (by simp)

/-- A further addition or subtraction of a product groups to the left. -/
theorem add {first lhs second rhs : Tree} {links links' : List (Operator × Tree)}
    {op : Operator} (hop : op ≠ .multiply) (h : Groups first links lhs)
    (h' : Groups second links' rhs) (hlinks' : ∀ link ∈ links', link.1 = .multiply) :
    Groups first (links ++ (op, second) :: links') (.binary op lhs rhs) := by
  exact .root h h' (fun link _ htighter => hop htighter.1)
    (fun link hlink => ⟨hlinks' link hlink, hop⟩)

/-- A further multiplication takes the last operand of the loosest operators. -/
theorem exists_multiply {first tree : Tree} {links : List (Operator × Tree)}
    (h : Groups first links tree) (last : Tree) :
    ∃ tree', Groups first (links ++ [(.multiply, last)]) tree' := by
  induction h with
  | operand first => exact ⟨_, (operand first).multiply (by simp)⟩
  | @root first second lhs rhs left right op hlhs hrhs hleft hright ih₁ ih₂ =>
    by_cases hop : op = .multiply
    · subst hop
      have hwhole := hlhs.root hrhs hleft hright
      refine ⟨_, .root hwhole (.operand last) (fun link hlink => ?_) (by simp)⟩
      rcases List.mem_append.mp hlink with hmem | hmem
      · exact hleft link hmem
      · rcases List.mem_cons.mp hmem with rfl | hmem
        · exact fun htighter => htighter.2 rfl
        · exact fun htighter => htighter.2 (hright link hmem).1
    · obtain ⟨rhs', hrhs'⟩ := ih₂
      rw [List.append_assoc, List.cons_append]
      refine ⟨_, .root hlhs hrhs' hleft fun link hlink => ?_⟩
      rcases List.mem_append.mp hlink with hmem | hmem
      · exact hright link hmem
      · obtain rfl := List.mem_singleton.mp hmem
        exact ⟨rfl, hop⟩

/-- Every chain has a tree. -/
theorem total (first : Tree) (links : List (Operator × Tree)) :
    ∃ tree, Groups first links tree := by
  induction links using List.reverseRecOn with
  | nil => exact ⟨first, .operand first⟩
  | append_singleton links link ih =>
    obtain ⟨tree, htree⟩ := ih
    obtain ⟨op, second⟩ := link
    by_cases hop : op = .multiply
    · subst hop
      exact htree.exists_multiply second
    · exact ⟨_, htree.add hop (.operand second) (by simp)⟩

end Groups

end ExprLang
