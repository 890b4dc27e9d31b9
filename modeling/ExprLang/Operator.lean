import ExprLang.Token

/-!
Binary operators and how tightly they bind. Multiplication binds tighter than
addition and subtraction, which bind equally.
-/
namespace ExprLang

inductive Operator where
  | add
  | subtract
  | multiply
deriving DecidableEq

namespace Operator

def symbol : Operator → Char
  | add => '+'
  | subtract => '-'
  | multiply => '*'

def power : Operator → Int
  | add | subtract => 20
  | multiply => 40

def ofText? (text : String) : Option Operator :=
  match text.toList with
  | ['+'] => some add
  | ['-'] => some subtract
  | ['*'] => some multiply
  | _ => none

/-- An operator is written with its symbol and nothing else. -/
theorem ofText?_eq_some_iff (text : String) (op : Operator) :
    ofText? text = some op ↔ text = String.singleton op.symbol := by
  constructor
  · intro h
    apply String.toList_inj.mp
    unfold ofText? at h
    split at h <;> simp_all <;> subst h <;> rfl
  · rintro rfl
    cases op <;> simp [ofText?, symbol]

/-- Operators are told apart by their symbols. -/
theorem symbol_inj {op op' : Operator} (h : op.symbol = op'.symbol) : op = op' := by
  have hfirst := (ofText?_eq_some_iff (String.singleton op.symbol) op).mpr rfl
  rw [h, (ofText?_eq_some_iff _ op').mpr rfl] at hfirst
  exact (Option.some.inj hfirst).symm

end Operator

def Token.Kind.operator? : Token.Kind → Option Operator
  | symbol text => Operator.ofText? text
  | _ => none

end ExprLang
