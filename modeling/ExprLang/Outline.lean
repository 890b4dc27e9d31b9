import ExprLang.Decimal
import ExprLang.Node

/-!
Trees as outlines: one field a line, indented by its depth. The outline is
written behind the text that is already there.
-/
namespace ExprLang

structure Indent where
  char : Char
  size : Nat
deriving DecidableEq

def Indent.writeLine (indent : Indent) (level : Nat) (text out : String) : String :=
  (out.pushn indent.char (level * indent.size) ++ text).push '\n'

def Prototype.writeOutline (indent : Indent) (level : Nat) (proto : Prototype) (out : String) :
    String :=
  proto.params.foldl (fun out param => indent.writeLine (level + 1) ("param=" ++ param) out)
    (indent.writeLine level ("prototype=" ++ proto.name) out)

namespace Node

mutual

/-- Write a tree. The fields of a node stand a level deeper than the node, and
a field that is a tree itself has it on the lines below, another level deeper. -/
def writeOutline (indent : Indent) (level : Nat) : Node → String → String
  | number value _, out => indent.writeLine level ("number=" ++ value.text) out
  | var name _, out => indent.writeLine level ("variable=" ++ name) out
  | binary op lhs rhs _, out =>
    let out := indent.writeLine level ("bin op=" ++ op.symbol.toString) out
    let out := indent.writeLine (level + 1) "lhs=" out
    let out := writeOutline indent (level + 2) lhs out
    let out := indent.writeLine (level + 1) "rhs=" out
    writeOutline indent (level + 2) rhs out
  | call callee args _, out =>
    writeArgs indent level 0 args (indent.writeLine level ("fn call=" ++ callee) out)
  | prototype proto, out => proto.writeOutline indent level out
  | function proto body _, out =>
    let out := indent.writeLine level "fn" out
    let out := proto.writeOutline indent (level + 1) out
    let out := indent.writeLine (level + 1) "body=" out
    writeOutline indent (level + 2) body out

def writeArgs (indent : Indent) (level index : Nat) : List Node → String → String
  | [], out => out
  | arg :: args, out =>
    let out := indent.writeLine (level + 1) ("arg[" ++ index.repr ++ "]=") out
    writeArgs indent level (index + 1) args (writeOutline indent (level + 2) arg out)

end

end Node

end ExprLang
