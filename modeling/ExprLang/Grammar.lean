import ExprLang.Parser

/-!
The grammar, one routine for each construct:

    top         ::= definition | declaration | expression
    definition  ::= 'def' prototype expression
    declaration ::= 'extern' prototype
    prototype   ::= identifier '(' identifier* ')'
    expression  ::= primary (operator primary)*
    primary     ::= identifier | call | number | '(' expression ')'
    call        ::= identifier '(' (expression (',' expression)*)? ')'

A routine starts at the current token and stops on the token after its
construct or on the token it fails at. Routines that repeat or nest carry a
bound on the number of tokens left. Every repetition and every nested
expression starts behind at least one more token, so when the bound is used up
there are no tokens left, and what the routine then has to do is plain.
-/
namespace ExprLang.Parser

def noExpression (token : Token) : Failure :=
  .syntactic ⟨.noExpression token.kind.describe, token.span.start⟩

def unclosed (token : Token) : Failure :=
  .syntactic ⟨.unclosedParenthesis token.kind.describe, token.span.start⟩

def number : ParseM Node := do
  let token ← peek
  match token.kind with
  | .number digits =>
    match Binary64.ofDigits? digits with
    | some value =>
      let _ ← advance
      return .number value token.span
    | none => throw (.syntactic ⟨.malformedNumber digits, token.span.start⟩)
  | _ => throw (unexpected token "expected number")

/-! Expressions refer to themselves. In the routines below, `nested` reads an
expression inside parentheses. -/

/-- An expression in parentheses. The first token is passed over unseen. -/
def groupingWith (nested : ParseM Node) : ParseM Node := do
  let _ ← advance
  let inner ← nested
  let token ← peek
  if token.kind.isSymbol ')' then
    let _ ← advance
    return inner
  else throw (unclosed token)

def argumentsWith (nested : ParseM Node) : Nat → ParseM (List Node × Token)
  | 0 => do throw (noExpression (← peek))
  | bound + 1 => do
    let arg ← nested
    let token ← peek
    if token.kind.isSymbol ')' then return ([arg], ← advance)
    else if token.kind.isSymbol ',' then
      let _ ← advance
      let (args, close) ← argumentsWith nested bound
      return (arg :: args, close)
    else throw (unexpected token "expected `)` or `,` in argument list")

def identifierWith (nested : ParseM Node) (bound : Nat) : ParseM Node := do
  let (name, token) ← expectIdentifier "expected identifier"
  if (← peek).kind.isSymbol '(' then
    let _ ← advance
    if (← peek).kind.isSymbol ')' then
      let close ← advance
      return .call name [] (token.span.through close.span)
    else
      let (args, close) ← argumentsWith nested bound
      return .call name args (token.span.through close.span)
  else return .var name token.span

def primaryWith (nested : ParseM Node) (bound : Nat) : ParseM Node := do
  let token ← peek
  match token.kind with
  | .identifier _ => identifierWith nested bound
  | .number _ => number
  | kind => if kind.isSymbol '(' then groupingWith nested else throw (noExpression token)

/-- The operators and operands after a left operand, as far as the operators
bind at least as tightly as `least`. A right operand that is followed by a
tighter operator takes that one first, so that operators which bind equally
group to the left. -/
def operatorsWith (nested : ParseM Node) : Nat → Int → Node → ParseM Node
  | 0, _, lhs => do
    let _ ← peek
    return lhs
  | bound + 1, least, lhs => do
    match (← peek).kind.operator? with
    | none => return lhs
    | some op =>
      if op.power < least then return lhs
      else
        let _ ← advance
        let operand ← primaryWith nested bound
        let rhs ← match (← peek).kind.operator? with
          | none => pure operand
          | some next =>
            if op.power < next.power then operatorsWith nested bound (op.power + 1) operand
            else pure operand
        operatorsWith nested bound least (.binary op lhs rhs (lhs.span.through rhs.span))

def expressionWithin : Nat → ParseM Node
  | 0 => do throw (noExpression (← peek))
  | bound + 1 => do
    let nested := expressionWithin bound
    let lhs ← primaryWith nested bound
    operatorsWith nested bound 0 lhs

def paramsWithin : Nat → ParseM (List String)
  | 0 => do
    let _ ← peek
    return []
  | bound + 1 => do
    match (← peek).kind with
    | .identifier name =>
      let _ ← advance
      return name :: (← paramsWithin bound)
    | _ => return []

def prototypeWithin (bound : Nat) : ParseM Prototype := do
  let (name, token) ← expectIdentifier "expected function name in prototype"
  let _ ← expectSymbol '(' "expected `(` in prototype"
  let params ← paramsWithin bound
  let close ← expectSymbol ')' "expected `)` in prototype"
  return ⟨name, params, token.span.through close.span⟩

def definitionWithin (bound : Nat) : ParseM Node := do
  let start ← advance
  let proto ← prototypeWithin bound
  let body ← expressionWithin bound
  return .function proto body (start.span.through body.span)

/-- A declaration. The first token is passed over unseen, but the span of the
prototype starts with it. -/
def declarationWithin (bound : Nat) : ParseM Node := do
  let start ← advance
  let proto ← prototypeWithin bound
  return .prototype { proto with span := start.span.through proto.span }

def topLevelWithin (bound : Nat) : ParseM (Option Node) := do
  match (← peek).kind with
  | .endOfInput => return none
  | .define => return some (← definitionWithin bound)
  | .declare => return some (← declarationWithin bound)
  | _ => return some (← expressionWithin bound)

def recover (diagnostic : Diagnostic) : ReadM Unit := do
  modify (·.report diagnostic)
  let token ← advance
  modify (·.note (.skipped token))

/-- The next top-level construct. There is none at the end of the input and
none after a syntax error, which is reported; a lexical error is final. -/
def nextWithin (bound : Nat) : ReadM (Option Node) := fun parser =>
  match topLevelWithin bound parser with
  | .ok none parser => .ok none parser
  | .ok (some node) parser => .ok (some node) (parser.note (.parsed node))
  | .error (.lexical error) parser => .error error parser
  | .error (.syntactic diagnostic) parser => (do recover diagnostic; return none) parser

def nodesWithin : Nat → ReadM (List Node)
  | 0 => do
    let _ ← peek
    return []
  | bound + 1 => do
    if ← hasTokens then
      let node ← nextWithin (bound + 1)
      return node.toList ++ (← nodesWithin bound)
    else return []

/-! The routines at an arbitrary place of the input. -/

/-- Run a routine with a bound on the number of tokens left. -/
def bounded {ε α : Type} (routine : Nat → EStateM ε Parser α) : EStateM ε Parser α :=
  fun parser => routine parser.lexer.pending parser

def grouping : ParseM Node := bounded fun bound => groupingWith (expressionWithin bound)

def identifier : ParseM Node := bounded fun bound => identifierWith (expressionWithin bound) bound

def primary : ParseM Node := bounded fun bound => primaryWith (expressionWithin bound) bound

def operators (least : Int) (lhs : Node) : ParseM Node :=
  bounded fun bound => operatorsWith (expressionWithin bound) bound least lhs

def expression : ParseM Node := bounded expressionWithin

def prototype : ParseM Prototype := bounded prototypeWithin

def definition : ParseM Node := bounded definitionWithin

def declaration : ParseM Node := bounded declarationWithin

def topLevel : ParseM (Option Node) := bounded topLevelWithin

def next : ReadM (Option Node) := bounded nextWithin

def nodes : ReadM (List Node) := bounded nodesWithin

end Parser

structure Parsed where
  outcome : Except LexicalError (List Node)
  parser : Parser

def sameOutcome : Except LexicalError (List Node) → Except LexicalError (List Node) → Bool
  | .ok xs, .ok ys => Node.sameList xs ys
  | .error e, .error f => e == f
  | _, _ => false

def parse (source : String) (file : Option String) : Parsed :=
  match Parser.nodes (Parser.ofSource source file) with
  | .ok nodes parser => ⟨.ok nodes, parser⟩
  | .error error parser => ⟨.error error, parser⟩

end ExprLang
