import ExprLang.Proofs.Stopping

/-!
The routines as programs. A program looks at tokens, passes over them and calls routines,
itself among them, and nothing bounds how often. What it does is told by its runs, which are
finite: a program ends where and only where it has a run, and then it has one alone.
-/
namespace ExprLang.Parser

open Lexer (Stream)

/-- The routines. What a routine repeats, it does by a call of a routine at its end: the
operators go on with the operators behind them, and the arguments of a call and the
parameters of a prototype are routines of their own. -/
inductive Routine where
  | topLevel
  | definition
  | declaration
  | prototype
  | params
  | expression
  | primary
  | operators (least : Int) (lhs : Node)
  | grouping
  | identifier
  | arguments
  | number

abbrev Routine.Result : Routine → Type
  | topLevel => Option Node
  | prototype => Prototype
  | params => List String
  | arguments => List Node × Token
  | _ => Node

inductive Reading where
  | look
  | pass

def Reading.run : Reading → ReadM Token
  | look => peek
  | pass => advance

inductive Program (α : Type) where
  | done (outcome : Except Failure α)
  | read (reading : Reading) (rest : Token → Program α)
  | call (routine : Routine) (rest : routine.Result → Program α)

namespace Program

variable {α β : Type}

def bind : Program α → (α → Program β) → Program β
  | done (.ok value), next => next value
  | done (.error failure), _ => done (.error failure)
  | read reading rest, next => read reading fun token => (rest token).bind next
  | call routine rest, next => call routine fun value => (rest value).bind next

instance : Monad Program where
  pure value := done (.ok value)
  bind := bind

def peek : Program Token := read .look Pure.pure

def advance : Program Token := read .pass Pure.pure

def fail (failure : Failure) : Program α := done (.error failure)

def invoke (routine : Routine) : Program routine.Result := call routine Pure.pure

def expectSymbol (c : Char) (wanted : String) : Program Token := do
  let token ← peek
  if token.kind.isSymbol c then advance else fail (unexpected token wanted)

def expectIdentifier (wanted : String) : Program (String × Token) := do
  let token ← peek
  match token.kind with
  | .identifier name => return (name, ← advance)
  | _ => fail (unexpected token wanted)

/-! What the routines do. -/

def number : Program Node := do
  let token ← peek
  match token.kind with
  | .number digits =>
    match Binary64.ofDigits? digits with
    | some value =>
      let _ ← advance
      return .number value token.span
    | none => fail (.syntactic ⟨.malformedNumber digits, token.span.start⟩)
  | _ => fail (unexpected token "expected number")

def grouping : Program Node := do
  let _ ← advance
  let inner ← invoke .expression
  let token ← peek
  if token.kind.isSymbol ')' then
    let _ ← advance
    return inner
  else fail (unclosed token)

def arguments : Program (List Node × Token) := do
  let arg ← invoke .expression
  let token ← peek
  if token.kind.isSymbol ')' then return ([arg], ← advance)
  else if token.kind.isSymbol ',' then
    let _ ← advance
    let (args, close) ← invoke .arguments
    return (arg :: args, close)
  else fail (unexpected token "expected `)` or `,` in argument list")

def identifier : Program Node := do
  let (name, start) ← expectIdentifier "expected identifier"
  if (← peek).kind.isSymbol '(' then
    let _ ← advance
    if (← peek).kind.isSymbol ')' then
      let close ← advance
      return .call name [] (start.span.through close.span)
    else
      let (args, close) ← invoke .arguments
      return .call name args (start.span.through close.span)
  else return .var name start.span

def primary : Program Node := do
  let token ← peek
  match token.kind with
  | .identifier _ => invoke .identifier
  | .number _ => invoke .number
  | kind => if kind.isSymbol '(' then invoke .grouping else fail (noExpression token)

def rightOperand (op : Operator) (operand : Node) : Program Node := do
  match (← peek).kind.operator? with
  | none => return operand
  | some next =>
    if op.power < next.power then invoke (.operators (op.power + 1) operand) else return operand

def operators (least : Int) (lhs : Node) : Program Node := do
  match (← peek).kind.operator? with
  | none => return lhs
  | some op =>
    if op.power < least then return lhs
    else
      let _ ← advance
      let operand ← invoke .primary
      let rhs ← rightOperand op operand
      invoke (.operators least (.binary op lhs rhs (lhs.span.through rhs.span)))

def expression : Program Node := do
  let lhs ← invoke .primary
  invoke (.operators 0 lhs)

def params : Program (List String) := do
  match (← peek).kind with
  | .identifier name =>
    let _ ← advance
    return name :: (← invoke .params)
  | _ => return []

def prototype : Program Prototype := do
  let (name, start) ← expectIdentifier "expected function name in prototype"
  let _ ← expectSymbol '(' "expected `(` in prototype"
  let params ← invoke .params
  let close ← expectSymbol ')' "expected `)` in prototype"
  return ⟨name, params, start.span.through close.span⟩

def definition : Program Node := do
  let start ← advance
  let proto ← invoke .prototype
  let body ← invoke .expression
  return .function proto body (start.span.through body.span)

def declaration : Program Node := do
  let start ← advance
  let proto ← invoke .prototype
  return .prototype { proto with span := start.span.through proto.span }

def topLevel : Program (Option Node) := do
  match (← peek).kind with
  | .endOfInput => return none
  | .define => return some (← invoke .definition)
  | .declare => return some (← invoke .declaration)
  | _ => return some (← invoke .expression)

end Program

def Routine.body : (routine : Routine) → Program routine.Result
  | topLevel => Program.topLevel
  | definition => Program.definition
  | declaration => Program.declaration
  | prototype => Program.prototype
  | params => Program.params
  | expression => Program.expression
  | primary => Program.primary
  | operators least lhs => Program.operators least lhs
  | grouping => Program.grouping
  | identifier => Program.identifier
  | arguments => Program.arguments
  | number => Program.number

/-- The program, started here, ends with this outcome there. A failure of what it calls, and
a lexical error in front of it, is its own. -/
inductive Program.Runs : {α : Type} → Program α → Parser → Except Failure α → Parser → Prop
  | done {α : Type} {outcome : Except Failure α} {p : Parser} : Runs (.done outcome) p outcome p
  | read {α : Type} {reading : Reading} {rest : Token → Program α} {outcome : Except Failure α}
      {token : Token} {p q r : Parser} (hread : reading.run p = .ok token q)
      (hrest : Runs (rest token) q outcome r) : Runs (.read reading rest) p outcome r
  | readFails {α : Type} {reading : Reading} {rest : Token → Program α} {error : LexicalError}
      {p q : Parser} (hread : reading.run p = .error error q) :
      Runs (.read reading rest) p (.error (.lexical error)) q
  | call {α : Type} {routine : Routine} {rest : routine.Result → Program α}
      {outcome : Except Failure α} {value : routine.Result} {p q r : Parser}
      (hcall : Runs routine.body p (.ok value) q) (hrest : Runs (rest value) q outcome r) :
      Runs (.call routine rest) p outcome r
  | callFails {α : Type} {routine : Routine} {rest : routine.Result → Program α}
      {failure : Failure} {p q : Parser} (hcall : Runs routine.body p (.error failure) q) :
      Runs (.call routine rest) p (.error failure) q

namespace Reading

variable {reading : Reading} {token : Token} {error : LexicalError} {p q : Parser}

def behind : Reading → Parser → Parser
  | look, p => p.look
  | pass, p => p.pass

theorem run_of_ok (reading : Reading) (h : p.ahead.head = .ok token) :
    reading.run p = .ok token (reading.behind p) := by
  cases reading with
  | look => exact peek_of_ok p token h
  | pass => exact advance_of_ok p token h

theorem run_of_error (reading : Reading) (h : p.ahead.head = .error error) :
    reading.run p = .error error p.look := by
  cases reading with
  | look => exact peek_of_error p error h
  | pass => exact bind_of_error _ _ _ _ _ (peek_of_error p error h)

theorem head_of_run (h : reading.run p = .ok token q) :
    p.ahead.head = .ok token ∧ q = reading.behind p := by
  cases hhead : p.ahead.head with
  | ok token' =>
    obtain ⟨rfl, rfl⟩ := EStateM.Result.ok.inj ((reading.run_of_ok hhead).symm.trans h)
    exact ⟨rfl, rfl⟩
  | error error => cases (reading.run_of_error hhead).symm.trans h

theorem moves_behind (reading : Reading) (p : Parser) : p.Moves (reading.behind p) := by
  cases reading with
  | look => exact moves_look p
  | pass => exact moves_pass p

theorem moves_of_ok (h : reading.run p = .ok token q) : p.Moves q := by
  obtain ⟨-, rfl⟩ := head_of_run h
  exact reading.moves_behind p

theorem moves_of_error (h : reading.run p = .error error q) : p.Moves q := by
  cases hhead : p.ahead.head with
  | ok token => cases (reading.run_of_ok hhead).symm.trans h
  | error error' =>
    obtain ⟨-, rfl⟩ := EStateM.Result.error.inj ((reading.run_of_error hhead).symm.trans h)
    exact moves_look p

end Reading

namespace Program.Runs

variable {α β : Type} {program : Program α} {next : α → Program β} {p q r : Parser}
  {outcome outcome' : Except Failure α} {final : Except Failure β}

/-- There is one way to run a program. -/
theorem unique (h : Runs program p outcome q) (h' : Runs program p outcome' r) :
    outcome = outcome' ∧ q = r := by
  induction h generalizing r with
  | done =>
    cases h'
    exact ⟨rfl, rfl⟩
  | read hread _ ih =>
    cases h' with
    | read hread' hrest =>
      obtain ⟨rfl, rfl⟩ := EStateM.Result.ok.inj (hread.symm.trans hread')
      exact ih hrest
    | readFails hread' => cases hread.symm.trans hread'
  | readFails hread =>
    cases h' with
    | read hread' => cases hread.symm.trans hread'
    | readFails hread' =>
      obtain ⟨rfl, rfl⟩ := EStateM.Result.error.inj (hread.symm.trans hread')
      exact ⟨rfl, rfl⟩
  | call _ _ ih₁ ih₂ =>
    cases h' with
    | call hcall hrest =>
      obtain ⟨hvalue, rfl⟩ := ih₁ hcall
      obtain rfl := Except.ok.inj hvalue
      exact ih₂ hrest
    | callFails hcall => cases (ih₁ hcall).1
  | callFails _ ih =>
    cases h' with
    | call hcall => cases (ih hcall).1
    | callFails hcall =>
      obtain ⟨hfailure, rfl⟩ := ih hcall
      obtain rfl := Except.error.inj hfailure
      exact ⟨rfl, rfl⟩

theorem bind_ok {value : α} (h : Runs program p (.ok value) q)
    (hnext : Runs (next value) q final r) : Runs (program >>= next) p final r := by
  generalize houtcome : Except.ok value = outcome at h
  induction h with
  | done =>
    cases houtcome
    exact hnext
  | read hread _ ih => exact .read hread (ih hnext houtcome)
  | call hcall _ _ ih => exact .call hcall (ih hnext houtcome)
  | readFails | callFails => cases houtcome

theorem bind_error {failure : Failure} (h : Runs program p (.error failure) q) :
    Runs (program >>= next) p (.error failure) q := by
  generalize houtcome : (Except.error failure : Except Failure α) = outcome at h
  induction h with
  | done =>
    cases houtcome
    exact .done
  | read hread _ ih => exact .read hread (ih houtcome)
  | call hcall _ _ ih => exact .call hcall (ih houtcome)
  | readFails hread =>
    cases houtcome
    exact .readFails hread
  | callFails hcall =>
    cases houtcome
    exact .callFails hcall

/-- Whatever a program does and however it ends, it only goes on. -/
theorem moves (h : program.Runs p outcome q) : p.Moves q := by
  induction h with
  | done => exact .refl _
  | read hread _ ih => exact (Reading.moves_of_ok hread).trans ih
  | readFails hread => exact Reading.moves_of_error hread
  | call _ _ ih₁ ih₂ => exact ih₁.trans ih₂
  | callFails _ ih => exact ih

end Program.Runs

end ExprLang.Parser
