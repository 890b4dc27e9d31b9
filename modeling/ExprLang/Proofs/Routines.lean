import ExprLang.Proofs.Reading

/-!
The routines of the parser follow the rules of reading. A routine with a bound
on the tokens left ends as the rules say whenever the bound is large enough, so
the bound decides nothing. Reading never touches the diagnostics and stops on
the token it fails at.
-/
namespace ExprLang

open Lexer (Stream)

namespace Parser

variable {α β : Type} {last : Except LexicalError Token} {tokens rest final : List Token}
  {looked looked' : Bool} {p q : Parser}

/-- A routine ends with this outcome where only the rest of the tokens is left.
The flag tells whether it surely has looked at the next token by then. -/
def Ends (looked : Bool) (routine : ParseM α) (before : Parser) (tokens : List Token)
    (outcome : Except Failure α) (rest : List Token) : Prop :=
  ∃ after, before.Leads tokens rest after ∧ (looked = true → after.look = after) ∧
    routine before = match outcome with
      | .ok value => .ok value after
      | .error failure => .error failure after

namespace Ends

theorem look_of_looked {outcome : Except Failure α} {routine : ParseM α}
    (h : Ends true routine p tokens outcome rest) :
    Ends looked routine p tokens outcome rest := by
  obtain ⟨after, hleads, hlooked, hrun⟩ := h
  exact ⟨after, hleads, fun _ => hlooked rfl, hrun⟩

theorem bind {outcome : Except Failure β} {value : α} {routine : ParseM α}
    {next : α → ParseM β} (hp : p.ahead = ⟨tokens, last⟩)
    (h : Ends looked routine p tokens (.ok value) rest)
    (hnext : ∀ q : Parser, q.ahead = ⟨rest, last⟩ → (looked = true → q.look = q) →
      Ends looked' (next value) q rest outcome final) :
    Ends looked' (routine >>= next) p tokens outcome final := by
  obtain ⟨q, hleads, hlooked, hrun⟩ := h
  obtain ⟨after, hafter, hlooked', hrun'⟩ := hnext q (hleads.ahead_eq hp) hlooked
  refine ⟨after, hleads.trans hafter, hlooked', ?_⟩
  rw [bind_of_ok _ _ _ _ _ hrun, hrun']

theorem bind_error {failure : Failure} {routine : ParseM α} {next : α → ParseM β}
    (h : Ends looked routine p tokens (.error failure) rest) :
    Ends looked (routine >>= next) p tokens (.error failure) rest := by
  obtain ⟨q, hleads, hlooked, hrun⟩ := h
  exact ⟨q, hleads, hlooked, bind_of_error _ _ _ _ _ hrun⟩

theorem peek {token : Token} (hp : p.ahead = ⟨tokens, last⟩)
    (hhead : Stream.head ⟨tokens, last⟩ = .ok token) :
    Ends true (liftM Parser.peek) p tokens (.ok token) tokens :=
  ⟨p.look, (Leads.refl p tokens).look, fun _ => look_look p,
    lift_of_ok _ _ _ _ (peek_of_ok p token (by rw [hp, hhead]))⟩

theorem peek_error {error : LexicalError} (hp : p.ahead = ⟨tokens, last⟩)
    (hhead : Stream.head ⟨tokens, last⟩ = .error error) :
    Ends true (liftM Parser.peek) p tokens (.error (.lexical error)) tokens :=
  ⟨p.look, (Leads.refl p tokens).look, fun _ => look_look p,
    lift_of_error _ _ _ _ (peek_of_error p error (by rw [hp, hhead]))⟩

theorem advance {token : Token} (hp : p.ahead = ⟨token :: tokens, last⟩) :
    Ends false (liftM Parser.advance) p (token :: tokens) (.ok token) tokens :=
  ⟨p.pass, (Leads.refl p _).pass, fun h => by simp at h,
    lift_of_ok _ _ _ _ (advance_of_ok p token (by rw [hp]; rfl))⟩

theorem pure {value : α} (hlooked : looked = true → p.look = p) :
    Ends looked (Pure.pure value) p tokens (.ok value) tokens :=
  ⟨p, Leads.refl p tokens, hlooked, rfl⟩

theorem throw {failure : Failure} (hlooked : looked = true → p.look = p) :
    Ends looked (MonadExcept.throw failure : ParseM α) p tokens (.error failure) tokens :=
  ⟨p, Leads.refl p tokens, hlooked, rfl⟩

/-- Two routines that end alike do the same. -/
theorem run_eq {first second : ParseM α} {outcome : Except Failure α}
    (h : Ends true first p tokens outcome rest) (h' : Ends true second p tokens outcome rest) :
    first p = second p := by
  obtain ⟨q, hq, hlook, hrun⟩ := h
  obtain ⟨s, hs, hlook', hrun'⟩ := h'
  have hsame : q = s := by rw [← hlook rfl, ← hlook' rfl, hq.look_eq hs]
  rw [hrun, hrun', hsame]

/-- The bound on the tokens left is large enough for all of them. -/
theorem bounded {routine : Nat → ParseM α} {outcome : Except Failure α}
    (hp : p.ahead = ⟨tokens, last⟩)
    (h : ∀ n, tokens.length ≤ n → Ends looked (routine n) p tokens outcome rest) :
    Ends looked (Parser.bounded routine) p tokens outcome rest := by
  have hbound := Lexer.length_tokens_le_pending p.lexer
  rw [show p.lexer.stream = ⟨tokens, last⟩ from hp] at hbound
  exact h p.lexer.pending hbound

end Ends

section Operands

variable {nested : ParseM Node} {n : Nat}

theorem number_ends {token : Token} {digits : String} {value : Binary64}
    (hp : p.ahead = ⟨token :: rest, last⟩) (hkind : token.kind = .number digits)
    (hvalue : Binary64.ofDigits? digits = some value) :
    Ends false number p (token :: rest) (.ok (.number value token.span)) rest := by
  refine Ends.bind hp (Ends.peek hp rfl) fun q hq _ => ?_
  simp only [hkind, hvalue]
  exact Ends.bind hq (Ends.advance hq) fun q hq _ => Ends.pure (by simp)

theorem number_malformed {token : Token} {digits : String}
    (hp : p.ahead = ⟨token :: rest, last⟩) (hkind : token.kind = .number digits)
    (hvalue : Binary64.ofDigits? digits = none) :
    Ends true number p (token :: rest)
      (.error (.syntactic ⟨.malformedNumber digits, token.span.start⟩)) (token :: rest) := by
  refine Ends.bind hp (Ends.peek hp rfl) fun q hq hlook => ?_
  simp only [hkind, hvalue]
  exact Ends.throw hlook

theorem expectIdentifier_ends {token : Token} {name wanted : String}
    (hp : p.ahead = ⟨token :: rest, last⟩) (hkind : token.kind = .identifier name) :
    Ends false (expectIdentifier wanted) p (token :: rest) (.ok (name, token)) rest := by
  refine Ends.bind hp (Ends.peek hp rfl) fun q hq _ => ?_
  simp only [hkind]
  exact Ends.bind hq (Ends.advance hq) fun q hq _ => Ends.pure (by simp)

/-- The routine for an operand hands on to the one its first token asks for. -/
theorem primaryWith_number {token : Token} {digits : String} {outcome : Except Failure Node}
    (hp : p.ahead = ⟨tokens, last⟩) (hhead : Stream.head ⟨tokens, last⟩ = .ok token)
    (hkind : token.kind = .number digits)
    (h : ∀ q : Parser, q.ahead = ⟨tokens, last⟩ → Ends looked number q tokens outcome rest) :
    Ends looked (primaryWith nested n) p tokens outcome rest := by
  refine Ends.bind hp (Ends.peek hp hhead) fun q hq _ => ?_
  simp only [hkind]
  exact h q hq

theorem primaryWith_identifier {token : Token} {name : String} {outcome : Except Failure Node}
    (hp : p.ahead = ⟨tokens, last⟩) (hhead : Stream.head ⟨tokens, last⟩ = .ok token)
    (hkind : token.kind = .identifier name)
    (h : ∀ q : Parser, q.ahead = ⟨tokens, last⟩ →
      Ends looked (identifierWith nested n) q tokens outcome rest) :
    Ends looked (primaryWith nested n) p tokens outcome rest := by
  refine Ends.bind hp (Ends.peek hp hhead) fun q hq _ => ?_
  simp only [hkind]
  exact h q hq

theorem primaryWith_grouping {token : Token} {outcome : Except Failure Node}
    (hp : p.ahead = ⟨tokens, last⟩) (hhead : Stream.head ⟨tokens, last⟩ = .ok token)
    (hkind : token.kind = .mark '(')
    (h : ∀ q : Parser, q.ahead = ⟨tokens, last⟩ →
      Ends looked (groupingWith nested) q tokens outcome rest) :
    Ends looked (primaryWith nested n) p tokens outcome rest := by
  refine Ends.bind hp (Ends.peek hp hhead) fun q hq _ => ?_
  split
  · next heq => simp [hkind, Token.Kind.mark] at heq
  · next heq => simp [hkind, Token.Kind.mark] at heq
  · rw [if_pos ((Token.Kind.isSymbol_iff _ _).mpr hkind)]
    exact h q hq

theorem primaryWith_noOperand {token : Token} (hp : p.ahead = ⟨tokens, last⟩)
    (hhead : Stream.head ⟨tokens, last⟩ = .ok token) (hkind : ¬ token.kind.StartsOperand) :
    Ends true (primaryWith nested n) p tokens (.error (noExpression token)) tokens := by
  refine Ends.bind hp (Ends.peek hp hhead) fun q hq hlook => ?_
  split
  · next name heq => exact absurd (Or.inl ⟨name, heq⟩) hkind
  · next digits heq => exact absurd (Or.inr (Or.inl ⟨digits, heq⟩)) hkind
  · rw [if_neg fun hopen => hkind (Or.inr (Or.inr ((Token.Kind.isSymbol_iff _ _).mp hopen)))]
    exact Ends.throw hlook

theorem identifierWith_name {token follower : Token} {name : String}
    (hp : p.ahead = ⟨token :: rest, last⟩) (hkind : token.kind = .identifier name)
    (hhead : Stream.head ⟨rest, last⟩ = .ok follower) (hopen : follower.kind ≠ .mark '(') :
    Ends false (identifierWith nested n) p (token :: rest) (.ok (.var name token.span)) rest := by
  refine Ends.bind hp (expectIdentifier_ends hp hkind) fun q hq _ => ?_
  refine Ends.bind hq (Ends.peek hq hhead) fun q hq _ => ?_
  rw [if_neg fun h => hopen ((Token.Kind.isSymbol_iff _ _).mp h)]
  exact Ends.pure (by simp)

theorem identifierWith_stuck {token : Token} {name : String} {error : LexicalError}
    (hp : p.ahead = ⟨token :: rest, last⟩) (hkind : token.kind = .identifier name)
    (hhead : Stream.head ⟨rest, last⟩ = .error error) :
    Ends true (identifierWith nested n) p (token :: rest) (.error (.lexical error)) rest :=
  Ends.bind hp (expectIdentifier_ends hp hkind) fun _ hq _ =>
    Ends.bind_error (Ends.peek_error hq hhead)

/-- Behind a name and an opening parenthesis. -/
theorem identifierWith_opened {token opener : Token} {name : String}
    {outcome : Except Failure Node} (hp : p.ahead = ⟨token :: opener :: tokens, last⟩)
    (hkind : token.kind = .identifier name) (hopen : opener.kind = .mark '(')
    (h : ∀ q : Parser, q.ahead = ⟨tokens, last⟩ → Ends looked (do
      if (← peek).kind.isSymbol ')' then
        let close ← advance
        return .call name [] (token.span.through close.span)
      else
        let (args, close) ← argumentsWith nested n
        return .call name args (token.span.through close.span)) q tokens outcome rest) :
    Ends looked (identifierWith nested n) p (token :: opener :: tokens) outcome rest := by
  refine Ends.bind hp (expectIdentifier_ends hp hkind) fun q hq _ => ?_
  refine Ends.bind hq (Ends.peek hq rfl) fun q hq _ => ?_
  rw [if_pos ((Token.Kind.isSymbol_iff _ _).mpr hopen)]
  exact Ends.bind hq (Ends.advance hq) fun q hq _ => h q hq

theorem identifierWith_emptyCall {token opener closer : Token} {name : String}
    (hp : p.ahead = ⟨token :: opener :: closer :: rest, last⟩)
    (hkind : token.kind = .identifier name) (hopen : opener.kind = .mark '(')
    (hclose : closer.kind = .mark ')') :
    Ends false (identifierWith nested n) p (token :: opener :: closer :: rest)
      (.ok (.call name [] (token.span.through closer.span))) rest := by
  refine identifierWith_opened hp hkind hopen fun q hq => ?_
  refine Ends.bind hq (Ends.peek hq rfl) fun q hq _ => ?_
  rw [if_pos ((Token.Kind.isSymbol_iff _ _).mpr hclose)]
  exact Ends.bind hq (Ends.advance hq) fun q hq _ => Ends.pure (by simp)

theorem identifierWith_call {token opener close : Token} {name : String} {args : List Node}
    (hp : p.ahead = ⟨token :: opener :: tokens, last⟩)
    (hkind : token.kind = .identifier name) (hopen : opener.kind = .mark '(')
    {follower : Token} (hhead : Stream.head ⟨tokens, last⟩ = .ok follower)
    (hclose : follower.kind ≠ .mark ')')
    (h : ∀ q : Parser, q.ahead = ⟨tokens, last⟩ →
      Ends false (argumentsWith nested n) q tokens (.ok (args, close)) rest) :
    Ends false (identifierWith nested n) p (token :: opener :: tokens)
      (.ok (.call name args (token.span.through close.span))) rest := by
  refine identifierWith_opened hp hkind hopen fun q hq => ?_
  refine Ends.bind hq (Ends.peek hq hhead) fun q hq _ => ?_
  rw [if_neg fun h => hclose ((Token.Kind.isSymbol_iff _ _).mp h)]
  exact Ends.bind hq (h q hq) fun q hq _ => Ends.pure (by simp)

theorem identifierWith_callFails {token opener : Token} {name : String} {failure : Failure}
    (hp : p.ahead = ⟨token :: opener :: tokens, last⟩)
    (hkind : token.kind = .identifier name) (hopen : opener.kind = .mark '(')
    {follower : Token} (hhead : Stream.head ⟨tokens, last⟩ = .ok follower)
    (hclose : follower.kind ≠ .mark ')')
    (h : ∀ q : Parser, q.ahead = ⟨tokens, last⟩ →
      Ends true (argumentsWith nested n) q tokens (.error failure) rest) :
    Ends true (identifierWith nested n) p (token :: opener :: tokens) (.error failure) rest := by
  refine identifierWith_opened hp hkind hopen fun q hq => ?_
  refine Ends.bind hq (Ends.peek hq hhead) fun q hq _ => ?_
  rw [if_neg fun h => hclose ((Token.Kind.isSymbol_iff _ _).mp h)]
  exact Ends.bind_error (h q hq)

theorem groupingWith_ends {opener closer : Token} {node : Node}
    (hp : p.ahead = ⟨opener :: tokens, last⟩)
    (h : ∀ q : Parser, q.ahead = ⟨tokens, last⟩ →
      Ends true nested q tokens (.ok node) (closer :: rest))
    (hclose : closer.kind = .mark ')') :
    Ends false (groupingWith nested) p (opener :: tokens) (.ok node) rest := by
  refine Ends.bind hp (Ends.advance hp) fun q hq _ => ?_
  refine Ends.bind hq (h q hq) fun q hq _ => ?_
  refine Ends.bind hq (Ends.peek hq rfl) fun q hq _ => ?_
  rw [if_pos ((Token.Kind.isSymbol_iff _ _).mpr hclose)]
  exact Ends.bind hq (Ends.advance hq) fun q hq _ => Ends.pure (by simp)

theorem groupingWith_unclosed {opener follower : Token} {node : Node}
    (hp : p.ahead = ⟨opener :: tokens, last⟩)
    (h : ∀ q : Parser, q.ahead = ⟨tokens, last⟩ → Ends true nested q tokens (.ok node) rest)
    (hhead : Stream.head ⟨rest, last⟩ = .ok follower) (hclose : follower.kind ≠ .mark ')') :
    Ends true (groupingWith nested) p (opener :: tokens) (.error (unclosed follower)) rest := by
  refine Ends.bind hp (Ends.advance hp) fun q hq _ => ?_
  refine Ends.bind hq (h q hq) fun q hq _ => ?_
  refine Ends.bind hq (Ends.peek hq hhead) fun q hq hlook => ?_
  rw [if_neg fun h => hclose ((Token.Kind.isSymbol_iff _ _).mp h)]
  exact Ends.throw hlook

theorem groupingWith_innerFails {opener : Token} {failure : Failure}
    (hp : p.ahead = ⟨opener :: tokens, last⟩)
    (h : ∀ q : Parser, q.ahead = ⟨tokens, last⟩ →
      Ends true nested q tokens (.error failure) rest) :
    Ends true (groupingWith nested) p (opener :: tokens) (.error failure) rest :=
  Ends.bind hp (Ends.advance hp) fun q hq _ => Ends.bind_error (h q hq)

theorem argumentsWith_last {closer : Token} {arg : Node} (hp : p.ahead = ⟨tokens, last⟩)
    (h : Ends true nested p tokens (.ok arg) (closer :: rest)) (hclose : closer.kind = .mark ')') :
    Ends false (argumentsWith nested (n + 1)) p tokens (.ok ([arg], closer)) rest := by
  refine Ends.bind hp h fun q hq _ => ?_
  refine Ends.bind hq (Ends.peek hq rfl) fun q hq _ => ?_
  rw [if_pos ((Token.Kind.isSymbol_iff _ _).mpr hclose)]
  exact Ends.bind hq (Ends.advance hq) fun q hq _ => Ends.pure (by simp)

/-- Behind an argument and a comma. -/
theorem argumentsWith_comma {comma : Token} {arg : Node} {tokens₁ : List Token}
    {outcome : Except Failure (List Node × Token)} (hp : p.ahead = ⟨tokens, last⟩)
    (h : Ends true nested p tokens (.ok arg) (comma :: tokens₁)) (hcomma : comma.kind = .mark ',')
    (hrest : ∀ q : Parser, q.ahead = ⟨tokens₁, last⟩ → Ends looked (do
      let (args, close) ← argumentsWith nested n
      return (arg :: args, close)) q tokens₁ outcome rest) :
    Ends looked (argumentsWith nested (n + 1)) p tokens outcome rest := by
  refine Ends.bind hp h fun q hq _ => ?_
  refine Ends.bind hq (Ends.peek hq rfl) fun q hq _ => ?_
  rw [if_neg fun h => by simp [hcomma, Token.Kind.isSymbol_iff, Token.Kind.mark] at h,
    if_pos ((Token.Kind.isSymbol_iff _ _).mpr hcomma)]
  exact Ends.bind hq (Ends.advance hq) fun q hq _ => hrest q hq

theorem argumentsWith_separator {follower : Token} {arg : Node} (hp : p.ahead = ⟨tokens, last⟩)
    (h : Ends true nested p tokens (.ok arg) rest)
    (hhead : Stream.head ⟨rest, last⟩ = .ok follower) (hclose : follower.kind ≠ .mark ')')
    (hcomma : follower.kind ≠ .mark ',') :
    Ends true (argumentsWith nested (n + 1)) p tokens
      (.error (unexpected follower "expected `)` or `,` in argument list")) rest := by
  refine Ends.bind hp h fun q hq _ => ?_
  refine Ends.bind hq (Ends.peek hq hhead) fun q hq hlook => ?_
  rw [if_neg fun h => hclose ((Token.Kind.isSymbol_iff _ _).mp h),
    if_neg fun h => hcomma ((Token.Kind.isSymbol_iff _ _).mp h)]
  exact Ends.throw hlook

end Operands

section Operators

variable {nested : ParseM Node} {n : Nat} {least : Int} {lhs : Node}

def rightOperand (nested : ParseM Node) (bound : Nat) (op : Operator) (operand : Node) :
    ParseM Node := do
  match (← peek).kind.operator? with
  | none => pure operand
  | some next =>
    if op.power < next.power then operatorsWith nested bound (op.power + 1) operand
    else pure operand

theorem operatorsWith_succ (nested : ParseM Node) (bound : Nat) (least : Int) (lhs : Node) :
    operatorsWith nested (bound + 1) least lhs = (do
      match (← peek).kind.operator? with
      | none => return lhs
      | some op =>
        if op.power < least then return lhs
        else
          let _ ← advance
          let operand ← primaryWith nested bound
          let rhs ← rightOperand nested bound op operand
          operatorsWith nested bound least (.binary op lhs rhs (lhs.span.through rhs.span))) := by
  rw [operatorsWith]
  refine bind_congr fun token => ?_
  cases token.kind.operator? with
  | none => rfl
  | some op =>
    by_cases hpower : op.power < least
    · simp only [if_pos hpower]
    · simp only [if_neg hpower, rightOperand, bind_assoc]
      refine bind_congr fun _ => bind_congr fun operand => bind_congr fun next => ?_
      cases next.kind.operator? with
      | none => rfl
      | some next => by_cases htight : op.power < next.power <;> simp [htight]

/-- Operators that bind too loosely, and other tokens, end the reading. -/
theorem operatorsWith_end {follower : Token} (hp : p.ahead = ⟨tokens, last⟩)
    (hhead : Stream.head ⟨tokens, last⟩ = .ok follower)
    (hop : ∀ op, follower.kind.operator? = some op → op.power < least) :
    Ends true (operatorsWith nested n least lhs) p tokens (.ok lhs) tokens := by
  cases n with
  | zero => exact Ends.bind hp (Ends.peek hp hhead) fun q hq hlook => Ends.pure hlook
  | succ n =>
    rw [operatorsWith_succ]
    refine Ends.bind hp (Ends.peek hp hhead) fun q hq hlook => ?_
    split
    · exact Ends.pure hlook
    · next op hsome =>
      rw [if_pos (hop op hsome)]
      exact Ends.pure hlook

theorem operatorsWith_stuck {error : LexicalError} (hp : p.ahead = ⟨tokens, last⟩)
    (hhead : Stream.head ⟨tokens, last⟩ = .error error) :
    Ends true (operatorsWith nested n least lhs) p tokens (.error (.lexical error)) tokens := by
  cases n with
  | zero => exact Ends.bind_error (Ends.peek_error hp hhead)
  | succ n =>
    rw [operatorsWith_succ]
    exact Ends.bind_error (Ends.peek_error hp hhead)

/-- An operator that binds tightly enough is passed over. -/
theorem operatorsWith_operator {token : Token} {op : Operator} {outcome : Except Failure Node}
    (hp : p.ahead = ⟨token :: tokens, last⟩) (hop : token.kind.operator? = some op)
    (hpower : least ≤ op.power)
    (h : ∀ q : Parser, q.ahead = ⟨tokens, last⟩ → Ends looked (do
      let operand ← primaryWith nested n
      let rhs ← rightOperand nested n op operand
      operatorsWith nested n least (.binary op lhs rhs (lhs.span.through rhs.span)))
      q tokens outcome rest) :
    Ends looked (operatorsWith nested (n + 1) least lhs) p (token :: tokens) outcome rest := by
  rw [operatorsWith_succ]
  refine Ends.bind hp (Ends.peek hp rfl) fun q hq _ => ?_
  simp only [hop]
  rw [if_neg (by omega)]
  exact Ends.bind hq (Ends.advance hq) fun q hq _ => h q hq

/-- Where no multiplication follows, an operand is a right operand. -/
theorem rightOperand_end {follower : Token} {op : Operator} {operand : Node}
    (hp : p.ahead = ⟨tokens, last⟩) (hhead : Stream.head ⟨tokens, last⟩ = .ok follower)
    (hop : ∀ next, follower.kind.operator? = some next → next.power ≤ op.power) :
    Ends true (rightOperand nested n op operand) p tokens (.ok operand) tokens := by
  refine Ends.bind hp (Ends.peek hp hhead) fun q hq hlook => ?_
  split
  · exact Ends.pure hlook
  · next next hsome =>
    rw [if_neg (by have := hop next hsome; omega)]
    exact Ends.pure hlook

/-- The right operand of an addition or subtraction goes on with the
multiplications that follow. -/
theorem rightOperand_multiply {token : Token} {op : Operator} {operand : Node}
    {outcome : Except Failure Node} (hp : p.ahead = ⟨tokens, last⟩)
    (hhead : Stream.head ⟨tokens, last⟩ = .ok token)
    (hop : token.kind.operator? = some .multiply) (hloose : op ≠ .multiply)
    (h : ∀ q : Parser, q.ahead = ⟨tokens, last⟩ →
      Ends looked (operatorsWith nested n 21 operand) q tokens outcome rest) :
    Ends looked (rightOperand nested n op operand) p tokens outcome rest := by
  have hpower := op.power_of_ne_multiply hloose
  refine Ends.bind hp (Ends.peek hp hhead) fun q hq _ => ?_
  simp only [hop, hpower]
  rw [if_pos (by decide)]
  exact h q hq

theorem rightOperand_stuck {error : LexicalError} {op : Operator} {operand : Node}
    (hp : p.ahead = ⟨tokens, last⟩) (hhead : Stream.head ⟨tokens, last⟩ = .error error) :
    Ends true (rightOperand nested n op operand) p tokens (.error (.lexical error)) tokens :=
  Ends.bind_error (Ends.peek_error hp hhead)

end Operators

end Parser

open ExprLang.Parser

/-- What the routine for a task does where the rules read a node. Behind the
multiplications that go on from a left operand the routine for operators just
goes on from the product. -/
def Task.Gives (last : Except LexicalError Token) (task : Task) (tokens : List Token)
    (node : Node) (rest : List Token) : Prop :=
  match task with
  | primary => ∀ (m n : Nat) (p : Parser), tokens.length ≤ m + 1 → tokens.length ≤ n + 1 →
      p.ahead = ⟨tokens, last⟩ →
      Ends false (primaryWith (expressionWithin m) n) p tokens (.ok node) rest
  | expression => ∀ (n : Nat) (p : Parser), tokens.length ≤ n → p.ahead = ⟨tokens, last⟩ →
      Ends true (expressionWithin n) p tokens (.ok node) rest
  | products lhs => ∀ (m n : Nat) (least : Int) (p : Parser) (outcome : Except Failure Node)
      (final : List Token), tokens.length ≤ m → tokens.length ≤ n → least ≤ 40 →
      p.ahead = ⟨tokens, last⟩ →
      (∀ (n' : Nat) (q : Parser), rest.length ≤ n' → q.ahead = ⟨rest, last⟩ →
        Ends true (operatorsWith (expressionWithin m) n' least node) q rest outcome final) →
      Ends true (operatorsWith (expressionWithin m) n least lhs) p tokens outcome final
  | sums lhs => ∀ (m n : Nat) (least : Int) (p : Parser) (follower : Token),
      tokens.length ≤ m → tokens.length ≤ n → least ≤ 20 → p.ahead = ⟨tokens, last⟩ →
      Stream.head ⟨tokens, last⟩ = .ok follower → follower.kind.operator? ≠ some .multiply →
      Ends true (operatorsWith (expressionWithin m) n least lhs) p tokens (.ok node) rest
  | arguments name callee before => ∃ args close,
      node = .call name (before ++ args) (callee.span.through close.span) ∧
      ∀ (m n : Nat) (p : Parser), tokens.length ≤ m → tokens.length ≤ n →
        p.ahead = ⟨tokens, last⟩ →
        Ends false (argumentsWith (expressionWithin m) n) p tokens (.ok (args, close)) rest

variable {last : Except LexicalError Token} {tokens rest : List Token}

/-- Multiplications that are read alone end where something else follows. -/
theorem Task.Gives.products_ends {lhs node : Node} (h : Reads last (.products lhs) tokens node rest)
    (hgives : Task.Gives last (.products lhs) tokens node rest) (m n : Nat) (least : Int)
    (p : Parser) (hm : tokens.length ≤ m) (hn : tokens.length ≤ n) (hloose : 20 < least)
    (htight : least ≤ 40) (hp : p.ahead = ⟨tokens, last⟩) :
    Ends true (operatorsWith (expressionWithin m) n least lhs) p tokens (.ok node) rest := by
  obtain ⟨follower, hhead, hop⟩ := h.products_follower
  refine hgives m n least p _ _ hm hn htight hp fun n' q _ hq => ?_
  refine operatorsWith_end hq hhead fun op hsome => ?_
  have hpower := op.power_of_ne_multiply (fun heq => hop (heq ▸ hsome))
  omega

/-- The right operand of an addition or subtraction. -/
theorem Task.Gives.rightOperand_ends {first rhs : Node} {op : Operator} (hloose : op ≠ .multiply)
    (h : Reads last (.products first) tokens rhs rest)
    (hgives : Task.Gives last (.products first) tokens rhs rest) (m n : Nat) (p : Parser)
    (hm : tokens.length ≤ m) (hn : tokens.length ≤ n) (hp : p.ahead = ⟨tokens, last⟩) :
    Ends true (rightOperand (expressionWithin m) n op first) p tokens (.ok rhs) rest := by
  have hpower := op.power_of_ne_multiply hloose
  cases hhead : Stream.head ⟨tokens, last⟩ with
  | error error =>
    cases h with
    | productsEnd hend => simp [hhead] at hend
    | productsStep => simp [Stream.head] at hhead
  | ok token =>
    by_cases hop : token.kind.operator? = some .multiply
    · refine rightOperand_multiply hp hhead hop hloose fun q hq => ?_
      exact hgives.products_ends h m n 21 q hm hn (by omega) (by omega) hq
    · obtain ⟨rfl, rfl⟩ := h.products_eq hhead hop
      refine rightOperand_end hp hhead fun next hsome => ?_
      have hnext := next.power_of_ne_multiply (fun heq => hop (heq ▸ hsome))
      omega

/-- What the rules read, the routines read. -/
theorem Reads.gives {task : Task} {node : Node} (h : Reads last task tokens node rest) :
    task.Gives last tokens node rest := by
  induction h with
  | number hkind hvalue =>
    intro m n p _ _ hp
    exact primaryWith_number hp rfl hkind fun q hq => number_ends hq hkind hvalue
  | name hkind hhead hopen =>
    intro m n p _ _ hp
    exact primaryWith_identifier hp rfl hkind fun q hq => identifierWith_name hq hkind hhead hopen
  | emptyCall hkind hopen hclose =>
    intro m n p _ _ hp
    exact primaryWith_identifier hp rfl hkind fun q hq =>
      identifierWith_emptyCall hq hkind hopen hclose
  | call hkind hopen hclose hargs ih =>
    intro m n p hm hn hp
    simp only [List.length_cons] at hm hn
    obtain ⟨follower, hhead⟩ := hargs.exists_head
    obtain ⟨args, close, rfl, hends⟩ := ih
    refine primaryWith_identifier hp rfl hkind fun q hq => ?_
    exact identifierWith_call hq hkind hopen hhead (hclose follower hhead) fun q hq =>
      hends m n q (by omega) (by omega) hq
  | grouping hopen hinner hclose ih =>
    intro m n p hm hn hp
    simp only [List.length_cons] at hm
    refine primaryWith_grouping hp rfl hopen fun q hq => ?_
    exact groupingWith_ends hq (fun q hq => ih m q (by omega) hq) hclose
  | expression hfirst hproduct hsum ih₁ ih₂ ih₃ =>
    intro n p hn hp
    have hless := hfirst.length_lt trivial
    have hle := hproduct.length_le
    obtain ⟨follower, hhead, hop⟩ := hproduct.products_follower
    cases n with
    | zero => omega
    | succ n =>
      refine Ends.bind hp (ih₁ n n p hn hn hp) fun q hq _ => ?_
      refine ih₂ n n 0 q _ _ (by omega) (by omega) (by omega) hq fun n' q' hn' hq' => ?_
      exact ih₃ n n' 0 q' follower (by omega) hn' (by omega) hq' hhead hop
  | productsEnd hhead hop =>
    intro m n least p outcome final _ hn _ hp hrest
    exact hrest n p hn hp
  | productsStep hop hrhs hrest ih₁ ih₂ =>
    intro m n least p outcome final hm hn hleast hp hgoes
    have hless := hrhs.length_lt trivial
    simp only [List.length_cons] at hm hn
    cases n with
    | zero => omega
    | succ n =>
      refine operatorsWith_operator hp hop hleast fun q hq => ?_
      refine Ends.bind hq (ih₁ m n q (by omega) (by omega) hq) fun q hq _ => ?_
      obtain ⟨follower, hhead⟩ := hrest.exists_head
      refine Ends.bind hq (rightOperand_end hq hhead fun next _ => next.power_le)
        fun q hq _ => ?_
      exact ih₂ m n least q outcome final (by omega) (by omega) hleast hq hgoes
  | sumsEnd hhead hop =>
    intro m n least p follower _ _ _ hp hfollower hnot
    refine operatorsWith_end hp hhead fun op hsome => ?_
    obtain rfl := Except.ok.inj (hhead.symm.trans hfollower)
    exact absurd (hop op hsome ▸ hsome) hnot
  | sumsStep hop hloose hfirst hrhs hrest ih₁ ih₂ ih₃ =>
    intro m n least p follower hm hn hleast hp _ _
    have hless := hfirst.length_lt trivial
    have hle := hrhs.length_le
    simp only [List.length_cons] at hm hn
    cases n with
    | zero => omega
    | succ n =>
      refine operatorsWith_operator hp hop (Int.le_trans hleast (Operator.le_power _))
        fun q hq => ?_
      refine Ends.bind hq (ih₁ m n q (by omega) (by omega) hq) fun q hq _ => ?_
      refine Ends.bind hq (Task.Gives.rightOperand_ends hloose hrhs ih₂ m n q (by omega)
        (by omega) hq) fun q hq _ => ?_
      obtain ⟨next, hnext, hnextOp⟩ := hrhs.products_follower
      exact ih₃ m n least q next (by omega) (by omega) hleast hq hnext hnextOp
  | @lastArgument name callee before tokens arg closer rest harg hclose ih =>
    refine ⟨[arg], closer, rfl, fun m n p hm hn hp => ?_⟩
    have hless := harg.length_lt trivial
    cases n with
    | zero => omega
    | succ n => exact argumentsWith_last hp (ih m p hm hp) hclose
  | @argument name callee before tokens arg comma tokens₁ rest node harg hcomma hrest ih₁ ih₂ =>
    obtain ⟨args, close, rfl, hends⟩ := ih₂
    refine ⟨arg :: args, close, by simp, fun m n p hm hn hp => ?_⟩
    have hless := harg.length_lt trivial
    simp only [List.length_cons] at hless
    cases n with
    | zero => omega
    | succ n =>
      refine argumentsWith_comma hp (ih₁ m p hm hp) hcomma fun q hq => ?_
      exact Ends.bind hq (hends m n q (by omega) (by omega) hq) fun q hq _ => Ends.pure (by simp)

def Task.Stops (last : Except LexicalError Token) (task : Task) (tokens : List Token)
    (failure : Failure) (rest : List Token) : Prop :=
  match task with
  | primary => ∀ (m n : Nat) (p : Parser), tokens.length ≤ m + 1 → tokens.length ≤ n + 1 →
      p.ahead = ⟨tokens, last⟩ →
      Ends true (primaryWith (expressionWithin m) n) p tokens (.error failure) rest
  | expression => ∀ (n : Nat) (p : Parser), tokens.length ≤ n → p.ahead = ⟨tokens, last⟩ →
      Ends true (expressionWithin n) p tokens (.error failure) rest
  | products lhs => ∀ (m n : Nat) (least : Int) (p : Parser), tokens.length ≤ m →
      tokens.length ≤ n → least ≤ 40 → p.ahead = ⟨tokens, last⟩ →
      Ends true (operatorsWith (expressionWithin m) n least lhs) p tokens (.error failure) rest
  | sums lhs => ∀ (m n : Nat) (least : Int) (p : Parser), tokens.length ≤ m →
      tokens.length ≤ n → least ≤ 20 → p.ahead = ⟨tokens, last⟩ →
      (∀ follower, Stream.head ⟨tokens, last⟩ = .ok follower →
        follower.kind.operator? ≠ some .multiply) →
      Ends true (operatorsWith (expressionWithin m) n least lhs) p tokens (.error failure) rest
  | arguments _ _ _ => ∀ (m n : Nat) (p : Parser), tokens.length ≤ m → tokens.length ≤ n →
      p.ahead = ⟨tokens, last⟩ →
      Ends true (argumentsWith (expressionWithin m) n) p tokens (.error failure) rest

/-- In front of an error every task fails with it. -/
theorem Fails.eq_of_stuck {task : Task} {failure : Failure} {error : LexicalError}
    (h : Fails last task tokens failure rest)
    (hhead : Stream.head ⟨tokens, last⟩ = .error error) :
    failure = .lexical error ∧ rest = tokens := by
  induction h with
  | stuck herror =>
    obtain rfl := Except.error.inj (hhead.symm.trans herror)
    exact ⟨rfl, rfl⟩
  | noOperand hok => simp [hhead] at hok
  | first _ ih | argument _ ih => exact ih hhead
  | product hread | sum hread | separator hread | moreArguments hread =>
    obtain ⟨token, hok⟩ := hread.exists_head
    simp [hhead] at hok
  | _ => simp [Stream.head] at hhead

/-- Otherwise multiplications fail only behind a multiplication. -/
theorem Fails.operator_of_products {lhs : Node} {failure : Failure} {token : Token}
    (h : Fails last (.products lhs) tokens failure rest)
    (hhead : Stream.head ⟨tokens, last⟩ = .ok token) :
    token.kind.operator? = some .multiply := by
  cases h with
  | stuck herror => simp [hhead] at herror
  | productsOperand hop | productsRest hop =>
    cases hhead
    exact hop

/-- Where no tokens are left, an expression fails as its first operand. -/
theorem Fails.primary_of_nil {failure : Failure} (h : Fails last .expression [] failure rest) :
    Fails last .primary [] failure rest := by
  cases h with
  | stuck hhead => exact .stuck hhead
  | first hfirst => exact hfirst
  | product hfirst | sum hfirst => exact absurd (hfirst.length_lt trivial) (by simp)

/-- Without tokens left there is nothing to do but to fail. -/
theorem Fails.ends_of_nil {α : Type} {failure : Failure} {p : Parser}
    (h : Fails last .primary [] failure rest) (hp : p.ahead = ⟨[], last⟩) :
    Ends true (do throw (noExpression (← peek)) : ParseM α) p [] (.error failure) rest := by
  cases h with
  | stuck hhead => exact Ends.bind_error (Ends.peek_error hp hhead)
  | noOperand hhead => exact Ends.bind hp (Ends.peek hp hhead) fun q hq hlook => Ends.throw hlook

theorem Task.stops_stuck {task : Task} {error : LexicalError}
    (hhead : Stream.head ⟨tokens, last⟩ = .error error) :
    task.Stops last tokens (.lexical error) tokens := by
  have hprimary : ∀ (m n : Nat) (p : Parser), p.ahead = ⟨tokens, last⟩ →
      Ends true (primaryWith (expressionWithin m) n) p tokens (.error (.lexical error)) tokens :=
    fun m n p hp => Ends.bind_error (Ends.peek_error hp hhead)
  have hexpression : ∀ (n : Nat) (p : Parser), p.ahead = ⟨tokens, last⟩ →
      Ends true (expressionWithin n) p tokens (.error (.lexical error)) tokens := by
    intro n p hp
    cases n with
    | zero => exact Ends.bind_error (Ends.peek_error hp hhead)
    | succ n => exact Ends.bind_error (hprimary n n p hp)
  cases task with
  | primary => exact fun m n p _ _ hp => hprimary m n p hp
  | expression => exact fun n p _ hp => hexpression n p hp
  | products lhs => exact fun m n least p _ _ _ hp => operatorsWith_stuck hp hhead
  | sums lhs => exact fun m n least p _ _ _ hp _ => operatorsWith_stuck hp hhead
  | arguments name callee before =>
    intro m n p _ _ hp
    cases n with
    | zero => exact Ends.bind_error (Ends.peek_error hp hhead)
    | succ n => exact Ends.bind_error (hexpression m p hp)

/-- What fails by the rules, the routines fail at. -/
theorem Fails.stops {task : Task} {failure : Failure} (h : Fails last task tokens failure rest) :
    task.Stops last tokens failure rest := by
  induction h with
  | stuck hhead => exact Task.stops_stuck hhead
  | noOperand hhead hkind =>
    intro m n p _ _ hp
    exact primaryWith_noOperand hp hhead hkind
  | malformed hkind hvalue =>
    intro m n p _ _ hp
    exact primaryWith_number hp rfl hkind fun q hq => number_malformed hq hkind hvalue
  | name hkind hhead =>
    intro m n p _ _ hp
    exact primaryWith_identifier hp rfl hkind fun q hq => identifierWith_stuck hq hkind hhead
  | @call token opener tokens rest name failure hkind hopen hclose hargs ih =>
    intro m n p hm hn hp
    simp only [List.length_cons] at hm hn
    refine primaryWith_identifier hp rfl hkind fun q hq => ?_
    cases hhead : Stream.head ⟨tokens, last⟩ with
    | error error =>
      obtain ⟨rfl, rfl⟩ := hargs.eq_of_stuck hhead
      exact identifierWith_opened hq hkind hopen fun q hq =>
        Ends.bind_error (Ends.peek_error hq hhead)
    | ok follower =>
      exact identifierWith_callFails hq hkind hopen hhead (hclose follower hhead) fun q hq =>
        ih m n q (by omega) (by omega) hq
  | inner hopen hinner ih =>
    intro m n p hm hn hp
    simp only [List.length_cons] at hm
    refine primaryWith_grouping hp rfl hopen fun q hq => ?_
    exact groupingWith_innerFails hq fun q hq => ih m q (by omega) hq
  | unclosed hopen hinner hhead hclose =>
    intro m n p hm hn hp
    simp only [List.length_cons] at hm
    refine primaryWith_grouping hp rfl hopen fun q hq => ?_
    exact groupingWith_unclosed hq (fun q hq => hinner.gives m q (by omega) hq) hhead hclose
  | @first tokens rest failure hfirst ih =>
    intro n p hn hp
    cases n with
    | zero =>
      obtain rfl := List.length_eq_zero_iff.mp (Nat.le_zero.mp hn)
      exact hfirst.ends_of_nil hp
    | succ n => exact Ends.bind_error (ih n n p hn hn hp)
  | product hfirst hproduct ih =>
    intro n p hn hp
    have hless := hfirst.length_lt trivial
    cases n with
    | zero => omega
    | succ n =>
      refine Ends.bind hp (hfirst.gives n n p hn hn hp) fun q hq _ => ?_
      exact ih n n 0 q (by omega) (by omega) (by omega) hq
  | sum hfirst hproduct hsum ih =>
    intro n p hn hp
    have hless := hfirst.length_lt trivial
    have hle := hproduct.length_le
    obtain ⟨follower, hhead, hop⟩ := hproduct.products_follower
    cases n with
    | zero => omega
    | succ n =>
      refine Ends.bind hp (hfirst.gives n n p hn hn hp) fun q hq _ => ?_
      refine hproduct.gives n n 0 q _ _ (by omega) (by omega) (by omega) hq
        fun n' q' hn' hq' => ?_
      refine ih n n' 0 q' (by omega) hn' (by omega) hq' fun next hnext => ?_
      obtain rfl := Except.ok.inj (hhead.symm.trans hnext)
      exact hop
  | productsOperand hop hrhs ih =>
    intro m n least p hm hn hleast hp
    simp only [List.length_cons] at hm hn
    cases n with
    | zero => omega
    | succ n =>
      refine operatorsWith_operator hp hop hleast fun q hq => ?_
      exact Ends.bind_error (ih m n q (by omega) (by omega) hq)
  | @productsRest token tokens tokens₁ rest lhs rhs failure hop hrhs hrest ih =>
    intro m n least p hm hn hleast hp
    have hless := hrhs.length_lt trivial
    simp only [List.length_cons] at hm hn
    cases n with
    | zero => omega
    | succ n =>
      refine operatorsWith_operator hp hop hleast fun q hq => ?_
      refine Ends.bind hq (hrhs.gives m n q (by omega) (by omega) hq) fun q hq _ => ?_
      cases hhead : Stream.head ⟨tokens₁, last⟩ with
      | error error =>
        obtain ⟨rfl, rfl⟩ := hrest.eq_of_stuck hhead
        exact Ends.bind_error (rightOperand_stuck hq hhead)
      | ok token =>
        refine Ends.bind hq (rightOperand_end hq hhead fun next _ => next.power_le)
          fun q hq _ => ?_
        exact ih m n least q (by omega) (by omega) hleast hq
  | sumsOperand hop hloose hfirst ih =>
    intro m n least p hm hn hleast hp _
    simp only [List.length_cons] at hm hn
    cases n with
    | zero => omega
    | succ n =>
      refine operatorsWith_operator hp hop (Int.le_trans hleast (Operator.le_power _))
        fun q hq => ?_
      exact Ends.bind_error (ih m n q (by omega) (by omega) hq)
  | @sumsProduct token tokens tokens₁ rest lhs first op failure hop hloose hfirst hrhs ih =>
    intro m n least p hm hn hleast hp _
    have hless := hfirst.length_lt trivial
    simp only [List.length_cons] at hm hn
    cases n with
    | zero => omega
    | succ n =>
      refine operatorsWith_operator hp hop (Int.le_trans hleast (Operator.le_power _))
        fun q hq => ?_
      refine Ends.bind hq (hfirst.gives m n q (by omega) (by omega) hq) fun q hq _ => ?_
      cases hhead : Stream.head ⟨tokens₁, last⟩ with
      | error error =>
        obtain ⟨rfl, rfl⟩ := hrhs.eq_of_stuck hhead
        exact Ends.bind_error (rightOperand_stuck hq hhead)
      | ok token =>
        have htight := hrhs.operator_of_products hhead
        refine Ends.bind_error (rightOperand_multiply hq hhead htight hloose fun q hq => ?_)
        exact ih m n 21 q (by omega) (by omega) (by omega) hq
  | sumsRest hop hloose hfirst hrhs hrest ih =>
    intro m n least p hm hn hleast hp _
    have hless := hfirst.length_lt trivial
    have hle := hrhs.length_le
    simp only [List.length_cons] at hm hn
    cases n with
    | zero => omega
    | succ n =>
      refine operatorsWith_operator hp hop (Int.le_trans hleast (Operator.le_power _))
        fun q hq => ?_
      refine Ends.bind hq (hfirst.gives m n q (by omega) (by omega) hq) fun q hq _ => ?_
      refine Ends.bind hq (Task.Gives.rightOperand_ends hloose hrhs hrhs.gives m n q (by omega)
        (by omega) hq) fun q hq _ => ?_
      obtain ⟨follower, hhead, hfollower⟩ := hrhs.products_follower
      refine ih m n least q (by omega) (by omega) hleast hq fun next hnext => ?_
      obtain rfl := Except.ok.inj (hhead.symm.trans hnext)
      exact hfollower
  | @argument name callee before tokens rest failure harg ih =>
    intro m n p hm hn hp
    cases n with
    | zero =>
      obtain rfl := List.length_eq_zero_iff.mp (Nat.le_zero.mp hn)
      exact harg.primary_of_nil.ends_of_nil hp
    | succ n => exact Ends.bind_error (ih m p hm hp)
  | separator harg hhead hclose hcomma =>
    intro m n p hm hn hp
    have hless := harg.length_lt trivial
    cases n with
    | zero => omega
    | succ n => exact argumentsWith_separator hp (harg.gives m p hm hp) hhead hclose hcomma
  | moreArguments harg hcomma hrest ih =>
    intro m n p hm hn hp
    have hless := harg.length_lt trivial
    simp only [List.length_cons] at hless
    cases n with
    | zero => omega
    | succ n =>
      refine argumentsWith_comma hp (harg.gives m p hm hp) hcomma fun q hq => ?_
      exact Ends.bind_error (ih m n q (by omega) (by omega) hq)

end ExprLang
