import ExprLang.Proofs.Cursor

/-!
How expressions are read off a list of tokens, as rules without a bound and
without a parser. An expression is an operand, then the multiplications that go
on from it, then the additions and subtractions that go on from the product;
each right operand of these takes its own multiplications first. There are rules
for reading and rules for failing, and on every list of tokens one of them
applies. That the routines of the parser follow the rules is shown elsewhere.
-/
namespace ExprLang

open Lexer (Stream)

def Token.Kind.mark (c : Char) : Token.Kind := .symbol (String.singleton c)

theorem Token.Kind.isSymbol_iff (c : Char) (kind : Token.Kind) :
    kind.isSymbol c = true ↔ kind = mark c := by
  cases kind with
  | symbol text =>
    simp only [isSymbol, mark, beq_iff_eq, symbol.injEq]
    rw [← String.toList_inj, String.toList_singleton]
  | _ => simp [isSymbol, mark]

theorem Token.Kind.operator?_eq_some_iff (kind : Token.Kind) (op : Operator) :
    kind.operator? = some op ↔ kind = mark op.symbol := by
  cases kind with
  | symbol text => simp [operator?, Operator.ofText?_eq_some_iff, mark]
  | _ => simp [operator?, mark]

theorem Token.Kind.mark_inj {c d : Char} : mark c = mark d ↔ c = d := by
  simp [mark, ← String.toList_inj]

/-- Symbols that are not written with the character of an operator are none. -/
theorem Token.Kind.operator?_of_mark {kind : Token.Kind} {c : Char} (hkind : kind = mark c)
    (hc : c ∉ ['+', '-', '*']) : kind.operator? = none := by
  refine Option.eq_none_iff_forall_ne_some.mpr fun op hop => hc ?_
  rw [operator?_eq_some_iff, hkind, mark_inj] at hop
  rw [hop]
  cases op <;> decide

theorem Operator.power_of_ne_multiply (op : Operator) (h : op ≠ .multiply) : op.power = 20 := by
  cases op with
  | multiply => exact absurd rfl h
  | add | subtract => rfl

theorem Operator.power_le (op : Operator) : op.power ≤ 40 := by
  cases op <;> decide

theorem Operator.le_power (op : Operator) : 20 ≤ op.power := by
  cases op <;> decide

def Token.Kind.StartsOperand (kind : Token.Kind) : Prop :=
  (∃ name, kind = .identifier name) ∨ (∃ digits, kind = .number digits) ∨ kind = .mark '('

theorem Token.Kind.startsOperand_mark {c : Char} : (mark c).StartsOperand ↔ c = '(' := by
  rw [← mark_inj]
  simp [StartsOperand, mark]

theorem Token.Kind.StartsOperand.ordinary {kind : Token.Kind} (h : kind.StartsOperand) :
    kind ≠ .endOfInput ∧ kind ≠ .define ∧ kind ≠ .declare := by
  rcases h with ⟨name, rfl⟩ | ⟨digits, rfl⟩ | rfl <;> simp [mark]

inductive Task where
  | primary
  | expression
  | products (lhs : Node)
  | sums (lhs : Node)
  /-- The arguments of a call behind some that were read, and the parenthesis
  that closes them. -/
  | arguments (name : String) (callee : Token) (before : List Node)

def Task.IsWhole : Task → Prop
  | primary | expression | arguments _ _ _ => True
  | products _ | sums _ => False

/-- The task takes the tokens up to the rest and gives a node. -/
inductive Reads (last : Except LexicalError Token) :
    Task → List Token → Node → List Token → Prop
  | number {token rest digits value} (hkind : token.kind = .number digits)
      (hvalue : Binary64.ofDigits? digits = some value) :
      Reads last .primary (token :: rest) (.number value token.span) rest
  | name {token rest name follower} (hkind : token.kind = .identifier name)
      (hhead : Stream.head ⟨rest, last⟩ = .ok follower) (hopen : follower.kind ≠ .mark '(') :
      Reads last .primary (token :: rest) (.var name token.span) rest
  | emptyCall {token opener closer rest name} (hkind : token.kind = .identifier name)
      (hopen : opener.kind = .mark '(') (hclose : closer.kind = .mark ')') :
      Reads last .primary (token :: opener :: closer :: rest)
        (.call name [] (token.span.through closer.span)) rest
  | call {token opener tokens rest name node} (hkind : token.kind = .identifier name)
      (hopen : opener.kind = .mark '(')
      (hclose : ∀ follower, Stream.head ⟨tokens, last⟩ = .ok follower → follower.kind ≠ .mark ')')
      (hargs : Reads last (.arguments name token []) tokens node rest) :
      Reads last .primary (token :: opener :: tokens) node rest
  | grouping {opener tokens closer rest node} (hopen : opener.kind = .mark '(')
      (hinner : Reads last .expression tokens node (closer :: rest))
      (hclose : closer.kind = .mark ')') :
      Reads last .primary (opener :: tokens) node rest
  | expression {tokens tokens₁ tokens₂ rest first product node}
      (hfirst : Reads last .primary tokens first tokens₁)
      (hproduct : Reads last (.products first) tokens₁ product tokens₂)
      (hsum : Reads last (.sums product) tokens₂ node rest) :
      Reads last .expression tokens node rest
  | productsEnd {tokens lhs follower} (hhead : Stream.head ⟨tokens, last⟩ = .ok follower)
      (hop : follower.kind.operator? ≠ some .multiply) :
      Reads last (.products lhs) tokens lhs tokens
  | productsStep {token tokens tokens₁ rest lhs rhs node}
      (hop : token.kind.operator? = some .multiply)
      (hrhs : Reads last .primary tokens rhs tokens₁)
      (hrest : Reads last (.products (.binary .multiply lhs rhs (lhs.span.through rhs.span)))
        tokens₁ node rest) :
      Reads last (.products lhs) (token :: tokens) node rest
  | sumsEnd {tokens lhs follower} (hhead : Stream.head ⟨tokens, last⟩ = .ok follower)
      (hop : ∀ op, follower.kind.operator? = some op → op = .multiply) :
      Reads last (.sums lhs) tokens lhs tokens
  | sumsStep {token tokens tokens₁ tokens₂ rest lhs first rhs op node}
      (hop : token.kind.operator? = some op) (hloose : op ≠ .multiply)
      (hfirst : Reads last .primary tokens first tokens₁)
      (hrhs : Reads last (.products first) tokens₁ rhs tokens₂)
      (hrest : Reads last (.sums (.binary op lhs rhs (lhs.span.through rhs.span)))
        tokens₂ node rest) :
      Reads last (.sums lhs) (token :: tokens) node rest
  | lastArgument {name callee before tokens arg closer rest}
      (harg : Reads last .expression tokens arg (closer :: rest))
      (hclose : closer.kind = .mark ')') :
      Reads last (.arguments name callee before) tokens
        (.call name (before ++ [arg]) (callee.span.through closer.span)) rest
  | argument {name callee before tokens arg comma tokens₁ rest node}
      (harg : Reads last .expression tokens arg (comma :: tokens₁))
      (hcomma : comma.kind = .mark ',')
      (hrest : Reads last (.arguments name callee (before ++ [arg])) tokens₁ node rest) :
      Reads last (.arguments name callee before) tokens node rest

inductive Fails (last : Except LexicalError Token) :
    Task → List Token → Failure → List Token → Prop
  | stuck {task tokens error} (hhead : Stream.head ⟨tokens, last⟩ = .error error) :
      Fails last task tokens (.lexical error) tokens
  | noOperand {tokens token} (hhead : Stream.head ⟨tokens, last⟩ = .ok token)
      (hkind : ¬ token.kind.StartsOperand) :
      Fails last .primary tokens (Parser.noExpression token) tokens
  | malformed {token rest digits} (hkind : token.kind = .number digits)
      (hvalue : Binary64.ofDigits? digits = none) :
      Fails last .primary (token :: rest)
        (.syntactic ⟨.malformedNumber digits, token.span.start⟩) (token :: rest)
  | name {token rest name error} (hkind : token.kind = .identifier name)
      (hhead : Stream.head ⟨rest, last⟩ = .error error) :
      Fails last .primary (token :: rest) (.lexical error) rest
  | call {token opener tokens rest name failure} (hkind : token.kind = .identifier name)
      (hopen : opener.kind = .mark '(')
      (hclose : ∀ follower, Stream.head ⟨tokens, last⟩ = .ok follower → follower.kind ≠ .mark ')')
      (hargs : Fails last (.arguments name token []) tokens failure rest) :
      Fails last .primary (token :: opener :: tokens) failure rest
  | inner {opener tokens rest failure} (hopen : opener.kind = .mark '(')
      (hinner : Fails last .expression tokens failure rest) :
      Fails last .primary (opener :: tokens) failure rest
  | unclosed {opener tokens rest node follower} (hopen : opener.kind = .mark '(')
      (hinner : Reads last .expression tokens node rest)
      (hhead : Stream.head ⟨rest, last⟩ = .ok follower) (hclose : follower.kind ≠ .mark ')') :
      Fails last .primary (opener :: tokens) (Parser.unclosed follower) rest
  | first {tokens rest failure} (hfirst : Fails last .primary tokens failure rest) :
      Fails last .expression tokens failure rest
  | product {tokens tokens₁ rest first failure}
      (hfirst : Reads last .primary tokens first tokens₁)
      (hproduct : Fails last (.products first) tokens₁ failure rest) :
      Fails last .expression tokens failure rest
  | sum {tokens tokens₁ tokens₂ rest first product failure}
      (hfirst : Reads last .primary tokens first tokens₁)
      (hproduct : Reads last (.products first) tokens₁ product tokens₂)
      (hsum : Fails last (.sums product) tokens₂ failure rest) :
      Fails last .expression tokens failure rest
  | productsOperand {token tokens rest lhs failure}
      (hop : token.kind.operator? = some .multiply)
      (hrhs : Fails last .primary tokens failure rest) :
      Fails last (.products lhs) (token :: tokens) failure rest
  | productsRest {token tokens tokens₁ rest lhs rhs failure}
      (hop : token.kind.operator? = some .multiply)
      (hrhs : Reads last .primary tokens rhs tokens₁)
      (hrest : Fails last (.products (.binary .multiply lhs rhs (lhs.span.through rhs.span)))
        tokens₁ failure rest) :
      Fails last (.products lhs) (token :: tokens) failure rest
  | sumsOperand {token tokens rest lhs op failure}
      (hop : token.kind.operator? = some op) (hloose : op ≠ .multiply)
      (hfirst : Fails last .primary tokens failure rest) :
      Fails last (.sums lhs) (token :: tokens) failure rest
  | sumsProduct {token tokens tokens₁ rest lhs first op failure}
      (hop : token.kind.operator? = some op) (hloose : op ≠ .multiply)
      (hfirst : Reads last .primary tokens first tokens₁)
      (hrhs : Fails last (.products first) tokens₁ failure rest) :
      Fails last (.sums lhs) (token :: tokens) failure rest
  | sumsRest {token tokens tokens₁ tokens₂ rest lhs first rhs op failure}
      (hop : token.kind.operator? = some op) (hloose : op ≠ .multiply)
      (hfirst : Reads last .primary tokens first tokens₁)
      (hrhs : Reads last (.products first) tokens₁ rhs tokens₂)
      (hrest : Fails last (.sums (.binary op lhs rhs (lhs.span.through rhs.span)))
        tokens₂ failure rest) :
      Fails last (.sums lhs) (token :: tokens) failure rest
  | argument {name callee before tokens rest failure}
      (harg : Fails last .expression tokens failure rest) :
      Fails last (.arguments name callee before) tokens failure rest
  | separator {name callee before tokens rest arg follower}
      (harg : Reads last .expression tokens arg rest)
      (hhead : Stream.head ⟨rest, last⟩ = .ok follower) (hclose : follower.kind ≠ .mark ')')
      (hcomma : follower.kind ≠ .mark ',') :
      Fails last (.arguments name callee before) tokens
        (Parser.unexpected follower "expected `)` or `,` in argument list") rest
  | moreArguments {name callee before tokens arg comma tokens₁ rest failure}
      (harg : Reads last .expression tokens arg (comma :: tokens₁))
      (hcomma : comma.kind = .mark ',')
      (hrest : Fails last (.arguments name callee (before ++ [arg])) tokens₁ failure rest) :
      Fails last (.arguments name callee before) tokens failure rest

variable {last : Except LexicalError Token}

namespace Reads

/-- What is left is the end of what was there, and a whole construct takes
something. -/
theorem suffix {task : Task} {tokens rest : List Token} {node : Node}
    (h : Reads last task tokens node rest) :
    rest <:+ tokens ∧ (task.IsWhole → rest.length < tokens.length) := by
  induction h with
  | number | name => exact ⟨List.suffix_cons _ _, fun _ => by simp⟩
  | emptyCall => exact ⟨⟨[_, _, _], rfl⟩, fun _ => by simp only [List.length_cons]; omega⟩
  | call hkind hopen hclose hargs ih =>
    refine ⟨ih.1.trans ⟨[_, _], rfl⟩, fun _ => ?_⟩
    have := ih.2 trivial
    simp only [List.length_cons]
    omega
  | grouping hopen hinner hclose ih =>
    refine ⟨(List.suffix_cons _ _).trans (ih.1.trans (List.suffix_cons _ _)), fun _ => ?_⟩
    have := ih.2 trivial
    simp only [List.length_cons] at this ⊢
    omega
  | expression hfirst hproduct hsum ih₁ ih₂ ih₃ =>
    have hsuffix := ih₃.1.trans ih₂.1
    exact ⟨hsuffix.trans ih₁.1, fun _ => lt_of_le_of_lt hsuffix.length_le (ih₁.2 trivial)⟩
  | productsEnd | sumsEnd => exact ⟨List.suffix_rfl, fun hwhole => hwhole.elim⟩
  | productsStep hop hrhs hrest ih₁ ih₂ =>
    exact ⟨ih₂.1.trans (ih₁.1.trans (List.suffix_cons _ _)), fun hwhole => hwhole.elim⟩
  | sumsStep hop hloose hfirst hrhs hrest ih₁ ih₂ ih₃ =>
    exact ⟨ih₃.1.trans (ih₂.1.trans (ih₁.1.trans (List.suffix_cons _ _))),
      fun hwhole => hwhole.elim⟩
  | lastArgument harg hclose ih =>
    refine ⟨(List.suffix_cons _ _).trans ih.1, fun _ => ?_⟩
    have := ih.2 trivial
    simp only [List.length_cons] at this
    omega
  | argument harg hcomma hrest ih₁ ih₂ =>
    refine ⟨ih₂.1.trans ((List.suffix_cons _ _).trans ih₁.1), fun _ => ?_⟩
    have h₁ := ih₁.2 trivial
    have h₂ := ih₂.2 trivial
    simp only [List.length_cons] at h₁
    omega

theorem length_le {task : Task} {tokens rest : List Token} {node : Node}
    (h : Reads last task tokens node rest) : rest.length ≤ tokens.length :=
  h.suffix.1.length_le

theorem length_lt {task : Task} {tokens rest : List Token} {node : Node}
    (h : Reads last task tokens node rest) (hwhole : task.IsWhole) :
    rest.length < tokens.length :=
  h.suffix.2 hwhole

/-- Nothing is read in front of an error. -/
theorem exists_head {task : Task} {tokens rest : List Token} {node : Node}
    (h : Reads last task tokens node rest) :
    ∃ token, Stream.head ⟨tokens, last⟩ = .ok token := by
  cases tokens with
  | cons token tokens => exact ⟨token, rfl⟩
  | nil =>
    cases h with
    | productsEnd hhead | sumsEnd hhead => exact ⟨_, hhead⟩
    | expression hfirst => exact absurd (hfirst.length_lt trivial) (by simp)
    | lastArgument harg | argument harg => exact absurd (harg.length_lt trivial) (by simp)

/-- An expression begins with the first token of an operand. -/
theorem starts {tokens rest : List Token} {node : Node}
    (h : Reads last .expression tokens node rest) :
    ∃ token tail, tokens = token :: tail ∧ token.kind.StartsOperand := by
  cases h with
  | expression hfirst =>
    cases hfirst with
    | number hkind => exact ⟨_, _, rfl, Or.inr (Or.inl ⟨_, hkind⟩)⟩
    | name hkind | emptyCall hkind | call hkind => exact ⟨_, _, rfl, Or.inl ⟨_, hkind⟩⟩
    | grouping hopen => exact ⟨_, _, rfl, Or.inr (Or.inr hopen)⟩

/-- Multiplications go on until something else follows. -/
theorem products_follower {lhs node : Node} {tokens rest : List Token}
    (h : Reads last (.products lhs) tokens node rest) :
    ∃ follower, Stream.head ⟨rest, last⟩ = .ok follower ∧
      follower.kind.operator? ≠ some .multiply := by
  generalize htask : Task.products lhs = task at h
  induction h generalizing lhs with
  | productsEnd hhead hop => exact ⟨_, hhead, hop⟩
  | productsStep hop hrhs hrest ih₁ ih₂ => exact ih₂ rfl
  | _ => cases htask

/-- Where no multiplication follows, multiplications end at once. -/
theorem products_eq {lhs node : Node} {tokens rest : List Token} {follower : Token}
    (h : Reads last (.products lhs) tokens node rest)
    (hhead : Stream.head ⟨tokens, last⟩ = .ok follower)
    (hop : follower.kind.operator? ≠ some .multiply) : node = lhs ∧ rest = tokens := by
  cases h with
  | productsEnd => exact ⟨rfl, rfl⟩
  | productsStep hmultiply =>
    cases hhead
    exact absurd hmultiply hop

/-- Behind a product, additions and subtractions go on until no operator
follows. -/
theorem sums_follower {lhs node : Node} {tokens rest : List Token} {follower : Token}
    (h : Reads last (.sums lhs) tokens node rest)
    (hhead : Stream.head ⟨tokens, last⟩ = .ok follower)
    (hop : follower.kind.operator? ≠ some .multiply) :
    ∃ follower, Stream.head ⟨rest, last⟩ = .ok follower ∧ follower.kind.operator? = none := by
  generalize htask : Task.sums lhs = task at h
  induction h generalizing lhs follower with
  | sumsEnd hend hloose =>
    obtain rfl := Except.ok.inj (hhead.symm.trans hend)
    refine ⟨_, hend, Option.eq_none_iff_forall_ne_some.mpr fun op heq => hop ?_⟩
    rw [heq, hloose op heq]
  | sumsStep _ _ _ hrhs _ _ _ ih =>
    obtain ⟨next, hnext, hnextOp⟩ := hrhs.products_follower
    exact ih hnext hnextOp rfl
  | _ => cases htask

/-- No operator follows an expression. -/
theorem expression_follower {node : Node} {tokens rest : List Token}
    (h : Reads last .expression tokens node rest) :
    ∃ follower, Stream.head ⟨rest, last⟩ = .ok follower ∧ follower.kind.operator? = none := by
  cases h with
  | expression hfirst hproduct hsum =>
    obtain ⟨next, hnext, hnextOp⟩ := hproduct.products_follower
    exact hsum.sums_follower hnext hnextOp

end Reads

/-- A failure is the error that stands at a place, or it is about the token that
stands there, which it describes. -/
def Failure.IsAt (failure : Failure) (head : Except LexicalError Token) : Prop :=
  match failure with
  | .lexical error => head = .error error
  | .syntactic diagnostic => ∃ token, head = .ok token ∧
      diagnostic.position = token.span.start ∧ diagnostic.cause.found = token.kind.describe

/-- A task fails at the token in front of the rest. -/
theorem Fails.isAt {task : Task} {tokens rest : List Token} {failure : Failure}
    (h : Fails last task tokens failure rest) : failure.IsAt (Stream.head ⟨rest, last⟩) := by
  induction h with
  | stuck hhead | name _ hhead => exact hhead
  | noOperand hhead | unclosed _ _ hhead | separator _ hhead => exact ⟨_, hhead, rfl, rfl⟩
  | @malformed token rest digits hkind =>
    refine ⟨token, rfl, rfl, ?_⟩
    rw [hkind]
    rfl
  | _ => assumption

def Settles (last : Except LexicalError Token) (task : Task) (tokens : List Token) : Prop :=
  (∃ node rest, Reads last task tokens node rest) ∨
    ∃ failure rest, Fails last task tokens failure rest

section Totality

/-- An ordinary token at the head is the first of the list. -/
theorem exists_cons_of_head (hlast : ∀ token, last = .ok token → token.kind = .endOfInput)
    {tokens : List Token} {token : Token} (hhead : Stream.head ⟨tokens, last⟩ = .ok token)
    (hkind : token.kind ≠ .endOfInput) : ∃ rest, tokens = token :: rest := by
  cases tokens with
  | nil => exact absurd (hlast token hhead) hkind
  | cons first rest =>
    cases hhead
    exact ⟨rest, rfl⟩

theorem ne_endOfInput_of_operator {kind : Token.Kind} {op : Operator}
    (h : kind.operator? = some op) : kind ≠ .endOfInput := by
  rintro rfl
  cases h

variable (hlast : ∀ token, last = .ok token → token.kind = .endOfInput) {tokens : List Token}
  (hshort : ∀ shorter : List Token, shorter.length < tokens.length →
    ∀ task, Settles last task shorter)

include hlast hshort

theorem settles_name {token : Token} {rest : List Token} {name : String}
    (htokens : tokens = token :: rest) (hname : token.kind = .identifier name) :
    Settles last .primary tokens := by
  subst htokens
  cases hhead : Stream.head ⟨rest, last⟩ with
  | error error => exact Or.inr ⟨_, _, .name hname hhead⟩
  | ok opener =>
    by_cases hopen : opener.kind = .mark '('
    · obtain ⟨args, rfl⟩ := exists_cons_of_head hlast hhead (by simp [hopen, Token.Kind.mark])
      by_cases hclose : ∃ closer, Stream.head ⟨args, last⟩ = .ok closer ∧ closer.kind = .mark ')'
      · obtain ⟨closer, hcloser, hclose⟩ := hclose
        obtain ⟨behind, rfl⟩ := exists_cons_of_head hlast hcloser
          (by simp [hclose, Token.Kind.mark])
        exact Or.inl ⟨_, _, .emptyCall hname hopen hclose⟩
      · have hopened : ∀ follower, Stream.head ⟨args, last⟩ = .ok follower →
            follower.kind ≠ .mark ')' :=
          fun follower hfollower hkind => hclose ⟨follower, hfollower, hkind⟩
        rcases hshort args (by simp only [List.length_cons]; omega) (.arguments name token []) with
          ⟨node, after, hread⟩ | ⟨failure, after, hfail⟩
        · exact Or.inl ⟨_, _, .call hname hopen hopened hread⟩
        · exact Or.inr ⟨_, _, .call hname hopen hopened hfail⟩
    · exact Or.inl ⟨_, _, .name hname hhead hopen⟩

theorem settles_grouping {opener : Token} {rest : List Token} (htokens : tokens = opener :: rest)
    (hopen : opener.kind = .mark '(') : Settles last .primary tokens := by
  subst htokens
  rcases hshort rest (by simp) .expression with ⟨node, after, hread⟩ | ⟨failure, after, hfail⟩
  · obtain ⟨follower, hfollower, -⟩ := hread.expression_follower
    by_cases hclose : follower.kind = .mark ')'
    · obtain ⟨behind, rfl⟩ := exists_cons_of_head hlast hfollower
        (by simp [hclose, Token.Kind.mark])
      exact Or.inl ⟨_, _, .grouping hopen hread hclose⟩
    · exact Or.inr ⟨_, _, .unclosed hopen hread hfollower hclose⟩
  · exact Or.inr ⟨_, _, .inner hopen hfail⟩

theorem settles_primary : Settles last .primary tokens := by
  cases hhead : Stream.head ⟨tokens, last⟩ with
  | error error => exact Or.inr ⟨_, _, .stuck hhead⟩
  | ok token =>
    by_cases hstart : token.kind.StartsOperand
    · have hkind : token.kind ≠ .endOfInput := by
        intro hend
        simp [hend, Token.Kind.StartsOperand, Token.Kind.mark] at hstart
      obtain ⟨rest, htokens⟩ := exists_cons_of_head hlast hhead hkind
      rcases hstart with ⟨name, hname⟩ | ⟨digits, hdigits⟩ | hopen
      · exact settles_name hlast hshort htokens hname
      · subst htokens
        cases hvalue : Binary64.ofDigits? digits with
        | none => exact Or.inr ⟨_, _, .malformed hdigits hvalue⟩
        | some value => exact Or.inl ⟨_, _, .number hdigits hvalue⟩
      · exact settles_grouping hlast hshort htokens hopen
    · exact Or.inr ⟨_, _, .noOperand hhead hstart⟩

theorem settles_products (lhs : Node) : Settles last (.products lhs) tokens := by
  cases hhead : Stream.head ⟨tokens, last⟩ with
  | error error => exact Or.inr ⟨_, _, .stuck hhead⟩
  | ok token =>
    by_cases hop : token.kind.operator? = some .multiply
    · obtain ⟨rest, rfl⟩ := exists_cons_of_head hlast hhead (ne_endOfInput_of_operator hop)
      rcases hshort rest (by simp) .primary with ⟨rhs, after, hrhs⟩ | ⟨failure, after, hfail⟩
      · have hless := hrhs.length_lt trivial
        rcases hshort after (by simp only [List.length_cons]; omega)
          (.products (.binary .multiply lhs rhs (lhs.span.through rhs.span))) with
          ⟨node, behind, hrest⟩ | ⟨failure, behind, hfail⟩
        · exact Or.inl ⟨_, _, .productsStep hop hrhs hrest⟩
        · exact Or.inr ⟨_, _, .productsRest hop hrhs hfail⟩
      · exact Or.inr ⟨_, _, .productsOperand hop hfail⟩
    · exact Or.inl ⟨_, _, .productsEnd hhead hop⟩

theorem settles_sums (lhs : Node) : Settles last (.sums lhs) tokens := by
  cases hhead : Stream.head ⟨tokens, last⟩ with
  | error error => exact Or.inr ⟨_, _, .stuck hhead⟩
  | ok token =>
    by_cases hop : ∃ op, token.kind.operator? = some op ∧ op ≠ .multiply
    · obtain ⟨op, hop, hloose⟩ := hop
      obtain ⟨rest, rfl⟩ := exists_cons_of_head hlast hhead (ne_endOfInput_of_operator hop)
      rcases hshort rest (by simp) .primary with ⟨first, after, hfirst⟩ | ⟨failure, after, hfail⟩
      · have hless := hfirst.length_lt trivial
        rcases hshort after (by simp only [List.length_cons]; omega) (.products first) with
          ⟨rhs, behind, hrhs⟩ | ⟨failure, behind, hfail⟩
        · have hle := hrhs.length_le
          rcases hshort behind (by simp only [List.length_cons]; omega)
            (.sums (.binary op lhs rhs (lhs.span.through rhs.span))) with
            ⟨node, final, hrest⟩ | ⟨failure, final, hfail⟩
          · exact Or.inl ⟨_, _, .sumsStep hop hloose hfirst hrhs hrest⟩
          · exact Or.inr ⟨_, _, .sumsRest hop hloose hfirst hrhs hfail⟩
        · exact Or.inr ⟨_, _, .sumsProduct hop hloose hfirst hfail⟩
      · exact Or.inr ⟨_, _, .sumsOperand hop hloose hfail⟩
    · refine Or.inl ⟨_, _, .sumsEnd hhead fun op hsome => ?_⟩
      by_contra hloose
      exact hop ⟨op, hsome, hloose⟩

theorem settles_expression : Settles last .expression tokens := by
  rcases settles_primary hlast hshort with ⟨first, after, hfirst⟩ | ⟨failure, after, hfail⟩
  · have hless := hfirst.length_lt trivial
    rcases hshort after hless (.products first) with
      ⟨product, behind, hproduct⟩ | ⟨failure, behind, hfail⟩
    · rcases hshort behind (lt_of_le_of_lt hproduct.length_le hless) (.sums product) with
        ⟨node, final, hsum⟩ | ⟨failure, final, hfail⟩
      · exact Or.inl ⟨_, _, .expression hfirst hproduct hsum⟩
      · exact Or.inr ⟨_, _, .sum hfirst hproduct hfail⟩
    · exact Or.inr ⟨_, _, .product hfirst hfail⟩
  · exact Or.inr ⟨_, _, .first hfail⟩

theorem settles_arguments (name : String) (callee : Token) (before : List Node) :
    Settles last (.arguments name callee before) tokens := by
  rcases settles_expression hlast hshort with ⟨arg, after, harg⟩ | ⟨failure, after, hfail⟩
  · obtain ⟨follower, hfollower, -⟩ := harg.expression_follower
    have hless := harg.length_lt trivial
    by_cases hclose : follower.kind = .mark ')'
    · obtain ⟨behind, rfl⟩ := exists_cons_of_head hlast hfollower
        (by simp [hclose, Token.Kind.mark])
      exact Or.inl ⟨_, _, .lastArgument harg hclose⟩
    · by_cases hcomma : follower.kind = .mark ','
      · obtain ⟨behind, rfl⟩ := exists_cons_of_head hlast hfollower
          (by simp [hcomma, Token.Kind.mark])
        rcases hshort behind (by simp only [List.length_cons] at hless; omega)
          (.arguments name callee (before ++ [arg])) with
          ⟨node, final, hrest⟩ | ⟨failure, final, hfail⟩
        · exact Or.inl ⟨_, _, .argument harg hcomma hrest⟩
        · exact Or.inr ⟨_, _, .moreArguments harg hcomma hfail⟩
      · exact Or.inr ⟨_, _, .separator harg hfollower hclose hcomma⟩
  · exact Or.inr ⟨_, _, .argument hfail⟩

end Totality

/-- On every list of tokens every task is read or fails. -/
theorem settles (hlast : ∀ token, last = .ok token → token.kind = .endOfInput) (task : Task)
    (tokens : List Token) : Settles last task tokens := by
  induction hlength : tokens.length using Nat.strong_induction_on generalizing task tokens with
  | h length ih =>
    subst hlength
    have hshort : ∀ shorter : List Token, shorter.length < tokens.length →
        ∀ task, Settles last task shorter :=
      fun shorter hless task => ih _ hless task shorter rfl
    cases task with
    | primary => exact settles_primary hlast hshort
    | expression => exact settles_expression hlast hshort
    | products lhs => exact settles_products hlast hshort lhs
    | sums lhs => exact settles_sums hlast hshort lhs
    | arguments name callee before => exact settles_arguments hlast hshort name callee before

end ExprLang
