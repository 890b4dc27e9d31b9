import ExprLang.Proofs.EarliestReport
import ExprLang.Proofs.Stopping
import ExprLang.Proofs.WholeReading

/-!
What a diagnostic says, told from the tokens in front of the one it is about. A construct
that is left open there is a prototype, an operand that is still to come, an argument list
or a parenthesised expression. Which of them it is shows in a plain list of tokens: in the
last of them, and in what stands in front of the last parenthesis without a partner.
-/
namespace ExprLang

open Lexer (Stream)
open Token.Kind (mark)

structure Nesting where
  before : Option Token.Kind
  /-- What stands directly in front of each parenthesis without a partner, the last
  parenthesis first. -/
  openers : List (Option Token.Kind)

namespace Nesting

def step (nesting : Nesting) (kind : Token.Kind) : Nesting :=
  ⟨some kind,
    if kind = mark '(' then nesting.before :: nesting.openers
    else if kind = mark ')' then nesting.openers.tail
    else nesting.openers⟩

def behind (nesting : Nesting) (kinds : List Token.Kind) : Nesting := kinds.foldl step nesting

def start : Nesting := ⟨none, []⟩

/-- Whether an operand has to come next: at the beginning, and behind an operator, a comma
or an opening parenthesis. -/
def needsOperand (nesting : Nesting) : Bool :=
  match nesting.before with
  | none => true
  | some kind => kind.operator?.isSome || kind == mark ',' || kind == mark '('

def cause? (nesting : Nesting) (found : String) : Option Diagnostic.Cause :=
  if nesting.needsOperand then some (.noExpression found)
  else match nesting.openers with
    | [] => none
    | some (.identifier _) :: _ =>
      some (.unexpected found "expected `)` or `,` in argument list")
    | _ :: _ => some (.unclosedParenthesis found)

end Nesting

def Token.Kind.isIdentifier : Token.Kind → Bool
  | identifier _ => true
  | _ => false

/-- What is wrong with a token behind these ones, which follow a reserved word: what is
missing is the name of the prototype, its opening or its closing parenthesis, or if the
prototype is complete, something in the expression behind it. -/
def causeInPrototype (found : String) : List Token.Kind → Option Diagnostic.Cause
  | [] => some (.unexpected found "expected function name in prototype")
  | [.identifier _] => some (.unexpected found "expected `(` in prototype")
  | .identifier _ :: opener :: kinds =>
    if opener = mark '(' then
      match kinds.dropWhile Token.Kind.isIdentifier with
      | [] => some (.unexpected found "expected `)` in prototype")
      | closer :: body =>
        if closer = mark ')' then (Nesting.start.behind body).cause? found else none
    else none
  | _ => none

def causeBehind (found : String) : List Token.Kind → Option Diagnostic.Cause
  | .define :: kinds => causeInPrototype found kinds
  | .declare :: kinds => causeInPrototype found kinds
  | kinds => (Nesting.start.behind kinds).cause? found

/-- A call inside parentheses leaves an argument list open, and parentheses inside a call
leave an expression open. -/
example : causeBehind "def" [mark '(', .identifier "f", mark '(', .number "1"] =
      some (.unexpected "def" "expected `)` or `,` in argument list") ∧
    causeBehind "def" [.identifier "f", mark '(', mark '(', .number "1"] =
      some (.unclosedParenthesis "def") := by
  decide +kernel

section Nestings

variable {last : Except LexicalError Token} {tokens rest : List Token} {nesting : Nesting}
  {kind : Token.Kind}

namespace Nesting

theorem behind_append (nesting : Nesting) (kinds kinds' : List Token.Kind) :
    nesting.behind (kinds ++ kinds') = (nesting.behind kinds).behind kinds' :=
  List.foldl_append

theorem behind_cons (nesting : Nesting) (kind : Token.Kind) (kinds : List Token.Kind) :
    nesting.behind (kind :: kinds) = (nesting.step kind).behind kinds := rfl

theorem openers_open (hkind : kind = mark '(') :
    (nesting.step kind).openers = nesting.before :: nesting.openers := by
  simp only [step, if_pos hkind]

theorem openers_close (hkind : kind = mark ')') :
    (nesting.step kind).openers = nesting.openers.tail := by
  subst hkind
  simp [step, Token.Kind.mark_inj]

/-- Other tokens leave the parentheses as they are. -/
theorem openers_step (hopen : kind ≠ mark '(') (hclose : kind ≠ mark ')') :
    (nesting.step kind).openers = nesting.openers := by
  simp only [step, if_neg hopen, if_neg hclose]

theorem needsOperand_step_mark {c : Char} (hkind : kind = mark c) (hc : c = ',' ∨ c = '(') :
    (nesting.step kind).needsOperand = true := by
  subst hkind
  rcases hc with rfl | rfl <;> simp [step, needsOperand]

theorem needsOperand_step_operator {op : Operator} (hop : kind.operator? = some op) :
    (nesting.step kind).needsOperand = true := by
  simp [step, needsOperand, hop]

theorem needsOperand_step_close (hkind : kind = mark ')') :
    (nesting.step kind).needsOperand = false := by
  have hop := Token.Kind.operator?_of_mark hkind (by decide)
  subst hkind
  simp [step, needsOperand, hop, Token.Kind.mark_inj]

/-- Behind an operator the same parentheses are open. -/
theorem openers_step_operator {op : Operator} (hop : kind.operator? = some op) :
    (nesting.step kind).openers = nesting.openers := by
  rw [Token.Kind.operator?_eq_some_iff] at hop
  subst hop
  refine openers_step ?_ ?_ <;> rw [ne_eq, Token.Kind.mark_inj] <;> cases op <;> decide

end Nesting

/-- What reading a task does to what is open: nothing, except that arguments close the
parenthesis in front of them. An operand is not needed afterwards, if a rest may be empty
then unless it was needed before. -/
def Task.Settled (task : Task) (before after : Nesting) : Prop :=
  match task with
  | primary | expression => after.openers = before.openers ∧ after.needsOperand = false
  | products _ | sums _ => before.needsOperand = false →
      after.openers = before.openers ∧ after.needsOperand = false
  | arguments _ _ _ => after.openers = before.openers.tail ∧ after.needsOperand = false

/-- What is read leaves nothing open. -/
theorem Reads.settled {task : Task} {node : Node} (h : Reads last task tokens node rest) :
    ∃ taken, tokens = taken ++ rest ∧
      ∀ nesting : Nesting, task.Settled nesting (nesting.behind (taken.map Token.kind)) := by
  induction h with
  | @number token rest digits value hkind hvalue =>
    refine ⟨[token], rfl, fun nesting => ?_⟩
    simp [Task.Settled, Nesting.behind, Nesting.step, Nesting.needsOperand, hkind, mark,
      Token.Kind.operator?]
  | @name token rest name follower hkind hhead hopen =>
    refine ⟨[token], rfl, fun nesting => ?_⟩
    simp [Task.Settled, Nesting.behind, Nesting.step, Nesting.needsOperand, hkind, mark,
      Token.Kind.operator?]
  | @emptyCall token opener closer rest name hkind hopen hclose =>
    refine ⟨[token, opener, closer], rfl, ?_⟩
    intro nesting
    refine ⟨?_, Nesting.needsOperand_step_close hclose⟩
    have hname : token.kind ≠ mark '(' ∧ token.kind ≠ mark ')' := by simp [hkind, mark]
    show (((nesting.step token.kind).step opener.kind).step closer.kind).openers = nesting.openers
    rw [Nesting.openers_close hclose, Nesting.openers_open hopen, List.tail_cons,
      Nesting.openers_step hname.1 hname.2]
  | @call token opener tokens rest name node hkind hopen hclose hargs ih =>
    obtain ⟨taken, rfl, hsettled⟩ := ih
    have hname : token.kind ≠ mark '(' ∧ token.kind ≠ mark ')' := by simp [hkind, mark]
    refine ⟨token :: opener :: taken, rfl, fun nesting => ?_⟩
    obtain ⟨hopeners, hneeds⟩ := hsettled ((nesting.step token.kind).step opener.kind)
    refine ⟨?_, hneeds⟩
    rw [List.map_cons, List.map_cons, Nesting.behind_cons, Nesting.behind_cons, hopeners,
      Nesting.openers_open hopen, List.tail_cons, Nesting.openers_step hname.1 hname.2]
  | @grouping opener tokens closer rest node hopen hinner hclose ih =>
    obtain ⟨taken, rfl, hsettled⟩ := ih
    refine ⟨opener :: (taken ++ [closer]), by simp, fun nesting => ?_⟩
    obtain ⟨hopeners, -⟩ := hsettled (nesting.step opener.kind)
    rw [List.map_cons, List.map_append, Nesting.behind_cons, Nesting.behind_append]
    refine ⟨?_, Nesting.needsOperand_step_close hclose⟩
    show (Nesting.step _ closer.kind).openers = _
    rw [Nesting.openers_close hclose, hopeners, Nesting.openers_open hopen, List.tail_cons]
  | expression hfirst hproduct hsum ih₁ ih₂ ih₃ =>
    obtain ⟨taken₃, rfl, hsettled₃⟩ := ih₃
    obtain ⟨taken₂, rfl, hsettled₂⟩ := ih₂
    obtain ⟨taken₁, rfl, hsettled₁⟩ := ih₁
    refine ⟨taken₁ ++ (taken₂ ++ taken₃), by simp, fun nesting => ?_⟩
    rw [List.map_append, List.map_append, Nesting.behind_append, Nesting.behind_append]
    obtain ⟨hopeners₁, hneeds₁⟩ := hsettled₁ nesting
    obtain ⟨hopeners₂, hneeds₂⟩ := hsettled₂ _ hneeds₁
    obtain ⟨hopeners₃, hneeds₃⟩ := hsettled₃ _ hneeds₂
    exact ⟨hopeners₃.trans (hopeners₂.trans hopeners₁), hneeds₃⟩
  | productsEnd | sumsEnd => exact ⟨[], rfl, fun nesting hneeds => ⟨rfl, hneeds⟩⟩
  | @productsStep token tokens tokens₁ rest lhs rhs node hop hrhs hrest ih₁ ih₂ =>
    obtain ⟨taken₂, rfl, hsettled₂⟩ := ih₂
    obtain ⟨taken₁, rfl, hsettled₁⟩ := ih₁
    refine ⟨token :: (taken₁ ++ taken₂), by simp, fun nesting _ => ?_⟩
    rw [List.map_cons, List.map_append, Nesting.behind_cons, Nesting.behind_append]
    obtain ⟨hopeners₁, hneeds₁⟩ := hsettled₁ (nesting.step token.kind)
    obtain ⟨hopeners₂, hneeds₂⟩ := hsettled₂ _ hneeds₁
    exact ⟨hopeners₂.trans (hopeners₁.trans (Nesting.openers_step_operator hop)), hneeds₂⟩
  | @sumsStep token tokens tokens₁ tokens₂ rest lhs first rhs op node hop hloose hfirst hrhs hrest
      ih₁ ih₂ ih₃ =>
    obtain ⟨taken₃, rfl, hsettled₃⟩ := ih₃
    obtain ⟨taken₂, rfl, hsettled₂⟩ := ih₂
    obtain ⟨taken₁, rfl, hsettled₁⟩ := ih₁
    refine ⟨token :: (taken₁ ++ (taken₂ ++ taken₃)), by simp, fun nesting _ => ?_⟩
    rw [List.map_cons, List.map_append, List.map_append, Nesting.behind_cons,
      Nesting.behind_append, Nesting.behind_append]
    obtain ⟨hopeners₁, hneeds₁⟩ := hsettled₁ (nesting.step token.kind)
    obtain ⟨hopeners₂, hneeds₂⟩ := hsettled₂ _ hneeds₁
    obtain ⟨hopeners₃, hneeds₃⟩ := hsettled₃ _ hneeds₂
    exact ⟨hopeners₃.trans (hopeners₂.trans (hopeners₁.trans
      (Nesting.openers_step_operator hop))), hneeds₃⟩
  | @lastArgument name callee before tokens arg closer rest harg hclose ih =>
    obtain ⟨taken, rfl, hsettled⟩ := ih
    refine ⟨taken ++ [closer], by simp, fun nesting => ?_⟩
    obtain ⟨hopeners, -⟩ := hsettled nesting
    rw [List.map_append, Nesting.behind_append]
    refine ⟨?_, Nesting.needsOperand_step_close hclose⟩
    show (Nesting.step _ closer.kind).openers = _
    rw [Nesting.openers_close hclose, hopeners]
  | @argument name callee before tokens arg comma tokens₁ rest node harg hcomma hrest ih₁ ih₂ =>
    obtain ⟨taken₂, rfl, hsettled₂⟩ := ih₂
    obtain ⟨taken₁, rfl, hsettled₁⟩ := ih₁
    refine ⟨taken₁ ++ comma :: taken₂, by simp, fun nesting => ?_⟩
    obtain ⟨hopeners₁, -⟩ := hsettled₁ nesting
    rw [List.map_append, List.map_cons, Nesting.behind_append, Nesting.behind_cons]
    obtain ⟨hopeners₂, hneeds₂⟩ :=
      hsettled₂ ((nesting.behind (taken₁.map Token.kind)).step comma.kind)
    refine ⟨?_, hneeds₂⟩
    rw [hopeners₂, Nesting.openers_step (by rw [hcomma, ne_eq, Token.Kind.mark_inj]; decide)
      (by rw [hcomma, ne_eq, Token.Kind.mark_inj]; decide), hopeners₁]

/-- Where a task begins: where an operand is needed, arguments behind a parenthesis that a
name stands in front of, and the rest of an expression where none is needed. -/
def Task.Begins (task : Task) (nesting : Nesting) : Prop :=
  match task with
  | primary | expression => nesting.needsOperand = true
  | products _ | sums _ => nesting.needsOperand = false
  | arguments _ _ _ => nesting.needsOperand = true ∧
      ∃ name outer, nesting.openers = some (.identifier name) :: outer

/-- Where an operand is needed no name stands last. -/
theorem Nesting.ne_identifier_of_needsOperand (h : nesting.needsOperand = true) (name : String) :
    nesting.before ≠ some (.identifier name) := by
  intro hbefore
  simp [needsOperand, hbefore, Token.Kind.operator?, mark] at h

theorem Nesting.cause?_of_needsOperand (h : nesting.needsOperand = true) (found : String) :
    nesting.cause? found = some (.noExpression found) := by
  rw [cause?, if_pos h]

/-- Where no operand is needed the last open parenthesis decides. -/
theorem Nesting.cause?_of_call {outer : List (Option Token.Kind)} {name : String}
    (h : nesting.needsOperand = false)
    (hopeners : nesting.openers = some (.identifier name) :: outer) (found : String) :
    nesting.cause? found =
      some (.unexpected found "expected `)` or `,` in argument list") := by
  rw [cause?, if_neg (by simp [h]), hopeners]

theorem Nesting.cause?_of_group {outer : List (Option Token.Kind)} {before : Option Token.Kind}
    (h : nesting.needsOperand = false) (hopeners : nesting.openers = before :: outer)
    (hbefore : ∀ name, before ≠ some (.identifier name)) (found : String) :
    nesting.cause? found = some (.unclosedParenthesis found) := by
  rw [cause?, if_neg (by simp [h]), hopeners]
  split
  · next heq => cases heq
  · next name _ heq => exact absurd (List.cons.inj heq).1 (hbefore name)
  · rfl

/-- Behind the name and the parenthesis of a call its arguments begin. -/
theorem Task.begins_arguments {token opener : Token} {name : String} {before : List Node}
    (hkind : token.kind = .identifier name) (hopen : opener.kind = mark '(') (nesting : Nesting) :
    Task.Begins (.arguments name token before) ((nesting.step token.kind).step opener.kind) :=
  ⟨Nesting.needsOperand_step_mark hopen (Or.inr rfl), name, _, by
    rw [Nesting.openers_open hopen, ← hkind]
    rfl⟩

/-- Where a task fails, what is open tells what is wrong. -/
theorem Fails.cause?_eq {task : Task} {failure : Failure}
    (h : Fails last task tokens failure rest) : ∃ taken, tokens = taken ++ rest ∧
      ∀ (nesting : Nesting) (diagnostic : Diagnostic), task.Begins nesting →
        failure = .syntactic diagnostic → (∀ text, diagnostic.cause ≠ .malformedNumber text) →
        (nesting.behind (taken.map Token.kind)).cause? diagnostic.cause.found =
          some diagnostic.cause := by
  induction h with
  | stuck => exact ⟨[], rfl, by rintro _ _ _ ⟨⟩⟩
  | noOperand =>
    refine ⟨[], rfl, ?_⟩
    rintro nesting _ hbegins ⟨⟩ _
    exact Nesting.cause?_of_needsOperand hbegins _
  | malformed =>
    refine ⟨[], rfl, ?_⟩
    rintro _ _ _ ⟨⟩ hgenuine
    exact absurd rfl (hgenuine _)
  | @name token => exact ⟨[token], rfl, by rintro _ _ _ ⟨⟩⟩
  | @call token opener tokens rest name failure hkind hopen hclose hargs ih =>
    obtain ⟨taken, rfl, hcause⟩ := ih
    exact ⟨token :: opener :: taken, rfl, fun nesting diagnostic _ =>
      hcause _ diagnostic (Task.begins_arguments hkind hopen nesting)⟩
  | @inner opener tokens rest failure hopen hinner ih =>
    obtain ⟨taken, rfl, hcause⟩ := ih
    exact ⟨opener :: taken, rfl, fun nesting diagnostic _ =>
      hcause _ diagnostic (Nesting.needsOperand_step_mark hopen (Or.inr rfl))⟩
  | @unclosed opener tokens rest node follower hopen hinner hhead hclose =>
    obtain ⟨taken, rfl, hsettled⟩ := hinner.settled
    refine ⟨opener :: taken, rfl, ?_⟩
    rintro nesting _ hbegins ⟨⟩ _
    obtain ⟨hopeners, hneeds⟩ := hsettled (nesting.step opener.kind)
    rw [Nesting.openers_open hopen] at hopeners
    exact Nesting.cause?_of_group hneeds hopeners
      (Nesting.ne_identifier_of_needsOperand hbegins) _
  | first hfirst ih => exact ih
  | product hfirst hproduct ih =>
    obtain ⟨taken₂, rfl, hcause⟩ := ih
    obtain ⟨taken₁, rfl, hsettled⟩ := hfirst.settled
    refine ⟨taken₁ ++ taken₂, by simp, fun nesting diagnostic _ => ?_⟩
    rw [List.map_append, Nesting.behind_append]
    exact hcause _ diagnostic (hsettled nesting).2
  | sum hfirst hproduct hsum ih =>
    obtain ⟨taken₃, rfl, hcause⟩ := ih
    obtain ⟨taken₂, rfl, hsettled₂⟩ := hproduct.settled
    obtain ⟨taken₁, rfl, hsettled₁⟩ := hfirst.settled
    refine ⟨taken₁ ++ (taken₂ ++ taken₃), by simp, fun nesting diagnostic _ => ?_⟩
    rw [List.map_append, List.map_append, Nesting.behind_append, Nesting.behind_append]
    exact hcause _ diagnostic (hsettled₂ _ (hsettled₁ nesting).2).2
  | @productsOperand token tokens rest lhs failure hop hrhs ih =>
    obtain ⟨taken, rfl, hcause⟩ := ih
    exact ⟨token :: taken, rfl, fun nesting diagnostic _ =>
      hcause _ diagnostic (Nesting.needsOperand_step_operator hop)⟩
  | @productsRest token tokens tokens₁ rest lhs rhs failure hop hrhs hrest ih =>
    obtain ⟨taken₂, rfl, hcause⟩ := ih
    obtain ⟨taken₁, rfl, hsettled⟩ := hrhs.settled
    refine ⟨token :: (taken₁ ++ taken₂), by simp, fun nesting diagnostic _ => ?_⟩
    rw [List.map_cons, List.map_append, Nesting.behind_cons, Nesting.behind_append]
    exact hcause _ diagnostic (hsettled _).2
  | @sumsOperand token tokens rest lhs op failure hop hloose hfirst ih =>
    obtain ⟨taken, rfl, hcause⟩ := ih
    exact ⟨token :: taken, rfl, fun nesting diagnostic _ =>
      hcause _ diagnostic (Nesting.needsOperand_step_operator hop)⟩
  | @sumsProduct token tokens tokens₁ rest lhs first op failure hop hloose hfirst hrhs ih =>
    obtain ⟨taken₂, rfl, hcause⟩ := ih
    obtain ⟨taken₁, rfl, hsettled⟩ := hfirst.settled
    refine ⟨token :: (taken₁ ++ taken₂), by simp, fun nesting diagnostic _ => ?_⟩
    rw [List.map_cons, List.map_append, Nesting.behind_cons, Nesting.behind_append]
    exact hcause _ diagnostic (hsettled _).2
  | @sumsRest token tokens tokens₁ tokens₂ rest lhs first rhs op failure hop hloose hfirst hrhs
      hrest ih =>
    obtain ⟨taken₃, rfl, hcause⟩ := ih
    obtain ⟨taken₂, rfl, hsettled₂⟩ := hrhs.settled
    obtain ⟨taken₁, rfl, hsettled₁⟩ := hfirst.settled
    refine ⟨token :: (taken₁ ++ (taken₂ ++ taken₃)), by simp, fun nesting diagnostic _ => ?_⟩
    rw [List.map_cons, List.map_append, List.map_append, Nesting.behind_cons,
      Nesting.behind_append, Nesting.behind_append]
    exact hcause _ diagnostic (hsettled₂ _ (hsettled₁ _).2).2
  | argument harg ih =>
    obtain ⟨taken, rfl, hcause⟩ := ih
    exact ⟨taken, rfl, fun nesting diagnostic hbegins => hcause _ diagnostic hbegins.1⟩
  | separator harg hhead hclose hcomma =>
    obtain ⟨taken, rfl, hsettled⟩ := harg.settled
    refine ⟨taken, rfl, ?_⟩
    rintro nesting _ ⟨-, name, outer, houter⟩ ⟨⟩ _
    obtain ⟨hopeners, hneeds⟩ := hsettled nesting
    exact Nesting.cause?_of_call hneeds (hopeners.trans houter) _
  | @moreArguments name callee before tokens arg comma tokens₁ rest failure harg hcomma hrest ih =>
    obtain ⟨taken₂, rfl, hcause⟩ := ih
    obtain ⟨taken₁, rfl, hsettled⟩ := harg.settled
    refine ⟨taken₁ ++ comma :: taken₂, by simp, fun nesting diagnostic hbegins => ?_⟩
    rw [List.map_append, List.map_cons, Nesting.behind_append, Nesting.behind_cons]
    obtain ⟨-, name, outer, houter⟩ := hbegins
    refine hcause _ diagnostic ⟨Nesting.needsOperand_step_mark hcomma (Or.inl rfl), name, outer, ?_⟩
    rw [Nesting.openers_step (by rw [hcomma, ne_eq, Token.Kind.mark_inj]; decide)
      (by rw [hcomma, ne_eq, Token.Kind.mark_inj]; decide), (hsettled nesting).1, houter]

end Nestings

section Constructs

variable {last : Except LexicalError Token} {tokens rest : List Token} {diagnostic : Diagnostic}

theorem Refuses.cause_eq {wanted : String}
    (h : Refuses last wanted tokens (.syntactic diagnostic)) :
    diagnostic.cause = .unexpected diagnostic.cause.found wanted := by
  cases h
  rfl

theorem dropWhile_names (names : List String) (kinds : List Token.Kind) :
    (names.map Token.Kind.identifier ++ kinds).dropWhile Token.Kind.isIdentifier =
      kinds.dropWhile Token.Kind.isIdentifier := by
  apply List.dropWhile_append_of_pos
  intro kind hkind
  obtain ⟨name, -, rfl⟩ := List.mem_map.mp hkind
  rfl

/-- Behind the name, the opening parenthesis and some parameters. -/
theorem causeInPrototype_opened (found name : String) (names : List String)
    (kinds : List Token.Kind) : causeInPrototype found
        (.identifier name :: mark '(' :: (names.map .identifier ++ kinds)) =
      match kinds.dropWhile Token.Kind.isIdentifier with
      | [] => some (.unexpected found "expected `)` in prototype")
      | closer :: body =>
        if closer = mark ')' then (Nesting.start.behind body).cause? found else none := by
  simp only [causeInPrototype, ↓reduceIte, dropWhile_names]

/-- Behind a complete prototype the expression decides. -/
theorem causeInPrototype_closed (found name : String) (names : List String)
    (body : List Token.Kind) : causeInPrototype found
        (.identifier name :: mark '(' :: (names.map .identifier ++ mark ')' :: body)) =
      (Nesting.start.behind body).cause? found := by
  have hclose : Token.Kind.isIdentifier (mark ')') = false := rfl
  rw [causeInPrototype_opened, List.dropWhile_cons_of_neg (by simp [hclose])]
  simp only [↓reduceIte]

/-- Where a prototype fails, its tokens so far tell what is missing. -/
theorem FailsPrototype.cause_eq {failure : Failure} (h : FailsPrototype last tokens failure rest) :
    ∃ taken, tokens = taken ++ rest ∧ ∀ diagnostic : Diagnostic,
      failure = .syntactic diagnostic →
      causeInPrototype diagnostic.cause.found (taken.map Token.kind) = some diagnostic.cause := by
  cases h with
  | name hkind hrefuses =>
    refine ⟨[], rfl, ?_⟩
    rintro diagnostic rfl
    exact congrArg some hrefuses.cause_eq.symm
  | @opener token rest name failure hkind hopen hrefuses =>
    refine ⟨[token], rfl, ?_⟩
    rintro diagnostic rfl
    rw [List.map_singleton, hkind]
    exact congrArg some hrefuses.cause_eq.symm
  | @closer token opener params rest name failure names hkind hopen hparams _ _ hrefuses =>
    refine ⟨token :: opener :: params, rfl, ?_⟩
    rintro diagnostic rfl
    have hopened := causeInPrototype_opened diagnostic.cause.found name names []
    rw [List.append_nil] at hopened
    rw [List.map_cons, List.map_cons, hkind, hopen, hparams, hopened]
    exact congrArg some hrefuses.cause_eq.symm

/-- An expression that fails tells what is wrong from its own tokens. -/
theorem Fails.cause_of_start (h : Fails last .expression tokens (.syntactic diagnostic) rest)
    (hgenuine : ∀ text, diagnostic.cause ≠ .malformedNumber text) :
    ∃ taken, tokens = taken ++ rest ∧
      (Nesting.start.behind (taken.map Token.kind)).cause? diagnostic.cause.found =
        some diagnostic.cause := by
  obtain ⟨taken, htokens, hcause⟩ := h.cause?_eq
  exact ⟨taken, htokens, hcause _ diagnostic rfl rfl hgenuine⟩

/-- Where a top-level construct fails, its tokens so far tell what is wrong. -/
theorem FailsTop.causeBehind_eq (h : FailsTop last tokens (.syntactic diagnostic) rest)
    (hgenuine : ∀ text, diagnostic.cause ≠ .malformedNumber text) :
    ∃ taken, tokens = taken ++ rest ∧
      causeBehind diagnostic.cause.found (taken.map Token.kind) = some diagnostic.cause := by
  cases h with
  | @definitionPrototype keyword tokens _ _ hkind hproto =>
    obtain ⟨taken, rfl, hcause⟩ := hproto.cause_eq
    refine ⟨keyword :: taken, rfl, ?_⟩
    rw [List.map_cons, hkind]
    exact hcause diagnostic rfl
  | @definitionBody keyword tokens tokens₁ _ proto _ hkind hproto hbody =>
    obtain ⟨taken, rfl, hcause⟩ := hbody.cause_of_start hgenuine
    cases hproto with
    | @intro token opener closer params _ name names hname hopen hparams hclose =>
      refine ⟨keyword :: token :: opener :: (params ++ closer :: taken), by simp, ?_⟩
      simp only [List.map_cons, List.map_append, hkind, hname, hopen, hparams, hclose]
      rw [causeBehind, causeInPrototype_closed, hcause]
  | @declaration keyword tokens _ _ hkind hproto =>
    obtain ⟨taken, rfl, hcause⟩ := hproto.cause_eq
    refine ⟨keyword :: taken, rfl, ?_⟩
    rw [List.map_cons, hkind]
    exact hcause diagnostic rfl
  | @expression token tokens _ _ hend hdefine hdeclare hfail =>
    obtain ⟨taken, htokens, hcause⟩ := hfail.cause_of_start hgenuine
    refine ⟨taken, htokens, ?_⟩
    cases taken with
    | nil => exact hcause
    | cons first taken =>
      obtain ⟨rfl, -⟩ := List.cons.inj htokens
      rw [List.map_cons] at hcause ⊢
      rw [causeBehind]
      · exact hcause
      · exact fun _ hsame => hdefine (List.cons.inj hsame).1
      · exact fun _ hsame => hdeclare (List.cons.inj hsame).1

end Constructs

namespace Parser

variable {source : String} {file : Option String} {start p : Parser}

/-- Whatever is asked of a parser, it is never answered that a number is malformed. -/
theorem not_malformed_of_mem_serve (hstart : start.lexer = Lexer.ofSource source file)
    (hp : p.ahead.IsEndOf start.ahead) (requests : List Request) (digits : String)
    (position : Position) :
    .error (.syntactic ⟨.malformedNumber digits, position⟩) ∉ (serve requests p).1 := by
  induction requests generalizing p with
  | nil => exact List.not_mem_nil
  | cons request requests ih =>
    intro hmem
    have hnext := ih ((request.isEndOf_run p).trans hp)
    rcases List.mem_cons.mp hmem with hreply | hlater
    · cases hrun : request.run p with
      | ok reply after =>
        rw [hrun] at hreply
        cases hreply
      | error failure after =>
        obtain ⟨hmoves, hstands⟩ := request.stands_of_error hrun
        rw [hrun] at hreply
        exact not_malformed_of_standsAt hstart (hmoves.ahead.trans hp) hstands digits position
          (Except.error.inj hreply).symm
    · exact hnext hlater

/-- A construct never fails over a malformed number. -/
theorem not_malformed_of_failsTop {tokens rest : List Token} {last : Except LexicalError Token}
    {diagnostic : Diagnostic} (hstart : start.lexer = Lexer.ofSource source file)
    (hp : p.ahead.IsEndOf start.ahead) (hahead : p.ahead = ⟨tokens, last⟩)
    (h : FailsTop last tokens (.syntactic diagnostic) rest) (text : String) :
    diagnostic.cause ≠ .malformedNumber text := by
  intro hcause
  obtain ⟨token, tail, rfl, -⟩ := h.begins
  obtain ⟨q, -, -, hrun⟩ := topLevelWithin_stops h hahead le_rfl
  obtain ⟨hmoves, hstands⟩ := (topLevelWithin_stopsInFront _).stands _ _ hrun
  refine not_malformed_of_standsAt hstart (hmoves.ahead.trans hp) hstands text
    diagnostic.position ?_
  rw [← hcause]

end Parser

/-- What a diagnostic says is determined by the construct left open innermost. For every call
of reading a source that reports one, the tokens that the call has taken in front of the
token it is about tell what is wrong: a part of a prototype is missing, an operand, a
comma or the end of an argument list, or a closing parenthesis. That a number is malformed
is never said, neither in reading a source nor in answer to any other request. -/
theorem parse_tells_open_construct (source : String) (file : Option String) :
    (∃ calls outcome,
      Parser.Run (Parser.ofSource source file) calls outcome (parse source file).parser ∧
      (parse source file).parser.diagnostics.toList = calls.flatMap Call.reports ∧
      ∀ call ∈ calls, ∀ diagnostic ∈ call.reports, ∃ consumed rest last culprit,
        call.before.ahead = ⟨consumed ++ rest, last⟩ ∧
        Stream.head ⟨rest, last⟩ = .ok culprit ∧ call.after.ahead = ⟨rest.tail, last⟩ ∧
        diagnostic.position = culprit.span.start ∧
        causeBehind culprit.kind.describe (consumed.map Token.kind) = some diagnostic.cause ∧
        ∀ text, diagnostic.cause ≠ .malformedNumber text) ∧
    ∀ requests digits position, .error (.syntactic ⟨.malformedNumber digits, position⟩) ∉
      (Parser.serve requests (Parser.ofSource source file)).1 := by
  have hfresh : (Parser.ofSource source file).lexer = Lexer.ofSource source file := rfl
  refine ⟨?_, Parser.not_malformed_of_mem_serve hfresh (.refl _)⟩
  obtain ⟨calls, outcome, hrun, -⟩ := parse_run source file
  obtain ⟨segments, left, htokens, hcovers, -, -, hreports⟩ := hrun.covers rfl
  refine ⟨calls, outcome, hrun, hreports, fun call hcall diagnostic hreport => ?_⟩
  obtain ⟨before, segment, rest, hsplit, -, hbefore, hafter, htakes⟩ := hcovers.exists_takes hcall
  obtain ⟨taken, behind, hsegment, rfl, hfail⟩ := htakes.fails hreport
  have hend : call.before.ahead.IsEndOf (Parser.ofSource source file).ahead := by
    rw [hbefore]
    exact ⟨rfl, before, (htokens.trans hsplit).symm⟩
  rw [hsegment] at hbefore
  have hgenuine := Parser.not_malformed_of_failsTop rfl hend hbefore hfail
  obtain ⟨consumed, hconsumed, hcause⟩ := hfail.causeBehind_eq hgenuine
  obtain ⟨culprit, hhead, hposition, hfound⟩ := hfail.isAt
  refine ⟨consumed, behind, _, culprit, by rw [hbefore, hconsumed], hhead, hafter, hposition, ?_,
    hgenuine⟩
  rw [← hfound]
  exact hcause

end ExprLang
