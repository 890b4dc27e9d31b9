import ExprLang.Proofs.Routines

/-!
Expressions in two levels: sums of products. The reference reads a product as an
operand and a run of multiplications, and a sum as a product and a run of
additions and subtractions of products, always folding to the left. Precedence
climbing from any left operand and any least binding power is the same routine
as the part of the reference that this power asks for.
-/
namespace ExprLang

open Lexer (Stream)

namespace Parser

def productOperator? (kind : Token.Kind) : Option Operator :=
  if kind = .symbol "*" then some .multiply else none

def sumOperator? (kind : Token.Kind) : Option Operator :=
  if kind = .symbol "+" then some .add
  else if kind = .symbol "-" then some .subtract
  else none

/-- Fold a left operand to the left over the longest run of certain operators, each with
an operand behind it. -/
def foldWithin (operator? : Token.Kind → Option Operator) (operand : ParseM Node) :
    Nat → Node → ParseM Node
  | 0, lhs => do
    let _ ← peek
    return lhs
  | bound + 1, lhs => do
    match operator? (← peek).kind with
    | none => return lhs
    | some op =>
      let _ ← advance
      let rhs ← operand
      foldWithin operator? operand bound (.binary op lhs rhs ⟨lhs.span.start, rhs.span.stop⟩)

def products (lhs : Node) : ParseM Node :=
  bounded fun bound => foldWithin productOperator? primary bound lhs

def term : ParseM Node := do products (← primary)

def sums (lhs : Node) : ParseM Node :=
  bounded fun bound => foldWithin sumOperator? term bound lhs

/-- The part of the reference for a least binding power: nothing but a look at
the next token above 40, products above 20, and sums of products otherwise. -/
def stratified (least : Int) (lhs : Node) : ParseM Node :=
  if 40 < least then do
    let _ ← peek
    return lhs
  else if 20 < least then products lhs
  else do sums (← products lhs)

section Marks

variable {kind : Token.Kind} {op : Operator}

theorem productOperator?_eq_some (h : kind.operator? = some .multiply) :
    productOperator? kind = some .multiply := by
  rw [(Token.Kind.operator?_eq_some_iff kind _).mp h]
  rfl

theorem productOperator?_eq_none (h : kind.operator? ≠ some .multiply) :
    productOperator? kind = none :=
  if_neg fun hkind => h ((Token.Kind.operator?_eq_some_iff kind _).mpr hkind)

theorem sumOperator?_eq_some (h : kind.operator? = some op) (hop : op ≠ .multiply) :
    sumOperator? kind = some op := by
  rw [(Token.Kind.operator?_eq_some_iff kind _).mp h]
  cases op with
  | multiply => exact absurd rfl hop
  | add | subtract => rfl

theorem sumOperator?_eq_none (h : ∀ op, kind.operator? = some op → op = .multiply) :
    sumOperator? kind = none := by
  have hplus : kind ≠ .symbol "+" := fun hkind =>
    nomatch h .add ((Token.Kind.operator?_eq_some_iff kind _).mpr hkind)
  have hminus : kind ≠ .symbol "-" := fun hkind =>
    nomatch h .subtract ((Token.Kind.operator?_eq_some_iff kind _).mpr hkind)
  rw [sumOperator?, if_neg hplus, if_neg hminus]

end Marks

variable {last : Except LexicalError Token} {tokens rest : List Token} {p : Parser}

theorem primary_gives {node : Node} (h : Reads last .primary tokens node rest)
    (hp : p.ahead = ⟨tokens, last⟩) : Ends false primary p tokens (.ok node) rest :=
  Ends.bounded hp fun n hn => h.gives n n p (by omega) (by omega) hp

theorem primary_stops {failure : Failure} (h : Fails last .primary tokens failure rest)
    (hp : p.ahead = ⟨tokens, last⟩) : Ends true primary p tokens (.error failure) rest :=
  Ends.bounded hp fun n hn => h.stops n n p (by omega) (by omega) hp

section Folding

variable {operator? : Token.Kind → Option Operator} {operand : ParseM Node} {n : Nat} {lhs : Node}

theorem foldWithin_end {follower : Token} (hp : p.ahead = ⟨tokens, last⟩)
    (hhead : Stream.head ⟨tokens, last⟩ = .ok follower)
    (hop : operator? follower.kind = none) :
    Ends true (foldWithin operator? operand n lhs) p tokens (.ok lhs) tokens := by
  cases n with
  | zero => exact Ends.bind hp (Ends.peek hp hhead) fun q hq hlook => Ends.pure hlook
  | succ n =>
    refine Ends.bind hp (Ends.peek hp hhead) fun q hq hlook => ?_
    rw [hop]
    exact Ends.pure hlook

theorem foldWithin_stuck {error : LexicalError} (hp : p.ahead = ⟨tokens, last⟩)
    (hhead : Stream.head ⟨tokens, last⟩ = .error error) :
    Ends true (foldWithin operator? operand n lhs) p tokens (.error (.lexical error)) tokens := by
  cases n with
  | zero => exact Ends.bind_error (Ends.peek_error hp hhead)
  | succ n => exact Ends.bind_error (Ends.peek_error hp hhead)

/-- An operator of the run is passed over. -/
theorem foldWithin_operator {token : Token} {op : Operator} {outcome : Except Failure Node}
    (hp : p.ahead = ⟨token :: tokens, last⟩) (hop : operator? token.kind = some op)
    (h : ∀ q : Parser, q.ahead = ⟨tokens, last⟩ → Ends true (do
      let rhs ← operand
      foldWithin operator? operand n (.binary op lhs rhs ⟨lhs.span.start, rhs.span.stop⟩))
      q tokens outcome rest) :
    Ends true (foldWithin operator? operand (n + 1) lhs) p (token :: tokens) outcome rest := by
  refine Ends.bind hp (Ends.peek hp rfl) fun q hq _ => ?_
  simp only [hop]
  exact Ends.bind hq (Ends.advance hq) fun q hq _ => h q hq

end Folding

theorem fold_products_gives {lhs node : Node} {n : Nat}
    (h : Reads last (.products lhs) tokens node rest) (hn : tokens.length ≤ n)
    (hp : p.ahead = ⟨tokens, last⟩) :
    Ends true (foldWithin productOperator? primary n lhs) p tokens (.ok node) rest := by
  generalize htask : Task.products lhs = task at h
  induction h generalizing lhs n p with
  | productsEnd hhead hop =>
    cases htask
    exact foldWithin_end hp hhead (productOperator?_eq_none hop)
  | productsStep hop hrhs hrest _ ih =>
    cases htask
    have hless := hrhs.length_lt trivial
    simp only [List.length_cons] at hn
    cases n with
    | zero => omega
    | succ n =>
      refine foldWithin_operator hp (productOperator?_eq_some hop) fun q hq => ?_
      exact Ends.bind hq (primary_gives hrhs hq) fun q hq _ => ih (by omega) hq rfl
  | _ => cases htask

theorem fold_products_stops {lhs : Node} {failure : Failure} {n : Nat}
    (h : Fails last (.products lhs) tokens failure rest) (hn : tokens.length ≤ n)
    (hp : p.ahead = ⟨tokens, last⟩) :
    Ends true (foldWithin productOperator? primary n lhs) p tokens
      (.error failure) rest := by
  generalize htask : Task.products lhs = task at h
  induction h generalizing lhs n p with
  | stuck hhead => exact foldWithin_stuck hp hhead
  | productsOperand hop hrhs =>
    cases htask
    cases n with
    | zero => simp at hn
    | succ n =>
      exact foldWithin_operator hp (productOperator?_eq_some hop) fun q hq =>
        Ends.bind_error (primary_stops hrhs hq)
  | productsRest hop hrhs hrest ih =>
    cases htask
    have hless := hrhs.length_lt trivial
    simp only [List.length_cons] at hn
    cases n with
    | zero => omega
    | succ n =>
      refine foldWithin_operator hp (productOperator?_eq_some hop) fun q hq => ?_
      exact Ends.bind hq (primary_gives hrhs hq) fun q hq _ => ih (by omega) hq rfl
  | _ => cases htask

theorem products_gives {lhs node : Node} (h : Reads last (.products lhs) tokens node rest)
    (hp : p.ahead = ⟨tokens, last⟩) : Ends true (products lhs) p tokens (.ok node) rest :=
  Ends.bounded hp fun _ hn => fold_products_gives h hn hp

theorem products_stops {lhs : Node} {failure : Failure}
    (h : Fails last (.products lhs) tokens failure rest) (hp : p.ahead = ⟨tokens, last⟩) :
    Ends true (products lhs) p tokens (.error failure) rest :=
  Ends.bounded hp fun _ hn => fold_products_stops h hn hp

theorem fold_sums_gives {lhs node : Node} {n : Nat}
    (h : Reads last (.sums lhs) tokens node rest) (hn : tokens.length ≤ n)
    (hp : p.ahead = ⟨tokens, last⟩) :
    Ends true (foldWithin sumOperator? term n lhs) p tokens (.ok node) rest := by
  generalize htask : Task.sums lhs = task at h
  induction h generalizing lhs n p with
  | sumsEnd hhead hop =>
    cases htask
    exact foldWithin_end hp hhead (sumOperator?_eq_none hop)
  | sumsStep hop hloose hfirst hrhs hrest _ _ ih =>
    cases htask
    have hless := hfirst.length_lt trivial
    have hle := hrhs.length_le
    simp only [List.length_cons] at hn
    cases n with
    | zero => omega
    | succ n =>
      refine foldWithin_operator hp (sumOperator?_eq_some hop hloose) fun q hq => ?_
      have hterm := Ends.bind hq (primary_gives hfirst hq) fun q hq _ => products_gives hrhs hq
      exact Ends.bind hq hterm fun q hq _ => ih (by omega) hq rfl
  | _ => cases htask

theorem fold_sums_stops {lhs : Node} {failure : Failure} {n : Nat}
    (h : Fails last (.sums lhs) tokens failure rest) (hn : tokens.length ≤ n)
    (hp : p.ahead = ⟨tokens, last⟩) :
    Ends true (foldWithin sumOperator? term n lhs) p tokens
      (.error failure) rest := by
  generalize htask : Task.sums lhs = task at h
  induction h generalizing lhs n p with
  | stuck hhead => exact foldWithin_stuck hp hhead
  | sumsOperand hop hloose hfirst =>
    cases htask
    cases n with
    | zero => simp at hn
    | succ n =>
      refine foldWithin_operator hp (sumOperator?_eq_some hop hloose) fun q hq => ?_
      exact Ends.bind_error (Ends.bind_error (primary_stops hfirst hq))
  | sumsProduct hop hloose hfirst hrhs =>
    cases htask
    cases n with
    | zero => simp at hn
    | succ n =>
      refine foldWithin_operator hp (sumOperator?_eq_some hop hloose) fun q hq => ?_
      exact Ends.bind_error
        (Ends.bind hq (primary_gives hfirst hq) fun q hq _ => products_stops hrhs hq)
  | sumsRest hop hloose hfirst hrhs hrest ih =>
    cases htask
    have hless := hfirst.length_lt trivial
    have hle := hrhs.length_le
    simp only [List.length_cons] at hn
    cases n with
    | zero => omega
    | succ n =>
      refine foldWithin_operator hp (sumOperator?_eq_some hop hloose) fun q hq => ?_
      have hterm := Ends.bind hq (primary_gives hfirst hq) fun q hq _ => products_gives hrhs hq
      exact Ends.bind hq hterm fun q hq _ => ih (by omega) hq rfl
  | _ => cases htask

theorem sums_gives {lhs node : Node} (h : Reads last (.sums lhs) tokens node rest)
    (hp : p.ahead = ⟨tokens, last⟩) : Ends true (sums lhs) p tokens (.ok node) rest :=
  Ends.bounded hp fun _ hn => fold_sums_gives h hn hp

theorem sums_stops {lhs : Node} {failure : Failure}
    (h : Fails last (.sums lhs) tokens failure rest) (hp : p.ahead = ⟨tokens, last⟩) :
    Ends true (sums lhs) p tokens (.error failure) rest :=
  Ends.bounded hp fun _ hn => fold_sums_stops h hn hp

/-- Above the power of every operator there is only a look at the next token. -/
theorem operators_eq_peek {least : Int} (hleast : 40 < least) (lhs : Node)
    (hp : p.ahead = ⟨tokens, last⟩) :
    operators least lhs p = (do let _ ← peek; return lhs : ParseM Node) p := by
  cases hhead : Stream.head ⟨tokens, last⟩ with
  | error error =>
    have hclimb : Ends true (operators least lhs) p tokens (.error (.lexical error)) tokens :=
      Ends.bounded hp fun _ _ => operatorsWith_stuck hp hhead
    exact hclimb.run_eq (Ends.bind_error (Ends.peek_error hp hhead))
  | ok follower =>
    have hclimb : Ends true (operators least lhs) p tokens (.ok lhs) tokens :=
      Ends.bounded hp fun _ _ => operatorsWith_end hp hhead fun op _ => by
        have hpower := op.power_le
        omega
    exact hclimb.run_eq (Ends.bind hp (Ends.peek hp hhead) fun q hq hlook => Ends.pure hlook)

/-- Between the two powers climbing reads multiplications. -/
theorem operators_eq_products {least : Int} (hloose : 20 < least) (htight : least ≤ 40)
    (lhs : Node) (hlast : ∀ token, last = .ok token → token.kind = .endOfInput)
    (hp : p.ahead = ⟨tokens, last⟩) : operators least lhs p = products lhs p := by
  rcases settles hlast (.products lhs) tokens with ⟨node, rest, hread⟩ | ⟨failure, rest, hfail⟩
  · have hclimb : Ends true (operators least lhs) p tokens (.ok node) rest :=
      Ends.bounded hp fun n hn => hread.gives.products_ends hread n n least p hn hn hloose htight hp
    exact hclimb.run_eq (products_gives hread hp)
  · have hclimb : Ends true (operators least lhs) p tokens (.error failure) rest :=
      Ends.bounded hp fun n hn => hfail.stops n n least p hn hn htight hp
    exact hclimb.run_eq (products_stops hfail hp)

/-- From the lower power on climbing reads multiplications and then additions
and subtractions of products. -/
theorem operators_eq_sums {least : Int} (hleast : least ≤ 20) (lhs : Node)
    (hlast : ∀ token, last = .ok token → token.kind = .endOfInput)
    (hp : p.ahead = ⟨tokens, last⟩) :
    operators least lhs p = (do sums (← products lhs) : ParseM Node) p := by
  rcases settles hlast (.products lhs) tokens with ⟨product, middle, hread⟩ | ⟨failure, rest, hfail⟩
  · obtain ⟨follower, hhead, hop⟩ := hread.products_follower
    have hbehind : ∀ next, Stream.head ⟨middle, last⟩ = .ok next →
        next.kind.operator? ≠ some .multiply := by
      intro next hnext
      obtain rfl := Except.ok.inj (hhead.symm.trans hnext)
      exact hop
    have hle := hread.length_le
    rcases settles hlast (.sums product) middle with ⟨node, rest, hsum⟩ | ⟨failure, rest, hfail⟩
    · have hclimb : Ends true (operators least lhs) p tokens (.ok node) rest :=
        Ends.bounded hp fun n hn => hread.gives n n least p _ _ hn hn (by omega) hp
          fun n' q hn' hq => hsum.gives n n' least q follower (by omega) hn' hleast hq hhead hop
      exact hclimb.run_eq
        (Ends.bind hp (products_gives hread hp) fun q hq _ => sums_gives hsum hq)
    · have hclimb : Ends true (operators least lhs) p tokens (.error failure) rest :=
        Ends.bounded hp fun n hn => hread.gives n n least p _ _ hn hn (by omega) hp
          fun n' q hn' hq => hfail.stops n n' least q (by omega) hn' hleast hq hbehind
      exact hclimb.run_eq
        (Ends.bind hp (products_gives hread hp) fun q hq _ => sums_stops hfail hq)
  · have hclimb : Ends true (operators least lhs) p tokens (.error failure) rest :=
      Ends.bounded hp fun n hn => hfail.stops n n least p hn hn (by omega) hp
    exact hclimb.run_eq (Ends.bind_error (products_stops hfail hp))

/-- A whole expression is a term and then a sum of terms. -/
theorem expression_eq_sums (hlast : ∀ token, last = .ok token → token.kind = .endOfInput)
    (hp : p.ahead = ⟨tokens, last⟩) :
    expression p = (do sums (← term) : ParseM Node) p := by
  rcases settles hlast .expression tokens with ⟨node, rest, hread⟩ | ⟨failure, rest, hfail⟩
  · have hwhole : Ends true expression p tokens (.ok node) rest :=
      Ends.bounded hp fun n hn => hread.gives n p hn hp
    refine hwhole.run_eq ?_
    cases hread with
    | expression hfirst hproduct hsum =>
      have hterm := Ends.bind hp (primary_gives hfirst hp) fun q hq _ => products_gives hproduct hq
      exact Ends.bind hp hterm fun q hq _ => sums_gives hsum hq
  · have hwhole : Ends true expression p tokens (.error failure) rest :=
      Ends.bounded hp fun n hn => hfail.stops n p hn hp
    refine hwhole.run_eq ?_
    cases hfail with
    | stuck hhead => exact Ends.bind_error (Ends.bind_error (primary_stops (.stuck hhead) hp))
    | first hfirst => exact Ends.bind_error (Ends.bind_error (primary_stops hfirst hp))
    | product hfirst hproduct =>
      exact Ends.bind_error
        (Ends.bind hp (primary_gives hfirst hp) fun q hq _ => products_stops hproduct hq)
    | sum hfirst hproduct hsum =>
      have hterm := Ends.bind hp (primary_gives hfirst hp) fun q hq _ => products_gives hproduct hq
      exact Ends.bind hp hterm fun q hq _ => sums_stops hsum hq

/-- Precedence climbing is the reading in two levels: at every place of every
source, from every left operand and for every least binding power it gives the
same node or the same failure and leaves the same parser behind. So an
expression is a term and then the sum of terms that goes on from it. -/
theorem operators_eq_stratified :
    (∀ least lhs, operators least lhs = stratified least lhs) ∧
      expression = (do sums (← term)) := by
  constructor
  · intro least lhs
    funext p
    have hlast := (Lexer.stream_kinds p.lexer p.ahead.tokens p.ahead.last rfl).2
    unfold stratified
    by_cases habove : 40 < least
    · rw [if_pos habove]
      exact operators_eq_peek habove lhs rfl
    · rw [if_neg habove]
      by_cases hbetween : 20 < least
      · rw [if_pos hbetween]
        exact operators_eq_products hbetween (by omega) lhs hlast rfl
      · rw [if_neg hbetween]
        exact operators_eq_sums (by omega) lhs hlast rfl
  · funext p
    exact expression_eq_sums (Lexer.stream_kinds p.lexer p.ahead.tokens p.ahead.last rfl).2 rfl

/-- The case of all three operators in one expression. -/
theorem operators_eq_stratified_of_chain :
    let parser := Parser.ofSource "1-2*x*3+4)" none
    expression parser = (do sums (← term) : ParseM Node) parser ∧
      (expression.run' parser).map Node.sexpr = some "(+ (- 1 (* (* 2 x) 3)) 4)" :=
  ⟨congrFun operators_eq_stratified.2 _, by decide +kernel⟩

end Parser

end ExprLang
