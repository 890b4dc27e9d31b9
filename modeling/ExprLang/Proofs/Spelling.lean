import ExprLang.Proofs.Lookahead
import ExprLang.Proofs.WholeReading
import Mathlib.Data.List.Flatten
import Mathlib.Data.List.Forall2

/-!
Nodes against just the tokens they are read from. An operand is a single construct or an
expression in parentheses, a product is a chain of operands and a sum one of products, both
with the last operator at the root. What is read is spelled in this way by the tokens that
it takes, and whatever is spelled in this way is read in front of any token that does not
go on with it. Inside of the tokens of a node each of its parts has tokens of its own.
-/
namespace ExprLang

open Lexer (Stream)
open Token.Kind (mark)

inductive Form where
  | operand (node : Node)
  | product (node : Node)
  | sum (node : Node)
  | arguments (nodes : List Node)

inductive Spells : Form → List Token → Prop
  | number {token digits value} (hkind : token.kind = .number digits)
      (hvalue : Binary64.ofDigits? digits = some value) :
      Spells (.operand (.number value token.span)) [token]
  | name {token name} (hkind : token.kind = .identifier name) :
      Spells (.operand (.var name token.span)) [token]
  | call {token opener closer inner name args} (hkind : token.kind = .identifier name)
      (hopen : opener.kind = mark '(') (hargs : Spells (.arguments args) inner)
      (hclose : closer.kind = mark ')') :
      Spells (.operand (.call name args (token.span.through closer.span)))
        (token :: opener :: (inner ++ [closer]))
  | grouping {opener closer inner node} (hopen : opener.kind = mark '(')
      (hinner : Spells (.sum node) inner) (hclose : closer.kind = mark ')') :
      Spells (.operand node) (opener :: (inner ++ [closer]))
  | factor {node taken} (h : Spells (.operand node) taken) : Spells (.product node) taken
  | multiply {lhs rhs token left right} (hlhs : Spells (.product lhs) left)
      (hop : token.kind.operator? = some .multiply) (hrhs : Spells (.operand rhs) right) :
      Spells (.product (.binary .multiply lhs rhs (lhs.span.through rhs.span)))
        (left ++ token :: right)
  | term {node taken} (h : Spells (.product node) taken) : Spells (.sum node) taken
  | add {lhs rhs token left right op} (hlhs : Spells (.sum lhs) left)
      (hop : token.kind.operator? = some op) (hloose : op ≠ .multiply)
      (hrhs : Spells (.product rhs) right) :
      Spells (.sum (.binary op lhs rhs (lhs.span.through rhs.span))) (left ++ token :: right)
  | noArguments : Spells (.arguments []) []
  | lastArgument {arg taken} (h : Spells (.sum arg) taken) : Spells (.arguments [arg]) taken
  | argument {arg next args taken comma behind} (harg : Spells (.sum arg) taken)
      (hcomma : comma.kind = mark ',') (hargs : Spells (.arguments (next :: args)) behind) :
      Spells (.arguments (arg :: next :: args)) (taken ++ comma :: behind)

inductive SpellsTop : Node → List Token → Prop
  | definition {keyword front proto body behind} (hkind : keyword.kind = .define)
      (hproto : ReadsPrototype front proto []) (hbody : Spells (.sum body) behind) :
      SpellsTop (.function proto body (keyword.span.through body.span))
        (keyword :: (front ++ behind))
  | declaration {keyword taken proto} (hkind : keyword.kind = .declare)
      (hproto : ReadsPrototype taken proto []) :
      SpellsTop (.prototype { proto with span := keyword.span.through proto.span })
        (keyword :: taken)
  | expression {node taken} (h : Spells (.sum node) taken) : SpellsTop node taken

variable {last : Except LexicalError Token} {tokens taken rest : List Token} {node : Node}

section Reading

/-- What the tokens that a task takes spell. The rest of a chain lengthens what its left
operand is spelled by. -/
def Task.Spelled (task : Task) (node : Node) (taken : List Token) : Prop :=
  match task with
  | primary => Spells (.operand node) taken
  | expression => Spells (.sum node) taken
  | products lhs => ∀ front, Spells (.product lhs) front → Spells (.product node) (front ++ taken)
  | sums lhs => ∀ front, Spells (.sum lhs) front → Spells (.sum node) (front ++ taken)
  | arguments name callee before => ∃ next args inner closer, taken = inner ++ [closer] ∧
      closer.kind = mark ')' ∧ Spells (.arguments (next :: args)) inner ∧
      node = .call name (before ++ next :: args) (callee.span.through closer.span)

/-- Arguments begin with the first token of an operand. -/
theorem Reads.starts_arguments {name : String} {callee : Token} {before : List Node}
    (h : Reads last (.arguments name callee before) tokens node rest) :
    ∃ token tail, tokens = token :: tail ∧ token.kind.StartsOperand := by
  cases h with
  | lastArgument harg | argument harg => exact harg.starts

/-- What is read is spelled by the tokens it takes. -/
theorem Reads.spelled {task : Task} (h : Reads last task tokens node rest) :
    ∃ taken, tokens = taken ++ rest ∧ task.Spelled node taken := by
  induction h with
  | @number token rest digits value hkind hvalue => exact ⟨[token], rfl, .number hkind hvalue⟩
  | @name token rest name follower hkind hhead hopen => exact ⟨[token], rfl, .name hkind⟩
  | @emptyCall token opener closer rest name hkind hopen hclose =>
    exact ⟨[token, opener, closer], rfl, .call hkind hopen .noArguments hclose⟩
  | @call token opener tokens rest name node hkind hopen hclose hargs ih =>
    obtain ⟨taken, rfl, next, args, inner, closer, rfl, hcloser, hspells, rfl⟩ := ih
    exact ⟨token :: opener :: (inner ++ [closer]), rfl, .call hkind hopen hspells hcloser⟩
  | @grouping opener tokens closer rest node hopen hinner hclose ih =>
    obtain ⟨taken, rfl, hspells⟩ := ih
    exact ⟨opener :: (taken ++ [closer]), by simp, .grouping hopen hspells hclose⟩
  | expression hfirst hproduct hsum ih₁ ih₂ ih₃ =>
    obtain ⟨taken₃, rfl, hsums⟩ := ih₃
    obtain ⟨taken₂, rfl, hproducts⟩ := ih₂
    obtain ⟨taken₁, rfl, hoperand⟩ := ih₁
    refine ⟨(taken₁ ++ taken₂) ++ taken₃, by simp, ?_⟩
    exact hsums _ (.term (hproducts _ (.factor hoperand)))
  | productsEnd | sumsEnd => exact ⟨[], rfl, fun front hfront => by rwa [List.append_nil]⟩
  | @productsStep token tokens tokens₁ rest lhs rhs node hop hrhs hrest ih₁ ih₂ =>
    obtain ⟨taken₂, rfl, hproducts⟩ := ih₂
    obtain ⟨taken₁, rfl, hoperand⟩ := ih₁
    refine ⟨token :: (taken₁ ++ taken₂), by simp, fun front hfront => ?_⟩
    have hlonger := hproducts _ (.multiply hfront hop hoperand)
    rwa [List.append_assoc] at hlonger
  | @sumsStep token tokens tokens₁ tokens₂ rest lhs first rhs op node hop hloose hfirst hrhs hrest
      ih₁ ih₂ ih₃ =>
    obtain ⟨taken₃, rfl, hsums⟩ := ih₃
    obtain ⟨taken₂, rfl, hproducts⟩ := ih₂
    obtain ⟨taken₁, rfl, hoperand⟩ := ih₁
    refine ⟨token :: ((taken₁ ++ taken₂) ++ taken₃), by simp, fun front hfront => ?_⟩
    have hlonger := hsums _ (.add hfront hop hloose (hproducts _ (.factor hoperand)))
    rwa [List.append_assoc] at hlonger
  | @lastArgument name callee before tokens arg closer rest harg hclose ih =>
    obtain ⟨taken, rfl, hspells⟩ := ih
    exact ⟨taken ++ [closer], by simp, arg, [], taken, closer, rfl, hclose,
      .lastArgument hspells, rfl⟩
  | @argument name callee before tokens arg comma tokens₁ rest node harg hcomma hrest ih₁ ih₂ =>
    obtain ⟨taken₂, rfl, next, args, inner, closer, rfl, hcloser, hspells₂, rfl⟩ := ih₂
    obtain ⟨taken₁, rfl, hspells₁⟩ := ih₁
    exact ⟨taken₁ ++ comma :: (inner ++ [closer]), by simp, arg, next :: args,
      taken₁ ++ comma :: inner, closer, by simp, hcloser, .argument hspells₁ hcomma hspells₂,
      by simp⟩

/-- What is read as a construct is spelled by the tokens it takes. -/
theorem ReadsTop.spelled (h : ReadsTop last tokens node rest) :
    ∃ taken, tokens = taken ++ rest ∧ SpellsTop node taken := by
  cases h with
  | @definition keyword _ _ _ proto body hkind hproto hbody =>
    obtain ⟨behind, rfl, hspells⟩ := hbody.spelled
    obtain ⟨front, rfl, hfront⟩ := hproto.congr_rest []
    rw [List.append_nil] at hfront
    exact ⟨keyword :: (front ++ behind), by simp, .definition hkind hfront hspells⟩
  | @declaration keyword _ _ proto hkind hproto =>
    obtain ⟨taken, rfl, htaken⟩ := hproto.congr_rest []
    rw [List.append_nil] at htaken
    exact ⟨keyword :: taken, rfl, .declaration hkind htaken⟩
  | expression hread =>
    obtain ⟨taken, rfl, hspells⟩ := hread.spelled
    exact ⟨taken, rfl, .expression hspells⟩

/-- The nodes of a run are spelled by some of the segments that its calls take. -/
theorem Covers.spelled {calls : List Call} {segments : List (List Token)} {left : List Token}
    (h : Covers last left calls segments) :
    ∃ pieces, pieces.Sublist segments ∧
      List.Forall₂ SpellsTop (calls.filterMap Call.node?) pieces := by
  induction h with
  | nil => exact ⟨[], .slnil, .nil⟩
  | @cons call calls segment segments hne hbefore hafter htakes hrest ih =>
    obtain ⟨pieces, hpieces, hspelled⟩ := ih
    generalize segments.flatten ++ left = behind at htakes
    cases htakes with
    | construct hread hkept =>
      obtain ⟨taken, htaken, hspells⟩ := hread.spelled
      obtain rfl := List.append_cancel_right htaken
      exact ⟨segment :: pieces, hpieces.cons_cons _, .cons hspells hspelled⟩
    | recovery hfail hreport => exact ⟨pieces, hpieces.cons _, hspelled⟩
    | recoveryAtEnd hfail hreport => exact ⟨pieces, hpieces.cons _, hspelled⟩

/-- Each of some nodes that pieces spell is spelled by one of them. -/
theorem exists_mem_of_forall₂ {nodes : List Node} {pieces : List (List Token)}
    (h : List.Forall₂ SpellsTop nodes pieces) (hnode : node ∈ nodes) :
    ∃ piece ∈ pieces, SpellsTop node piece := by
  induction h with
  | nil => cases hnode
  | @cons first piece nodes pieces hfirst hrest ih =>
    rcases List.mem_cons.mp hnode with rfl | hmem
    · exact ⟨piece, List.mem_cons_self .., hfirst⟩
    · obtain ⟨other, hother, hspells⟩ := ih hmem
      exact ⟨other, List.mem_cons_of_mem _ hother, hspells⟩

/-- The nodes that reading a source gives are spelled by some of its tokens, one behind
another. -/
theorem parse_spelled {source : String} {file : Option String} {nodes : List Node}
    (h : (parse source file).outcome = .ok nodes) :
    ∃ tokens final pieces, (Lexer.ofSource source file).stream = ⟨tokens, .ok final⟩ ∧
      List.Forall₂ SpellsTop nodes pieces ∧ pieces.flatten.Sublist tokens ∧
      ∀ piece ∈ pieces, piece <:+: tokens := by
  obtain ⟨calls, outcome, hrun, hnodes⟩ := parse_run source file
  obtain ⟨segments, left, htokens, hcovers, -, -, -⟩ := hrun.covers rfl
  obtain ⟨-, rfl⟩ := hrun.ahead_final rfl
  obtain ⟨pieces, hpieces, hspelled⟩ := hcovers.spelled
  have hlast : (Lexer.ofSource source file).stream.last.map
      (fun _ => calls.filterMap Call.node?) = .ok nodes := by
    rw [← h, hnodes]
    show _ = Except.map _ (Except.map _ (Lexer.ofSource source file).stream.last)
    cases (Lexer.ofSource source file).stream.last <;> rfl
  cases hfinal : (Lexer.ofSource source file).stream.last with
  | error error =>
    rw [hfinal] at hlast
    cases hlast
  | ok final =>
    rw [hfinal] at hlast
    obtain rfl := Except.ok.inj hlast
    refine ⟨segments.flatten ++ left, final, pieces, ?_, hspelled, ?_, fun piece hpiece => ?_⟩
    · rw [← htokens, ← hfinal]
      rfl
    · exact hpieces.flatten.trans (List.sublist_append_left _ _)
    · exact (List.infix_of_mem_flatten (hpieces.subset hpiece)).trans
        (List.prefix_append _ _).isInfix

end Reading

section Spelling

/-- How what is spelled is read, in front of a token that does not go on with it. A
product is read as its first operand and the multiplications behind it, whatever these
make of the tokens behind the product, and a sum accordingly. -/
def Form.Readable (last : Except LexicalError Token) (form : Form) (taken : List Token) : Prop :=
  match form with
  | operand node => ∀ rest follower, Stream.head ⟨rest, last⟩ = .ok follower →
      follower.kind ≠ mark '(' → Reads last .primary (taken ++ rest) node rest
  | product node => ∀ rest follower final left, Stream.head ⟨rest, last⟩ = .ok follower →
      follower.kind ≠ mark '(' → Reads last (.products node) rest final left →
      ∃ first middle, Reads last .primary (taken ++ rest) first middle ∧
        Reads last (.products first) middle final left
  | sum node => ∀ rest follower final left, Stream.head ⟨rest, last⟩ = .ok follower →
      follower.kind ≠ mark '(' → follower.kind.operator? ≠ some .multiply →
      Reads last (.sums node) rest final left → Reads last .expression (taken ++ rest) final left
  | arguments [] => taken = []
  | arguments (next :: args) => ∀ rest closer name callee before, closer.kind = mark ')' →
      Reads last (.arguments name callee before) (taken ++ closer :: rest)
        (.call name (before ++ next :: args) (callee.span.through closer.span)) rest

/-- A sum is read in front of a token that is neither an operator nor an opening
parenthesis. -/
theorem Form.Readable.expression {follower : Token} (h : (Form.sum node).Readable last taken)
    (hhead : Stream.head ⟨rest, last⟩ = .ok follower) (hopen : follower.kind ≠ mark '(')
    (hop : follower.kind.operator? = none) :
    Reads last .expression (taken ++ rest) node rest :=
  h rest follower node rest hhead hopen (by simp [hop]) (.sumsEnd hhead (by simp [hop]))

/-- An operator is no opening parenthesis. -/
theorem Token.Kind.ne_mark_of_operator? {kind : Token.Kind} {op : Operator}
    (h : kind.operator? = some op) : kind ≠ mark '(' := by
  intro hopen
  rw [operator?_of_mark hopen (by decide)] at h
  cases h

/-- What is spelled is read. -/
theorem Spells.readable {form : Form} (h : Spells form taken) : form.Readable last taken := by
  have hmark : ∀ {token : Token} {c : Char}, token.kind = mark c → c ∉ ['(', '+', '-', '*'] →
      token.kind ≠ mark '(' ∧ token.kind.operator? = none := by
    intro token c hkind hc
    obtain ⟨hopen, hop⟩ := not_or.mp fun h => hc (List.mem_cons.mpr h)
    refine ⟨fun heq => hopen (Token.Kind.mark_inj.mp (hkind.symm.trans heq)), ?_⟩
    exact Token.Kind.operator?_of_mark hkind hop
  induction h with
  | number hkind hvalue => exact fun rest follower _ _ => .number hkind hvalue
  | name hkind => exact fun rest follower hhead hopen => .name hkind hhead hopen
  | @call token opener closer inner name args hkind hopen hargs hclose ih =>
    intro rest follower _ _
    rw [List.cons_append, List.cons_append, List.append_assoc, List.singleton_append]
    cases args with
    | nil =>
      obtain rfl : inner = [] := ih
      exact .emptyCall hkind hopen hclose
    | cons next args =>
      have hread := ih rest closer name token [] hclose
      refine .call hkind hopen (fun first hfirst hkind => ?_) hread
      obtain ⟨start, tail, htokens, hstart⟩ := hread.starts_arguments
      rw [htokens] at hfirst
      obtain rfl := Except.ok.inj hfirst
      rw [hkind, Token.Kind.startsOperand_mark] at hstart
      exact absurd hstart (by decide)
  | grouping hopen hinner hclose ih =>
    intro rest follower _ _
    rw [List.cons_append, List.append_assoc, List.singleton_append]
    obtain ⟨hcloses, hop⟩ := hmark hclose (by decide)
    exact .grouping hopen (ih.expression rfl hcloses hop) hclose
  | factor h ih =>
    exact fun rest follower final left hhead hopen hrest => ⟨_, rest, ih rest _ hhead hopen, hrest⟩
  | multiply hlhs hop hrhs ih₁ ih₂ =>
    intro rest follower final left hhead hopen hrest
    rw [List.append_assoc, List.cons_append]
    exact ih₁ _ _ final left rfl (Token.Kind.ne_mark_of_operator? hop)
      (.productsStep hop (ih₂ rest follower hhead hopen) hrest)
  | term h ih =>
    intro rest follower final left hhead hopen hop hrest
    obtain ⟨first, middle, hfirst, hproduct⟩ :=
      ih rest follower _ rest hhead hopen (.productsEnd hhead hop)
    exact .expression hfirst hproduct hrest
  | @add lhs rhs token left right op hlhs hop hloose hrhs ih₁ ih₂ =>
    intro rest follower final behind hhead hopen hmultiply hrest
    obtain ⟨first, middle, hfirst, hproduct⟩ :=
      ih₂ rest follower _ rest hhead hopen (.productsEnd hhead hmultiply)
    rw [List.append_assoc, List.cons_append]
    exact ih₁ _ _ final behind rfl (Token.Kind.ne_mark_of_operator? hop) (by simp [hop, hloose])
      (.sumsStep hop hloose hfirst hproduct hrest)
  | noArguments => rfl
  | lastArgument h ih =>
    intro rest closer name callee before hclose
    obtain ⟨hcloses, hop⟩ := hmark hclose (by decide)
    exact .lastArgument (ih.expression rfl hcloses hop) hclose
  | @argument arg next args taken comma behind harg hcomma hargs ih₁ ih₂ =>
    intro rest closer name callee before hclose
    obtain ⟨hcloses, hop⟩ := hmark hcomma (by decide)
    have hbehind := ih₂ rest closer name callee (before ++ [arg]) hclose
    rw [List.append_assoc] at hbehind
    rw [List.append_assoc, List.cons_append]
    exact .argument (ih₁.expression rfl hcloses hop) hcomma hbehind

/-- A construct is read in front of a token that is neither an operator nor an opening
parenthesis. -/
theorem SpellsTop.reads {follower : Token} (h : SpellsTop node taken)
    (hhead : Stream.head ⟨rest, last⟩ = .ok follower) (hopen : follower.kind ≠ mark '(')
    (hop : follower.kind.operator? = none) : ReadsTop last (taken ++ rest) node rest := by
  cases h with
  | @definition keyword front proto body behind hkind hproto hbody =>
    obtain ⟨taken, htaken, hread⟩ := hproto.congr_rest (behind ++ rest)
    rw [List.append_nil] at htaken
    subst htaken
    rw [List.cons_append, List.append_assoc]
    exact .definition hkind hread (hbody.readable.expression hhead hopen hop)
  | @declaration keyword _ proto hkind hproto =>
    obtain ⟨taken, htaken, hread⟩ := hproto.congr_rest rest
    rw [List.append_nil] at htaken
    subst htaken
    exact .declaration hkind hread
  | expression hspells => exact .expression (hspells.readable.expression hhead hopen hop)

end Spelling

section Parts

inductive Node.PartOf : Node → Node → Prop
  | refl (node : Node) : PartOf node node
  | lhs {part op lhs rhs span} (h : PartOf part lhs) : PartOf part (.binary op lhs rhs span)
  | rhs {part op lhs rhs span} (h : PartOf part rhs) : PartOf part (.binary op lhs rhs span)
  | arg {part callee arg args span} (hmem : arg ∈ args) (h : PartOf part arg) :
      PartOf part (.call callee args span)
  | body {part proto body span} (h : PartOf part body) : PartOf part (.function proto body span)

/-- What the tokens of an expression are made of that no parentheses stand around. -/
inductive Composes : Node → List Token → Prop
  | number {token digits value} (hkind : token.kind = .number digits)
      (hvalue : Binary64.ofDigits? digits = some value) :
      Composes (.number value token.span) [token]
  | name {token name} (hkind : token.kind = .identifier name) :
      Composes (.var name token.span) [token]
  | call {token opener closer inner name args} (hkind : token.kind = .identifier name)
      (hopen : opener.kind = mark '(') (hargs : Spells (.arguments args) inner)
      (hclose : closer.kind = mark ')') :
      Composes (.call name args (token.span.through closer.span))
        (token :: opener :: (inner ++ [closer]))
  | binary {lhs rhs token left right op} (hlhs : Spells (.sum lhs) left)
      (hop : token.kind.operator? = some op) (hrhs : Spells (.sum rhs) right) :
      Composes (.binary op lhs rhs (lhs.span.through rhs.span)) (left ++ token :: right)

def Form.node? : Form → Option Node
  | operand node | product node | sum node => some node
  | arguments _ => none

/-- Inside all parentheses around it an expression is composed of its parts. -/
theorem Spells.exists_composes {form : Form} (h : Spells form taken)
    (hnode : form.node? = some node) :
    ∃ bare, bare <:+: taken ∧ Composes node bare := by
  induction h with
  | @number token _ _ hkind hvalue =>
    obtain rfl := Option.some.inj hnode
    exact ⟨[token], List.infix_rfl, .number hkind hvalue⟩
  | @name token _ hkind =>
    obtain rfl := Option.some.inj hnode
    exact ⟨[token], List.infix_rfl, .name hkind⟩
  | call hkind hopen hargs hclose =>
    obtain rfl := Option.some.inj hnode
    exact ⟨_, List.infix_rfl, .call hkind hopen hargs hclose⟩
  | @grouping opener closer inner _ hopen hinner hclose ih =>
    obtain ⟨bare, hbare, hcomposes⟩ := ih hnode
    have hinside : inner <:+: opener :: (inner ++ [closer]) := ⟨[opener], [closer], by simp⟩
    exact ⟨bare, hbare.trans hinside, hcomposes⟩
  | factor h ih | term h ih => exact ih hnode
  | multiply hlhs hop hrhs =>
    obtain rfl := Option.some.inj hnode
    exact ⟨_, List.infix_rfl, .binary (.term hlhs) hop (.term (.factor hrhs))⟩
  | add hlhs hop hloose hrhs =>
    obtain rfl := Option.some.inj hnode
    exact ⟨_, List.infix_rfl, .binary hlhs hop (.term hrhs)⟩
  | noArguments | lastArgument | argument => cases hnode

/-- Each of the arguments has tokens of its own. -/
theorem Spells.exists_argument {form : Form} {args : List Node} {arg : Node}
    (h : Spells form taken) (hform : form = .arguments args) (harg : arg ∈ args) :
    ∃ piece, piece <:+: taken ∧ Spells (.sum arg) piece := by
  induction h generalizing args with
  | noArguments =>
    obtain rfl := Form.arguments.inj hform
    cases harg
  | lastArgument h =>
    obtain rfl := Form.arguments.inj hform
    obtain rfl := List.mem_singleton.mp harg
    exact ⟨_, List.infix_rfl, h⟩
  | argument hfirst hcomma hargs _ ih =>
    obtain rfl := Form.arguments.inj hform
    rcases List.mem_cons.mp harg with rfl | hmem
    · exact ⟨_, (List.prefix_append _ _).isInfix, hfirst⟩
    · obtain ⟨piece, hpiece, hspells⟩ := ih rfl hmem
      refine ⟨piece, hpiece.trans ?_, hspells⟩
      exact ((List.suffix_cons _ _).trans (List.suffix_append _ _)).isInfix
  | _ => cases hform

/-- Each part of an expression has tokens of its own. -/
theorem Node.PartOf.exists_spells {part : Node} (h : part.PartOf node)
    (hnode : Spells (.sum node) taken) :
    ∃ piece, piece <:+: taken ∧ Spells (.sum part) piece := by
  induction h generalizing taken with
  | refl => exact ⟨taken, List.infix_rfl, hnode⟩
  | lhs h ih =>
    obtain ⟨bare, hbare, hcomposes⟩ := hnode.exists_composes rfl
    cases hcomposes with
    | binary hlhs hop hrhs =>
      obtain ⟨piece, hpiece, hspells⟩ := ih hlhs
      exact ⟨piece, (hpiece.trans (List.prefix_append _ _).isInfix).trans hbare, hspells⟩
  | rhs h ih =>
    obtain ⟨bare, hbare, hcomposes⟩ := hnode.exists_composes rfl
    cases hcomposes with
    | @binary _ _ token left right _ hlhs hop hrhs =>
      obtain ⟨piece, hpiece, hspells⟩ := ih hrhs
      have hright : right <:+: left ++ token :: right :=
        ((List.suffix_cons _ _).trans (List.suffix_append _ _)).isInfix
      exact ⟨piece, (hpiece.trans hright).trans hbare, hspells⟩
  | arg hmem h ih =>
    obtain ⟨bare, hbare, hcomposes⟩ := hnode.exists_composes rfl
    cases hcomposes with
    | @call token opener closer inner _ _ hkind hopen hargs hclose =>
      obtain ⟨argument, hargument, harg⟩ := hargs.exists_argument rfl hmem
      obtain ⟨piece, hpiece, hspells⟩ := ih harg
      have hinner : inner <:+: token :: opener :: (inner ++ [closer]) :=
        ⟨[token, opener], [closer], by simp⟩
      exact ⟨piece, ((hpiece.trans hargument).trans hinner).trans hbare, hspells⟩
  | body h ih =>
    obtain ⟨bare, -, hcomposes⟩ := hnode.exists_composes rfl
    cases hcomposes

/-- Each part of a construct has tokens of its own. -/
theorem Node.PartOf.exists_spellsTop {part : Node} (h : part.PartOf node)
    (hnode : SpellsTop node taken) : ∃ piece, piece <:+: taken ∧ SpellsTop part piece := by
  cases hnode with
  | @definition keyword front proto body behind hkind hproto hbody =>
    cases h with
    | refl => exact ⟨_, List.infix_rfl, .definition hkind hproto hbody⟩
    | body h =>
      obtain ⟨piece, hpiece, hspells⟩ := h.exists_spells hbody
      have hbehind : behind <:+: keyword :: (front ++ behind) :=
        ((List.suffix_append _ _).trans (List.suffix_cons _ _)).isInfix
      exact ⟨piece, hpiece.trans hbehind, .expression hspells⟩
  | declaration hkind hproto =>
    cases h with
    | refl => exact ⟨_, List.infix_rfl, .declaration hkind hproto⟩
  | expression hspells =>
    obtain ⟨piece, hpiece, hpart⟩ := h.exists_spells hspells
    exact ⟨piece, hpiece, .expression hpart⟩

end Parts

end ExprLang
