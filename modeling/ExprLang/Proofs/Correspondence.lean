import ExprLang.Proofs.WholeReading
import Mathlib.Data.List.Forall2

/-!
Two lists of tokens read side by side. Where the tokens at the same places are alike,
that is the same up to names and digits, the same is read and the same fails: nodes
of one shape whose names, numbers and spans come from corresponding tokens, and
diagnostics of one kind about corresponding tokens. Which tokens correspond is left
open, as long as they are alike.
-/
namespace ExprLang

open Lexer (Stream)
open Token.Kind (mark)

def Token.Kind.bare : Token.Kind → Token.Kind
  | identifier _ => identifier ""
  | number _ => number ""
  | kind => kind

/-- The tokens that the grammar does not tell apart. All digit runs stand for numbers. -/
inductive Token.Kind.Alike : Token.Kind → Token.Kind → Prop
  | endOfInput : Alike .endOfInput .endOfInput
  | define : Alike .define .define
  | declare : Alike .declare .declare
  | identifier (name name' : String) : Alike (.identifier name) (.identifier name')
  | number {digits digits' value value'} (hvalue : Binary64.ofDigits? digits = some value)
      (hvalue' : Binary64.ofDigits? digits' = some value') : Alike (.number digits) (.number digits')
  | symbol (text : String) : Alike (.symbol text) (.symbol text)

namespace Token.Kind.Alike

variable {kind kind' : Token.Kind}

/-- Kinds with nothing but the same texts left out are alike, if their digits stand for
numbers. -/
theorem of_bare (h : kind.bare = kind'.bare)
    (hvalue : ∀ digits, kind = .number digits → ∃ value, Binary64.ofDigits? digits = some value)
    (hvalue' : ∀ digits, kind' = .number digits →
      ∃ value, Binary64.ofDigits? digits = some value) : kind.Alike kind' := by
  cases kind with
  | endOfInput =>
    cases kind' with
    | endOfInput => exact .endOfInput
    | _ => cases h
  | define =>
    cases kind' with
    | define => exact .define
    | _ => cases h
  | declare =>
    cases kind' with
    | declare => exact .declare
    | _ => cases h
  | identifier name =>
    cases kind' with
    | identifier name' => exact .identifier name name'
    | _ => cases h
  | number digits =>
    cases kind' with
    | number digits' =>
      obtain ⟨value, hdigits⟩ := hvalue digits rfl
      obtain ⟨value', hdigits'⟩ := hvalue' digits' rfl
      exact .number hdigits hdigits'
    | _ => cases h
  | symbol text =>
    cases kind' with
    | symbol text' =>
      obtain rfl : text = text' := symbol.inj h
      exact .symbol text
    | _ => cases h

theorem eq_mark_iff (h : kind.Alike kind') (c : Char) : kind = mark c ↔ kind' = mark c := by
  cases h <;> simp [mark]

theorem operator?_eq (h : kind.Alike kind') : kind.operator? = kind'.operator? := by
  cases h <;> rfl

theorem startsOperand_iff (h : kind.Alike kind') : kind.StartsOperand ↔ kind'.StartsOperand := by
  cases h <;> simp [StartsOperand]

theorem ordinary (h : kind.Alike kind') : (kind = .endOfInput ↔ kind' = .endOfInput) ∧
    (kind = .define ↔ kind' = .define) ∧ (kind = .declare ↔ kind' = .declare) := by
  cases h <;> simp

theorem identifier_iff (h : kind.Alike kind') :
    (∃ name, kind = .identifier name) ↔ ∃ name', kind' = .identifier name' := by
  cases h <;> simp

theorem exists_number {digits : String} (h : kind.Alike kind') (hkind : kind = .number digits) :
    ∃ digits' value value', kind' = .number digits' ∧ Binary64.ofDigits? digits = some value ∧
      Binary64.ofDigits? digits' = some value' := by
  subst hkind
  cases h with
  | number hvalue hvalue' => exact ⟨_, _, _, rfl, hvalue, hvalue'⟩

end Token.Kind.Alike

section Relations

variable (R : Token → Token → Prop)

/-- Both spans go from the start of a token to the end of a token, the same ones in both. -/
def Span.Corresponds (span span' : Span) : Prop :=
  ∃ first first' last last', R first first' ∧ R last last' ∧
    span = first.span.through last.span ∧ span' = first'.span.through last'.span

def NamesCorrespond (name name' : String) : Prop :=
  ∃ token token', R token token' ∧ token.kind = .identifier name ∧ token'.kind = .identifier name'

structure Prototype.Corresponds (proto proto' : Prototype) : Prop where
  name : NamesCorrespond R proto.name proto'.name
  params : List.Forall₂ (NamesCorrespond R) proto.params proto'.params
  span : proto.span.Corresponds R proto'.span

namespace Node

mutual

inductive Corresponds : Node → Node → Prop
  | number {token token' digits digits' value value'} (htoken : R token token')
      (hkind : token.kind = .number digits) (hkind' : token'.kind = .number digits')
      (hvalue : Binary64.ofDigits? digits = some value)
      (hvalue' : Binary64.ofDigits? digits' = some value') :
      Corresponds (.number value token.span) (.number value' token'.span)
  | var {token token' name name'} (htoken : R token token')
      (hkind : token.kind = .identifier name) (hkind' : token'.kind = .identifier name') :
      Corresponds (.var name token.span) (.var name' token'.span)
  | binary {op lhs lhs' rhs rhs' span span'} (hlhs : Corresponds lhs lhs')
      (hrhs : Corresponds rhs rhs') (hspan : span.Corresponds R span') :
      Corresponds (.binary op lhs rhs span) (.binary op lhs' rhs' span')
  | call {callee callee' args args' span span'} (hcallee : NamesCorrespond R callee callee')
      (hargs : AllCorrespond args args') (hspan : span.Corresponds R span') :
      Corresponds (.call callee args span) (.call callee' args' span')
  | prototype {proto proto'} (h : proto.Corresponds R proto') :
      Corresponds (.prototype proto) (.prototype proto')
  | function {proto proto' body body' span span'} (hproto : proto.Corresponds R proto')
      (hbody : Corresponds body body') (hspan : span.Corresponds R span') :
      Corresponds (.function proto body span) (.function proto' body' span')

inductive AllCorrespond : List Node → List Node → Prop
  | nil : AllCorrespond [] []
  | cons {node node' nodes nodes'} (hnode : Corresponds node node')
      (hnodes : AllCorrespond nodes nodes') : AllCorrespond (node :: nodes) (node' :: nodes')

end

end Node

structure Diagnostic.Corresponds (diagnostic diagnostic' : Diagnostic) : Prop where
  name_eq : diagnostic.cause.name = diagnostic'.cause.name
  wanted_eq : diagnostic.cause.wanted? = diagnostic'.cause.wanted?
  place : ∃ token token', R token token' ∧ diagnostic.position = token.span.start ∧
    diagnostic'.position = token'.span.start ∧ diagnostic.cause.found = token.kind.describe ∧
    diagnostic'.cause.found = token'.kind.describe

inductive Failure.Corresponds : Failure → Failure → Prop
  | lexical (error error' : LexicalError) : Corresponds (.lexical error) (.lexical error')
  | syntactic {diagnostic diagnostic'} (h : diagnostic.Corresponds R diagnostic') :
      Corresponds (.syntactic diagnostic) (.syntactic diagnostic')

inductive Task.Corresponds : Task → Task → Prop
  | primary : Corresponds .primary .primary
  | expression : Corresponds .expression .expression
  | products {lhs lhs'} (hlhs : lhs.Corresponds R lhs') : Corresponds (.products lhs) (.products lhs')
  | sums {lhs lhs'} (hlhs : lhs.Corresponds R lhs') : Corresponds (.sums lhs) (.sums lhs')
  | arguments {name name' callee callee' before before'} (hcallee : R callee callee')
      (hkind : callee.kind = .identifier name) (hkind' : callee'.kind = .identifier name')
      (hbefore : Node.AllCorrespond R before before') :
      Corresponds (.arguments name callee before) (.arguments name' callee' before')

inductive Lexer.Stream.EndsCorrespond :
    Except LexicalError Token → Except LexicalError Token → Prop
  | ok {final final'} (h : R final final') : EndsCorrespond (.ok final) (.ok final')
  | error (error error' : LexicalError) : EndsCorrespond (.error error) (.error error')

end Relations

variable {R : Token → Token → Prop}

section Nodes

theorem Span.Corresponds.of_token {token token' : Token} (h : R token token') :
    token.span.Corresponds R token'.span :=
  ⟨token, token', token, token', h, h, rfl, rfl⟩

theorem Span.Corresponds.through {span span' other other' : Span} (h : span.Corresponds R span')
    (h' : other.Corresponds R other') :
    (span.through other).Corresponds R (span'.through other') := by
  obtain ⟨first, first', -, -, hfirst, -, rfl, rfl⟩ := h
  obtain ⟨-, -, last, last', -, hlast, rfl, rfl⟩ := h'
  exact ⟨first, first', last, last', hfirst, hlast, rfl, rfl⟩

theorem Failure.Corresponds.noExpression {token token' : Token} (h : R token token') :
    (Parser.noExpression token).Corresponds R (Parser.noExpression token') :=
  .syntactic ⟨rfl, rfl, token, token', h, rfl, rfl, rfl, rfl⟩

theorem Failure.Corresponds.unclosed {token token' : Token} (h : R token token') :
    (Parser.unclosed token).Corresponds R (Parser.unclosed token') :=
  .syntactic ⟨rfl, rfl, token, token', h, rfl, rfl, rfl, rfl⟩

theorem Failure.Corresponds.unexpected {token token' : Token} (h : R token token')
    (wanted : String) :
    (Parser.unexpected token wanted).Corresponds R (Parser.unexpected token' wanted) :=
  .syntactic ⟨rfl, rfl, token, token', h, rfl, rfl, rfl, rfl⟩

namespace Node

theorem Corresponds.span {node node' : Node} (h : node.Corresponds R node') :
    node.span.Corresponds R node'.span := by
  cases h with
  | number htoken | var htoken => exact .of_token htoken
  | binary _ _ hspan | call _ _ hspan | function _ _ hspan => exact hspan
  | prototype hproto => exact hproto.span

theorem Corresponds.through {op : Operator} {lhs lhs' rhs rhs' : Node}
    (hlhs : lhs.Corresponds R lhs') (hrhs : rhs.Corresponds R rhs') :
    (Node.binary op lhs rhs (lhs.span.through rhs.span)).Corresponds R
      (Node.binary op lhs' rhs' (lhs'.span.through rhs'.span)) :=
  .binary hlhs hrhs (hlhs.span.through hrhs.span)

theorem AllCorrespond.concat {nodes nodes' : List Node} {node node' : Node}
    (hnodes : AllCorrespond R nodes nodes') (hnode : node.Corresponds R node') :
    AllCorrespond R (nodes ++ [node]) (nodes' ++ [node']) :=
  match hnodes with
  | .nil => .cons hnode .nil
  | .cons hfirst hrest => .cons hfirst (hrest.concat hnode)

end Node

end Nodes

section Heads

variable {last last' : Except LexicalError Token} {tokens tokens' : List Token}
  (htokens : List.Forall₂ R tokens tokens') (hlast : Stream.EndsCorrespond R last last')

include htokens hlast

theorem head_of_head {token : Token} (h : Stream.head ⟨tokens, last⟩ = .ok token) :
    ∃ token', Stream.head ⟨tokens', last'⟩ = .ok token' ∧ R token token' := by
  cases htokens with
  | cons hfirst =>
    cases h
    exact ⟨_, rfl, hfirst⟩
  | nil =>
    cases hlast with
    | ok hfinal =>
      cases h
      exact ⟨_, rfl, hfinal⟩
    | error => cases h

theorem head_of_head' {token' : Token} (h : Stream.head ⟨tokens', last'⟩ = .ok token') :
    ∃ token, Stream.head ⟨tokens, last⟩ = .ok token ∧ R token token' := by
  cases htokens with
  | cons hfirst =>
    cases h
    exact ⟨_, rfl, hfirst⟩
  | nil =>
    cases hlast with
    | ok hfinal =>
      cases h
      exact ⟨_, rfl, hfinal⟩
    | error => cases h

theorem error_of_error {error : LexicalError} (h : Stream.head ⟨tokens, last⟩ = .error error) :
    ∃ error', Stream.head ⟨tokens', last'⟩ = .error error' := by
  cases htokens with
  | cons hfirst => cases h
  | nil =>
    cases hlast with
    | ok hfinal => cases h
    | error error error' => exact ⟨error', rfl⟩

end Heads

section Reading

variable {last last' : Except LexicalError Token} {tokens tokens' rest : List Token}
  (hR : ∀ token token', R token token' → token.kind.Alike token'.kind)
  (hlast : Stream.EndsCorrespond R last last')

include hR

/-- Where no next token is of a certain kind, none is that corresponds to it. -/
theorem head_ne_mark {c : Char} (hlast : Stream.EndsCorrespond R last last')
    (htokens : List.Forall₂ R tokens tokens')
    (h : ∀ follower, Stream.head ⟨tokens, last⟩ = .ok follower → follower.kind ≠ mark c) :
    ∀ follower, Stream.head ⟨tokens', last'⟩ = .ok follower → follower.kind ≠ mark c := by
  intro follower' hhead' hkind'
  obtain ⟨follower, hhead, hfollower⟩ := head_of_head' htokens hlast hhead'
  exact h follower hhead (((hR _ _ hfollower).eq_mark_iff c).mpr hkind')

theorem exists_identifier {token token' : Token} {name : String} (htoken : R token token')
    (hkind : token.kind = .identifier name) : ∃ name', token'.kind = .identifier name' :=
  (hR _ _ htoken).identifier_iff.mp ⟨name, hkind⟩

include hlast

/-- What is read off some tokens is read off the tokens that correspond to them. -/
theorem Reads.corresponds {task task' : Task} {node : Node}
    (h : Reads last task tokens node rest) (htask : task.Corresponds R task')
    (htokens : List.Forall₂ R tokens tokens') :
    ∃ node' rest', Reads last' task' tokens' node' rest' ∧ node.Corresponds R node' ∧
      List.Forall₂ R rest rest' := by
  -- The rules ask of a token only what alike kinds have in common, so the same rule applies
  -- to the other tokens. The task carries the nodes that were read before.
  induction h generalizing task' tokens' with
  | number hkind hvalue =>
    cases htask
    obtain ⟨token', rest', htoken, hrest, rfl⟩ := List.forall₂_cons_left_iff.mp htokens
    obtain ⟨digits', -, value', hkind', -, hvalue'⟩ := (hR _ _ htoken).exists_number hkind
    exact ⟨_, rest', .number hkind' hvalue', .number htoken hkind hkind' hvalue hvalue', hrest⟩
  | name hkind hhead hopen =>
    cases htask
    obtain ⟨token', rest', htoken, hrest, rfl⟩ := List.forall₂_cons_left_iff.mp htokens
    obtain ⟨name', hkind'⟩ := exists_identifier hR htoken hkind
    obtain ⟨follower', hhead', hfollower⟩ := head_of_head hrest hlast hhead
    exact ⟨_, rest', .name hkind' hhead' fun heq => hopen (((hR _ _ hfollower).eq_mark_iff _).mpr heq),
      .var htoken hkind hkind', hrest⟩
  | emptyCall hkind hopen hclose =>
    cases htask
    obtain ⟨token', opened, htoken, hopened, rfl⟩ := List.forall₂_cons_left_iff.mp htokens
    obtain ⟨opener', closed, hopener, hclosed, rfl⟩ := List.forall₂_cons_left_iff.mp hopened
    obtain ⟨closer', rest', hcloser, hrest, rfl⟩ := List.forall₂_cons_left_iff.mp hclosed
    obtain ⟨name', hkind'⟩ := exists_identifier hR htoken hkind
    exact ⟨_, rest', .emptyCall hkind' (((hR _ _ hopener).eq_mark_iff _).mp hopen)
      (((hR _ _ hcloser).eq_mark_iff _).mp hclose),
      .call ⟨_, _, htoken, hkind, hkind'⟩ .nil
        ((Span.Corresponds.of_token htoken).through (.of_token hcloser)), hrest⟩
  | call hkind hopen hclose hargs ih =>
    cases htask
    obtain ⟨token', opened, htoken, hopened, rfl⟩ := List.forall₂_cons_left_iff.mp htokens
    obtain ⟨opener', inner, hopener, hinner, rfl⟩ := List.forall₂_cons_left_iff.mp hopened
    obtain ⟨name', hkind'⟩ := exists_identifier hR htoken hkind
    obtain ⟨node', rest', hargs', hnode, hrest⟩ := ih (.arguments htoken hkind hkind' .nil) hinner
    exact ⟨node', rest', .call hkind' (((hR _ _ hopener).eq_mark_iff _).mp hopen)
      (head_ne_mark hR hlast hinner hclose) hargs', hnode, hrest⟩
  | grouping hopen hinner hclose ih =>
    cases htask
    obtain ⟨opener', opened, hopener, hopened, rfl⟩ := List.forall₂_cons_left_iff.mp htokens
    obtain ⟨node', behind, hinner', hnode, hbehind⟩ := ih .expression hopened
    obtain ⟨closer', rest', hcloser, hrest, rfl⟩ := List.forall₂_cons_left_iff.mp hbehind
    exact ⟨node', rest', .grouping (((hR _ _ hopener).eq_mark_iff _).mp hopen) hinner'
      (((hR _ _ hcloser).eq_mark_iff _).mp hclose), hnode, hrest⟩
  | expression hfirst hproduct hsum ih₁ ih₂ ih₃ =>
    cases htask
    obtain ⟨first', tokens₁', hfirst', hfirstNode, htokens₁⟩ := ih₁ .primary htokens
    obtain ⟨product', tokens₂', hproduct', hproductNode, htokens₂⟩ :=
      ih₂ (.products hfirstNode) htokens₁
    obtain ⟨node', rest', hsum', hnode, hrest⟩ := ih₃ (.sums hproductNode) htokens₂
    exact ⟨node', rest', .expression hfirst' hproduct' hsum', hnode, hrest⟩
  | productsEnd hhead hop =>
    cases htask with
    | products hlhs =>
      obtain ⟨follower', hhead', hfollower⟩ := head_of_head htokens hlast hhead
      exact ⟨_, tokens', .productsEnd hhead' (by rwa [← (hR _ _ hfollower).operator?_eq]), hlhs,
        htokens⟩
  | productsStep hop hrhs hrest ih₁ ih₂ =>
    cases htask with
    | products hlhs =>
      obtain ⟨token', behind, htoken, hbehind, rfl⟩ := List.forall₂_cons_left_iff.mp htokens
      obtain ⟨rhs', tokens₁', hrhs', hrhsNode, htokens₁⟩ := ih₁ .primary hbehind
      obtain ⟨node', rest', hrest', hnode, hleft⟩ := ih₂ (.products (hlhs.through hrhsNode)) htokens₁
      exact ⟨node', rest', .productsStep (by rwa [← (hR _ _ htoken).operator?_eq]) hrhs' hrest',
        hnode, hleft⟩
  | sumsEnd hhead hop =>
    cases htask with
    | sums hlhs =>
      obtain ⟨follower', hhead', hfollower⟩ := head_of_head htokens hlast hhead
      exact ⟨_, tokens', .sumsEnd hhead' (by rwa [← (hR _ _ hfollower).operator?_eq]), hlhs, htokens⟩
  | sumsStep hop hloose hfirst hrhs hrest ih₁ ih₂ ih₃ =>
    cases htask with
    | sums hlhs =>
      obtain ⟨token', behind, htoken, hbehind, rfl⟩ := List.forall₂_cons_left_iff.mp htokens
      obtain ⟨first', tokens₁', hfirst', hfirstNode, htokens₁⟩ := ih₁ .primary hbehind
      obtain ⟨rhs', tokens₂', hrhs', hrhsNode, htokens₂⟩ := ih₂ (.products hfirstNode) htokens₁
      obtain ⟨node', rest', hrest', hnode, hleft⟩ := ih₃ (.sums (hlhs.through hrhsNode)) htokens₂
      exact ⟨node', rest', .sumsStep (by rwa [← (hR _ _ htoken).operator?_eq]) hloose hfirst' hrhs'
        hrest', hnode, hleft⟩
  | lastArgument harg hclose ih =>
    cases htask with
    | arguments hcallee hkind hkind' hbefore =>
      obtain ⟨arg', behind, harg', hargNode, hbehind⟩ := ih .expression htokens
      obtain ⟨closer', rest', hcloser, hrest, rfl⟩ := List.forall₂_cons_left_iff.mp hbehind
      exact ⟨_, rest', .lastArgument harg' (((hR _ _ hcloser).eq_mark_iff _).mp hclose),
        .call ⟨_, _, hcallee, hkind, hkind'⟩ (hbefore.concat hargNode)
          ((Span.Corresponds.of_token hcallee).through (.of_token hcloser)), hrest⟩
  | argument harg hcomma hrest ih₁ ih₂ =>
    cases htask with
    | arguments hcallee hkind hkind' hbefore =>
      obtain ⟨arg', behind, harg', hargNode, hbehind⟩ := ih₁ .expression htokens
      obtain ⟨comma', tokens₁', hcomma', htokens₁, rfl⟩ := List.forall₂_cons_left_iff.mp hbehind
      obtain ⟨node', rest', hrest', hnode, hleft⟩ :=
        ih₂ (.arguments hcallee hkind hkind' (hbefore.concat hargNode)) htokens₁
      exact ⟨node', rest', .argument harg' (((hR _ _ hcomma').eq_mark_iff _).mp hcomma) hrest',
        hnode, hleft⟩

/-- What fails at a token fails at the token that corresponds to it. -/
theorem Fails.corresponds {task task' : Task} {failure : Failure}
    (h : Fails last task tokens failure rest) (htask : task.Corresponds R task')
    (htokens : List.Forall₂ R tokens tokens') :
    ∃ failure' rest', Fails last' task' tokens' failure' rest' ∧ failure.Corresponds R failure' ∧
      List.Forall₂ R rest rest' := by
  induction h generalizing task' tokens' with
  | stuck hhead =>
    obtain ⟨error', hhead'⟩ := error_of_error htokens hlast hhead
    exact ⟨_, tokens', .stuck hhead', .lexical _ _, htokens⟩
  | noOperand hhead hkind =>
    cases htask
    obtain ⟨token', hhead', htoken⟩ := head_of_head htokens hlast hhead
    exact ⟨_, tokens', .noOperand hhead' (by rwa [← (hR _ _ htoken).startsOperand_iff]),
      .noExpression htoken, htokens⟩
  | malformed hkind hvalue =>
    obtain ⟨token', rest', htoken, hrest, rfl⟩ := List.forall₂_cons_left_iff.mp htokens
    obtain ⟨-, value, -, -, hsome, -⟩ := (hR _ _ htoken).exists_number hkind
    simp [hvalue] at hsome
  | name hkind hhead =>
    cases htask
    obtain ⟨token', rest', htoken, hrest, rfl⟩ := List.forall₂_cons_left_iff.mp htokens
    obtain ⟨name', hkind'⟩ := exists_identifier hR htoken hkind
    obtain ⟨error', hhead'⟩ := error_of_error hrest hlast hhead
    exact ⟨_, rest', .name hkind' hhead', .lexical _ _, hrest⟩
  | call hkind hopen hclose hargs ih =>
    cases htask
    obtain ⟨token', opened, htoken, hopened, rfl⟩ := List.forall₂_cons_left_iff.mp htokens
    obtain ⟨opener', inner, hopener, hinner, rfl⟩ := List.forall₂_cons_left_iff.mp hopened
    obtain ⟨name', hkind'⟩ := exists_identifier hR htoken hkind
    obtain ⟨failure', rest', hargs', hfailure, hrest⟩ :=
      ih (.arguments htoken hkind hkind' .nil) hinner
    exact ⟨failure', rest', .call hkind' (((hR _ _ hopener).eq_mark_iff _).mp hopen)
      (head_ne_mark hR hlast hinner hclose) hargs', hfailure, hrest⟩
  | inner hopen hinner ih =>
    cases htask
    obtain ⟨opener', opened, hopener, hopened, rfl⟩ := List.forall₂_cons_left_iff.mp htokens
    obtain ⟨failure', rest', hinner', hfailure, hrest⟩ := ih .expression hopened
    exact ⟨failure', rest', .inner (((hR _ _ hopener).eq_mark_iff _).mp hopen) hinner', hfailure,
      hrest⟩
  | unclosed hopen hinner hhead hclose =>
    cases htask
    obtain ⟨opener', opened, hopener, hopened, rfl⟩ := List.forall₂_cons_left_iff.mp htokens
    obtain ⟨node', rest', hinner', -, hrest⟩ := hinner.corresponds hR hlast .expression hopened
    obtain ⟨follower', hhead', hfollower⟩ := head_of_head hrest hlast hhead
    exact ⟨_, rest', .unclosed (((hR _ _ hopener).eq_mark_iff _).mp hopen) hinner' hhead'
      (fun heq => hclose (((hR _ _ hfollower).eq_mark_iff _).mpr heq)), .unclosed hfollower, hrest⟩
  | first hfirst ih =>
    cases htask
    obtain ⟨failure', rest', hfirst', hfailure, hrest⟩ := ih .primary htokens
    exact ⟨failure', rest', .first hfirst', hfailure, hrest⟩
  | product hfirst hproduct ih =>
    cases htask
    obtain ⟨first', tokens₁', hfirst', hfirstNode, htokens₁⟩ :=
      hfirst.corresponds hR hlast .primary htokens
    obtain ⟨failure', rest', hproduct', hfailure, hrest⟩ := ih (.products hfirstNode) htokens₁
    exact ⟨failure', rest', .product hfirst' hproduct', hfailure, hrest⟩
  | sum hfirst hproduct hsum ih =>
    cases htask
    obtain ⟨first', tokens₁', hfirst', hfirstNode, htokens₁⟩ :=
      hfirst.corresponds hR hlast .primary htokens
    obtain ⟨product', tokens₂', hproduct', hproductNode, htokens₂⟩ :=
      hproduct.corresponds hR hlast (.products hfirstNode) htokens₁
    obtain ⟨failure', rest', hsum', hfailure, hrest⟩ := ih (.sums hproductNode) htokens₂
    exact ⟨failure', rest', .sum hfirst' hproduct' hsum', hfailure, hrest⟩
  | productsOperand hop hrhs ih =>
    cases htask with
    | products hlhs =>
      obtain ⟨token', behind, htoken, hbehind, rfl⟩ := List.forall₂_cons_left_iff.mp htokens
      obtain ⟨failure', rest', hrhs', hfailure, hrest⟩ := ih .primary hbehind
      exact ⟨failure', rest', .productsOperand (by rwa [← (hR _ _ htoken).operator?_eq]) hrhs',
        hfailure, hrest⟩
  | productsRest hop hrhs hrest ih =>
    cases htask with
    | products hlhs =>
      obtain ⟨token', behind, htoken, hbehind, rfl⟩ := List.forall₂_cons_left_iff.mp htokens
      obtain ⟨rhs', tokens₁', hrhs', hrhsNode, htokens₁⟩ :=
        hrhs.corresponds hR hlast .primary hbehind
      obtain ⟨failure', rest', hrest', hfailure, hleft⟩ :=
        ih (.products (hlhs.through hrhsNode)) htokens₁
      exact ⟨failure', rest', .productsRest (by rwa [← (hR _ _ htoken).operator?_eq]) hrhs' hrest',
        hfailure, hleft⟩
  | sumsOperand hop hloose hfirst ih =>
    cases htask with
    | sums hlhs =>
      obtain ⟨token', behind, htoken, hbehind, rfl⟩ := List.forall₂_cons_left_iff.mp htokens
      obtain ⟨failure', rest', hfirst', hfailure, hrest⟩ := ih .primary hbehind
      exact ⟨failure', rest', .sumsOperand (by rwa [← (hR _ _ htoken).operator?_eq]) hloose hfirst',
        hfailure, hrest⟩
  | sumsProduct hop hloose hfirst hrhs ih =>
    cases htask with
    | sums hlhs =>
      obtain ⟨token', behind, htoken, hbehind, rfl⟩ := List.forall₂_cons_left_iff.mp htokens
      obtain ⟨first', tokens₁', hfirst', hfirstNode, htokens₁⟩ :=
        hfirst.corresponds hR hlast .primary hbehind
      obtain ⟨failure', rest', hrhs', hfailure, hrest⟩ := ih (.products hfirstNode) htokens₁
      exact ⟨failure', rest', .sumsProduct (by rwa [← (hR _ _ htoken).operator?_eq]) hloose hfirst'
        hrhs', hfailure, hrest⟩
  | sumsRest hop hloose hfirst hrhs hrest ih =>
    cases htask with
    | sums hlhs =>
      obtain ⟨token', behind, htoken, hbehind, rfl⟩ := List.forall₂_cons_left_iff.mp htokens
      obtain ⟨first', tokens₁', hfirst', hfirstNode, htokens₁⟩ :=
        hfirst.corresponds hR hlast .primary hbehind
      obtain ⟨rhs', tokens₂', hrhs', hrhsNode, htokens₂⟩ :=
        hrhs.corresponds hR hlast (.products hfirstNode) htokens₁
      obtain ⟨failure', rest', hrest', hfailure, hleft⟩ :=
        ih (.sums (hlhs.through hrhsNode)) htokens₂
      exact ⟨failure', rest', .sumsRest (by rwa [← (hR _ _ htoken).operator?_eq]) hloose hfirst'
        hrhs' hrest', hfailure, hleft⟩
  | argument harg ih =>
    cases htask
    obtain ⟨failure', rest', harg', hfailure, hrest⟩ := ih .expression htokens
    exact ⟨failure', rest', .argument harg', hfailure, hrest⟩
  | separator harg hhead hclose hcomma =>
    cases htask
    obtain ⟨arg', rest', harg', -, hrest⟩ := harg.corresponds hR hlast .expression htokens
    obtain ⟨follower', hhead', hfollower⟩ := head_of_head hrest hlast hhead
    exact ⟨_, rest', .separator harg' hhead'
      (fun heq => hclose (((hR _ _ hfollower).eq_mark_iff _).mpr heq))
      (fun heq => hcomma (((hR _ _ hfollower).eq_mark_iff _).mpr heq)),
      .unexpected hfollower _, hrest⟩
  | moreArguments harg hcomma hrest ih =>
    cases htask with
    | arguments hcallee hkind hkind' hbefore =>
      obtain ⟨arg', behind, harg', hargNode, hbehind⟩ :=
        harg.corresponds hR hlast .expression htokens
      obtain ⟨comma', tokens₁', hcomma', htokens₁, rfl⟩ := List.forall₂_cons_left_iff.mp hbehind
      obtain ⟨failure', rest', hrest', hfailure, hleft⟩ :=
        ih (.arguments hcallee hkind hkind' (hbefore.concat hargNode)) htokens₁
      exact ⟨failure', rest', .moreArguments harg' (((hR _ _ hcomma').eq_mark_iff _).mp hcomma)
        hrest', hfailure, hleft⟩

end Reading

section Constructs

variable {last last' : Except LexicalError Token} {tokens tokens' rest : List Token}
  (hR : ∀ token token', R token token' → token.kind.Alike token'.kind)
  (hlast : Stream.EndsCorrespond R last last')

/-- A list of pairs can be cut where its first half can. -/
theorem exists_append_of_forall₂ {front behind : List Token}
    (h : List.Forall₂ R (front ++ behind) tokens') :
    ∃ front' behind', tokens' = front' ++ behind' ∧ List.Forall₂ R front front' ∧
      List.Forall₂ R behind behind' := by
  induction front generalizing tokens' with
  | nil => exact ⟨[], tokens', rfl, .nil, h⟩
  | cons token front ih =>
    obtain ⟨token', tail', htoken, htail, rfl⟩ := List.forall₂_cons_left_iff.mp h
    obtain ⟨front', behind', rfl, hfront, hbehind⟩ := ih htail
    exact ⟨token' :: front', behind', rfl, .cons htoken hfront, hbehind⟩

theorem forall₂_tail (h : List.Forall₂ R tokens tokens') : List.Forall₂ R tokens.tail tokens'.tail := by
  cases h with
  | nil => exact .nil
  | cons _ hrest => exact hrest

include hR

theorem exists_names {params params' : List Token} {names : List String}
    (hparams : List.Forall₂ R params params')
    (hnames : params.map Token.kind = names.map .identifier) :
    ∃ names', params'.map Token.kind = names'.map .identifier ∧
      List.Forall₂ (NamesCorrespond R) names names' := by
  induction hparams generalizing names with
  | nil =>
    obtain rfl := List.map_eq_nil_iff.mp hnames.symm
    exact ⟨[], rfl, .nil⟩
  | @cons param param' params params' hparam hrest ih =>
    obtain ⟨name, others, rfl, hname, hothers⟩ := List.map_eq_cons_iff.mp hnames.symm
    obtain ⟨name', hname'⟩ := exists_identifier hR hparam hname.symm
    obtain ⟨others', hothers', hall⟩ := ih hothers.symm
    exact ⟨name' :: others', by rw [List.map_cons, List.map_cons, hname', hothers'],
      .cons ⟨param, param', hparam, hname.symm, hname'⟩ hall⟩

theorem ReadsPrototype.corresponds {proto : Prototype} (h : ReadsPrototype tokens proto rest)
    (htokens : List.Forall₂ R tokens tokens') :
    ∃ proto' rest', ReadsPrototype tokens' proto' rest' ∧ proto.Corresponds R proto' ∧
      List.Forall₂ R rest rest' := by
  cases h with
  | intro hkind hopen hparams hclose =>
    obtain ⟨token', opened, htoken, hopened, rfl⟩ := List.forall₂_cons_left_iff.mp htokens
    obtain ⟨opener', inner, hopener, hinner, rfl⟩ := List.forall₂_cons_left_iff.mp hopened
    obtain ⟨params', closed, rfl, hparamTokens, hclosed⟩ := exists_append_of_forall₂ hinner
    obtain ⟨closer', rest', hcloser, hrest, rfl⟩ := List.forall₂_cons_left_iff.mp hclosed
    obtain ⟨name', hkind'⟩ := exists_identifier hR htoken hkind
    obtain ⟨names', hparams', hnames⟩ := exists_names hR hparamTokens hparams
    exact ⟨_, rest', .intro hkind' (((hR _ _ hopener).eq_mark_iff _).mp hopen) hparams'
      (((hR _ _ hcloser).eq_mark_iff _).mp hclose),
      ⟨⟨_, _, htoken, hkind, hkind'⟩, hnames,
        (Span.Corresponds.of_token htoken).through (.of_token hcloser)⟩, hrest⟩

include hlast

theorem head_ne_identifier (htokens : List.Forall₂ R tokens tokens')
    (h : ∀ token name, Stream.head ⟨tokens, last⟩ = .ok token → token.kind ≠ .identifier name) :
    ∀ token name, Stream.head ⟨tokens', last'⟩ = .ok token → token.kind ≠ .identifier name := by
  intro token' name' hhead' hkind'
  obtain ⟨token, hhead, htoken⟩ := head_of_head' htokens hlast hhead'
  obtain ⟨name, hkind⟩ := (hR _ _ htoken).identifier_iff.mpr ⟨name', hkind'⟩
  exact h token name hhead hkind

omit hR in
theorem Refuses.corresponds {wanted : String} {failure : Failure}
    (h : Refuses last wanted tokens failure) (htokens : List.Forall₂ R tokens tokens') :
    ∃ failure', Refuses last' wanted tokens' failure' ∧ failure.Corresponds R failure' := by
  cases h with
  | stuck hhead =>
    obtain ⟨error', hhead'⟩ := error_of_error htokens hlast hhead
    exact ⟨_, .stuck hhead', .lexical _ _⟩
  | unexpected hhead =>
    obtain ⟨token', hhead', htoken⟩ := head_of_head htokens hlast hhead
    exact ⟨_, .unexpected hhead', .unexpected htoken wanted⟩

theorem FailsPrototype.corresponds {failure : Failure}
    (h : FailsPrototype last tokens failure rest) (htokens : List.Forall₂ R tokens tokens') :
    ∃ failure' rest', FailsPrototype last' tokens' failure' rest' ∧
      failure.Corresponds R failure' ∧ List.Forall₂ R rest rest' := by
  cases h with
  | name hkind hrefuses =>
    obtain ⟨failure', hrefuses', hfailure⟩ := hrefuses.corresponds hlast htokens
    exact ⟨failure', tokens', .name (head_ne_identifier hR hlast htokens hkind) hrefuses', hfailure,
      htokens⟩
  | opener hkind hopen hrefuses =>
    obtain ⟨token', rest', htoken, hrest, rfl⟩ := List.forall₂_cons_left_iff.mp htokens
    obtain ⟨name', hkind'⟩ := exists_identifier hR htoken hkind
    obtain ⟨failure', hrefuses', hfailure⟩ := hrefuses.corresponds hlast hrest
    exact ⟨failure', rest', .opener hkind' (head_ne_mark hR hlast hrest hopen) hrefuses', hfailure,
      hrest⟩
  | closer hkind hopen hparams hparam hclose hrefuses =>
    obtain ⟨token', opened, htoken, hopened, rfl⟩ := List.forall₂_cons_left_iff.mp htokens
    obtain ⟨opener', inner, hopener, hinner, rfl⟩ := List.forall₂_cons_left_iff.mp hopened
    obtain ⟨params', rest', rfl, hparamTokens, hrest⟩ := exists_append_of_forall₂ hinner
    obtain ⟨name', hkind'⟩ := exists_identifier hR htoken hkind
    obtain ⟨names', hparams', -⟩ := exists_names hR hparamTokens hparams
    obtain ⟨failure', hrefuses', hfailure⟩ := hrefuses.corresponds hlast hrest
    exact ⟨failure', rest', .closer hkind' (((hR _ _ hopener).eq_mark_iff _).mp hopen) hparams'
      (head_ne_identifier hR hlast hrest hparam) (head_ne_mark hR hlast hrest hclose) hrefuses',
      hfailure, hrest⟩

theorem ReadsTop.corresponds {node : Node} (h : ReadsTop last tokens node rest)
    (htokens : List.Forall₂ R tokens tokens') :
    ∃ node' rest', ReadsTop last' tokens' node' rest' ∧ node.Corresponds R node' ∧
      List.Forall₂ R rest rest' := by
  cases h with
  | definition hkind hproto hbody =>
    obtain ⟨keyword', tail', hkeyword, htail, rfl⟩ := List.forall₂_cons_left_iff.mp htokens
    obtain ⟨proto', tokens₁', hproto', hprotos, htokens₁⟩ := hproto.corresponds hR htail
    obtain ⟨body', rest', hbody', hbodies, hrest⟩ :=
      hbody.corresponds hR hlast .expression htokens₁
    exact ⟨_, rest', .definition ((hR _ _ hkeyword).ordinary.2.1.mp hkind) hproto' hbody',
      .function hprotos hbodies ((Span.Corresponds.of_token hkeyword).through hbodies.span), hrest⟩
  | declaration hkind hproto =>
    obtain ⟨keyword', tail', hkeyword, htail, rfl⟩ := List.forall₂_cons_left_iff.mp htokens
    obtain ⟨proto', rest', hproto', hprotos, hrest⟩ := hproto.corresponds hR htail
    exact ⟨_, rest', .declaration ((hR _ _ hkeyword).ordinary.2.2.mp hkind) hproto',
      .prototype ⟨hprotos.name, hprotos.params,
        (Span.Corresponds.of_token hkeyword).through hprotos.span⟩, hrest⟩
  | expression hread =>
    obtain ⟨node', rest', hread', hnode, hrest⟩ := hread.corresponds hR hlast .expression htokens
    exact ⟨node', rest', .expression hread', hnode, hrest⟩

theorem FailsTop.corresponds {failure : Failure} (h : FailsTop last tokens failure rest)
    (htokens : List.Forall₂ R tokens tokens') :
    ∃ failure' rest', FailsTop last' tokens' failure' rest' ∧ failure.Corresponds R failure' ∧
      List.Forall₂ R rest rest' := by
  cases h with
  | definitionPrototype hkind hproto =>
    obtain ⟨keyword', tail', hkeyword, htail, rfl⟩ := List.forall₂_cons_left_iff.mp htokens
    obtain ⟨failure', rest', hproto', hfailure, hrest⟩ := hproto.corresponds hR hlast htail
    exact ⟨failure', rest', .definitionPrototype ((hR _ _ hkeyword).ordinary.2.1.mp hkind) hproto',
      hfailure, hrest⟩
  | definitionBody hkind hproto hbody =>
    obtain ⟨keyword', tail', hkeyword, htail, rfl⟩ := List.forall₂_cons_left_iff.mp htokens
    obtain ⟨proto', tokens₁', hproto', -, htokens₁⟩ := hproto.corresponds hR htail
    obtain ⟨failure', rest', hbody', hfailure, hrest⟩ :=
      hbody.corresponds hR hlast .expression htokens₁
    exact ⟨failure', rest', .definitionBody ((hR _ _ hkeyword).ordinary.2.1.mp hkind) hproto' hbody',
      hfailure, hrest⟩
  | declaration hkind hproto =>
    obtain ⟨keyword', tail', hkeyword, htail, rfl⟩ := List.forall₂_cons_left_iff.mp htokens
    obtain ⟨failure', rest', hproto', hfailure, hrest⟩ := hproto.corresponds hR hlast htail
    exact ⟨failure', rest', .declaration ((hR _ _ hkeyword).ordinary.2.2.mp hkind) hproto',
      hfailure, hrest⟩
  | expression hend hdefine hdeclare hfail =>
    obtain ⟨failure', rest', hfail', hfailure, hrest⟩ :=
      hfail.corresponds hR hlast .expression htokens
    obtain ⟨token', tail', htoken, -, rfl⟩ := List.forall₂_cons_left_iff.mp htokens
    obtain ⟨hend', hdefine', hdeclare'⟩ := (hR _ _ htoken).ordinary
    exact ⟨failure', rest', .expression (by rwa [ne_eq, ← hend']) (by rwa [ne_eq, ← hdefine'])
      (by rwa [ne_eq, ← hdeclare']) hfail', hfailure, hrest⟩

/-- All tokens are read as the tokens that correspond to them. -/
theorem ReadsAll.corresponds {nodes : List Node} {diagnostics : List Diagnostic}
    (h : ReadsAll last tokens nodes diagnostics) (htokens : List.Forall₂ R tokens tokens') :
    ∃ nodes' diagnostics', ReadsAll last' tokens' nodes' diagnostics' ∧
      List.Forall₂ (Node.Corresponds R) nodes nodes' ∧
      List.Forall₂ (Diagnostic.Corresponds R) diagnostics diagnostics' := by
  induction h generalizing tokens' with
  | done =>
    cases htokens
    exact ⟨[], [], .done, .nil, .nil⟩
  | construct hread hrest ih =>
    obtain ⟨node', rest', hread', hnode, hrest⟩ := hread.corresponds hR hlast htokens
    obtain ⟨nodes', diagnostics', hall', hnodes, hdiagnostics⟩ := ih hrest
    exact ⟨node' :: nodes', diagnostics', .construct hread' hall', .cons hnode hnodes, hdiagnostics⟩
  | recovery hfail hrest ih =>
    obtain ⟨failure', rest', hfail', hfailure, hrest⟩ := hfail.corresponds hR hlast htokens
    obtain ⟨nodes', diagnostics', hall', hnodes, hdiagnostics⟩ := ih (forall₂_tail hrest)
    cases hfailure with
    | syntactic hdiagnostic =>
      exact ⟨nodes', _ :: diagnostics', .recovery hfail' hall', hnodes,
        .cons hdiagnostic hdiagnostics⟩
  | stuck hfail =>
    obtain ⟨failure', rest', hfail', hfailure, -⟩ := hfail.corresponds hR hlast htokens
    cases hfailure with
    | lexical => exact ⟨[], [], .stuck hfail', .nil, .nil⟩

end Constructs

end ExprLang
