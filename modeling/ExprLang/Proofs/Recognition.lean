import ExprLang.Proofs.Syntax

/-!
Reading against the grammar. What is read derives from the grammar with the tree
of the node that is read. Conversely, tokens that derive from the grammar are
read, with the tree they derive, in front of every token that could not go on
with them: no operator may follow, and no opening parenthesis a name.
-/
namespace ExprLang

open Lexer (Stream)
open Token.Kind (mark)

variable {last : Except LexicalError Token} {tokens rest : List Token}

theorem Derives.links_append {links links' : List (Operator × Tree)}
    {kinds kinds' : List Token.Kind} (h : Derives (.links links) kinds)
    (h' : Derives (.links links') kinds') :
    Derives (.links (links ++ links')) (kinds ++ kinds') := by
  induction links generalizing kinds with
  | nil =>
    cases h
    exact h'
  | cons link links ih =>
    cases h with
    | link op hoperand hlinks =>
      rw [List.cons_append, List.cons_append, List.append_assoc]
      exact .link op hoperand (ih hlinks)

/-- What the tokens that a task takes derive from. Multiplications and sums
lengthen the chain of their left operand. -/
def Task.Derived (task : Task) (node : Node) (kinds : List Token.Kind) : Prop :=
  match task with
  | primary => Derives (.primary node.tree) kinds
  | expression => Derives (.expression node.tree) kinds
  | products lhs => ∃ links, Derives (.links links) kinds ∧
      (∀ link ∈ links, link.1 = .multiply) ∧ ∀ first before, Groups first before lhs.tree →
        (∀ link ∈ before, link.1 = .multiply) → Groups first (before ++ links) node.tree
  | sums lhs => ∃ links, Derives (.links links) kinds ∧ ∀ first before,
      Groups first before lhs.tree → Groups first (before ++ links) node.tree
  | arguments name _ before => ∃ next args inner, kinds = inner ++ [mark ')'] ∧
      Derives (.arguments (next :: args)) inner ∧
      node.tree = .call name (before.map Node.tree ++ next :: args)

/-- What is read derives from the grammar, with the tree of the node. -/
theorem Reads.derived {task : Task} {node : Node} (h : Reads last task tokens node rest) :
    ∃ taken, tokens = taken ++ rest ∧ task.Derived node (taken.map Token.kind) := by
  induction h with
  | @number token rest digits value hkind hvalue =>
    refine ⟨[token], rfl, ?_⟩
    simp only [List.map_cons, List.map_nil, hkind]
    exact .number hvalue
  | @name token rest name follower hkind hhead hopen =>
    refine ⟨[token], rfl, ?_⟩
    simp only [List.map_cons, List.map_nil, hkind]
    exact .name name
  | @emptyCall token opener closer rest name hkind hopen hclose =>
    refine ⟨[token, opener, closer], rfl, ?_⟩
    simp only [List.map_cons, List.map_nil, hkind, hopen, hclose]
    exact .call name .noArguments
  | @call token opener tokens rest name node hkind hopen hclose hargs ih =>
    obtain ⟨taken, rfl, next, args, inner, hinner, hderives, htree⟩ := ih
    refine ⟨token :: opener :: taken, rfl, ?_⟩
    simp only [Task.Derived, List.map_cons, hkind, hopen, hinner, htree]
    exact .call name hderives
  | @grouping opener tokens closer rest node hopen hinner hclose ih =>
    obtain ⟨taken, rfl, hderives⟩ := ih
    refine ⟨opener :: (taken ++ [closer]), by simp, ?_⟩
    simp only [List.map_cons, List.map_append, List.map_nil, hopen, hclose]
    exact .parentheses hderives
  | expression hfirst hproduct hsum ih₁ ih₂ ih₃ =>
    obtain ⟨taken₁, rfl, hprimary⟩ := ih₁
    obtain ⟨taken₂, rfl, links₂, hlinks₂, hmultiply, hgroups₂⟩ := ih₂
    obtain ⟨taken₃, rfl, links₃, hlinks₃, hgroups₃⟩ := ih₃
    refine ⟨taken₁ ++ (taken₂ ++ taken₃), by simp, ?_⟩
    rw [List.map_append, List.map_append]
    exact .expression hprimary (hlinks₂.links_append hlinks₃)
      (hgroups₃ _ _ (hgroups₂ _ [] (.operand _) (by simp)))
  | productsEnd =>
    exact ⟨[], rfl, [], .noLinks, by simp, fun first before h _ => by simpa using h⟩
  | @productsStep token tokens tokens₁ rest lhs rhs node hop hrhs hrest ih₁ ih₂ =>
    obtain ⟨taken₁, rfl, hprimary⟩ := ih₁
    obtain ⟨taken₂, rfl, links, hlinks, hmultiply, hgroups⟩ := ih₂
    refine ⟨token :: (taken₁ ++ taken₂), by simp, (.multiply, rhs.tree) :: links, ?_, ?_, ?_⟩
    · rw [List.map_cons, List.map_append, (Token.Kind.operator?_eq_some_iff _ _).mp hop]
      exact .link _ hprimary hlinks
    · simpa using hmultiply
    · intro first before hbefore hall
      rw [← List.singleton_append, ← List.append_assoc]
      refine hgroups first _ (hbefore.multiply hall) ?_
      simpa [or_imp, forall_and] using hall
  | sumsEnd =>
    exact ⟨[], rfl, [], .noLinks, fun first before h => by simpa using h⟩
  | @sumsStep token tokens tokens₁ tokens₂ rest lhs first rhs op node hop hloose hfirst hrhs hrest
      ih₁ ih₂ ih₃ =>
    obtain ⟨taken₁, rfl, hprimary⟩ := ih₁
    obtain ⟨taken₂, rfl, links₂, hlinks₂, hmultiply, hgroups₂⟩ := ih₂
    obtain ⟨taken₃, rfl, links₃, hlinks₃, hgroups₃⟩ := ih₃
    refine ⟨token :: (taken₁ ++ (taken₂ ++ taken₃)), by simp,
      (op, first.tree) :: (links₂ ++ links₃), ?_, ?_⟩
    · rw [List.map_cons, List.map_append, List.map_append,
        (Token.Kind.operator?_eq_some_iff _ _).mp hop]
      exact .link _ hprimary (hlinks₂.links_append hlinks₃)
    · intro start before hbefore
      rw [← List.cons_append, ← List.append_assoc]
      exact hgroups₃ start _ (hbefore.add hloose (hgroups₂ _ [] (.operand _) (by simp)) hmultiply)
  | @lastArgument name callee before tokens arg closer rest harg hclose ih =>
    obtain ⟨taken, rfl, hderives⟩ := ih
    refine ⟨taken ++ [closer], by simp, arg.tree, [], _, ?_, .lastArgument hderives, ?_⟩
    · simp [hclose]
    · simp [Node.tree, Node.trees_eq_map]
  | @argument name callee before tokens arg comma tokens₁ rest node harg hcomma hrest ih₁ ih₂ =>
    obtain ⟨taken₁, rfl, hderives₁⟩ := ih₁
    obtain ⟨taken₂, rfl, next, args, inner, hinner, hderives₂, htree⟩ := ih₂
    refine ⟨taken₁ ++ comma :: taken₂, by simp, arg.tree, next :: args, _, ?_,
      .argument hderives₁ hderives₂, ?_⟩
    · simp [hinner, hcomma]
    · simp [htree]

/-- A token can stand behind tokens of these kinds without going on with them: an
opening parenthesis does not stand behind a name. -/
def Apart (kinds : List Token.Kind) (follower : Token.Kind) : Prop :=
  follower = mark '(' → ∀ name, kinds.getLast? ≠ some (.identifier name)

theorem Apart.of_ne {kinds : List Token.Kind} {follower : Token.Kind}
    (h : follower ≠ mark '(') : Apart kinds follower :=
  fun heq => absurd heq h

theorem Apart.right {kinds kinds' : List Token.Kind} {follower : Token.Kind}
    (h : Apart (kinds ++ kinds') follower) : Apart kinds' follower := by
  intro hopen name hname
  exact h hopen name (by simp [List.getLast?_append, hname])

/-- A phrase that begins with an operand begins with the first token of one. -/
theorem Derives.begins {phrase : Phrase} {kinds : List Token.Kind} (h : Derives phrase kinds) :
    match phrase with
    | .primary _ | .expression _ | .arguments (_ :: _) =>
      ∃ kind tail, kinds = kind :: tail ∧ kind.StartsOperand
    | .links _ => kinds = [] ∨ ∃ op : Operator, ∃ tail, kinds = mark op.symbol :: tail
    | _ => True := by
  induction h with
  | name name => exact ⟨_, _, rfl, Or.inl ⟨name, rfl⟩⟩
  | call name => exact ⟨_, _, rfl, Or.inl ⟨name, rfl⟩⟩
  | number => exact ⟨_, _, rfl, Or.inr (Or.inl ⟨_, rfl⟩)⟩
  | parentheses => exact ⟨_, _, rfl, Or.inr (Or.inr rfl)⟩
  | noLinks => exact Or.inl rfl
  | link op => exact Or.inr ⟨op, _, rfl⟩
  | expression hfirst hlinks hgroups ih =>
    obtain ⟨kind, tail, rfl, hstart⟩ := ih
    exact ⟨kind, _, rfl, hstart⟩
  | lastArgument harg ih => exact ih
  | argument harg hargs ih =>
    obtain ⟨kind, tail, rfl, hstart⟩ := ih
    exact ⟨kind, _, rfl, hstart⟩
  | _ => trivial

/-- How tokens that derive from the grammar are read. Multiplications take the
links up to the first addition or subtraction, and sums take the others. -/
def Phrase.Readable (last : Except LexicalError Token) (phrase : Phrase)
    (kinds : List Token.Kind) : Prop :=
  match phrase with
  | .primary tree => ∀ taken rest follower, taken.map Token.kind = kinds →
      Stream.head ⟨rest, last⟩ = .ok follower → Apart kinds follower.kind →
      ∃ node, Reads last .primary (taken ++ rest) node rest ∧ node.tree = tree
  | .expression tree => ∀ taken rest follower, taken.map Token.kind = kinds →
      Stream.head ⟨rest, last⟩ = .ok follower → follower.kind.operator? = none →
      Apart kinds follower.kind →
      ∃ node, Reads last .expression (taken ++ rest) node rest ∧ node.tree = tree
  | .links chain => ∀ taken rest follower lhs, taken.map Token.kind = kinds →
      Stream.head ⟨rest, last⟩ = .ok follower → follower.kind.operator? = none →
      Apart kinds follower.kind → ∃ product middle near far, chain = near ++ far ∧
        Reads last (.products lhs) (taken ++ rest) product middle ∧
        (∀ link ∈ near, link.1 = .multiply) ∧
        (∀ first before, Groups first before lhs.tree → (∀ link ∈ before, link.1 = .multiply) →
          Groups first (before ++ near) product.tree) ∧
        ∀ sum, ∃ node, Reads last (.sums sum) middle node rest ∧ ∀ first before,
          Groups first before sum.tree → Groups first (before ++ far) node.tree
  | .arguments [] => kinds = []
  | .arguments (next :: args) => ∀ taken rest closer name callee before,
      taken.map Token.kind = kinds → closer.kind = mark ')' →
      ∃ node, Reads last (.arguments name callee before) (taken ++ closer :: rest) node rest ∧
        node.tree = .call name (before.map Node.tree ++ next :: args)
  | .prototype _ _ | .top _ => True

/-- Behind an operand stands what follows the chain, or its first operator. -/
theorem exists_apart_follower {kinds kinds' : List Token.Kind} {taken rest : List Token}
    {follower : Token} (htaken : taken.map Token.kind = kinds')
    (hbegins : kinds' = [] ∨ ∃ op : Operator, ∃ tail, kinds' = mark op.symbol :: tail)
    (hhead : Stream.head ⟨rest, last⟩ = .ok follower)
    (hapart : Apart (kinds ++ kinds') follower.kind) :
    ∃ next, Stream.head ⟨taken ++ rest, last⟩ = .ok next ∧ Apart kinds next.kind := by
  rcases hbegins with rfl | ⟨op, tail, rfl⟩
  · obtain rfl := List.map_eq_nil_iff.mp htaken
    exact ⟨follower, hhead, by simpa using hapart⟩
  · obtain ⟨token, taken, rfl, htoken, -⟩ := List.map_eq_cons_iff.mp htaken
    refine ⟨token, rfl, Apart.of_ne ?_⟩
    rw [htoken, Ne, Token.Kind.mark_inj]
    cases op <;> decide

/-- A link is read as the next multiplication, or ends the multiplications and is
the first of the additions and subtractions. -/
theorem Phrase.Readable.link {tree : Tree} {chain : List (Operator × Tree)}
    {kinds kinds' : List Token.Kind} (op : Operator)
    (hbegins : kinds' = [] ∨ ∃ op : Operator, ∃ tail, kinds' = mark op.symbol :: tail)
    (hoperand : Phrase.Readable last (.primary tree) kinds)
    (hchain : Phrase.Readable last (.links chain) kinds') :
    Phrase.Readable last (.links ((op, tree) :: chain)) (mark op.symbol :: (kinds ++ kinds')) := by
  intro taken rest follower lhs htaken hhead hnone hapart
  obtain ⟨token, taken', rfl, htoken, htaken'⟩ := List.map_eq_cons_iff.mp htaken
  obtain ⟨taken₁, taken₂, rfl, htaken₁, htaken₂⟩ := List.map_eq_append_iff.mp htaken'
  have hop := (Token.Kind.operator?_eq_some_iff _ _).mpr htoken
  have hapart' : Apart (kinds ++ kinds') follower.kind :=
    Apart.right (show Apart ([mark op.symbol] ++ (kinds ++ kinds')) follower.kind from hapart)
  obtain ⟨next, hnext, hnextApart⟩ := exists_apart_follower htaken₂ hbegins hhead hapart'
  obtain ⟨rhs, hrhs, rfl⟩ := hoperand taken₁ (taken₂ ++ rest) next htaken₁ hnext hnextApart
  simp only [List.cons_append, List.append_assoc]
  by_cases hmultiply : op = .multiply
  · subst hmultiply
    obtain ⟨product, middle, near, far, rfl, hproduct, hnear, hgroups, hsums⟩ :=
      hchain taken₂ rest follower (.binary .multiply lhs rhs (lhs.span.through rhs.span)) htaken₂
        hhead hnone hapart'.right
    refine ⟨product, middle, (.multiply, rhs.tree) :: near, far, rfl,
      .productsStep hop hrhs hproduct, by simpa using hnear, ?_, hsums⟩
    intro first before hbefore hall
    rw [← List.singleton_append, ← List.append_assoc]
    refine hgroups first _ (hbefore.multiply hall) ?_
    simpa [or_imp, forall_and] using hall
  · refine ⟨lhs, _, [], (op, rhs.tree) :: chain, rfl, .productsEnd rfl (by simp [hop, hmultiply]),
      by simp, fun first before h _ => by simpa using h, fun sum => ?_⟩
    obtain ⟨product, middle, near, far, rfl, hproduct, hnear, hgroups, hsums⟩ :=
      hchain taken₂ rest follower rhs htaken₂ hhead hnone hapart'.right
    obtain ⟨node, hsum, hgroups'⟩ := hsums (.binary op sum product (sum.span.through product.span))
    refine ⟨node, .sumsStep hop hmultiply hrhs hproduct hsum, fun first before hbefore => ?_⟩
    rw [← List.cons_append, ← List.append_assoc]
    exact hgroups' first _
      (hbefore.add hmultiply (hgroups _ [] (.operand _) (by simp)) hnear)

/-- An expression is read up to a closing parenthesis or a comma. -/
theorem Phrase.Readable.of_mark {tree : Tree} {kinds : List Token.Kind} {taken rest : List Token}
    {closer : Token} {c : Char} (h : (Phrase.expression tree).Readable last kinds)
    (htaken : taken.map Token.kind = kinds) (hclose : closer.kind = mark c)
    (hc : c ∉ ['(', '+', '-', '*']) :
    ∃ node, Reads last .expression (taken ++ closer :: rest) node (closer :: rest) ∧
      node.tree = tree := by
  obtain ⟨hopen, hop⟩ := not_or.mp fun h => hc (List.mem_cons.mpr h)
  refine h taken (closer :: rest) closer htaken rfl (Token.Kind.operator?_of_mark hclose hop) ?_
  apply Apart.of_ne
  rw [hclose]
  exact fun heq => hopen (Token.Kind.mark_inj.mp heq)

/-- What derives from the grammar is read. -/
theorem Derives.readable {phrase : Phrase} {kinds : List Token.Kind} (h : Derives phrase kinds) :
    phrase.Readable last kinds := by
  induction h with
  | name name =>
    intro taken rest follower htaken hhead hapart
    obtain ⟨token, taken', rfl, htoken, htaken'⟩ := List.map_eq_cons_iff.mp htaken
    obtain rfl := List.map_eq_nil_iff.mp htaken'
    exact ⟨_, .name htoken hhead fun hopen => hapart hopen name rfl, rfl⟩
  | @call args kinds name hargs ih =>
    intro taken rest follower htaken _ _
    obtain ⟨token, taken', rfl, htoken, htaken'⟩ := List.map_eq_cons_iff.mp htaken
    obtain ⟨opener, taken₂, rfl, hopen, htaken₂⟩ := List.map_eq_cons_iff.mp htaken'
    obtain ⟨inner, closers, rfl, hinner, hclosers⟩ := List.map_eq_append_iff.mp htaken₂
    obtain ⟨closer, others, rfl, hclose, hothers⟩ := List.map_eq_cons_iff.mp hclosers
    obtain rfl := List.map_eq_nil_iff.mp hothers
    cases args with
    | nil =>
      obtain rfl : kinds = [] := ih
      obtain rfl := List.map_eq_nil_iff.mp hinner
      exact ⟨_, .emptyCall htoken hopen hclose, rfl⟩
    | cons next args =>
      obtain ⟨kind, tail, rfl, hstart⟩ := hargs.begins
      obtain ⟨first, inner', rfl, hfirst, -⟩ := List.map_eq_cons_iff.mp hinner
      obtain ⟨node, hread, htree⟩ := ih (first :: inner') rest closer name token [] hinner hclose
      refine ⟨node, ?_, htree⟩
      simp only [List.cons_append, List.append_assoc, List.nil_append] at hread ⊢
      refine .call htoken hopen (fun follower hfollower hkind => ?_) hread
      obtain rfl := Except.ok.inj hfollower
      rw [← hfirst, hkind] at hstart
      exact absurd (Token.Kind.startsOperand_mark.mp hstart) (by decide)
  | number hvalue =>
    intro taken rest follower htaken _ _
    obtain ⟨token, taken', rfl, htoken, htaken'⟩ := List.map_eq_cons_iff.mp htaken
    obtain rfl := List.map_eq_nil_iff.mp htaken'
    exact ⟨_, .number htoken hvalue, rfl⟩
  | parentheses hinner ih =>
    intro taken rest follower htaken _ _
    obtain ⟨opener, taken', rfl, hopen, htaken'⟩ := List.map_eq_cons_iff.mp htaken
    obtain ⟨inner, closers, rfl, hinner, hclosers⟩ := List.map_eq_append_iff.mp htaken'
    obtain ⟨closer, others, rfl, hclose, hothers⟩ := List.map_eq_cons_iff.mp hclosers
    obtain rfl := List.map_eq_nil_iff.mp hothers
    obtain ⟨node, hread, htree⟩ := ih.of_mark hinner hclose (by simp)
    refine ⟨node, ?_, htree⟩
    simp only [List.cons_append, List.append_assoc, List.nil_append]
    exact .grouping hopen hread hclose
  | noLinks =>
    intro taken rest follower lhs htaken hhead hnone _
    obtain rfl := List.map_eq_nil_iff.mp htaken
    exact ⟨lhs, rest, [], [], rfl, .productsEnd hhead (by simp [hnone]), by simp,
      fun first before h _ => by simpa using h,
      fun sum => ⟨sum, .sumsEnd hhead (by simp [hnone]), fun first before h => by simpa using h⟩⟩
  | link op hoperand hlinks ih₁ ih₂ => exact .link op hlinks.begins ih₁ ih₂
  | expression hfirst hlinks hgroups ih₁ ih₂ =>
    intro taken rest follower htaken hhead hnone hapart
    obtain ⟨taken₁, taken₂, rfl, htaken₁, htaken₂⟩ := List.map_eq_append_iff.mp htaken
    obtain ⟨next, hnext, hnextApart⟩ := exists_apart_follower htaken₂ hlinks.begins hhead hapart
    obtain ⟨first, hread, rfl⟩ := ih₁ taken₁ (taken₂ ++ rest) next htaken₁ hnext hnextApart
    obtain ⟨product, middle, near, far, rfl, hproduct, hnear, hgroups₁, hsums⟩ :=
      ih₂ taken₂ rest follower first htaken₂ hhead hnone hapart.right
    obtain ⟨node, hsum, hgroups₂⟩ := hsums product
    refine ⟨node, ?_, ?_⟩
    · rw [List.append_assoc]
      exact .expression hread hproduct hsum
    · exact (hgroups₂ _ _ (hgroups₁ _ [] (.operand _) (by simp))).unique hgroups
  | noArguments => rfl
  | lastArgument harg ih =>
    intro taken rest closer name callee before htaken hclose
    obtain ⟨node, hread, rfl⟩ := ih.of_mark htaken hclose (by simp)
    exact ⟨_, .lastArgument hread hclose, by simp [Node.tree, Node.trees_eq_map]⟩
  | argument harg hargs ih₁ ih₂ =>
    intro taken rest closer name callee before htaken hclose
    obtain ⟨taken₁, taken', rfl, htaken₁, htaken'⟩ := List.map_eq_append_iff.mp htaken
    obtain ⟨comma, taken₂, rfl, hcomma, htaken₂⟩ := List.map_eq_cons_iff.mp htaken'
    obtain ⟨arg, hread, rfl⟩ := ih₁.of_mark htaken₁ hcomma (by simp)
    obtain ⟨node, hrest, htree⟩ :=
      ih₂ taken₂ rest closer name callee (before ++ [arg]) htaken₂ hclose
    refine ⟨node, ?_, by simpa using htree⟩
    simp only [List.append_assoc, List.cons_append]
    exact .argument hread hcomma hrest
  | _ => trivial

end ExprLang
