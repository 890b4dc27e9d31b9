import ExprLang.Proofs.Constructs

/-!
One token of lookahead. What is read depends on the tokens that are taken and on
the token behind them, and of that one only on whether it goes on with them. What
fails depends on the tokens up to the one that it fails at. Whatever else stands
behind these tokens can be exchanged.
-/
namespace ExprLang

open Lexer (Stream)
open Token.Kind (mark)

/-- Where one look finds a token, the other one finds a token too, which goes on with
no more than the first one does. -/
def Lexer.Stream.Closes (next other : Except LexicalError Token) : Prop :=
  ∀ follower, other = .ok follower → ∃ token, next = .ok token ∧
    (token.kind = mark '(' → follower.kind = mark '(') ∧
    ∀ op, token.kind.operator? = some op → follower.kind.operator? = some op

theorem Lexer.Stream.Closes.refl (next : Except LexicalError Token) : Closes next next :=
  fun follower hnext => ⟨follower, hnext, id, fun _ => id⟩

variable {last last' : Except LexicalError Token} {tokens taken rest rest' : List Token}

/-- Behind some tokens the look that closes one rest closes them with it. -/
theorem Lexer.Stream.Closes.append (h : Closes (head ⟨rest', last'⟩) (head ⟨rest, last⟩))
    (taken : List Token) : Closes (head ⟨taken ++ rest', last'⟩) (head ⟨taken ++ rest, last⟩) := by
  cases taken with
  | nil => exact h
  | cons token taken => exact .refl _

/-- What is read is read in front of any other rest that closes it as well. -/
theorem Reads.congr_rest {task : Task} {node : Node} (h : Reads last task tokens node rest)
    (hrest : Stream.Closes (Stream.head ⟨rest', last'⟩) (Stream.head ⟨rest, last⟩)) :
    ∃ taken, tokens = taken ++ rest ∧ Reads last' task (taken ++ rest') node rest' := by
  induction h generalizing rest' with
  | @number token rest digits value hkind hvalue => exact ⟨[token], rfl, .number hkind hvalue⟩
  | @name token rest name follower hkind hhead hopen =>
    obtain ⟨next, hnext, hother, -⟩ := hrest follower hhead
    exact ⟨[token], rfl, .name hkind hnext fun heq => hopen (hother heq)⟩
  | @emptyCall token opener closer rest name hkind hopen hclose =>
    exact ⟨[token, opener, closer], rfl, .emptyCall hkind hopen hclose⟩
  | @call token opener tokens rest name node hkind hopen hclose hargs ih =>
    obtain ⟨taken, rfl, hargs'⟩ := ih hrest
    refine ⟨token :: opener :: taken, rfl, .call hkind hopen ?_ hargs'⟩
    cases taken with
    | nil => exact absurd (hargs.length_lt trivial) (by simp)
    | cons first taken => exact hclose
  | @grouping opener tokens closer rest node hopen hinner hclose ih =>
    obtain ⟨taken, rfl, hinner'⟩ := @ih (closer :: rest') (.refl (.ok closer))
    refine ⟨opener :: (taken ++ [closer]), by simp, ?_⟩
    simpa using Reads.grouping hopen hinner' hclose
  | expression hfirst hproduct hsum ih₁ ih₂ ih₃ =>
    obtain ⟨taken₃, rfl, hsum'⟩ := ih₃ hrest
    obtain ⟨taken₂, rfl, hproduct'⟩ := ih₂ (hrest.append taken₃)
    obtain ⟨taken₁, rfl, hfirst'⟩ := ih₁ ((hrest.append taken₃).append taken₂)
    refine ⟨taken₁ ++ (taken₂ ++ taken₃), by simp, ?_⟩
    simpa using Reads.expression hfirst' hproduct' hsum'
  | productsEnd hhead hop =>
    obtain ⟨next, hnext, -, hother⟩ := hrest _ hhead
    exact ⟨[], rfl, .productsEnd hnext fun heq => hop (hother _ heq)⟩
  | @productsStep token tokens tokens₁ rest lhs rhs node hop hrhs hrest' ih₁ ih₂ =>
    obtain ⟨taken₂, rfl, hrest''⟩ := ih₂ hrest
    obtain ⟨taken₁, rfl, hrhs'⟩ := ih₁ (hrest.append taken₂)
    refine ⟨token :: (taken₁ ++ taken₂), by simp, ?_⟩
    simpa using Reads.productsStep hop hrhs' hrest''
  | sumsEnd hhead hop =>
    obtain ⟨next, hnext, -, hother⟩ := hrest _ hhead
    exact ⟨[], rfl, .sumsEnd hnext fun op heq => hop op (hother op heq)⟩
  | @sumsStep token tokens tokens₁ tokens₂ rest lhs first rhs op node hop hloose hfirst hrhs hrest'
      ih₁ ih₂ ih₃ =>
    obtain ⟨taken₃, rfl, hrest''⟩ := ih₃ hrest
    obtain ⟨taken₂, rfl, hrhs'⟩ := ih₂ (hrest.append taken₃)
    obtain ⟨taken₁, rfl, hfirst'⟩ := ih₁ ((hrest.append taken₃).append taken₂)
    refine ⟨token :: (taken₁ ++ (taken₂ ++ taken₃)), by simp, ?_⟩
    simpa using Reads.sumsStep hop hloose hfirst' hrhs' hrest''
  | @lastArgument name callee before tokens arg closer rest harg hclose ih =>
    obtain ⟨taken, rfl, harg'⟩ := @ih (closer :: rest') (.refl (.ok closer))
    refine ⟨taken ++ [closer], by simp, ?_⟩
    simpa using Reads.lastArgument harg' hclose
  | @argument name callee before tokens arg comma tokens₁ rest node harg hcomma hrest' ih₁ ih₂ =>
    obtain ⟨taken₂, rfl, hrest''⟩ := ih₂ hrest
    obtain ⟨taken₁, rfl, harg'⟩ := @ih₁ (comma :: (taken₂ ++ rest')) (.refl (.ok comma))
    refine ⟨taken₁ ++ comma :: taken₂, by simp, ?_⟩
    simpa using Reads.argument harg' hcomma hrest''

/-- What fails at a token fails whatever stands behind the token. -/
theorem Fails.congr_rest {task : Task} {failure : Failure} {culprit : Token} {tail : List Token}
    (h : Fails last task tokens failure rest) (hrest : rest = culprit :: tail)
    (tail' : List Token) :
    ∃ taken, tokens = taken ++ rest ∧
      Fails last' task (taken ++ culprit :: tail') failure (culprit :: tail') := by
  have hsame : Stream.Closes (Stream.head ⟨culprit :: tail', last'⟩)
      (Stream.head ⟨culprit :: tail, last⟩) := .refl _
  induction h with
  | stuck hhead =>
    rw [hrest] at hhead
    cases hhead
  | noOperand hhead hkind =>
    rw [hrest] at hhead
    exact ⟨[], rfl, .noOperand hhead hkind⟩
  | malformed hkind hvalue =>
    obtain ⟨rfl, -⟩ := List.cons.inj hrest
    exact ⟨[], rfl, .malformed hkind hvalue⟩
  | name hkind hhead =>
    rw [hrest] at hhead
    cases hhead
  | @call token opener tokens rest name failure hkind hopen hclose hargs ih =>
    obtain ⟨taken, rfl, hargs'⟩ := ih hrest
    refine ⟨token :: opener :: taken, rfl, .call hkind hopen ?_ hargs'⟩
    subst hrest
    cases taken with
    | nil => exact hclose
    | cons first taken => exact hclose
  | @inner opener tokens rest failure hopen hinner ih =>
    obtain ⟨taken, rfl, hinner'⟩ := ih hrest
    exact ⟨opener :: taken, rfl, .inner hopen hinner'⟩
  | @unclosed opener tokens rest node follower hopen hinner hhead hclose =>
    subst hrest
    obtain ⟨taken, rfl, hinner'⟩ := hinner.congr_rest hsame
    exact ⟨opener :: taken, rfl, .unclosed hopen hinner' hhead hclose⟩
  | first hfirst ih =>
    obtain ⟨taken, rfl, hfirst'⟩ := ih hrest
    exact ⟨taken, rfl, .first hfirst'⟩
  | product hfirst hproduct ih =>
    obtain ⟨taken₂, rfl, hproduct'⟩ := ih hrest
    subst hrest
    obtain ⟨taken₁, rfl, hfirst'⟩ := hfirst.congr_rest (hsame.append taken₂)
    exact ⟨taken₁ ++ taken₂, by simp, by simpa using Fails.product hfirst' hproduct'⟩
  | sum hfirst hproduct hsum ih =>
    obtain ⟨taken₃, rfl, hsum'⟩ := ih hrest
    subst hrest
    obtain ⟨taken₂, rfl, hproduct'⟩ := hproduct.congr_rest (hsame.append taken₃)
    obtain ⟨taken₁, rfl, hfirst'⟩ := hfirst.congr_rest ((hsame.append taken₃).append taken₂)
    exact ⟨taken₁ ++ (taken₂ ++ taken₃), by simp, by simpa using Fails.sum hfirst' hproduct' hsum'⟩
  | @productsOperand token tokens rest lhs failure hop hrhs ih =>
    obtain ⟨taken, rfl, hrhs'⟩ := ih hrest
    exact ⟨token :: taken, rfl, .productsOperand hop hrhs'⟩
  | @productsRest token tokens tokens₁ rest lhs rhs failure hop hrhs hbehind ih =>
    obtain ⟨taken₂, rfl, hbehind'⟩ := ih hrest
    subst hrest
    obtain ⟨taken₁, rfl, hrhs'⟩ := hrhs.congr_rest (hsame.append taken₂)
    exact ⟨token :: (taken₁ ++ taken₂), by simp, by
      simpa using Fails.productsRest hop hrhs' hbehind'⟩
  | @sumsOperand token tokens rest lhs op failure hop hloose hfirst ih =>
    obtain ⟨taken, rfl, hfirst'⟩ := ih hrest
    exact ⟨token :: taken, rfl, .sumsOperand hop hloose hfirst'⟩
  | @sumsProduct token tokens tokens₁ rest lhs first op failure hop hloose hfirst hrhs ih =>
    obtain ⟨taken₂, rfl, hrhs'⟩ := ih hrest
    subst hrest
    obtain ⟨taken₁, rfl, hfirst'⟩ := hfirst.congr_rest (hsame.append taken₂)
    exact ⟨token :: (taken₁ ++ taken₂), by simp, by
      simpa using Fails.sumsProduct hop hloose hfirst' hrhs'⟩
  | @sumsRest token tokens tokens₁ tokens₂ rest lhs first rhs op failure hop hloose hfirst hrhs
      hbehind ih =>
    obtain ⟨taken₃, rfl, hbehind'⟩ := ih hrest
    subst hrest
    obtain ⟨taken₂, rfl, hrhs'⟩ := hrhs.congr_rest (hsame.append taken₃)
    obtain ⟨taken₁, rfl, hfirst'⟩ := hfirst.congr_rest ((hsame.append taken₃).append taken₂)
    exact ⟨token :: (taken₁ ++ (taken₂ ++ taken₃)), by simp, by
      simpa using Fails.sumsRest hop hloose hfirst' hrhs' hbehind'⟩
  | argument harg ih =>
    obtain ⟨taken, rfl, harg'⟩ := ih hrest
    exact ⟨taken, rfl, .argument harg'⟩
  | separator harg hhead hclose hcomma =>
    subst hrest
    obtain ⟨taken, rfl, harg'⟩ := harg.congr_rest hsame
    exact ⟨taken, rfl, .separator harg' hhead hclose hcomma⟩
  | @moreArguments name callee before tokens arg comma tokens₁ rest failure harg hcomma hbehind
      ih =>
    obtain ⟨taken₂, rfl, hbehind'⟩ := ih hrest
    subst hrest
    have hcloses : Stream.Closes (Stream.head ⟨comma :: (taken₂ ++ culprit :: tail'), last'⟩)
        (Stream.head ⟨comma :: (taken₂ ++ culprit :: tail), last⟩) :=
      .refl (.ok comma)
    obtain ⟨taken₁, rfl, harg'⟩ := harg.congr_rest hcloses
    exact ⟨taken₁ ++ comma :: taken₂, by simp, by
      simpa using Fails.moreArguments harg' hcomma hbehind'⟩

/-- A prototype is read whatever stands behind it. -/
theorem ReadsPrototype.congr_rest {proto : Prototype} (h : ReadsPrototype tokens proto rest)
    (rest' : List Token) : ∃ taken, tokens = taken ++ rest ∧
      ReadsPrototype (taken ++ rest') proto rest' := by
  cases h with
  | @intro token opener closer params _ name names hkind hopen hparams hclose =>
    refine ⟨token :: opener :: (params ++ [closer]), by simp, ?_⟩
    simpa using ReadsPrototype.intro hkind hopen hparams hclose

theorem Refuses.congr_rest {wanted : String} {failure : Failure} {culprit : Token}
    {tail : List Token} (h : Refuses last wanted (culprit :: tail) failure) (tail' : List Token) :
    Refuses last' wanted (culprit :: tail') failure := by
  cases h with
  | stuck hhead => cases hhead
  | unexpected hhead => exact .unexpected hhead

theorem FailsPrototype.congr_rest {failure : Failure} {culprit : Token} {tail : List Token}
    (h : FailsPrototype last tokens failure (culprit :: tail)) (tail' : List Token) :
    ∃ taken, tokens = taken ++ culprit :: tail ∧
      FailsPrototype last' (taken ++ culprit :: tail') failure (culprit :: tail') := by
  cases h with
  | name hkind hrefuses => exact ⟨[], rfl, .name hkind (hrefuses.congr_rest tail')⟩
  | @opener token _ name _ hkind hopen hrefuses =>
    exact ⟨[token], rfl, .opener hkind hopen (hrefuses.congr_rest tail')⟩
  | @closer token opener params _ name _ names hkind hopen hparams hparam hclose hrefuses =>
    exact ⟨token :: opener :: params, rfl,
      .closer hkind hopen hparams hparam hclose (hrefuses.congr_rest tail')⟩

/-- A construct is read in front of any other rest that closes it as well. -/
theorem ReadsTop.congr_rest {node : Node} (h : ReadsTop last tokens node rest)
    (hrest : Stream.Closes (Stream.head ⟨rest', last'⟩) (Stream.head ⟨rest, last⟩)) :
    ∃ taken, tokens = taken ++ rest ∧ ReadsTop last' (taken ++ rest') node rest' := by
  cases h with
  | @definition keyword tokens tokens₁ _ proto body hkind hproto hbody =>
    obtain ⟨taken₂, rfl, hbody'⟩ := hbody.congr_rest hrest
    obtain ⟨taken₁, rfl, hproto'⟩ := hproto.congr_rest (taken₂ ++ rest')
    exact ⟨keyword :: (taken₁ ++ taken₂), by simp, by
      simpa using ReadsTop.definition hkind hproto' hbody'⟩
  | @declaration keyword tokens _ proto hkind hproto =>
    obtain ⟨taken, rfl, hproto'⟩ := hproto.congr_rest rest'
    exact ⟨keyword :: taken, rfl, .declaration hkind hproto'⟩
  | expression hread =>
    obtain ⟨taken, rfl, hread'⟩ := hread.congr_rest hrest
    exact ⟨taken, rfl, .expression hread'⟩

/-- A construct fails at a token whatever stands behind the token. -/
theorem FailsTop.congr_rest {failure : Failure} {culprit : Token} {tail : List Token}
    (h : FailsTop last tokens failure (culprit :: tail)) (tail' : List Token) :
    ∃ taken, tokens = taken ++ culprit :: tail ∧
      FailsTop last' (taken ++ culprit :: tail') failure (culprit :: tail') := by
  cases h with
  | @definitionPrototype keyword _ _ _ hkind hproto =>
    obtain ⟨taken, rfl, hproto'⟩ := hproto.congr_rest tail'
    exact ⟨keyword :: taken, rfl, .definitionPrototype hkind hproto'⟩
  | @definitionBody keyword tokens tokens₁ _ proto _ hkind hproto hbody =>
    obtain ⟨taken₂, rfl, hbody'⟩ := hbody.congr_rest rfl tail'
    obtain ⟨taken₁, rfl, hproto'⟩ := hproto.congr_rest (taken₂ ++ culprit :: tail')
    exact ⟨keyword :: (taken₁ ++ taken₂), by simp, by
      simpa using FailsTop.definitionBody hkind hproto' hbody'⟩
  | @declaration keyword _ _ _ hkind hproto =>
    obtain ⟨taken, rfl, hproto'⟩ := hproto.congr_rest tail'
    exact ⟨keyword :: taken, rfl, .declaration hkind hproto'⟩
  | expression hend hdefine hdeclare hfail =>
    obtain ⟨taken, htokens, hfail'⟩ := hfail.congr_rest rfl tail'
    refine ⟨taken, htokens, ?_⟩
    cases taken with
    | nil =>
      obtain ⟨rfl, -⟩ := List.cons.inj htokens
      exact .expression hend hdefine hdeclare hfail'
    | cons first taken =>
      obtain ⟨rfl, -⟩ := List.cons.inj htokens
      exact .expression hend hdefine hdeclare hfail'

end ExprLang
