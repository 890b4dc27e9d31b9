import ExprLang.Proofs.Constructs

/-!
The rules of reading are deterministic. On every list of tokens at most one thing
is read, where something is read nothing fails, and what fails does so in one way.
With totality this makes the rules a function, whichever tokens stand there and
whatever stands behind them.
-/
namespace ExprLang

open Lexer (Stream)
open Token.Kind (mark)

variable {last : Except LexicalError Token} {tokens rest rest' : List Token}

namespace Reads

/-- A task is read in one way. -/
theorem unique {task : Task} {node node' : Node} (h : Reads last task tokens node rest)
    (h' : Reads last task tokens node' rest') : node' = node ∧ rest' = rest := by
  induction h generalizing node' rest' with
  | number | name | emptyCall => cases h' <;> simp_all [mark, Stream.head]
  | call hkind hopen hclose hargs ih =>
    cases h' with
    | call hkind' _ _ hargs' =>
      obtain rfl := Token.Kind.identifier.inj (hkind.symm.trans hkind')
      exact ih hargs'
    | _ => simp_all [mark, Stream.head]
  | grouping hopen hinner hclose ih =>
    cases h' with
    | grouping _ hinner' =>
      obtain ⟨rfl, hrest⟩ := ih hinner'
      exact ⟨rfl, (List.cons.inj hrest).2⟩
    | _ => simp_all [mark]
  | expression hfirst hproduct hsum ih₁ ih₂ ih₃ =>
    cases h' with
    | expression hfirst' hproduct' hsum' =>
      obtain ⟨rfl, rfl⟩ := ih₁ hfirst'
      obtain ⟨rfl, rfl⟩ := ih₂ hproduct'
      exact ih₃ hsum'
  | productsEnd hhead hop => exact h'.products_eq hhead hop
  | productsStep hop hrhs hrest ih₁ ih₂ =>
    cases h' with
    | productsEnd hhead hop' =>
      cases hhead
      exact absurd hop hop'
    | productsStep _ hrhs' hrest' =>
      obtain ⟨rfl, rfl⟩ := ih₁ hrhs'
      exact ih₂ hrest'
  | sumsEnd => cases h' <;> simp_all [Stream.head]
  | sumsStep hop hloose hfirst hrhs hrest ih₁ ih₂ ih₃ =>
    cases h' with
    | sumsEnd hhead hop' =>
      cases hhead
      exact absurd (hop' _ hop) hloose
    | sumsStep hop' _ hfirst' hrhs' hrest' =>
      obtain rfl := Option.some.inj (hop.symm.trans hop')
      obtain ⟨rfl, rfl⟩ := ih₁ hfirst'
      obtain ⟨rfl, rfl⟩ := ih₂ hrhs'
      exact ih₃ hrest'
  | lastArgument harg hclose ih =>
    cases h' with
    | lastArgument harg' =>
      obtain ⟨rfl, hrest⟩ := ih harg'
      obtain ⟨rfl, rfl⟩ := List.cons.inj hrest
      exact ⟨rfl, rfl⟩
    | argument harg' hcomma =>
      obtain ⟨-, hrest⟩ := ih harg'
      rw [(List.cons.inj hrest).1, hclose, Token.Kind.mark_inj] at hcomma
      exact absurd hcomma (by decide)
  | argument harg hcomma hrest ih₁ ih₂ =>
    cases h' with
    | lastArgument harg' hclose =>
      obtain ⟨-, hrest⟩ := ih₁ harg'
      rw [(List.cons.inj hrest).1, hcomma, Token.Kind.mark_inj] at hclose
      exact absurd hclose (by decide)
    | argument harg' _ hrest' =>
      obtain ⟨rfl, hbehind⟩ := ih₁ harg'
      obtain ⟨-, rfl⟩ := List.cons.inj hbehind
      exact ih₂ hrest'

/-- Where a task is read it does not fail. -/
theorem not_fails {task : Task} {node : Node} {failure : Failure}
    (h : Reads last task tokens node rest) : ¬ Fails last task tokens failure rest' := by
  intro h'
  induction h generalizing failure rest' with
  | number | name | emptyCall =>
    cases h' <;> simp_all [mark, Stream.head, Token.Kind.StartsOperand]
  | call hkind hopen hclose hargs ih =>
    cases h' with
    | call hkind' _ _ hargs' =>
      obtain rfl := Token.Kind.identifier.inj (hkind.symm.trans hkind')
      exact ih hargs'
    | _ => simp_all [mark, Stream.head, Token.Kind.StartsOperand]
  | grouping hopen hinner hclose ih =>
    cases h' with
    | inner _ hinner' => exact ih hinner'
    | unclosed _ hinner' hhead hother =>
      obtain ⟨-, rfl⟩ := hinner.unique hinner'
      cases hhead
      exact hother hclose
    | _ => simp_all [mark, Stream.head, Token.Kind.StartsOperand]
  | expression hfirst hproduct hsum ih₁ ih₂ ih₃ =>
    cases h' with
    | stuck hhead => exact ih₁ (.stuck hhead)
    | first hfirst' => exact ih₁ hfirst'
    | product hfirst' hproduct' =>
      obtain ⟨rfl, rfl⟩ := hfirst.unique hfirst'
      exact ih₂ hproduct'
    | sum hfirst' hproduct' hsum' =>
      obtain ⟨rfl, rfl⟩ := hfirst.unique hfirst'
      obtain ⟨rfl, rfl⟩ := hproduct.unique hproduct'
      exact ih₃ hsum'
  | productsEnd hhead hop => exact hop (h'.operator_of_products hhead)
  | productsStep hop hrhs hrest ih₁ ih₂ =>
    cases h' with
    | stuck hhead => cases hhead
    | productsOperand _ hrhs' => exact ih₁ hrhs'
    | productsRest _ hrhs' hrest' =>
      obtain ⟨rfl, rfl⟩ := hrhs.unique hrhs'
      exact ih₂ hrest'
  | sumsEnd => cases h' <;> simp_all [Stream.head]
  | sumsStep hop hloose hfirst hrhs hrest ih₁ ih₂ ih₃ =>
    cases h' with
    | stuck hhead => cases hhead
    | sumsOperand _ _ hfirst' => exact ih₁ hfirst'
    | sumsProduct _ _ hfirst' hrhs' =>
      obtain ⟨rfl, rfl⟩ := hfirst.unique hfirst'
      exact ih₂ hrhs'
    | sumsRest hop' _ hfirst' hrhs' hrest' =>
      obtain rfl := Option.some.inj (hop.symm.trans hop')
      obtain ⟨rfl, rfl⟩ := hfirst.unique hfirst'
      obtain ⟨rfl, rfl⟩ := hrhs.unique hrhs'
      exact ih₃ hrest'
  | lastArgument harg hclose ih =>
    cases h' with
    | stuck hhead => exact ih (.stuck hhead)
    | argument harg' => exact ih harg'
    | separator harg' hhead hother =>
      obtain ⟨-, rfl⟩ := harg.unique harg'
      cases hhead
      exact hother hclose
    | moreArguments harg' hcomma =>
      obtain ⟨-, hrest⟩ := harg.unique harg'
      rw [(List.cons.inj hrest).1, hclose, Token.Kind.mark_inj] at hcomma
      exact absurd hcomma (by decide)
  | argument harg hcomma hrest ih₁ ih₂ =>
    cases h' with
    | stuck hhead => exact ih₁ (.stuck hhead)
    | argument harg' => exact ih₁ harg'
    | separator harg' hhead _ hother =>
      obtain ⟨-, rfl⟩ := harg.unique harg'
      cases hhead
      exact hother hcomma
    | moreArguments harg' _ hrest' =>
      obtain ⟨rfl, hbehind⟩ := harg.unique harg'
      obtain ⟨-, rfl⟩ := List.cons.inj hbehind
      exact ih₂ hrest'

end Reads

/-- What fails fails at one place, with one failure. -/
theorem Fails.unique {task : Task} {failure failure' : Failure}
    (h : Fails last task tokens failure rest) (h' : Fails last task tokens failure' rest') :
    failure' = failure ∧ rest' = rest := by
  induction h generalizing failure' rest' with
  | stuck hhead => exact h'.eq_of_stuck hhead
  | noOperand | malformed | name =>
    cases h' <;> simp_all [mark, Stream.head, Token.Kind.StartsOperand]
  | call hkind hopen hclose hargs ih =>
    cases h' with
    | call hkind' _ _ hargs' =>
      obtain rfl := Token.Kind.identifier.inj (hkind.symm.trans hkind')
      exact ih hargs'
    | _ => simp_all [mark, Stream.head, Token.Kind.StartsOperand]
  | inner hopen hinner ih =>
    cases h' with
    | inner _ hinner' => exact ih hinner'
    | unclosed _ hinner' => exact absurd hinner hinner'.not_fails
    | _ => simp_all [mark, Stream.head, Token.Kind.StartsOperand]
  | unclosed hopen hinner hhead hclose =>
    cases h' with
    | inner _ hinner' => exact absurd hinner' hinner.not_fails
    | unclosed _ hinner' hhead' =>
      obtain ⟨-, rfl⟩ := hinner.unique hinner'
      obtain rfl := Except.ok.inj (hhead.symm.trans hhead')
      exact ⟨rfl, rfl⟩
    | _ => simp_all [mark, Stream.head, Token.Kind.StartsOperand]
  | first hfirst ih =>
    cases h' with
    | stuck hhead => exact ih (.stuck hhead)
    | first hfirst' => exact ih hfirst'
    | product hfirst' | sum hfirst' => exact absurd hfirst hfirst'.not_fails
  | product hfirst hproduct ih =>
    cases h' with
    | stuck hhead => exact absurd (.stuck hhead) hfirst.not_fails
    | first hfirst' => exact absurd hfirst' hfirst.not_fails
    | product hfirst' hproduct' =>
      obtain ⟨rfl, rfl⟩ := hfirst.unique hfirst'
      exact ih hproduct'
    | sum hfirst' hproduct' =>
      obtain ⟨rfl, rfl⟩ := hfirst.unique hfirst'
      exact absurd hproduct hproduct'.not_fails
  | sum hfirst hproduct hsum ih =>
    cases h' with
    | stuck hhead => exact absurd (.stuck hhead) hfirst.not_fails
    | first hfirst' => exact absurd hfirst' hfirst.not_fails
    | product hfirst' hproduct' =>
      obtain ⟨rfl, rfl⟩ := hfirst.unique hfirst'
      exact absurd hproduct' hproduct.not_fails
    | sum hfirst' hproduct' hsum' =>
      obtain ⟨rfl, rfl⟩ := hfirst.unique hfirst'
      obtain ⟨rfl, rfl⟩ := hproduct.unique hproduct'
      exact ih hsum'
  | productsOperand hop hrhs ih =>
    cases h' with
    | stuck hhead => cases hhead
    | productsOperand _ hrhs' => exact ih hrhs'
    | productsRest _ hrhs' => exact absurd hrhs hrhs'.not_fails
  | productsRest hop hrhs hrest ih =>
    cases h' with
    | stuck hhead => cases hhead
    | productsOperand _ hrhs' => exact absurd hrhs' hrhs.not_fails
    | productsRest _ hrhs' hrest' =>
      obtain ⟨rfl, rfl⟩ := hrhs.unique hrhs'
      exact ih hrest'
  | sumsOperand hop hloose hfirst ih =>
    cases h' with
    | stuck hhead => cases hhead
    | sumsOperand _ _ hfirst' => exact ih hfirst'
    | sumsProduct _ _ hfirst' | sumsRest _ _ hfirst' => exact absurd hfirst hfirst'.not_fails
  | sumsProduct hop hloose hfirst hrhs ih =>
    cases h' with
    | stuck hhead => cases hhead
    | sumsOperand _ _ hfirst' => exact absurd hfirst' hfirst.not_fails
    | sumsProduct _ _ hfirst' hrhs' =>
      obtain ⟨rfl, rfl⟩ := hfirst.unique hfirst'
      exact ih hrhs'
    | sumsRest _ _ hfirst' hrhs' =>
      obtain ⟨rfl, rfl⟩ := hfirst.unique hfirst'
      exact absurd hrhs hrhs'.not_fails
  | sumsRest hop hloose hfirst hrhs hrest ih =>
    cases h' with
    | stuck hhead => cases hhead
    | sumsOperand _ _ hfirst' => exact absurd hfirst' hfirst.not_fails
    | sumsProduct _ _ hfirst' hrhs' =>
      obtain ⟨rfl, rfl⟩ := hfirst.unique hfirst'
      exact absurd hrhs' hrhs.not_fails
    | sumsRest hop' _ hfirst' hrhs' hrest' =>
      obtain rfl := Option.some.inj (hop.symm.trans hop')
      obtain ⟨rfl, rfl⟩ := hfirst.unique hfirst'
      obtain ⟨rfl, rfl⟩ := hrhs.unique hrhs'
      exact ih hrest'
  | argument harg ih =>
    cases h' with
    | stuck hhead => exact ih (.stuck hhead)
    | argument harg' => exact ih harg'
    | separator harg' | moreArguments harg' => exact absurd harg harg'.not_fails
  | separator harg hhead hclose hcomma =>
    cases h' with
    | stuck herror => exact absurd (.stuck herror) harg.not_fails
    | argument harg' => exact absurd harg' harg.not_fails
    | separator harg' hhead' =>
      obtain ⟨-, rfl⟩ := harg.unique harg'
      obtain rfl := Except.ok.inj (hhead.symm.trans hhead')
      exact ⟨rfl, rfl⟩
    | moreArguments harg' hcomma' =>
      obtain ⟨-, rfl⟩ := harg.unique harg'
      cases hhead
      exact absurd hcomma' hcomma
  | moreArguments harg hcomma hrest ih =>
    cases h' with
    | stuck hhead => exact absurd (.stuck hhead) harg.not_fails
    | argument harg' => exact absurd harg' harg.not_fails
    | separator harg' hhead _ hother =>
      obtain ⟨-, rfl⟩ := harg.unique harg'
      cases hhead
      exact absurd hcomma hother
    | moreArguments harg' _ hrest' =>
      obtain ⟨rfl, hbehind⟩ := harg.unique harg'
      obtain ⟨-, rfl⟩ := List.cons.inj hbehind
      exact ih hrest'

/-- Names end at one place. -/
theorem params_inj {params params' : List Token} {names names' : List String}
    (hparams : params.map Token.kind = names.map .identifier)
    (hparams' : params'.map Token.kind = names'.map .identifier)
    (hrest : ∀ token ∈ rest.head?, ∀ name, token.kind ≠ .identifier name)
    (hrest' : ∀ token ∈ rest'.head?, ∀ name, token.kind ≠ .identifier name)
    (h : params ++ rest = params' ++ rest') : params = params' ∧ names = names' ∧ rest = rest' := by
  induction params generalizing names params' names' with
  | nil =>
    obtain rfl := List.map_eq_nil_iff.mp hparams.symm
    cases params' with
    | nil => exact ⟨rfl, (List.map_eq_nil_iff.mp hparams'.symm).symm, h⟩
    | cons param params' =>
      obtain ⟨name, -, -, hname, -⟩ := List.map_eq_cons_iff.mp hparams'.symm
      obtain rfl : rest = param :: (params' ++ rest') := h
      exact absurd hname.symm (hrest param rfl name)
  | cons param params ih =>
    obtain ⟨name, names, rfl, hname, hnames⟩ := List.map_eq_cons_iff.mp hparams.symm
    cases params' with
    | nil =>
      obtain rfl : param :: (params ++ rest) = rest' := h
      exact absurd hname.symm (hrest' param rfl name)
    | cons param' params' =>
      obtain ⟨name', names', rfl, hname', hnames'⟩ := List.map_eq_cons_iff.mp hparams'.symm
      obtain ⟨rfl, hbehind⟩ := List.cons.inj h
      obtain ⟨rfl, rfl, rfl⟩ := ih hnames.symm hnames'.symm hbehind
      rw [Token.Kind.identifier.inj (hname.trans hname'.symm)]
      exact ⟨rfl, rfl, rfl⟩

theorem head?_ne_identifier
    (h : ∀ token name, Stream.head ⟨rest, last⟩ = .ok token → token.kind ≠ .identifier name) :
    ∀ token ∈ rest.head?, ∀ name, token.kind ≠ .identifier name := by
  intro token htoken name
  obtain ⟨tail, rfl⟩ := List.head?_eq_some_iff.mp htoken
  exact h token name rfl

namespace ReadsPrototype

/-- A prototype is read in one way. -/
theorem unique {proto proto' : Prototype} (h : ReadsPrototype tokens proto rest)
    (h' : ReadsPrototype tokens proto' rest') : proto' = proto ∧ rest' = rest := by
  cases h with
  | @intro token opener closer params _ name names hkind hopen hparams hclose =>
    generalize htokens : token :: opener :: (params ++ closer :: rest) = tokens at h'
    cases h' with
    | @intro token' opener' closer' params' _ name' names' hkind' hopen' hparams' hclose' =>
      obtain ⟨rfl, htail⟩ := List.cons.inj htokens
      obtain ⟨-, hall⟩ := List.cons.inj htail
      obtain ⟨-, rfl, hrest⟩ := params_inj hparams hparams' (by simp [hclose, mark])
        (by simp [hclose', mark]) hall
      obtain ⟨rfl, rfl⟩ := List.cons.inj hrest
      rw [Token.Kind.identifier.inj (hkind.symm.trans hkind')]
      exact ⟨rfl, rfl⟩

/-- Where a prototype is read it does not fail. -/
theorem not_fails {proto : Prototype} {failure : Failure} (h : ReadsPrototype tokens proto rest) :
    ¬ FailsPrototype last tokens failure rest' := by
  intro h'
  cases h with
  | @intro token opener closer params _ name names hkind hopen hparams hclose =>
    generalize htokens : token :: opener :: (params ++ closer :: rest) = tokens at h'
    cases h' with
    | name hother => exact hother token name (by rw [← htokens]; rfl) hkind
    | opener _ hother =>
      obtain ⟨-, rfl⟩ := List.cons.inj htokens
      exact hother opener rfl hopen
    | closer _ _ hparams' hparam hother =>
      obtain ⟨-, htail⟩ := List.cons.inj htokens
      obtain ⟨-, hall⟩ := List.cons.inj htail
      obtain ⟨-, -, rfl⟩ := params_inj hparams hparams' (by simp [hclose, mark])
        (head?_ne_identifier hparam) hall
      exact hother closer rfl hclose

end ReadsPrototype

/-- The next token is refused with one failure. -/
theorem Refuses.unique {wanted : String} {failure failure' : Failure}
    (h : Refuses last wanted tokens failure) (h' : Refuses last wanted tokens failure') :
    failure' = failure := by
  cases h with
  | stuck hhead =>
    cases h' with
    | stuck hhead' => rw [Except.error.inj (hhead.symm.trans hhead')]
    | unexpected hhead' => simp [hhead] at hhead'
  | unexpected hhead =>
    cases h' with
    | stuck hhead' => simp [hhead] at hhead'
    | unexpected hhead' => rw [Except.ok.inj (hhead.symm.trans hhead')]

/-- A prototype fails at one place, with one failure. -/
theorem FailsPrototype.unique {failure failure' : Failure}
    (h : FailsPrototype last tokens failure rest) (h' : FailsPrototype last tokens failure' rest') :
    failure' = failure ∧ rest' = rest := by
  cases h with
  | name hname hrefuses =>
    cases h' with
    | name _ hrefuses' => exact ⟨hrefuses.unique hrefuses', rfl⟩
    | opener hkind | closer hkind => exact absurd hkind (hname _ _ rfl)
  | opener hkind hopen hrefuses =>
    cases h' with
    | name hname => exact absurd hkind (hname _ _ rfl)
    | opener _ _ hrefuses' => exact ⟨hrefuses.unique hrefuses', rfl⟩
    | closer _ hopen' => exact absurd hopen' (hopen _ rfl)
  | @closer token opener params rest name failure names hkind hopen hparams hparam _ hrefuses =>
    generalize htokens : token :: opener :: (params ++ rest) = tokens at h'
    cases h' with
    | name hname => exact absurd hkind (hname token name (by rw [← htokens]; rfl))
    | opener _ hopen' =>
      obtain ⟨-, rfl⟩ := List.cons.inj htokens
      exact absurd hopen (hopen' _ rfl)
    | closer _ _ hparams' hparam' _ hrefuses' =>
      obtain ⟨-, htail⟩ := List.cons.inj htokens
      obtain ⟨-, hall⟩ := List.cons.inj htail
      obtain ⟨-, -, rfl⟩ := params_inj hparams hparams' (head?_ne_identifier hparam)
        (head?_ne_identifier hparam') hall
      exact ⟨hrefuses.unique hrefuses', rfl⟩

namespace ReadsTop

/-- What an expression begins with is no reserved word. -/
theorem expression_ordinary {token : Token} {node : Node}
    (h : Reads last .expression (token :: tokens) node rest) :
    token.kind ≠ .endOfInput ∧ token.kind ≠ .define ∧ token.kind ≠ .declare := by
  obtain ⟨first, tail, heq, hstart⟩ := h.starts
  obtain ⟨rfl, -⟩ := List.cons.inj heq
  exact hstart.ordinary

/-- A construct is read in one way. -/
theorem unique {node node' : Node} (h : ReadsTop last tokens node rest)
    (h' : ReadsTop last tokens node' rest') : node' = node ∧ rest' = rest := by
  cases h with
  | definition hkind hproto hbody =>
    cases h' with
    | definition _ hproto' hbody' =>
      obtain ⟨rfl, rfl⟩ := hproto.unique hproto'
      obtain ⟨rfl, rfl⟩ := hbody.unique hbody'
      exact ⟨rfl, rfl⟩
    | declaration hother => simp [hkind] at hother
    | expression hread => exact absurd hkind (expression_ordinary hread).2.1
  | declaration hkind hproto =>
    cases h' with
    | definition hother => simp [hkind] at hother
    | declaration _ hproto' =>
      obtain ⟨rfl, rfl⟩ := hproto.unique hproto'
      exact ⟨rfl, rfl⟩
    | expression hread => exact absurd hkind (expression_ordinary hread).2.2
  | expression hread =>
    cases h' with
    | definition hkind => exact absurd hkind (expression_ordinary hread).2.1
    | declaration hkind => exact absurd hkind (expression_ordinary hread).2.2
    | expression hread' => exact hread.unique hread'

/-- Where a construct is read none fails. -/
theorem not_fails {node : Node} {failure : Failure} (h : ReadsTop last tokens node rest) :
    ¬ FailsTop last tokens failure rest' := by
  intro h'
  cases h with
  | definition hkind hproto hbody =>
    cases h' with
    | definitionPrototype _ hproto' => exact hproto.not_fails hproto'
    | definitionBody _ hproto' hbody' =>
      obtain ⟨-, rfl⟩ := hproto.unique hproto'
      exact hbody.not_fails hbody'
    | declaration hother => simp [hkind] at hother
    | expression _ hdefine => exact hdefine hkind
  | declaration hkind hproto =>
    cases h' with
    | definitionPrototype hother | definitionBody hother => simp [hkind] at hother
    | declaration _ hproto' => exact hproto.not_fails hproto'
    | expression _ _ hdeclare => exact hdeclare hkind
  | expression hread =>
    cases h' with
    | definitionPrototype hkind | definitionBody hkind =>
      exact (expression_ordinary hread).2.1 hkind
    | declaration hkind => exact (expression_ordinary hread).2.2 hkind
    | expression _ _ _ hfail => exact hread.not_fails hfail

end ReadsTop

/-- A construct fails at one place, with one failure. -/
theorem FailsTop.unique {failure failure' : Failure} (h : FailsTop last tokens failure rest)
    (h' : FailsTop last tokens failure' rest') : failure' = failure ∧ rest' = rest := by
  cases h with
  | definitionPrototype hkind hproto =>
    cases h' with
    | definitionPrototype _ hproto' => exact hproto.unique hproto'
    | definitionBody _ hproto' => exact absurd hproto hproto'.not_fails
    | declaration hother => simp [hkind] at hother
    | expression _ hdefine => exact absurd hkind hdefine
  | definitionBody hkind hproto hbody =>
    cases h' with
    | definitionPrototype _ hproto' => exact absurd hproto' hproto.not_fails
    | definitionBody _ hproto' hbody' =>
      obtain ⟨-, rfl⟩ := hproto.unique hproto'
      exact hbody.unique hbody'
    | declaration hother => simp [hkind] at hother
    | expression _ hdefine => exact absurd hkind hdefine
  | declaration hkind hproto =>
    cases h' with
    | definitionPrototype hother | definitionBody hother => simp [hkind] at hother
    | declaration _ hproto' => exact hproto.unique hproto'
    | expression _ _ hdeclare => exact absurd hkind hdeclare
  | expression hend hdefine hdeclare hfail =>
    cases h' with
    | definitionPrototype hkind | definitionBody hkind => exact absurd hkind hdefine
    | declaration hkind => exact absurd hkind hdeclare
    | expression _ _ _ hfail' => exact hfail.unique hfail'

end ExprLang
