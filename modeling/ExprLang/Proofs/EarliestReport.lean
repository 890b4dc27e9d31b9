import ExprLang.Proofs.Acceptance
import ExprLang.Proofs.Determinism
import ExprLang.Proofs.Lookahead

/-!
Diagnostics come as early as they can. Up to the token that a diagnostic is about
everything can still be completed to a construct, and with this token nothing can:
no construct and no row of constructs begins so. Every other way to derive the
tokens is excluded, not just the one that was followed.
-/
namespace ExprLang

open Lexer (Stream)
open Token.Kind (mark)

variable {last : Except LexicalError Token} {tokens taken rest : List Token}

section Completion

def Task.Completes (task : Task) (kinds : List Token.Kind) : Prop :=
  match task with
  | primary => ∃ suffix tree, Derives (.primary tree) (kinds ++ suffix)
  | expression => ∃ suffix tree, Derives (.expression tree) (kinds ++ suffix)
  | products _ | sums _ => ∃ suffix chain, Derives (.links chain) (kinds ++ suffix)
  | arguments _ _ _ => ∃ suffix next args, Derives (.arguments (next :: args)) (kinds ++ suffix)

theorem Derives.exists_expression {first : Tree} {chain : List (Operator × Tree)}
    {kinds kinds' : List Token.Kind} (h : Derives (.primary first) kinds)
    (hchain : Derives (.links chain) kinds') :
    ∃ tree, Derives (.expression tree) (kinds ++ kinds') := by
  obtain ⟨tree, htree⟩ := Groups.total first chain
  exact ⟨tree, .expression h hchain htree⟩

/-- A name is an expression. -/
theorem Derives.expression_name (name : String) :
    Derives (.expression (.var name)) [.identifier name] :=
  .expression (.name name) .noLinks (.operand _)

/-- Before its first token every task can be completed. -/
theorem Task.completes_nil (task : Task) : task.Completes [] := by
  cases task with
  | primary => exact ⟨_, _, .name "x"⟩
  | expression => exact ⟨_, _, .expression_name "x"⟩
  | products lhs | sums lhs => exact ⟨[], [], .noLinks⟩
  | arguments => exact ⟨_, _, _, .lastArgument (.expression_name "x")⟩

/-- What a task has taken when it fails can be completed. -/
theorem Fails.completes {task : Task} {failure : Failure}
    (h : Fails last task tokens failure rest) :
    ∃ taken, tokens = taken ++ rest ∧ task.Completes (taken.map Token.kind) := by
  induction h with
  | @stuck task => exact ⟨[], rfl, task.completes_nil⟩
  | noOperand | malformed => exact ⟨[], rfl, Task.completes_nil .primary⟩
  | @name token rest name error hkind =>
    refine ⟨[token], rfl, [], .var name, ?_⟩
    simpa [hkind] using Derives.name name
  | @call token opener tokens rest name failure hkind hopen hclose hargs ih =>
    obtain ⟨taken, rfl, suffix, next, args, hderives⟩ := ih
    refine ⟨token :: opener :: taken, rfl, suffix ++ [mark ')'], .call name (next :: args), ?_⟩
    simpa [hkind, hopen] using Derives.call name hderives
  | @inner opener tokens rest failure hopen hinner ih =>
    obtain ⟨taken, rfl, suffix, tree, hderives⟩ := ih
    refine ⟨opener :: taken, rfl, suffix ++ [mark ')'], tree, ?_⟩
    simpa [hopen] using Derives.parentheses hderives
  | @unclosed opener tokens rest node follower hopen hinner =>
    obtain ⟨taken, rfl, hderives⟩ := hinner.derived
    refine ⟨opener :: taken, rfl, [mark ')'], node.tree, ?_⟩
    simpa [hopen] using Derives.parentheses hderives
  | first hfirst ih =>
    obtain ⟨taken, rfl, suffix, tree, hderives⟩ := ih
    refine ⟨taken, rfl, suffix, tree, ?_⟩
    simpa using Derives.expression hderives .noLinks (.operand tree)
  | product hfirst hproduct ih =>
    obtain ⟨taken₁, rfl, hprimary⟩ := hfirst.derived
    obtain ⟨taken₂, rfl, suffix, chain, hchain⟩ := ih
    obtain ⟨tree, hderives⟩ := hprimary.exists_expression hchain
    exact ⟨taken₁ ++ taken₂, by simp, suffix, tree, by simpa using hderives⟩
  | sum hfirst hproduct hsum ih =>
    obtain ⟨taken₁, rfl, hprimary⟩ := hfirst.derived
    obtain ⟨taken₂, rfl, links, hlinks, -⟩ := hproduct.derived
    obtain ⟨taken₃, rfl, suffix, chain, hchain⟩ := ih
    obtain ⟨tree, hderives⟩ := hprimary.exists_expression (hlinks.links_append hchain)
    exact ⟨taken₁ ++ (taken₂ ++ taken₃), by simp, suffix, tree, by simpa using hderives⟩
  | @productsOperand token tokens rest lhs failure hop hrhs ih =>
    obtain ⟨taken, rfl, suffix, tree, hderives⟩ := ih
    refine ⟨token :: taken, rfl, suffix, [(.multiply, tree)], ?_⟩
    simpa [(Token.Kind.operator?_eq_some_iff _ _).mp hop] using Derives.link _ hderives .noLinks
  | @productsRest token tokens tokens₁ rest lhs rhs failure hop hrhs hrest ih =>
    obtain ⟨taken₁, rfl, hprimary⟩ := hrhs.derived
    obtain ⟨taken₂, rfl, suffix, chain, hchain⟩ := ih
    refine ⟨token :: (taken₁ ++ taken₂), by simp, suffix, (.multiply, rhs.tree) :: chain, ?_⟩
    simpa [(Token.Kind.operator?_eq_some_iff _ _).mp hop] using Derives.link _ hprimary hchain
  | @sumsOperand token tokens rest lhs op failure hop hloose hfirst ih =>
    obtain ⟨taken, rfl, suffix, tree, hderives⟩ := ih
    refine ⟨token :: taken, rfl, suffix, [(op, tree)], ?_⟩
    simpa [(Token.Kind.operator?_eq_some_iff _ _).mp hop] using Derives.link _ hderives .noLinks
  | @sumsProduct token tokens tokens₁ rest lhs first op failure hop hloose hfirst hrhs ih =>
    obtain ⟨taken₁, rfl, hprimary⟩ := hfirst.derived
    obtain ⟨taken₂, rfl, suffix, chain, hchain⟩ := ih
    refine ⟨token :: (taken₁ ++ taken₂), by simp, suffix, (op, first.tree) :: chain, ?_⟩
    simpa [(Token.Kind.operator?_eq_some_iff _ _).mp hop] using Derives.link _ hprimary hchain
  | @sumsRest token tokens tokens₁ tokens₂ rest lhs first rhs op failure hop hloose hfirst hrhs
      hrest ih =>
    obtain ⟨taken₁, rfl, hprimary⟩ := hfirst.derived
    obtain ⟨taken₂, rfl, links, hlinks, -⟩ := hrhs.derived
    obtain ⟨taken₃, rfl, suffix, chain, hchain⟩ := ih
    refine ⟨token :: (taken₁ ++ (taken₂ ++ taken₃)), by simp, suffix,
      (op, first.tree) :: (links ++ chain), ?_⟩
    simpa [(Token.Kind.operator?_eq_some_iff _ _).mp hop] using
      Derives.link _ hprimary (hlinks.links_append hchain)
  | argument harg ih =>
    obtain ⟨taken, rfl, suffix, tree, hderives⟩ := ih
    exact ⟨taken, rfl, suffix, tree, [], .lastArgument hderives⟩
  | separator harg =>
    obtain ⟨taken, rfl, hderives⟩ := harg.derived
    exact ⟨taken, rfl, [], _, [], by simpa using Derives.lastArgument hderives⟩
  | @moreArguments name callee before tokens arg comma tokens₁ rest failure harg hcomma hrest ih =>
    obtain ⟨taken₁, rfl, hderives₁⟩ := harg.derived
    obtain ⟨taken₂, rfl, suffix, next, args, hderives₂⟩ := ih
    refine ⟨taken₁ ++ comma :: taken₂, by simp, suffix, arg.tree, next :: args, ?_⟩
    simpa [hcomma] using Derives.argument hderives₁ hderives₂

theorem FailsPrototype.completes {failure : Failure} (h : FailsPrototype last tokens failure rest) :
    ∃ taken, tokens = taken ++ rest ∧ ∃ suffix name params,
      Derives (.prototype name params) (taken.map Token.kind ++ suffix) := by
  cases h with
  | name => exact ⟨[], rfl, _, "f", [], .prototype "f" []⟩
  | @opener token _ name _ hkind =>
    refine ⟨[token], rfl, [mark '(', mark ')'], name, [], ?_⟩
    simpa [hkind] using Derives.prototype name []
  | @closer token opener params _ name _ names hkind hopen hparams =>
    refine ⟨token :: opener :: params, rfl, [mark ')'], name, names, ?_⟩
    simpa [hkind, hopen, hparams] using Derives.prototype name names

/-- What was taken when a construct fails can be completed to a construct. -/
theorem FailsTop.completes {failure : Failure} (h : FailsTop last tokens failure rest) :
    ∃ taken, tokens = taken ++ rest ∧ ∃ tree suffix,
      Derives (.top tree) (taken.map Token.kind ++ suffix) := by
  cases h with
  | @definitionPrototype keyword _ _ _ hkind hproto =>
    obtain ⟨taken, rfl, suffix, name, params, hderives⟩ := hproto.completes
    refine ⟨keyword :: taken, rfl, .function name params (.var "x"),
      suffix ++ [.identifier "x"], ?_⟩
    simpa [hkind] using Derives.definition hderives (.expression_name "x")
  | @definitionBody keyword tokens tokens₁ _ proto _ hkind hproto hbody =>
    obtain ⟨taken₁, rfl, hderives₁⟩ := hproto.derived
    obtain ⟨taken₂, rfl, suffix, tree, hderives₂⟩ := hbody.completes
    refine ⟨keyword :: (taken₁ ++ taken₂), by simp,
      .function proto.name proto.params tree, suffix, ?_⟩
    simpa [hkind] using Derives.definition hderives₁ hderives₂
  | @declaration keyword _ _ _ hkind hproto =>
    obtain ⟨taken, rfl, suffix, name, params, hderives⟩ := hproto.completes
    refine ⟨keyword :: taken, rfl, .prototype name params, suffix, ?_⟩
    simpa [hkind] using Derives.declaration hderives
  | expression _ _ _ hfail =>
    obtain ⟨taken, htokens, suffix, tree, hderives⟩ := hfail.completes
    exact ⟨taken, htokens, tree, suffix, .top hderives⟩

end Completion

section Impossibility

variable {final : Token}

theorem IsProgram.nil : IsProgram [] := ⟨[], rfl, by simp⟩

/-- A construct in front of a program makes up a program with it. -/
theorem IsProgram.cons {tree : Tree} {first rest : List Token.Kind}
    (hfirst : Derives (.top tree) first) (h : IsProgram rest) : IsProgram (first ++ rest) := by
  obtain ⟨constructs, rfl, hconstructs⟩ := h
  exact ⟨first :: constructs, rfl, List.forall_mem_cons.mpr ⟨⟨tree, hfirst⟩, hconstructs⟩⟩

theorem Divided.isProgram {trees : List Tree} {kinds : List Token.Kind} (h : Divided trees kinds) :
    IsProgram kinds := by
  induction h with
  | nil => exact .nil
  | cons hfirst hbehind hrest ih => exact .cons hfirst ih

/-- A program begins with the construct that is read first. -/
theorem IsProgram.exists_reads (hfinal : final.kind = .endOfInput) (hne : tokens ≠ [])
    (h : IsProgram (tokens.map Token.kind)) :
    ∃ node rest, ReadsTop (.ok final) tokens node rest ∧ IsProgram (rest.map Token.kind) := by
  obtain ⟨trees, hdivided⟩ := h.exists_divided
  cases trees with
  | nil =>
    generalize hkinds : tokens.map Token.kind = kinds at hdivided
    cases hdivided
    exact absurd (List.map_eq_nil_iff.mp hkinds) hne
  | cons tree trees =>
    obtain ⟨node, rest, hread, -, hrest⟩ := hdivided.exists_reads hfinal
    exact ⟨node, rest, hread, hrest.isProgram⟩

/-- Whatever stands behind the next token, if there is one, the tokens are no program. -/
def Hopeless (taken rest : List Token) : Prop :=
  ∀ rest', rest'.head? = rest.head? → ¬ IsProgram ((taken ++ rest').map Token.kind)

theorem Lexer.Stream.Closes.of_head? {rest' : List Token} (h : rest'.head? = rest.head?) :
    Closes (head ⟨rest', last⟩) (head ⟨rest, last⟩) := by
  cases rest with
  | nil =>
    rw [List.head?_eq_none_iff.mp h]
    exact .refl _
  | cons culprit tail =>
    obtain ⟨tail', rfl⟩ := List.head?_eq_some_iff.mp h
    exact .refl _

/-- Tokens on which a construct fails are no program. -/
theorem FailsTop.not_isProgram {failure : Failure} (hfinal : final.kind = .endOfInput)
    (h : FailsTop (.ok final) tokens failure rest) : ¬ IsProgram (tokens.map Token.kind) := by
  intro hprogram
  have hne : tokens ≠ [] := by
    cases h <;> exact List.cons_ne_nil _ _
  obtain ⟨node, behind, hread, -⟩ := hprogram.exists_reads hfinal hne
  exact hread.not_fails h

/-- With the token that a construct fails at no program begins. -/
theorem FailsTop.hopeless {failure : Failure} (hfinal : final.kind = .endOfInput)
    (h : FailsTop (.ok final) (taken ++ rest) failure rest) : Hopeless taken rest := by
  intro rest' hhead
  cases rest with
  | nil =>
    obtain rfl := List.head?_eq_none_iff.mp hhead
    exact h.not_isProgram hfinal
  | cons culprit tail =>
    obtain ⟨tail', rfl⟩ := List.head?_eq_some_iff.mp hhead
    obtain ⟨taken', htaken, h'⟩ : ∃ taken', taken ++ culprit :: tail = taken' ++ culprit :: tail ∧
        FailsTop (.ok final) (taken' ++ culprit :: tail') failure (culprit :: tail') :=
      h.congr_rest tail'
    rw [← List.append_cancel_right htaken] at h'
    exact h'.not_isProgram hfinal

/-- What is hopeless stays so behind a construct. -/
theorem ReadsTop.hopeless {node : Node} {segment : List Token} (hfinal : final.kind = .endOfInput)
    (h : ReadsTop (.ok final) (segment ++ (taken ++ rest)) node (taken ++ rest))
    (hrest : Hopeless taken rest) : Hopeless (segment ++ taken) rest := by
  intro rest' hhead hprogram
  have hcloses : Stream.Closes (Stream.head ⟨taken ++ rest', .ok final⟩)
      (Stream.head ⟨taken ++ rest, .ok final⟩) :=
    (Stream.Closes.of_head? hhead).append taken
  obtain ⟨segment', hsegment, hread⟩ := h.congr_rest hcloses
  rw [← List.append_cancel_right hsegment] at hread
  rw [List.append_assoc] at hprogram
  have hne : segment ++ (taken ++ rest') ≠ [] := by
    have hless := hread.length_lt
    intro hnil
    simp [hnil] at hless
  obtain ⟨node', behind, hread', hbehind⟩ := hprogram.exists_reads hfinal hne
  obtain ⟨-, rfl⟩ := hread.unique hread'
  exact hrest rest' hhead hbehind

end Impossibility

section Reports

variable {final : Token} {diagnostic : Diagnostic}

def kindsBetween (tokens : List Token) (first stop : Nat) : List Token.Kind :=
  (tokens.extract first stop).map Token.kind

theorem kindsBetween_append (before taken rest : List Token) (n : Nat) :
    kindsBetween (before ++ (taken ++ rest)) before.length (before.length + taken.length + n) =
      (taken ++ rest.take n).map Token.kind := by
  have hall : (taken.map Token.kind).take (taken.length + n) = taken.map Token.kind :=
    List.take_of_length_le (by simp)
  simp [kindsBetween, List.extract_eq_take_drop, List.take_append, Nat.add_assoc, hall]

/-- With the token of this number the tokens from the first one on begin no program. Where
the number is that of the end of the input they are none. -/
structure Impossible (tokens : List Token) (first culprit : Nat) : Prop where
  no_program : culprit < tokens.length →
    ∀ suffix, ¬ IsProgram (kindsBetween tokens first (culprit + 1) ++ suffix)
  unfinished : culprit = tokens.length → ¬ IsProgram (kindsBetween tokens first culprit)

theorem Hopeless.impossible (h : Hopeless taken rest) (before : List Token) :
    Impossible (before ++ (taken ++ rest)) before.length (before.length + taken.length) := by
  constructor
  · intro hless suffix hprogram
    cases rest with
    | nil =>
      simp only [List.length_append, List.length_nil] at hless
      omega
    | cons culprit tail =>
      rw [kindsBetween_append] at hprogram
      refine h (culprit :: suffix.map fun kind => .placed "" 0 kind) rfl ?_
      simpa [Function.comp_def, Token.placed] using hprogram
  · intro hlength hprogram
    have hnil : rest = [] := by
      rw [← List.length_eq_zero_iff]
      simp only [List.length_append] at hlength
      omega
    subst hnil
    have hkinds := kindsBetween_append before taken [] 0
    rw [Nat.add_zero] at hkinds
    rw [hkinds] at hprogram
    exact h [] rfl hprogram

def Diagnostic.IsAbout (diagnostic : Diagnostic) (tokens : List Token) (final : Token)
    (culprit : Nat) : Prop :=
  ∃ token, (tokens ++ [final])[culprit]? = some token ∧
    diagnostic.position = token.span.start ∧ diagnostic.cause.found = token.kind.describe

theorem Failure.IsAt.isAbout
    (h : Failure.IsAt (.syntactic diagnostic) (Stream.head ⟨rest, .ok final⟩))
    (taken : List Token) : diagnostic.IsAbout (taken ++ rest) final taken.length := by
  obtain ⟨token, hhead, hposition, hfound⟩ := h
  refine ⟨token, ?_, hposition, hfound⟩
  cases rest with
  | nil =>
    obtain rfl := Except.ok.inj hhead
    simp
  | cons first rest =>
    obtain rfl := Except.ok.inj hhead
    simp

/-- A call that reports fails at the last token it takes, or at the end of the input. -/
theorem Call.Takes.fails {call : Call} {segment : List Token} (h : call.Takes last segment rest)
    (hreport : diagnostic ∈ call.reports) :
    ∃ taken behind, segment ++ rest = taken ++ behind ∧ rest = behind.tail ∧
      FailsTop last (taken ++ behind) (.syntactic diagnostic) behind := by
  cases h with
  | construct hread hkept =>
    simp only [reports, hkept, ← Array.length_toList, List.drop_length, List.not_mem_nil] at hreport
  | @recovery before after diagnostic' segment culprit rest hfail hpush =>
    obtain rfl : diagnostic = diagnostic' := by simpa [reports, hpush] using hreport
    exact ⟨segment, culprit :: rest, by simp, rfl, hfail⟩
  | @recoveryAtEnd before after diagnostic' segment hfail hpush =>
    obtain rfl : diagnostic = diagnostic' := by simpa [reports, hpush] using hreport
    exact ⟨segment, [], rfl, rfl, by simpa using hfail⟩

/-- Where a call of a run starts and what it leaves. -/
theorem Covers.exists_takes {calls : List Call} {segments : List (List Token)} {left : List Token}
    {call : Call} (h : Covers last left calls segments) (hcall : call ∈ calls) :
    ∃ before segment rest, segments.flatten ++ left = before ++ (segment ++ rest) ∧
      segment ≠ [] ∧ call.before.ahead = ⟨segment ++ rest, last⟩ ∧
      call.after.ahead = ⟨rest, last⟩ ∧ call.Takes last segment rest := by
  induction h with
  | nil => simp at hcall
  | @cons first calls segment segments hne hbefore hafter htakes hrest ih =>
    rcases List.mem_cons.mp hcall with rfl | hmem
    · exact ⟨[], segment, segments.flatten ++ left, by simp, hne, hbefore, hafter, htakes⟩
    · obtain ⟨before, taken, rest, htokens, hothers⟩ := ih hmem
      exact ⟨segment ++ before, taken, rest, by simp [htokens], hothers⟩

/-- In front of the first diagnostic of a run the tokens can be completed to a program,
and with the token that it is about they cannot. -/
theorem Covers.first_report {calls : List Call} {segments : List (List Token)}
    (hfinal : final.kind = .endOfInput) (h : Covers (.ok final) [] calls segments)
    (hfirst : (calls.flatMap Call.reports).head? = some diagnostic) :
    ∃ taken rest, segments.flatten = taken ++ rest ∧
      Failure.IsAt (.syntactic diagnostic) (Stream.head ⟨rest, .ok final⟩) ∧
      (∃ suffix, IsProgram (taken.map Token.kind ++ suffix)) ∧ Hopeless taken rest := by
  induction h with
  | nil => simp at hfirst
  | @cons call calls segment segments hne hbefore hafter htakes hrest ih =>
    rw [List.append_nil] at htakes
    cases hreports : call.reports with
    | cons report reports =>
      obtain rfl : report = diagnostic := by simpa [hreports] using hfirst
      have hreport : report ∈ call.reports := by simp [hreports]
      obtain ⟨taken, behind, htokens, -, hfail⟩ := htakes.fails hreport
      obtain ⟨taken', htaken, tree, suffix, hderives⟩ := hfail.completes
      rw [← List.append_cancel_right htaken] at hderives
      have hprogram := IsProgram.cons hderives .nil
      rw [List.append_nil] at hprogram
      exact ⟨taken, behind, by simp [htokens], hfail.isAt, ⟨suffix, hprogram⟩,
        hfail.hopeless hfinal⟩
    | nil =>
      obtain ⟨taken, rest, htokens, hat, ⟨suffix, hprogram⟩, hhopeless⟩ :=
        ih (by simpa [hreports] using hfirst)
      rw [htokens] at htakes
      generalize hbehind : taken ++ rest = behind at htakes
      cases htakes with
      | construct hread =>
        subst hbehind
        obtain ⟨segment', hsegment, hderives⟩ := hread.derived
        rw [← List.append_cancel_right hsegment] at hderives
        refine ⟨segment ++ taken, rest, by simp [htokens], hat, ⟨suffix, ?_⟩,
          hread.hopeless hfinal hhopeless⟩
        rw [List.map_append, List.append_assoc]
        exact .cons hderives hprogram
      | recovery _ hpush | recoveryAtEnd _ hpush => simp [Call.reports, hpush] at hreports

/-- Every diagnostic is about the earliest token that is impossible. A call that reports
starts at a token of the source, and up to the token that the diagnostic is about
a construct begins there. With that token no program begins there, or none ends
there if it is the end of the input. The first diagnostic of all is about the
first token after which nothing could make the source valid. -/
theorem parse_reports_earliest (source : String) (file : Option String) (tokens : List Token)
    (final : Token) (htokens : tokenize source file = .ok (tokens ++ [final])) :
    ∃ calls, Parser.Run (Parser.ofSource source file) calls (.ok ()) (parse source file).parser ∧
      (parse source file).parser.diagnostics.toList = calls.flatMap Call.reports ∧
      (∀ call ∈ calls, ∀ diagnostic ∈ call.reports, ∃ first culprit,
        first < tokens.length ∧ call.before.ahead = ⟨tokens.drop first, .ok final⟩ ∧
        first ≤ culprit ∧ diagnostic.IsAbout tokens final culprit ∧
        call.after.ahead = ⟨tokens.drop (culprit + 1), .ok final⟩ ∧
        (∃ tree suffix, Derives (.top tree) (kindsBetween tokens first culprit ++ suffix)) ∧
        Impossible tokens first culprit) ∧
      ∀ diagnostic, (parse source file).parser.diagnostics[0]? = some diagnostic →
        ∃ culprit, diagnostic.IsAbout tokens final culprit ∧
          (∃ suffix, IsProgram (kindsBetween tokens 0 culprit ++ suffix)) ∧
          Impossible tokens 0 culprit := by
  have hahead := ahead_of_tokenize htokens
  have hfinal := (Lexer.stream_kinds _ _ _ hahead).2 final rfl
  obtain ⟨calls, outcome, hrun, -⟩ := parse_run source file
  obtain ⟨segments, left, rfl, hcovers, hleft, herror, hreports⟩ := hrun.covers hahead
  cases outcome with
  | error error => cases herror error rfl
  | ok _ =>
    obtain rfl := hleft rfl
    simp only [List.append_nil]
    have hall : (parse source file).parser.diagnostics.toList = calls.flatMap Call.reports :=
      hreports
    refine ⟨calls, hrun, hall, fun call hcall diagnostic hreport => ?_, fun diagnostic hfirst => ?_⟩
    · obtain ⟨before, segment, rest, hsplit, hne, hbefore, hafter, htakes⟩ :=
        hcovers.exists_takes hcall
      obtain ⟨taken, behind, hsegment, rfl, hfail⟩ := htakes.fails hreport
      obtain ⟨taken', htaken, tree, suffix, hderives⟩ := hfail.completes
      rw [← List.append_cancel_right htaken] at hderives
      rw [List.append_nil] at hsplit
      have hnonempty : 0 < (segment ++ behind.tail).length := by
        have hpositive := List.length_pos_iff.mpr hne
        rw [List.length_append]
        omega
      rw [hsegment] at hsplit hbefore hnonempty
      rw [hsplit]
      refine ⟨before.length, before.length + taken.length, ?_, ?_, Nat.le_add_right _ _, ?_, ?_,
        ⟨tree, suffix, ?_⟩, (hfail.hopeless hfinal).impossible before⟩
      · rw [List.length_append]
        omega
      · rw [hbefore, List.drop_left]
      · rw [← List.append_assoc, ← List.length_append]
        exact Failure.IsAt.isAbout hfail.isAt _
      · rw [hafter, Nat.add_assoc, List.drop_length_add_append, List.drop_length_add_append,
          List.drop_one]
      · have hkinds := kindsBetween_append before taken behind 0
        rw [Nat.add_zero, List.take_zero, List.append_nil] at hkinds
        rwa [hkinds]
    · have hhead : (calls.flatMap Call.reports).head? = some diagnostic := by
        rw [← hall, List.head?_eq_getElem?, Array.getElem?_toList, hfirst]
      obtain ⟨taken, rest, hsplit, hat, ⟨suffix, hprogram⟩, hhopeless⟩ :=
        hcovers.first_report hfinal hhead
      rw [hsplit]
      refine ⟨taken.length, hat.isAbout taken, ⟨suffix, ?_⟩, ?_⟩
      · have hkinds := kindsBetween_append [] taken rest 0
        simp only [List.nil_append, List.length_nil, Nat.zero_add, Nat.add_zero, List.take_zero,
          List.append_nil] at hkinds
        rwa [hkinds]
      · simpa using hhopeless.impossible []

/-- The case of a call that is closed behind a comma. -/
theorem parse_reports_earliest_of_comma :
    tokenize "f(1, )" none = .ok ([.placed "shell" 0 (.identifier "f"),
      .placed "shell" 1 (mark '('), .placed "shell" 2 (.number "1"), .placed "shell" 3 (mark ','),
      .placed "shell" 5 (mark ')')] ++ [.placed "shell" 6 .endOfInput]) ∧
    (parse "f(1, )" none).parser.diagnostics[0]? = some ⟨.noExpression ")", ⟨5, "shell"⟩⟩ ∧
    (∃ suffix, IsProgram ([.identifier "f", mark '(', .number "1", mark ','] ++ suffix)) ∧
    ∀ suffix,
      ¬ IsProgram ([.identifier "f", mark '(', .number "1", mark ',', mark ')'] ++ suffix) := by
  have htokens : tokenize "f(1, )" none = .ok ([.placed "shell" 0 (.identifier "f"),
      .placed "shell" 1 (mark '('), .placed "shell" 2 (.number "1"), .placed "shell" 3 (mark ','),
      .placed "shell" 5 (mark ')')] ++ [.placed "shell" 6 .endOfInput]) := by
    decide +kernel
  have hreport : (parse "f(1, )" none).parser.diagnostics[0]? =
      some ⟨.noExpression ")", ⟨5, "shell"⟩⟩ := by
    decide +kernel
  obtain ⟨calls, -, -, -, hfirst⟩ := parse_reports_earliest "f(1, )" none _ _ htokens
  obtain ⟨culprit, ⟨token, htoken, hposition, -⟩, hbegun, himpossible⟩ := hfirst _ hreport
  obtain rfl : culprit = 4 := by
    have hless := (List.getElem?_eq_some_iff.mp htoken).1
    match culprit, hless with
    | 0, _ | 1, _ | 2, _ | 3, _ | 5, _ =>
      cases htoken
      exact absurd hposition (by decide +kernel)
    | 4, _ => rfl
  exact ⟨htokens, hreport, hbegun, himpossible.no_program (by decide)⟩

end Reports

end ExprLang
