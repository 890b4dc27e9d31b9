import ExprLang.Proofs.Determinism
import ExprLang.Proofs.LexicalFailure

/-!
Reading all tokens, as rules without a parser. Constructs are read one after
another, where one fails a diagnostic is given and the token that it is about is
passed over, and a lexical error behind the tokens cuts the last construct short.
The rules are deterministic, and a run of the parser gives what they give.
-/
namespace ExprLang

open Lexer (Stream)

inductive ReadsAll (last : Except LexicalError Token) :
    List Token → List Node → List Diagnostic → Prop
  | done : ReadsAll last [] [] []
  | construct {tokens node rest nodes diagnostics} (hread : ReadsTop last tokens node rest)
      (hrest : ReadsAll last rest nodes diagnostics) :
      ReadsAll last tokens (node :: nodes) diagnostics
  | recovery {tokens diagnostic rest nodes diagnostics}
      (hfail : FailsTop last tokens (.syntactic diagnostic) rest)
      (hrest : ReadsAll last rest.tail nodes diagnostics) :
      ReadsAll last tokens nodes (diagnostic :: diagnostics)
  | stuck {tokens error rest} (hfail : FailsTop last tokens (.lexical error) rest) :
      ReadsAll last tokens [] []

variable {last : Except LexicalError Token} {tokens rest : List Token} {nodes nodes' : List Node}
  {diagnostics diagnostics' : List Diagnostic}

/-- A construct begins with an ordinary token. -/
theorem ReadsTop.begins {node : Node} (h : ReadsTop last tokens node rest) :
    ∃ token tail, tokens = token :: tail ∧ token.kind ≠ .endOfInput := by
  cases h with
  | definition hkind | declaration hkind => exact ⟨_, _, rfl, by simp [hkind]⟩
  | expression hread =>
    obtain ⟨token, tail, htokens, hstart⟩ := hread.starts
    exact ⟨token, tail, htokens, hstart.ordinary.1⟩

theorem FailsTop.begins {failure : Failure} (h : FailsTop last tokens failure rest) :
    ∃ token tail, tokens = token :: tail ∧ token.kind ≠ .endOfInput := by
  cases h with
  | definitionPrototype hkind | definitionBody hkind | declaration hkind =>
    exact ⟨_, _, rfl, by simp [hkind]⟩
  | expression hend => exact ⟨_, _, rfl, hend⟩

/-- Without tokens there is neither a construct nor one that fails. -/
theorem ReadsTop.ne_nil {node : Node} (h : ReadsTop last tokens node rest) : tokens ≠ [] := by
  obtain ⟨token, tail, rfl, -⟩ := h.begins
  exact List.cons_ne_nil token tail

theorem FailsTop.ne_nil {failure : Failure} (h : FailsTop last tokens failure rest) :
    tokens ≠ [] := by
  obtain ⟨token, tail, rfl, -⟩ := h.begins
  exact List.cons_ne_nil token tail

namespace ReadsAll

theorem eq_nil (h : ReadsAll last [] nodes diagnostics) : nodes = [] ∧ diagnostics = [] := by
  cases h with
  | done => exact ⟨rfl, rfl⟩
  | construct hread => exact absurd rfl hread.ne_nil
  | recovery hfail | stuck hfail => exact absurd rfl hfail.ne_nil

/-- All tokens are read in one way. -/
theorem unique (h : ReadsAll last tokens nodes diagnostics)
    (h' : ReadsAll last tokens nodes' diagnostics') :
    nodes' = nodes ∧ diagnostics' = diagnostics := by
  induction h generalizing nodes' diagnostics' with
  | done => exact h'.eq_nil
  | construct hread hrest ih =>
    cases h' with
    | done => exact absurd rfl hread.ne_nil
    | construct hread' hrest' =>
      obtain ⟨rfl, rfl⟩ := hread.unique hread'
      obtain ⟨rfl, rfl⟩ := ih hrest'
      exact ⟨rfl, rfl⟩
    | recovery hfail | stuck hfail => exact absurd hfail hread.not_fails
  | recovery hfail hrest ih =>
    cases h' with
    | done => exact absurd rfl hfail.ne_nil
    | construct hread => exact absurd hfail hread.not_fails
    | recovery hfail' hrest' =>
      obtain ⟨hsame, rfl⟩ := hfail.unique hfail'
      obtain rfl := Failure.syntactic.inj hsame
      obtain ⟨rfl, rfl⟩ := ih hrest'
      exact ⟨rfl, rfl⟩
    | stuck hfail' => cases (hfail.unique hfail').1
  | stuck hfail =>
    cases h' with
    | done => exact absurd rfl hfail.ne_nil
    | construct hread => exact absurd hfail hread.not_fails
    | recovery hfail' => cases (hfail.unique hfail').1
    | stuck => exact ⟨rfl, rfl⟩

end ReadsAll

/-- What a call gives and reports comes in front of what the rest gives. -/
theorem Call.Takes.readsAll {call : Call} {segment : List Token}
    (h : call.Takes last segment rest) (hrest : ReadsAll last rest nodes diagnostics) :
    ReadsAll last (segment ++ rest) (call.node?.toList ++ nodes) (call.reports ++ diagnostics) := by
  cases h with
  | construct hread hkept =>
    simp only [reports, hkept, ← Array.length_toList, List.drop_length]
    exact .construct hread hrest
  | recovery hfail hreport =>
    simp only [reports, hreport, Array.toList_push, ← Array.length_toList, List.drop_left,
      List.append_assoc]
    exact .recovery hfail hrest
  | recoveryAtEnd hfail hreport =>
    simp only [reports, hreport, Array.toList_push, ← Array.length_toList, List.drop_left,
      List.append_nil]
    exact .recovery hfail hrest

/-- The calls of a run give and report what the rules do. -/
theorem Parser.Run.readsAll {p final : Parser} {calls : List Call}
    {outcome : Except LexicalError Unit} (h : Run p calls outcome final)
    (hp : p.ahead = ⟨tokens, last⟩) :
    ReadsAll last tokens (calls.filterMap Call.node?) (calls.flatMap Call.reports) := by
  induction h generalizing tokens with
  | finished htokens =>
    obtain rfl := nil_of_hasTokens hp htokens
    exact .done
  | blocked htokens =>
    obtain ⟨-, hhead⟩ := error_of_hasTokens htokens
    rw [hp] at hhead
    obtain rfl := Stream.nil_of_head_error hhead
    exact .done
  | failed htokens hnext =>
    obtain ⟨token, tail, rfl, hkind, hahead⟩ := exists_ahead_of_hasTokens hp htokens
    rcases next_cases hkind hahead with ⟨_, _, _, _, _, hrun⟩ | ⟨_, _, _, _, _, _, _, hrun⟩ |
      ⟨_, _, _, hfail, -, -⟩
    · rw [hnext] at hrun
      cases hrun
    · rw [hnext] at hrun
      cases hrun
    · exact .stuck hfail
  | @call p q r final node? calls outcome htokens hnext hrest ih =>
    obtain ⟨token, tail, rfl, hkind, hahead⟩ := exists_ahead_of_hasTokens hp htokens
    obtain ⟨segment, rest, hsegment, -, hafter, htakes⟩ := next_takes hkind hahead hnext
    have hall := htakes.readsAll (ih hafter)
    rw [hsegment]
    cases node? <;> exact hall

/-- What the rules give for the tokens of a source is what reading the source gives. -/
theorem parse_of_readsAll {source : String} {file : Option String}
    (hstream : (Lexer.ofSource source file).stream = ⟨tokens, last⟩)
    (h : ReadsAll last tokens nodes diagnostics) :
    (parse source file).outcome = last.map (fun _ => nodes) ∧
      (parse source file).parser.diagnostics.toList = diagnostics := by
  have hahead : (Parser.ofSource source file).ahead = ⟨tokens, last⟩ := hstream
  obtain ⟨calls, outcome, hrun, hnodes⟩ := parse_run source file
  obtain ⟨-, -, -, -, -, -, hreports⟩ := hrun.covers hahead
  obtain ⟨-, rfl⟩ := hrun.ahead_final hahead
  obtain ⟨rfl, rfl⟩ := (hrun.readsAll hahead).unique h
  refine ⟨?_, hreports⟩
  rw [hnodes]
  cases last <;> rfl

/-- Reading a source is one way of reading its tokens by the rules. -/
theorem parse_readsAll {source : String} {file : Option String}
    (hstream : (Lexer.ofSource source file).stream = ⟨tokens, last⟩) :
    ∃ nodes, ReadsAll last tokens nodes (parse source file).parser.diagnostics.toList ∧
      (parse source file).outcome = last.map fun _ => nodes := by
  obtain ⟨calls, outcome, hrun, -⟩ := parse_run source file
  have hall := hrun.readsAll hstream
  obtain ⟨houtcome, hdiagnostics⟩ := parse_of_readsAll hstream hall
  rw [← hdiagnostics] at hall
  exact ⟨_, hall, houtcome⟩

end ExprLang
