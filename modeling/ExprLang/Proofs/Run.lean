import ExprLang.Proofs.Constructs

/-!
Reading a whole source as a run: one call for the next construct after another,
as long as tokens are left. A call takes at least one token, and what it takes
is either one construct, which it gives, or everything up to the token that its
only diagnostic is about. So the calls of a run cover the tokens piece by piece.
-/
namespace ExprLang

open Lexer (Stream)

structure Call where
  before : Parser
  node? : Option Node
  after : Parser

def Call.reports (call : Call) : List Diagnostic :=
  call.after.diagnostics.toList.drop call.before.diagnostics.size

namespace Parser

/-- The calls from a state to the end of the input or to a lexical error, which
stands in front of the next call or stops it. -/
inductive Run : Parser → List Call → Except LexicalError Unit → Parser → Prop
  | finished {p q} (htokens : hasTokens p = .ok false q) : Run p [] (.ok ()) q
  | blocked {p q error} (htokens : hasTokens p = .error error q) : Run p [] (.error error) q
  | failed {p q final error} (htokens : hasTokens p = .ok true q)
      (hnext : next q = .error error final) : Run p [] (.error error) final
  | call {p q r final node? calls outcome} (htokens : hasTokens p = .ok true q)
      (hnext : next q = .ok node? r) (hrest : Run r calls outcome final) :
      Run p (⟨q, node?, r⟩ :: calls) outcome final

variable {last : Except LexicalError Token} {tokens rest : List Token} {p : Parser} {n : Nat}

theorem hasTokens_of_ok (token : Token) (h : p.ahead.head = .ok token) :
    hasTokens p = .ok (decide (token.kind ≠ .endOfInput)) p.look := by
  unfold hasTokens
  rw [bind_of_ok _ _ _ _ _ (peek_of_ok p token h)]
  rfl

theorem hasTokens_of_error (error : LexicalError) (h : p.ahead.head = .error error) :
    hasTokens p = .error error p.look := by
  unfold hasTokens
  rw [bind_of_error _ _ _ _ _ (peek_of_error p error h)]

/-- Whether tokens are left is what the next token tells. -/
theorem exists_of_hasTokens {some : Bool} {q : Parser} (h : hasTokens p = .ok some q) :
    q = p.look ∧ ∃ token, p.ahead.head = .ok token ∧ (some = true ↔ token.kind ≠ .endOfInput) := by
  cases hhead : p.ahead.head with
  | error error =>
    rw [hasTokens_of_error error hhead] at h
    cases h
  | ok token =>
    rw [hasTokens_of_ok token hhead] at h
    obtain ⟨rfl, rfl⟩ := EStateM.Result.ok.inj h
    exact ⟨rfl, token, rfl, by simp⟩

theorem error_of_hasTokens {error : LexicalError} {q : Parser}
    (h : hasTokens p = .error error q) : q = p.look ∧ p.ahead.head = .error error := by
  cases hhead : p.ahead.head with
  | error other =>
    rw [hasTokens_of_error other hhead] at h
    obtain ⟨rfl, rfl⟩ := EStateM.Result.error.inj h
    exact ⟨rfl, rfl⟩
  | ok token =>
    rw [hasTokens_of_ok token hhead] at h
    cases h

/-- Where tokens are left, the first of them is next. -/
theorem exists_ahead_of_hasTokens {q : Parser} (hp : p.ahead = ⟨tokens, last⟩)
    (h : hasTokens p = .ok true q) : ∃ token tail, tokens = token :: tail ∧
      token.kind ≠ .endOfInput ∧ q.ahead = ⟨token :: tail, last⟩ := by
  obtain ⟨rfl, token, hhead, hkind⟩ := exists_of_hasTokens h
  rw [hp] at hhead
  obtain ⟨tail, rfl⟩ :=
    exists_cons_of_head (Lexer.stream_kinds p.lexer _ _ hp).2 hhead (hkind.mp rfl)
  exact ⟨token, tail, rfl, hkind.mp rfl, by rw [ahead_look, hp]⟩

/-- Where no tokens are left, there are none. -/
theorem nil_of_hasTokens {q : Parser} (hp : p.ahead = ⟨tokens, last⟩)
    (h : hasTokens p = .ok false q) : tokens = [] := by
  obtain ⟨-, token, hhead, hkind⟩ := exists_of_hasTokens h
  cases tokens with
  | nil => rfl
  | cons first tokens =>
    rw [hp] at hhead
    obtain rfl := Except.ok.inj hhead
    have hordinary := (Lexer.stream_kinds p.lexer _ _ hp).1 first (List.mem_cons_self ..)
    exact absurd (hkind.mpr hordinary) (by simp)

theorem ahead_report (parser : Parser) (diagnostic : Diagnostic) :
    (parser.report diagnostic).ahead = parser.ahead :=
  rfl

/-- Recovery reports and passes over the next token. -/
theorem recover_of_ok (parser : Parser) (diagnostic : Diagnostic) (culprit : Token)
    (hhead : parser.ahead.head = .ok culprit) : recover diagnostic parser =
      .ok () ((parser.report diagnostic).pass.note (.skipped culprit)) := by
  have hadvance := advance_of_ok (parser.report diagnostic) culprit (by rw [ahead_report, hhead])
  show (advance >>= fun token => modify fun after => after.note (.skipped token))
    (parser.report diagnostic) = _
  simp only [bind, EStateM.bind, hadvance]
  rfl

/-- A construct that the rules read is what the next call gives. -/
theorem nextWithin_reads {token : Token} {node : Node}
    (h : ReadsTop last (token :: tokens) node rest) (hp : p.ahead = ⟨token :: tokens, last⟩)
    (hn : (token :: tokens).length ≤ n) :
    ∃ q, p.Leads (token :: tokens) rest q ∧
      nextWithin n p = .ok (some node) (q.note (.parsed node)) := by
  have hends : Ends false (topLevelWithin n) p (token :: tokens) (.ok (some node)) rest := by
    by_cases hdeclare : token.kind = .declare
    · exact ((topLevelWithin_gives h hp hn).2 hdeclare).ends
    · exact ((topLevelWithin_gives h hp hn).1 hdeclare).look_of_looked
  obtain ⟨q, hleads, -, hrun⟩ := hends
  exact ⟨q, hleads, by simp only [nextWithin, hrun]⟩

/-- A syntax error is reported, and the token that it is about is passed over. -/
theorem nextWithin_recovers {token : Token} {diagnostic : Diagnostic}
    (h : FailsTop last (token :: tokens) (.syntactic diagnostic) rest)
    (hp : p.ahead = ⟨token :: tokens, last⟩) (hn : (token :: tokens).length ≤ n) :
    ∃ q culprit, p.Leads (token :: tokens) rest q ∧ Stream.head ⟨rest, last⟩ = .ok culprit ∧
      nextWithin n p = .ok none ((q.report diagnostic).pass.note (.skipped culprit)) := by
  obtain ⟨q, hleads, -, hrun⟩ := topLevelWithin_stops h hp hn
  obtain ⟨culprit, hhead, -⟩ := h.isAt
  refine ⟨q, culprit, hleads, hhead, ?_⟩
  have hrecover := recover_of_ok q diagnostic culprit (by rw [hleads.ahead_eq hp, hhead])
  simp only [nextWithin, hrun, bind, EStateM.bind, hrecover]
  rfl

/-- A lexical error is final. -/
theorem nextWithin_fails {token : Token} {error : LexicalError}
    (h : FailsTop last (token :: tokens) (.lexical error) rest)
    (hp : p.ahead = ⟨token :: tokens, last⟩) (hn : (token :: tokens).length ≤ n) :
    ∃ q, p.Leads (token :: tokens) rest q ∧ nextWithin n p = .error error q := by
  obtain ⟨q, hleads, -, hrun⟩ := topLevelWithin_stops h hp hn
  exact ⟨q, hleads, by simp only [nextWithin, hrun]⟩

theorem nextWithin_eq {token : Token} (hkind : token.kind ≠ .endOfInput)
    (hp : p.ahead = ⟨token :: tokens, last⟩) (hn : (token :: tokens).length ≤ n) :
    nextWithin n p = next p := by
  have hlast := (Lexer.stream_kinds p.lexer _ _ hp).2
  have hbound := Lexer.length_tokens_le_pending p.lexer
  rw [show p.lexer.stream = ⟨token :: tokens, last⟩ from hp] at hbound
  simp only [next, bounded, nextWithin, topLevelWithin_congr hlast hkind hp hn hbound]

theorem next_reads {token : Token} {node : Node} (h : ReadsTop last (token :: tokens) node rest)
    (hp : p.ahead = ⟨token :: tokens, last⟩) :
    ∃ q, p.Leads (token :: tokens) rest q ∧ next p = .ok (some node) (q.note (.parsed node)) := by
  have hbound := Lexer.length_tokens_le_pending p.lexer
  rw [show p.lexer.stream = ⟨token :: tokens, last⟩ from hp] at hbound
  exact nextWithin_reads h hp hbound

/-- How a call ends: with a construct, with a diagnostic, or with the error. -/
theorem next_cases {token : Token} (hkind : token.kind ≠ .endOfInput)
    (hp : p.ahead = ⟨token :: tokens, last⟩) :
    (∃ node rest q, ReadsTop last (token :: tokens) node rest ∧
      p.Leads (token :: tokens) rest q ∧ next p = .ok (some node) (q.note (.parsed node))) ∨
    (∃ diagnostic culprit rest q, FailsTop last (token :: tokens) (.syntactic diagnostic) rest ∧
      p.Leads (token :: tokens) rest q ∧ Stream.head ⟨rest, last⟩ = .ok culprit ∧
      next p = .ok none ((q.report diagnostic).pass.note (.skipped culprit))) ∨
    ∃ error rest q, FailsTop last (token :: tokens) (.lexical error) rest ∧
      p.Leads (token :: tokens) rest q ∧ next p = .error error q := by
  have hlast := (Lexer.stream_kinds p.lexer _ _ hp).2
  have hbound := Lexer.length_tokens_le_pending p.lexer
  rw [show p.lexer.stream = ⟨token :: tokens, last⟩ from hp] at hbound
  rcases settles_top hlast token tokens hkind with ⟨node, rest, hread⟩ | ⟨failure, rest, hfail⟩
  · obtain ⟨q, hleads, hrun⟩ := next_reads hread hp
    exact Or.inl ⟨node, rest, q, hread, hleads, hrun⟩
  · cases failure with
    | syntactic diagnostic =>
      obtain ⟨q, culprit, hleads, hhead, hrun⟩ := nextWithin_recovers hfail hp hbound
      exact Or.inr (Or.inl ⟨diagnostic, culprit, rest, q, hfail, hleads, hhead, hrun⟩)
    | lexical error =>
      obtain ⟨q, hleads, hrun⟩ := nextWithin_fails hfail hp hbound
      exact Or.inr (Or.inr ⟨error, rest, q, hfail, hleads, hrun⟩)

/-- A call fails only at the error that stands behind all tokens. -/
theorem next_error {token : Token} {error : LexicalError} {q : Parser}
    (hkind : token.kind ≠ .endOfInput) (hp : p.ahead = ⟨token :: tokens, last⟩)
    (hnext : next p = .error error q) :
    last = .error error ∧ q.diagnostics = p.diagnostics := by
  rcases next_cases hkind hp with ⟨_, _, _, _, _, hrun⟩ | ⟨_, _, _, _, _, _, _, hrun⟩ |
    ⟨other, rest, r, hfail, hleads, hrun⟩
  · rw [hnext] at hrun
    cases hrun
  · rw [hnext] at hrun
    cases hrun
  · rw [hnext] at hrun
    obtain ⟨rfl, rfl⟩ := EStateM.Result.error.inj hrun
    exact ⟨Stream.last_of_head_error hfail.isAt, hleads.diagnostics_eq⟩

end Parser

/-- What a call takes: the tokens of a construct, or those up to the token that its
diagnostic is about, or all that are left with a diagnostic about the end. -/
inductive Call.Takes (last : Except LexicalError Token) : Call → List Token → List Token → Prop
  | construct {before after node segment rest} (hread : ReadsTop last (segment ++ rest) node rest)
      (hkept : after.diagnostics = before.diagnostics) :
      Takes last ⟨before, some node, after⟩ segment rest
  | recovery {before after diagnostic segment culprit rest}
      (hfail : FailsTop last (segment ++ culprit :: rest) (.syntactic diagnostic) (culprit :: rest))
      (hreport : after.diagnostics = before.diagnostics.push diagnostic) :
      Takes last ⟨before, none, after⟩ (segment ++ [culprit]) rest
  | recoveryAtEnd {before after diagnostic segment}
      (hfail : FailsTop last segment (.syntactic diagnostic) [])
      (hreport : after.diagnostics = before.diagnostics.push diagnostic) :
      Takes last ⟨before, none, after⟩ segment []

inductive Covers (last : Except LexicalError Token) (left : List Token) :
    List Call → List (List Token) → Prop
  | nil : Covers last left [] []
  | cons {call calls segment segments} (hne : segment ≠ [])
      (hbefore : call.before.ahead = ⟨segment ++ (segments.flatten ++ left), last⟩)
      (hafter : call.after.ahead = ⟨segments.flatten ++ left, last⟩)
      (htakes : call.Takes last segment (segments.flatten ++ left))
      (hrest : Covers last left calls segments) :
      Covers last left (call :: calls) (segment :: segments)

section Coverage

variable {last : Except LexicalError Token} {tokens segment rest : List Token} {p final : Parser}
  {call : Call}

theorem Call.Takes.diagnostics_eq (h : call.Takes last segment rest) :
    call.after.diagnostics.toList = call.before.diagnostics.toList ++ call.reports := by
  cases h with
  | construct _ hkept => simp [reports, hkept]
  | recovery _ hreport | recoveryAtEnd _ hreport => simp [reports, hreport]

/-- A call takes what is there up to what it leaves. -/
theorem Parser.next_takes {token : Token} {node? : Option Node} {q : Parser}
    (hkind : token.kind ≠ .endOfInput) (hp : p.ahead = ⟨token :: tokens, last⟩)
    (hnext : next p = .ok node? q) : ∃ segment rest, token :: tokens = segment ++ rest ∧
      segment ≠ [] ∧ q.ahead = ⟨rest, last⟩ ∧ Call.Takes last ⟨p, node?, q⟩ segment rest := by
  rcases next_cases hkind hp with ⟨node, rest, r, hread, hleads, hrun⟩ |
    ⟨diagnostic, culprit, rest, r, hfail, hleads, hhead, hrun⟩ | ⟨error, rest, r, -, -, hrun⟩
  · rw [hnext] at hrun
    obtain ⟨rfl, rfl⟩ := EStateM.Result.ok.inj hrun
    have hahead := hleads.ahead_eq hp
    have hkept := hleads.diagnostics_eq
    have hless := hread.length_lt
    obtain ⟨segment, htokens, -⟩ := hleads
    rw [htokens] at hread hless
    refine ⟨segment, rest, htokens, ?_, hahead, .construct hread hkept⟩
    rintro rfl
    simp at hless
  · rw [hnext] at hrun
    obtain ⟨rfl, rfl⟩ := EStateM.Result.ok.inj hrun
    have hahead := ahead_pass_tail (r.report diagnostic) rest last (hleads.ahead_eq hp)
    have hreport : (r.report diagnostic).pass.diagnostics = p.diagnostics.push diagnostic := by
      rw [diagnostics_pass, ← hleads.diagnostics_eq]
      rfl
    obtain ⟨segment, htokens, -⟩ := hleads
    cases rest with
    | nil =>
      rw [htokens, List.append_nil] at hfail
      refine ⟨segment, [], htokens, ?_, hahead, .recoveryAtEnd hfail hreport⟩
      rintro rfl
      simp at htokens
    | cons first rest =>
      rw [htokens] at hfail
      exact ⟨segment ++ [first], rest, by simp [htokens], by simp, hahead,
        .recovery hfail hreport⟩
  · rw [hnext] at hrun
    cases hrun

/-- The calls of a run take segments of the tokens one after another, until none is
left or the error behind them is met, and the diagnostics are those that the
calls report. -/
theorem Parser.Run.covers {calls : List Call} {outcome : Except LexicalError Unit}
    (h : Run p calls outcome final) (hp : p.ahead = ⟨tokens, last⟩) :
    ∃ segments left, tokens = segments.flatten ++ left ∧ Covers last left calls segments ∧
      (outcome = .ok () → left = []) ∧ (∀ error, outcome = .error error → last = .error error) ∧
      final.diagnostics.toList = p.diagnostics.toList ++ calls.flatMap Call.reports := by
  induction h generalizing tokens with
  | @finished p q htokens =>
    obtain ⟨rfl, -⟩ := exists_of_hasTokens htokens
    have hnil := nil_of_hasTokens hp htokens
    exact ⟨[], tokens, rfl, .nil, fun _ => hnil, by simp, by simp [diagnostics_look]⟩
  | @blocked p q error htokens =>
    obtain ⟨rfl, hhead⟩ := error_of_hasTokens htokens
    rw [hp] at hhead
    have hlast := Stream.last_of_head_error hhead
    exact ⟨[], tokens, rfl, .nil, by simp, by simpa using hlast, by simp [diagnostics_look]⟩
  | @failed p q final error htokens hnext =>
    obtain ⟨token, tail, rfl, hkind, hahead⟩ := exists_ahead_of_hasTokens hp htokens
    obtain ⟨rfl, -⟩ := exists_of_hasTokens htokens
    obtain ⟨hlast, hkept⟩ := next_error hkind hahead hnext
    refine ⟨[], token :: tail, rfl, .nil, by simp, by simpa using hlast, ?_⟩
    rw [hkept, diagnostics_look]
    simp
  | @call p q r final node? calls outcome htokens hnext hrest ih =>
    obtain ⟨token, tail, rfl, hkind, hahead⟩ := exists_ahead_of_hasTokens hp htokens
    obtain ⟨rfl, -⟩ := exists_of_hasTokens htokens
    obtain ⟨segment, rest, hsegment, hne, hafter, htakes⟩ := next_takes hkind hahead hnext
    obtain ⟨segments, left, rfl, hcovers, hleft, hlast, hreports⟩ := ih hafter
    refine ⟨segment :: segments, left, by simp [hsegment], ?_, hleft, hlast, ?_⟩
    · exact .cons hne (by rw [hahead, hsegment]) hafter htakes hcovers
    · rw [hreports, htakes.diagnostics_eq, diagnostics_look]
      simp

end Coverage

namespace Parser

/-- As long as the bound is large enough, the nodes are those that the calls of a run
give. -/
theorem exists_run {tokens : List Token} {last : Except LexicalError Token} (n : Nat) (p : Parser)
    (hp : p.ahead = ⟨tokens, last⟩) (hn : tokens.length ≤ n) :
    ∃ calls outcome final, Run p calls outcome final ∧ nodesWithin n p = match outcome with
      | .ok () => .ok (calls.filterMap Call.node?) final
      | .error error => .error error final := by
  induction n generalizing p tokens with
  | zero =>
    obtain rfl := List.length_eq_zero_iff.mp (Nat.le_zero.mp hn)
    cases hhead : p.ahead.head with
    | error error =>
      refine ⟨[], _, _, .blocked (hasTokens_of_error error hhead), ?_⟩
      exact bind_of_error _ _ _ _ _ (peek_of_error p error hhead)
    | ok token =>
      have hend : token.kind = .endOfInput := by
        refine (Lexer.stream_kinds p.lexer _ _ hp).2 token ?_
        rw [hp] at hhead
        exact hhead
      refine ⟨[], .ok (), p.look, .finished ?_, bind_of_ok _ _ _ _ _ (peek_of_ok p token hhead)⟩
      rw [hasTokens_of_ok token hhead, hend]
      rfl
  | succ n ih =>
    cases hhead : p.ahead.head with
    | error error =>
      have htokens := hasTokens_of_error error hhead
      exact ⟨[], _, _, .blocked htokens, bind_of_error _ _ _ _ _ htokens⟩
    | ok token =>
      have htokens := hasTokens_of_ok token hhead
      by_cases hkind : token.kind = .endOfInput
      · simp only [hkind, ne_eq, not_true_eq_false, decide_false] at htokens
        exact ⟨[], .ok (), p.look, .finished htokens, bind_of_ok _ _ _ _ _ htokens⟩
      · simp only [hkind, ne_eq, not_false_eq_true, decide_true] at htokens
        obtain ⟨first, tail, rfl, hfirst, hahead⟩ := exists_ahead_of_hasTokens hp htokens
        have heq := nextWithin_eq hfirst hahead hn
        have hnodes : nodesWithin (n + 1) p = (do
            let node ← nextWithin (n + 1)
            return node.toList ++ (← nodesWithin n)) p.look :=
          bind_of_ok _ _ _ _ _ htokens
        cases hnext : next p.look with
        | error error final =>
          refine ⟨[], _, _, .failed htokens hnext, ?_⟩
          rw [hnodes, bind_of_error _ _ _ _ _ (heq.trans hnext)]
        | ok node? q =>
          obtain ⟨segment, rest, hsegment, hne, hafter, -⟩ := next_takes hfirst hahead hnext
          have hshort : rest.length ≤ n := by
            have hlength := congrArg List.length hsegment
            have hpositive := List.length_pos_iff.mpr hne
            simp only [List.length_cons, List.length_append] at hlength hn
            omega
          obtain ⟨calls, outcome, final, hrun, hrest⟩ := ih q hafter hshort
          refine ⟨_, outcome, final, .call htokens hnext hrun, ?_⟩
          rw [hnodes, bind_of_ok _ _ _ _ _ (heq.trans hnext)]
          cases outcome with
          | error error => rw [bind_of_error _ _ _ _ _ hrest]
          | ok _ =>
            rw [bind_of_ok _ _ _ _ _ hrest]
            cases node? <;> rfl

end Parser

/-- Reading a source is a run, and its nodes are those that the calls give. -/
theorem parse_run (source : String) (file : Option String) : ∃ calls outcome,
    Parser.Run (Parser.ofSource source file) calls outcome (parse source file).parser ∧
      (parse source file).outcome = outcome.map fun _ => calls.filterMap Call.node? := by
  obtain ⟨calls, outcome, final, hrun, hnodes⟩ :=
    Parser.exists_run _ (Parser.ofSource source file) rfl (Lexer.length_tokens_le_pending _)
  have hparse : Parser.nodes (Parser.ofSource source file) = _ := hnodes
  refine ⟨calls, outcome, ?_⟩
  simp only [parse, hparse]
  cases outcome with
  | ok _ => exact ⟨hrun, rfl⟩
  | error error => exact ⟨hrun, rfl⟩

/-- A source that can be split into tokens has them ahead, with the end of the input
behind them. -/
theorem exists_of_tokenize {source : String} {file : Option String} {all : List Token}
    (h : tokenize source file = .ok all) : ∃ tokens final, all = tokens ++ [final] ∧
      (Parser.ofSource source file).ahead = ⟨tokens, .ok final⟩ ∧ final.kind = .endOfInput := by
  have htokens := tokenize_eq source file _ _ rfl
  rw [h] at htokens
  cases hlast : (Lexer.ofSource source file).stream.last with
  | error error =>
    rw [hlast] at htokens
    cases htokens
  | ok final =>
    rw [hlast] at htokens
    refine ⟨_, final, Except.ok.inj htokens, ?_, ?_⟩
    · rw [← hlast]
      rfl
    · exact (Lexer.stream_kinds _ _ _ rfl).2 final hlast

theorem ahead_of_tokenize {source : String} {file : Option String} {tokens : List Token}
    {final : Token} (h : tokenize source file = .ok (tokens ++ [final])) :
    (Parser.ofSource source file).ahead = ⟨tokens, .ok final⟩ := by
  obtain ⟨tokens', final', htokens, hahead, -⟩ := exists_of_tokenize h
  obtain ⟨rfl, hfinal⟩ := List.append_inj' htokens rfl
  rw [hahead, (List.cons.inj hfinal).1]

end ExprLang
