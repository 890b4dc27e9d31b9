import ExprLang.Proofs.Run
import ExprLang.Proofs.Tiling

/-!
The accounts of a run. Each call answers for the tokens it takes, with a node or
with one diagnostic about the last of them. Only the last call may have to report
the end of the input instead, so no place is reported twice and the diagnostics
come in the order of the text.
-/
namespace ExprLang

open Token.Kind (mark)

/-- How a call answers for the tokens it takes in front of the rest: it gives a node
and reports nothing, or it gives none and reports one diagnostic, at the start of
the last of the tokens or, if it is the last call, at the end of the input. -/
structure Call.Answers (final : Token) (isLast : Prop) (call : Call)
    (segment rest : List Token) : Prop where
  ne_nil : segment ≠ []
  before : call.before.ahead = ⟨segment ++ rest, .ok final⟩
  after : call.after.ahead = ⟨rest, .ok final⟩
  node_or_report : (∃ node, call.node? = some node ∧ call.reports = []) ∨
    (call.node? = none ∧ ∃ diagnostic, call.reports = [diagnostic] ∧
      ((∃ token, segment.getLast? = some token ∧ diagnostic.position = token.span.start) ∨
        isLast ∧ diagnostic.position = final.span.start))

section Answers

variable {final : Token} {call : Call} {calls : List Call} {segment rest : List Token}
  {segments : List (List Token)}

/-- What a call reports stands at the start of the last token it takes, or at the
end of the input with nothing left. -/
theorem Call.Takes.node_or_report (h : call.Takes (.ok final) segment rest) :
    (∃ node, call.node? = some node ∧ call.reports = []) ∨
    (call.node? = none ∧ ∃ diagnostic, call.reports = [diagnostic] ∧
      ((∃ token, segment.getLast? = some token ∧ diagnostic.position = token.span.start) ∨
        rest = [] ∧ diagnostic.position = final.span.start)) := by
  cases h with
  | construct hread hkept => exact Or.inl ⟨_, rfl, by simp [reports, hkept]⟩
  | @recovery before after diagnostic segment culprit rest hfail hreport =>
    obtain ⟨token, hhead, hposition, -⟩ := hfail.isAt
    obtain rfl := Except.ok.inj hhead
    exact Or.inr ⟨rfl, diagnostic, by simp [reports, hreport],
      Or.inl ⟨culprit, by simp, hposition⟩⟩
  | @recoveryAtEnd before after diagnostic segment hfail hreport =>
    obtain ⟨token, hhead, hposition, -⟩ := hfail.isAt
    obtain rfl := Except.ok.inj hhead
    exact Or.inr ⟨rfl, diagnostic, by simp [reports, hreport], Or.inr ⟨rfl, hposition⟩⟩

/-- Where no tokens are left there are no calls. -/
theorem Covers.eq_nil {last : Except LexicalError Token} {left : List Token}
    (h : Covers last left calls segments) (hnone : segments.flatten = []) : calls = [] := by
  cases h with
  | nil => rfl
  | cons hne => exact absurd (List.append_eq_nil_iff.mp hnone).1 hne

theorem Covers.length_eq {last : Except LexicalError Token} {left : List Token}
    (h : Covers last left calls segments) : segments.length = calls.length := by
  induction h with
  | nil => rfl
  | cons _ _ _ _ _ ih => simp only [List.length_cons, ih]

/-- There are no more calls than tokens. -/
theorem Covers.length_le {last : Except LexicalError Token} {left : List Token}
    (h : Covers last left calls segments) : calls.length ≤ segments.flatten.length := by
  induction h with
  | nil => exact Nat.zero_le _
  | cons hne _ _ _ _ ih =>
    have hpositive := List.length_pos_iff.mpr hne
    simp only [List.length_cons, List.flatten_cons, List.length_append]
    omega

/-- Every call of a run answers for its segment. -/
theorem Covers.answers (h : Covers (.ok final) [] calls segments) (i : Nat)
    (hcall : calls[i]? = some call) (hsegment : segments[i]? = some segment) :
    call.Answers final (i + 1 = calls.length) segment (segments.drop (i + 1)).flatten := by
  induction h generalizing i with
  | nil => simp at hcall
  | @cons first calls taken segments hne hbefore hafter htakes hrest ih =>
    cases i with
    | zero =>
      obtain rfl : first = call := by simpa using hcall
      obtain rfl : taken = segment := by simpa using hsegment
      rw [List.append_nil] at hbefore hafter htakes
      refine ⟨hne, hbefore, hafter, ?_⟩
      refine htakes.node_or_report.imp_right fun ⟨hnode, diagnostic, hreports, hplace⟩ => ?_
      refine ⟨hnode, diagnostic, hreports, ?_⟩
      refine hplace.imp_right fun ⟨hnone, hposition⟩ => ⟨?_, hposition⟩
      rw [hrest.eq_nil hnone]
      rfl
    | succ i =>
      simpa using ih i (by simpa using hcall) (by simpa using hsegment)

/-- Every call gives a node or a diagnostic. -/
theorem Covers.count (h : Covers (.ok final) [] calls segments) :
    (calls.filterMap Call.node?).length + (calls.flatMap Call.reports).length = calls.length := by
  induction h with
  | nil => rfl
  | @cons call calls segment segments hne hbefore hafter htakes hrest ih =>
    rcases htakes.node_or_report with ⟨node, hnode, hreports⟩ | ⟨hnode, diagnostic, hreports, -⟩
    · simp only [List.filterMap_cons, hnode, List.flatMap_cons, hreports, List.length_cons,
        List.length_append, List.length_nil]
      omega
    · simp only [List.filterMap_cons, hnode, List.flatMap_cons, hreports, List.length_cons,
        List.length_append, List.length_nil]
      omega

/-- The places that are reported are starts of different tokens, in order. -/
theorem Covers.positions_sublist (h : Covers (.ok final) [] calls segments) :
    ((calls.flatMap Call.reports).map Diagnostic.position).Sublist
      ((segments.flatten ++ [final]).map fun token => token.span.start) := by
  induction h with
  | nil => exact List.nil_sublist _
  | @cons call calls segment segments hne hbefore hafter htakes hrest ih =>
    simp only [List.flatMap_cons, List.map_append, List.flatten_cons, List.append_assoc]
    rw [List.map_append] at ih
    rcases htakes.node_or_report with ⟨node, -, hreports⟩ | ⟨-, diagnostic, hreports, hplace⟩
    · rw [hreports]
      exact ih.trans (List.sublist_append_right _ _)
    · rw [hreports]
      rcases hplace with ⟨token, htoken, hposition⟩ | ⟨hnone, hposition⟩
      · refine List.Sublist.append ?_ ih
        rw [List.map_singleton, hposition, List.singleton_sublist]
        exact List.mem_map_of_mem (List.mem_of_getLast? htoken)
      · rw [List.append_nil] at hnone
        rw [hrest.eq_nil hnone, hnone]
        simp [hposition]

end Answers

/-- There are no more characters than bytes. -/
theorem length_le_utf8ByteSize (text : String) : text.toList.length ≤ text.utf8ByteSize := by
  have hlist : ∀ cs : List Char, cs.length ≤ (String.ofList cs).utf8ByteSize := by
    intro cs
    induction cs with
    | nil => exact Nat.zero_le _
    | cons c cs ih =>
      have hpositive := c.utf8Size_pos
      rw [String.ofList_cons, String.utf8ByteSize_append, String.utf8ByteSize_singleton,
        List.length_cons]
      omega
  have hle := hlist text.toList
  rwa [String.ofList_toList] at hle

/-- Every run accounts for every token once and makes progress. The calls of reading
a source that can be split into tokens take non-empty segments that make up the
tokens. Each of them gives one node or reports one diagnostic, at the start of
the last token it takes or, in the last call, at the end of the input. So there
are as many nodes and diagnostics as calls, no more calls than tokens, and the
diagnostics are about tokens that start later and later. -/
theorem parse_accounts (source : String) (file : Option String) (tokens : List Token)
    (final : Token) (hsize : source.utf8ByteSize < UInt32.size)
    (htokens : tokenize source file = .ok (tokens ++ [final])) :
    ∃ (calls : List Call) (segments : List (List Token)) (nodes : List Node),
      Parser.Run (Parser.ofSource source file) calls (.ok ()) (parse source file).parser ∧
      (parse source file).outcome = .ok nodes ∧ nodes = calls.filterMap Call.node? ∧
      segments.length = calls.length ∧ segments.flatten = tokens ∧
      (∀ (i : Nat) (call : Call) (segment : List Token), calls[i]? = some call →
        segments[i]? = some segment →
        call.Answers final (i + 1 = calls.length) segment (segments.drop (i + 1)).flatten) ∧
      calls.length ≤ tokens.length ∧
      nodes.length + (parse source file).parser.diagnostics.size = calls.length ∧
      (parse source file).parser.diagnostics.toList = calls.flatMap Call.reports ∧
      (parse source file).parser.diagnostics.toList.Pairwise
        (fun first second => first.position.offset < second.position.offset) ∧
      ∀ diagnostic ∈ (parse source file).parser.diagnostics,
        ∃ token ∈ tokens ++ [final], diagnostic.position = token.span.start := by
  have hahead := ahead_of_tokenize htokens
  have hstream : (Lexer.ofSource source file).stream = ⟨tokens, .ok final⟩ := hahead
  obtain ⟨calls, outcome, hrun, hnodes⟩ := parse_run source file
  obtain ⟨segments, left, rfl, hcovers, hleft, herror, hreports⟩ := hrun.covers hahead
  cases outcome with
  | error error => cases herror error rfl
  | ok _ =>
    obtain rfl := hleft rfl
    simp only [List.append_nil] at hstream ⊢
    have hsublist := hcovers.positions_sublist
    have htiles := Lexer.tiles (Lexer.ofSource source file) rfl
    rw [hstream] at htiles
    have hlength := length_le_utf8ByteSize source
    have hfits : (Lexer.ofSource source file).offset +
        (Lexer.ofSource source file).rest.length < UInt32.size := by
      show 0 + source.toList.length < UInt32.size
      omega
    have hincreasing : ((segments.flatten ++ [final]).map fun token => token.span.start).Pairwise
        fun first second => first.offset < second.offset :=
      List.pairwise_map.mpr (htiles.increasing hfits).2
    have hall : (parse source file).parser.diagnostics.toList = calls.flatMap Call.reports :=
      hreports
    refine ⟨calls, segments, _, hrun, hnodes, rfl, hcovers.length_eq, rfl,
      fun i call segment hcall hsegment => hcovers.answers i hcall hsegment, hcovers.length_le,
      ?_, hall, ?_, ?_⟩
    · rw [← Array.length_toList, hall]
      exact hcovers.count
    · rw [hall]
      have hreported := hincreasing.sublist hsublist
      rwa [List.pairwise_map] at hreported
    · intro diagnostic hmem
      rw [← Array.mem_toList_iff, hall] at hmem
      obtain ⟨token, htoken, hposition⟩ :=
        List.mem_map.mp (hsublist.subset (List.mem_map_of_mem hmem))
      exact ⟨token, htoken, hposition.symm⟩

/-- The case of a stray parenthesis between two constructs. -/
theorem parse_accounts_of_stray : "1 + ) 2".utf8ByteSize < UInt32.size ∧
    tokenize "1 + ) 2" none = .ok ([.placed "shell" 0 (.number "1"), .placed "shell" 2 (mark '+'),
      .placed "shell" 4 (mark ')'), .placed "shell" 6 (.number "2")] ++
      [.placed "shell" 7 .endOfInput]) ∧
    ∃ (calls : List Call) (nodes : List Node),
      Parser.Run (Parser.ofSource "1 + ) 2" none) calls (.ok ()) (parse "1 + ) 2" none).parser ∧
      (parse "1 + ) 2" none).outcome = .ok nodes ∧ calls.length ≤ 4 ∧
      nodes.length + (parse "1 + ) 2" none).parser.diagnostics.size = calls.length := by
  have hsize : "1 + ) 2".utf8ByteSize < UInt32.size := by decide +kernel
  have htokens : tokenize "1 + ) 2" none = .ok ([.placed "shell" 0 (.number "1"),
      .placed "shell" 2 (mark '+'), .placed "shell" 4 (mark ')'),
      .placed "shell" 6 (.number "2")] ++ [.placed "shell" 7 .endOfInput]) := by
    decide +kernel
  obtain ⟨calls, segments, nodes, hrun, hnodes, -, -, -, -, hlength, hcount, -⟩ :=
    parse_accounts "1 + ) 2" none _ _ hsize htokens
  exact ⟨hsize, htokens, calls, nodes, hrun, hnodes, hlength, hcount⟩

end ExprLang
