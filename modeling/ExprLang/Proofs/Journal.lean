import ExprLang.Proofs.Run

/-!
What a call writes into the journal. A look at a token that was not scanned before
writes about it, a second look writes nothing, and passing over it writes nothing
more. So a call writes about the tokens it takes and, except behind a declaration
and behind a token that it passes over after an error, about the one that follows,
and then the lines that conclude it.
-/
namespace ExprLang

open Lexer (Stream)

namespace Event

def scanned? : Event → Option Token
  | scanned token => some token
  | _ => none

def stuck? : Event → Option LexicalError
  | stuck error => some error
  | _ => none

def parsed? : Event → Option Node
  | parsed node => some node
  | _ => none

def reported? : Event → Option Diagnostic
  | reported diagnostic => some diagnostic
  | _ => none

def scans (tokens : List Token) : List Event := tokens.map scanned

end Event

open Event (scans)

/-- What a first look at the stream writes. -/
def Lexer.Stream.sight (stream : Stream) : List Event := (Event.ofScan? stream.head).toList

theorem Lexer.Stream.sight_cons {token : Token} {tokens : List Token}
    {last : Except LexicalError Token} (hkind : token.kind ≠ .endOfInput) :
    sight ⟨token :: tokens, last⟩ = [.scanned token] := by
  simp [sight, head, Event.ofScan?, hkind]

theorem Lexer.Stream.sight_of_error {error : LexicalError} :
    sight ⟨[], .error error⟩ = [.stuck error] :=
  rfl

theorem Lexer.Stream.sight_of_final {final : Token} (hkind : final.kind = .endOfInput) :
    sight ⟨[], .ok final⟩ = [] := by
  simp [sight, head, Event.ofScan?, hkind]

/-- A look finds at most one thing to write about. -/
theorem Lexer.Stream.tail_sight (stream : Stream) : stream.sight.tail = [] := by
  unfold sight
  cases Event.ofScan? stream.head <;> rfl

namespace Parser

variable {p q : Parser} {token : Token} {tokens taken rest : List Token}
  {last : Except LexicalError Token}

/-- A parser that has looked at the next token has scanned it. -/
theorem exists_scanned (h : p.look = p) : ∃ outcome, p.lexer.scanned = some outcome := by
  rw [← h, lexer_look]
  exact ⟨_, Lexer.scanned_looked p.lexer⟩

theorem look_of_scanned {outcome : Except LexicalError Token}
    (h : p.lexer.scanned = some outcome) : p.look = p := by
  simp only [look, afterPeek, Lexer.looked_of_scanned p.lexer outcome h, h]

/-- Writing into the journal changes nothing about the next token. -/
theorem look_note (h : p.look = p) (event : Event) : (p.note event).look = p.note event := by
  obtain ⟨outcome, hscanned⟩ := exists_scanned h
  exact look_of_scanned (p := p.note event) hscanned

theorem look_report (h : p.look = p) (diagnostic : Diagnostic) :
    (p.report diagnostic).look = p.report diagnostic := by
  obtain ⟨outcome, hscanned⟩ := exists_scanned h
  exact look_of_scanned (p := p.report diagnostic) hscanned

theorem journal_note (p : Parser) (event : Event) :
    (p.note event).journal.toList = p.journal.toList ++ [event] := by
  simp [note]

theorem journal_report (p : Parser) (diagnostic : Diagnostic) :
    (p.report diagnostic).journal.toList = p.journal.toList ++ [.reported diagnostic] := by
  simp [report, note]

/-- A first look writes about what it finds. -/
theorem journal_look (h : p.lexer.scanned = none) :
    p.look.journal.toList = p.journal.toList ++ p.ahead.sight := by
  have hlooked := Lexer.scanned_looked p.lexer
  rw [← Lexer.head_stream] at hlooked
  simp only [look, afterPeek, h, hlooked, ahead, Stream.sight]
  cases Event.ofScan? p.lexer.stream.head with
  | none => simp
  | some event => exact journal_note _ event

theorem scanned_pass (hp : p.ahead = ⟨token :: tokens, last⟩) : p.pass.lexer.scanned = none := by
  have hhead : p.lexer.next = .ok token := by
    rw [← Lexer.head_stream]
    exact congrArg Stream.head hp
  have hkind := (Lexer.stream_kinds p.lexer _ _ hp).1 token (List.mem_cons_self ..)
  rw [lexer_pass, Lexer.passed_of_ordinary p.lexer token hhead hkind]

theorem journal_look_pass (hp : p.ahead = ⟨token :: tokens, last⟩) :
    p.pass.look.journal.toList = p.look.journal.toList ++ Stream.sight ⟨tokens, last⟩ := by
  rw [journal_look (scanned_pass hp), ahead_pass p token tokens last hp]
  rfl

/-- On the way over some tokens each of them is written about, and what is then next. Only
the first one was looked at before. -/
theorem journal_look_skip (hp : p.ahead = ⟨taken ++ rest, last⟩) :
    (skip taken.length p).look.journal.toList =
      p.look.journal.toList ++ (scans taken ++ Stream.sight ⟨rest, last⟩).tail := by
  induction taken generalizing p with
  | nil => simp [skip, scans, Stream.tail_sight]
  | cons token taken ih =>
    have hkinds := (Lexer.stream_kinds p.lexer _ _ hp).1
    have hpass := ahead_pass p token (taken ++ rest) last hp
    have hcons : p.ahead = ⟨token :: (taken ++ rest), last⟩ := hp
    have hstep := journal_look_pass hcons
    show (skip taken.length p.pass).look.journal.toList = _
    rw [ih hpass, hstep, List.append_assoc]
    cases taken with
    | nil => simp [scans, Stream.tail_sight]
    | cons next taken =>
      rw [List.cons_append, Stream.sight_cons (hkinds next (by simp))]
      simp [scans]

theorem Leads.journal_look (h : p.Leads (taken ++ rest) rest q)
    (hp : p.ahead = ⟨taken ++ rest, last⟩) :
    q.look.journal.toList =
      p.look.journal.toList ++ (scans taken ++ Stream.sight ⟨rest, last⟩).tail := by
  obtain ⟨taken', htaken, hq⟩ := h
  rw [← List.append_cancel_right htaken] at hq
  rw [hq, journal_look_skip hp]

end Parser

/-- How a call concludes that takes a segment of the tokens in front of the rest: the node
it gives, the lines it writes last, and whether the token behind the segment has been
looked at by then. Behind a declaration it has not, and not behind the token that is
passed over after an error. -/
inductive Concludes (last : Except LexicalError Token) (segment rest : List Token) :
    Option Node → List Event → Bool → Prop
  | construct {node} (hkind : ∀ token ∈ segment.head?, token.kind ≠ .declare) :
      Concludes last segment rest (some node) [.parsed node] true
  | declaration {node token} (hhead : segment.head? = some token) (hkind : token.kind = .declare) :
      Concludes last segment rest (some node) [.parsed node] false
  | recovery {diagnostic culprit} (hculprit : segment.getLast? = some culprit)
      (hposition : diagnostic.position = culprit.span.start)
      (hfound : diagnostic.cause.found = culprit.kind.describe) :
      Concludes last segment rest none [.reported diagnostic, .skipped culprit] false
  | recoveryAtEnd {diagnostic culprit} (hnone : rest = []) (hculprit : last = .ok culprit)
      (hposition : diagnostic.position = culprit.span.start)
      (hfound : diagnostic.cause.found = culprit.kind.describe) :
      Concludes last segment rest none [.reported diagnostic, .skipped culprit] true

/-- What a call writes that starts with a look at its first token done: it traces the
other tokens of its segment, the token behind it if that is looked at, and then
concludes. -/
structure Call.Writes (last : Except LexicalError Token) (segment rest : List Token) (call : Call)
    (lines : List Event) (ahead : Bool) : Prop where
  concludes : Concludes last segment rest call.node? lines ahead
  journal : call.after.journal.toList = call.before.journal.toList ++
    (scans segment.tail ++ if ahead then Stream.sight ⟨rest, last⟩ else []) ++ lines
  look : call.after.look.journal.toList = call.after.journal.toList ++
    if ahead then [] else Stream.sight ⟨rest, last⟩
  calm : ahead = true → ∃ follower, Stream.head ⟨rest, last⟩ = .ok follower
  reports : lines.filterMap Event.reported? = call.reports

namespace Parser

variable {p q : Parser} {token : Token} {tokens rest : List Token}
  {last : Except LexicalError Token} {n : Nat}

theorem reports_eq_nil {call : Call} (h : call.after.diagnostics = call.before.diagnostics) :
    call.reports = [] := by
  simp [Call.reports, h]

theorem reports_eq_singleton {call : Call} {diagnostic : Diagnostic}
    (h : call.after.diagnostics = call.before.diagnostics.push diagnostic) :
    call.reports = [diagnostic] := by
  simp [Call.reports, h]

/-- A construct other than a declaration is looked behind before it is written about. -/
theorem nextWithin_construct {node : Node} (hkind : token.kind ≠ .declare)
    (h : ReadsTop last (token :: tokens) node rest) (hp : p.ahead = ⟨token :: tokens, last⟩)
    (hn : (token :: tokens).length ≤ n) (hlook : p.look = p) :
    ∃ q segment, nextWithin n p = .ok (some node) q ∧ token :: tokens = segment ++ rest ∧
      segment ≠ [] ∧ q.ahead = ⟨rest, last⟩ ∧
      Call.Writes last segment rest ⟨p, some node, q⟩ [.parsed node] true := by
  obtain ⟨q, hleads, hlooked, hrun⟩ := (topLevelWithin_gives h hp hn).1 hkind
  have hnext : nextWithin n p = .ok (some node) (q.note (.parsed node)) := by
    simp only [nextWithin, hrun]
  have hkept : (q.note (.parsed node)).diagnostics = p.diagnostics := hleads.diagnostics_eq
  have hfollower : ∃ follower, Stream.head ⟨rest, last⟩ = .ok follower := by
    cases h with
    | declaration hdeclare => exact absurd hdeclare hkind
    | definition _ _ hread | expression hread =>
      obtain ⟨follower, hfollower, -⟩ := hread.expression_follower
      exact ⟨follower, hfollower⟩
  obtain ⟨segment, hsegment, -⟩ := id hleads
  have hless := h.length_lt
  have hahead := hleads.ahead_eq hp
  rw [hsegment] at hleads hp hless
  have hjournal := hleads.journal_look hp
  rw [hlook, hlooked rfl] at hjournal
  cases segment with
  | nil => simp at hless
  | cons first segment =>
    obtain ⟨rfl, -⟩ := List.cons.inj hsegment
    refine ⟨_, token :: segment, hnext, hsegment, by simp, hahead, ?_⟩
    refine ⟨.construct (by simpa using hkind), ?_, ?_, fun _ => hfollower, ?_⟩
    · rw [journal_note, hjournal]
      simp [scans]
    · rw [look_note (hlooked rfl)]
      simp
    · rw [reports_eq_nil hkept]
      rfl

/-- Nothing is looked at behind a declaration. -/
theorem nextWithin_declaration {node : Node} (hkind : token.kind = .declare)
    (h : ReadsTop last (token :: tokens) node rest) (hp : p.ahead = ⟨token :: tokens, last⟩)
    (hn : (token :: tokens).length ≤ n) (hlook : p.look = p) :
    ∃ q segment, nextWithin n p = .ok (some node) q ∧ token :: tokens = segment ++ rest ∧
      segment ≠ [] ∧ q.ahead = ⟨rest, last⟩ ∧
      Call.Writes last segment rest ⟨p, some node, q⟩ [.parsed node] false := by
  obtain ⟨close, q, hleads, hrun⟩ := (topLevelWithin_gives h hp hn).2 hkind
  have hnext : nextWithin n p = .ok (some node) (q.pass.note (.parsed node)) := by
    simp only [nextWithin, hrun]
  have hkept : (q.pass.note (.parsed node)).diagnostics = p.diagnostics :=
    hleads.pass.diagnostics_eq
  have hclose := hleads.ahead_eq hp
  have hahead := hleads.pass.ahead_eq hp
  have hfresh := scanned_pass hclose
  have hordinary := (Lexer.stream_kinds q.lexer _ _ hclose).1 close (List.mem_cons_self ..)
  obtain ⟨segment, hsegment, -⟩ := id hleads
  rw [hsegment] at hleads hp
  have hjournal := hleads.journal_look hp
  rw [hlook, Stream.sight_cons hordinary] at hjournal
  refine ⟨_, segment ++ [close], hnext, by simp [hsegment], by simp, hahead, ?_⟩
  refine ⟨?_, ?_, ?_, by simp, ?_⟩
  · cases segment with
    | nil => exact .declaration rfl (by rwa [← (List.cons.inj hsegment).1])
    | cons first segment => exact .declaration rfl (by rwa [← (List.cons.inj hsegment).1])
  · rw [journal_note]
    show q.look.journal.toList ++ _ = _
    simp [hjournal, scans]
  · rw [journal_look (p := q.pass.note (.parsed node)) hfresh]
    exact congrArg (_ ++ Stream.sight ·) hahead
  · rw [reports_eq_nil hkept]
    rfl

/-- A diagnostic is written about, and then the token that is passed over. -/
theorem nextWithin_recovery {diagnostic : Diagnostic}
    (h : FailsTop last (token :: tokens) (.syntactic diagnostic) rest)
    (hp : p.ahead = ⟨token :: tokens, last⟩) (hn : (token :: tokens).length ≤ n)
    (hlook : p.look = p) :
    ∃ q segment culprit ahead, nextWithin n p = .ok none q ∧
      token :: tokens = segment ++ rest.tail ∧ segment ≠ [] ∧ q.ahead = ⟨rest.tail, last⟩ ∧
      Call.Writes last segment rest.tail ⟨p, none, q⟩
        [.reported diagnostic, .skipped culprit] ahead := by
  obtain ⟨q, hleads, hlooked, hrun⟩ := topLevelWithin_stops h hp hn
  obtain ⟨culprit, hhead, hposition, hfound⟩ := h.isAt
  have hahead := hleads.ahead_eq hp
  have hrecover := recover_of_ok q diagnostic culprit (by rw [hahead, hhead])
  have hnext : nextWithin n p =
      .ok none ((q.report diagnostic).pass.note (.skipped culprit)) := by
    simp only [nextWithin, hrun, bind, EStateM.bind, hrecover]
    rfl
  have hreport : ((q.report diagnostic).pass.note (.skipped culprit)).diagnostics =
      p.diagnostics.push diagnostic := by
    rw [← hleads.diagnostics_eq]
    exact diagnostics_pass (q.report diagnostic)
  have hpassed := ahead_pass_tail (q.report diagnostic) rest last hahead
  obtain ⟨segment, hsegment, -⟩ := id hleads
  rw [hsegment] at hleads hp
  have hjournal := hleads.journal_look hp
  rw [hlook, hlooked rfl] at hjournal
  have hwritten : ((q.report diagnostic).pass.note (.skipped culprit)).journal.toList =
      q.journal.toList ++ [.reported diagnostic, .skipped culprit] := by
    rw [journal_note]
    show (q.report diagnostic).look.journal.toList ++ _ = _
    simp [look_report (hlooked rfl), journal_report]
  cases rest with
  | nil =>
    obtain rfl : last = .ok culprit := hhead
    have hend := (Lexer.stream_kinds q.lexer _ _ hahead).2 culprit rfl
    rw [List.append_nil] at hsegment
    refine ⟨_, segment, culprit, true, hnext, by simp [hsegment], by simp [← hsegment], hpassed, ?_⟩
    refine ⟨.recoveryAtEnd rfl rfl hposition hfound, ?_, ?_, fun _ => ⟨culprit, rfl⟩, ?_⟩
    · rw [hwritten, hjournal]
      simp [Stream.sight_of_final hend, scans]
    · have hstays := pass_of_nil (q.report diagnostic) _ hahead
      rw [hstays, look_report (hlooked rfl), look_note (look_report (hlooked rfl) diagnostic)]
      simp
    · rw [reports_eq_singleton hreport]
      rfl
  | cons next rest =>
    obtain rfl : next = culprit := Except.ok.inj hhead
    have hordinary := (Lexer.stream_kinds q.lexer _ _ hahead).1 next (List.mem_cons_self ..)
    have hfresh := scanned_pass (p := q.report diagnostic) hahead
    refine ⟨_, segment ++ [next], next, false, hnext, by simp [hsegment], by simp, hpassed, ?_⟩
    refine ⟨.recovery (by simp) hposition hfound, ?_, ?_, by simp, ?_⟩
    · rw [hwritten, hjournal, Stream.sight_cons hordinary]
      simp [scans]
    · rw [journal_look (p := (q.report diagnostic).pass.note (.skipped next)) hfresh]
      exact congrArg (_ ++ Stream.sight ·) hpassed
    · rw [reports_eq_singleton hreport]
      rfl

/-- A call writes about what it takes and concludes. -/
theorem next_writes {node? : Option Node} (hkind : token.kind ≠ .endOfInput)
    (hp : p.ahead = ⟨token :: tokens, last⟩) (hlook : p.look = p)
    (hnext : next p = .ok node? q) : ∃ segment rest lines ahead,
      token :: tokens = segment ++ rest ∧ segment ≠ [] ∧ q.ahead = ⟨rest, last⟩ ∧
      Call.Writes last segment rest ⟨p, node?, q⟩ lines ahead := by
  have hlast := (Lexer.stream_kinds p.lexer _ _ hp).2
  have hbound := Lexer.length_tokens_le_pending p.lexer
  rw [show p.lexer.stream = ⟨token :: tokens, last⟩ from hp] at hbound
  have hrun : nextWithin p.lexer.pending p = .ok node? q := hnext
  rcases settles_top hlast token tokens hkind with ⟨node, rest, hread⟩ | ⟨failure, rest, hfail⟩
  · by_cases hdeclare : token.kind = .declare
    · obtain ⟨q', segment, hsame, hsegment, hne, hahead, hwrites⟩ :=
        nextWithin_declaration hdeclare hread hp hbound hlook
      obtain ⟨rfl, rfl⟩ := EStateM.Result.ok.inj (hsame.symm.trans hrun)
      exact ⟨segment, rest, _, _, hsegment, hne, hahead, hwrites⟩
    · obtain ⟨q', segment, hsame, hsegment, hne, hahead, hwrites⟩ :=
        nextWithin_construct hdeclare hread hp hbound hlook
      obtain ⟨rfl, rfl⟩ := EStateM.Result.ok.inj (hsame.symm.trans hrun)
      exact ⟨segment, rest, _, _, hsegment, hne, hahead, hwrites⟩
  · cases failure with
    | syntactic diagnostic =>
      obtain ⟨q', segment, culprit, ahead, hsame, hsegment, hne, hahead, hwrites⟩ :=
        nextWithin_recovery hfail hp hbound hlook
      obtain ⟨rfl, rfl⟩ := EStateM.Result.ok.inj (hsame.symm.trans hrun)
      exact ⟨segment, rest.tail, _, _, hsegment, hne, hahead, hwrites⟩
    | lexical error =>
      obtain ⟨q', -, hsame⟩ := nextWithin_fails hfail hp hbound
      rw [hrun] at hsame
      cases hsame

/-- A call that meets the error writes about all tokens and about the error. -/
theorem journal_of_next_error {error : LexicalError} (hkind : token.kind ≠ .endOfInput)
    (hp : p.ahead = ⟨token :: tokens, last⟩) (hlook : p.look = p)
    (hnext : next p = .error error q) : last = .error error ∧
      q.journal.toList = p.journal.toList ++ (scans tokens ++ [.stuck error]) := by
  have hbound := Lexer.length_tokens_le_pending p.lexer
  rw [show p.lexer.stream = ⟨token :: tokens, last⟩ from hp] at hbound
  have hrun : nextWithin p.lexer.pending p = .error error q := hnext
  rcases next_cases hkind hp with ⟨_, _, _, _, _, hother⟩ | ⟨_, _, _, _, _, _, _, hother⟩ |
    ⟨error', rest, r, hfail, -, -⟩
  · rw [hnext] at hother
    cases hother
  · rw [hnext] at hother
    cases hother
  · obtain ⟨s, hleads, hlooked, hstops⟩ := topLevelWithin_stops hfail hp hbound
    have hsame : nextWithin p.lexer.pending p = .error error' s := by
      simp only [nextWithin, hstops]
    obtain ⟨rfl, rfl⟩ := EStateM.Result.error.inj (hsame.symm.trans hrun)
    have hhead : Stream.head ⟨rest, last⟩ = .error error' := hfail.isAt
    obtain rfl := Stream.nil_of_head_error hhead
    obtain rfl : last = .error error' := hhead
    rw [← List.append_nil (token :: tokens)] at hleads hp
    have hjournal := hleads.journal_look hp
    rw [hlook, hlooked rfl] at hjournal
    refine ⟨rfl, ?_⟩
    rw [hjournal, Stream.sight_of_error]
    simp [scans]

end Parser

end ExprLang
