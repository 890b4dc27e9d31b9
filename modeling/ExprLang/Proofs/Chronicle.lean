import ExprLang.Proofs.Journal
import ExprLang.Proofs.Resumption

/-!
The journal of a whole run. It tells of every token once, of every diagnostic with the
token that was passed over for it, of every construct, and of the error that ended the
run, in the order in which reading them happens: one token ahead, and no further.
-/
namespace ExprLang

open Lexer (Stream)
open Event (scans)

/-- The journal of a run from the look at the first of some tokens on: what was written up
to this look, the tokens, the calls that are still to come, and the journal in the end. -/
inductive Recounts (last : Except LexicalError Token) :
    List Event → List Token → List Call → List Event → Prop
  | finished {log} : Recounts last log [] [] log
  | failed {log token tokens error} (hlast : last = .error error) :
      Recounts last log (token :: tokens) [] (log ++ (scans tokens ++ [.stuck error]))
  | call {log segment rest call calls lines ahead whole} (hne : segment ≠ [])
      (hbefore : call.before.ahead = ⟨segment ++ rest, last⟩)
      (hafter : call.after.ahead = ⟨rest, last⟩) (hlog : call.before.journal.toList = log)
      (hwrites : call.Writes last segment rest lines ahead)
      (hrest : Recounts last call.after.look.journal.toList rest calls whole) :
      Recounts last log (segment ++ rest) (call :: calls) whole

/-- Every run is recounted by its journal. -/
theorem Parser.Run.recounts {p final : Parser} {calls : List Call}
    {outcome : Except LexicalError Unit} {tokens : List Token} {last : Except LexicalError Token}
    (h : Run p calls outcome final) (hp : p.ahead = ⟨tokens, last⟩) :
    Recounts last p.look.journal.toList tokens calls final.journal.toList := by
  induction h generalizing tokens with
  | finished htokens =>
    obtain ⟨rfl, -⟩ := exists_of_hasTokens htokens
    obtain rfl := nil_of_hasTokens hp htokens
    exact .finished
  | blocked htokens =>
    obtain ⟨rfl, hhead⟩ := error_of_hasTokens htokens
    rw [hp] at hhead
    obtain rfl := Stream.nil_of_head_error hhead
    exact .finished
  | failed htokens hnext =>
    obtain ⟨token, tail, rfl, hkind, hahead⟩ := exists_ahead_of_hasTokens hp htokens
    obtain ⟨rfl, -⟩ := exists_of_hasTokens htokens
    obtain ⟨hlast, hjournal⟩ := journal_of_next_error hkind hahead (look_look _) hnext
    rw [hjournal]
    exact .failed hlast
  | call htokens hnext hrest ih =>
    obtain ⟨token, tail, rfl, hkind, hahead⟩ := exists_ahead_of_hasTokens hp htokens
    obtain ⟨rfl, -⟩ := exists_of_hasTokens htokens
    obtain ⟨segment, rest, lines, ahead, hsegment, hne, hafter, hwrites⟩ :=
      next_writes hkind hahead (look_look _) hnext
    rw [hsegment] at hahead ⊢
    exact .call hne hahead hafter rfl hwrites (ih hafter)

section Projections

variable {β : Type} {last : Except LexicalError Token} {segment rest tokens : List Token}
  {node? : Option Node} {lines log whole : List Event} {ahead : Bool} {p : Parser} {call : Call}
  {calls : List Call}

/-- What has nothing to do with the lexer is not found in what the lexer writes. -/
theorem filterMap_scans {f : Event → Option β} (h : ∀ token, f (.scanned token) = none)
    (tokens : List Token) : (scans tokens).filterMap f = [] := by
  simp [scans, h]

theorem Lexer.Stream.filterMap_sight {f : Event → Option β}
    (h : ∀ token, f (.scanned token) = none) (h' : ∀ error, f (.stuck error) = none)
    (stream : Stream) : stream.sight.filterMap f = [] := by
  unfold sight Event.ofScan?
  split
  · split <;> simp [h]
  · simp [h']

theorem scanned_scans (tokens : List Token) : (scans tokens).filterMap Event.scanned? = tokens := by
  induction tokens with
  | nil => rfl
  | cons token tokens ih => exact congrArg (token :: ·) ih

/-- A look traces the token that it finds, and the end of the input never. -/
theorem Parser.scanned_sight (hp : p.ahead = ⟨tokens, last⟩) :
    (Stream.sight ⟨tokens, last⟩).filterMap Event.scanned? = tokens.take 1 := by
  obtain ⟨hordinary, hfinal⟩ := Lexer.stream_kinds p.lexer _ _ hp
  cases tokens with
  | cons token tokens =>
    rw [Stream.sight_cons (hordinary token (List.mem_cons_self ..))]
    rfl
  | nil =>
    cases last with
    | ok final =>
      rw [Stream.sight_of_final (hfinal final rfl)]
      rfl
    | error error => rfl

theorem Concludes.scanned (h : Concludes last segment rest node? lines ahead) :
    lines.filterMap Event.scanned? = [] := by
  cases h <;> rfl

theorem Concludes.stuck (h : Concludes last segment rest node? lines ahead) :
    lines.filterMap Event.stuck? = [] := by
  cases h <;> rfl

theorem Concludes.parsed (h : Concludes last segment rest node? lines ahead) :
    lines.filterMap Event.parsed? = node?.toList := by
  cases h <;> rfl

/-- What is taken from the journal without regard to the lexer is what the calls conclude
with. -/
theorem Recounts.filterMap (f : Event → Option β) (g : Call → List β)
    (hscanned : ∀ token, f (.scanned token) = none) (hstuck : ∀ error, f (.stuck error) = none)
    (hlines : ∀ {call : Call} {segment rest : List Token} {lines : List Event} {ahead : Bool},
      call.Writes last segment rest lines ahead → lines.filterMap f = g call)
    (h : Recounts last log tokens calls whole) :
    whole.filterMap f = log.filterMap f ++ calls.flatMap g := by
  have hscans := filterMap_scans hscanned
  have hsight := Stream.filterMap_sight hscanned hstuck
  induction h with
  | finished => simp
  | failed => simp [hscans, hstuck]
  | @call log segment rest call calls lines ahead whole hne hbefore hafter hlog hwrites hrest ih =>
    have hconcludes := hlines hwrites
    rw [ih, hwrites.look, hwrites.journal, hlog]
    cases ahead <;> simp [hscans, hsight, hconcludes]

end Projections

section Traces

variable {last : Except LexicalError Token} {segment rest tokens consumed : List Token}
  {log whole lines : List Event} {ahead : Bool} {call : Call} {calls : List Call}

/-- When a call concludes, the other tokens of its segment have been traced, and the token
behind it if that has been looked at. -/
theorem Call.Writes.scanned (h : call.Writes last segment rest lines ahead)
    (hafter : call.after.ahead = ⟨rest, last⟩) :
    call.after.journal.toList.filterMap Event.scanned? =
      call.before.journal.toList.filterMap Event.scanned? ++ segment.tail ++
        if ahead then rest.take 1 else [] := by
  have hsight := Parser.scanned_sight hafter
  rw [h.journal]
  cases ahead <;> simp [scanned_scans, h.concludes.scanned, hsight]

theorem Call.Writes.scanned_look (h : call.Writes last segment rest lines ahead)
    (hafter : call.after.ahead = ⟨rest, last⟩) :
    call.after.look.journal.toList.filterMap Event.scanned? =
      call.before.journal.toList.filterMap Event.scanned? ++ segment.tail ++ rest.take 1 := by
  have hsight := Parser.scanned_sight hafter
  rw [h.look, List.filterMap_append, h.scanned hafter]
  cases ahead <;> simp [hsight]

/-- The first token of a segment was traced before the call. -/
theorem consumed_append (hne : segment ≠ []) :
    consumed ++ (segment ++ rest).take 1 ++ segment.tail = consumed ++ segment := by
  cases segment with
  | nil => exact absurd rfl hne
  | cons token segment => simp

/-- In the end every token is traced, once and in order. -/
theorem Recounts.scanned (h : Recounts last log tokens calls whole) (consumed : List Token)
    (hlog : log.filterMap Event.scanned? = consumed ++ tokens.take 1) :
    whole.filterMap Event.scanned? = consumed ++ tokens := by
  induction h generalizing consumed with
  | finished => simpa using hlog
  | failed => simp [hlog, scanned_scans, Event.scanned?]
  | @call log segment rest call calls lines ahead whole hne _ hafter hstart hwrites _ ih =>
    have hnext := hwrites.scanned_look hafter
    rw [hstart, hlog, consumed_append hne] at hnext
    rw [ih _ hnext, List.append_assoc]

/-- The journal at one time is the beginning of what it is later. -/
theorem Recounts.isPrefix (h : Recounts last log tokens calls whole) : log <+: whole := by
  induction h with
  | finished => exact List.prefix_refl _
  | failed => exact List.prefix_append _ _
  | call hne hbefore hafter hstart hwrites hrest ih =>
    rw [hwrites.look, hwrites.journal, hstart, List.append_assoc, List.append_assoc] at ih
    exact (List.prefix_append _ _).trans ih

/-- What has been written when a call concludes. It is the beginning of the whole log. In
front of the lines that conclude the call are traced the tokens that the calls up to this
one have taken and, if it has been looked at, the next one. -/
def Call.ConcludesIn (last : Except LexicalError Token) (whole : List Event)
    (consumed : List Token) (call : Call) : Prop :=
  ∃ front lines ahead,
    Concludes last call.taken call.after.ahead.tokens call.node? lines ahead ∧
    call.after.journal.toList = front ++ lines ∧ call.after.journal.toList <+: whole ∧
    front.filterMap Event.scanned? =
      consumed ++ if ahead then call.after.ahead.tokens.take 1 else []

/-- Every call concludes when just the tokens up to the last one it takes have been
traced, and the one behind it if that has been looked at. -/
theorem Recounts.concludesIn (h : Recounts last log tokens calls whole) (consumed : List Token)
    (hlog : log.filterMap Event.scanned? = consumed ++ tokens.take 1) (i : Nat)
    (hcall : calls[i]? = some call) :
    call.ConcludesIn last whole (consumed ++ (calls.take (i + 1)).flatMap Call.taken) := by
  induction h generalizing consumed i with
  | finished | failed => simp at hcall
  | @call _ segment rest first calls lines ahead whole hne hbefore hafter hstart hwrites hrest ih =>
    have htaken : first.taken = segment := Call.taken_eq hbefore hafter
    cases i with
    | zero =>
      obtain rfl : first = call := by simpa using hcall
      have hscanned := hwrites.scanned hafter
      have hlater := hrest.isPrefix
      rw [hstart, hlog, consumed_append hne, hwrites.journal, List.filterMap_append,
        hwrites.concludes.scanned, List.append_nil] at hscanned
      rw [hwrites.look] at hlater
      refine ⟨_, lines, ahead, ?_, hwrites.journal, (List.prefix_append _ _).trans hlater, ?_⟩
      · rw [htaken, hafter]
        exact hwrites.concludes
      · simp [htaken, hafter, hscanned]
    | succ i =>
      have hnext := hwrites.scanned_look hafter
      rw [hstart, hlog, consumed_append hne] at hnext
      have hlater := ih _ hnext i (by simpa using hcall)
      rwa [List.take_succ_cons, List.flatMap_cons, htaken, ← List.append_assoc]

end Traces

section Errors

variable {α : Type} {last : Except LexicalError Token} {segment rest tokens : List Token}
  {log whole lines : List Event} {ahead : Bool} {call : Call} {calls : List Call}

/-- The log speaks of a lexical error if and only if there is one, and then in its last
event and nowhere else. -/
def ClosesWith (outcome : Except LexicalError α) (log : List Event) : Prop :=
  match outcome with
  | .ok _ => log.filterMap Event.stuck? = []
  | .error error => ∃ front, log = front ++ [.stuck error] ∧ front.filterMap Event.stuck? = []

theorem stuck_scans (tokens : List Token) : (scans tokens).filterMap Event.stuck? = [] :=
  filterMap_scans (fun _ => rfl) tokens

/-- A look at an ordinary token or at the end of the input meets no error. -/
theorem Lexer.Stream.stuck_sight {stream : Stream} {token : Token} (h : stream.head = .ok token) :
    stream.sight.filterMap Event.stuck? = [] := by
  simp only [sight, h, Event.ofScan?]
  split <;> rfl

def ClosesBefore (last : Except LexicalError Token) (tokens : List Token) (log : List Event) :
    Prop :=
  if tokens = [] then ClosesWith last log else log.filterMap Event.stuck? = []

theorem closesBefore_of_calm {token : Token} (hhead : Stream.head ⟨tokens, last⟩ = .ok token)
    (hlog : log.filterMap Event.stuck? = []) : ClosesBefore last tokens log := by
  unfold ClosesBefore
  split
  · next hnil =>
    subst hnil
    obtain rfl : last = .ok token := hhead
    exact hlog
  · exact hlog

theorem closesBefore_sight (hlog : log.filterMap Event.stuck? = []) :
    ClosesBefore last tokens (log ++ Stream.sight ⟨tokens, last⟩) := by
  cases hhead : Stream.head ⟨tokens, last⟩ with
  | ok token =>
    refine closesBefore_of_calm hhead ?_
    rw [List.filterMap_append, hlog, Stream.stuck_sight hhead, List.append_nil]
  | error error =>
    obtain rfl := Stream.nil_of_head_error hhead
    obtain rfl : last = .error error := hhead
    rw [ClosesBefore, if_pos rfl]
    exact ⟨log, rfl, hlog⟩

theorem Call.Writes.closesBefore (h : call.Writes last segment rest lines ahead)
    (hcalm : call.before.journal.toList.filterMap Event.stuck? = []) :
    ClosesBefore last rest call.after.look.journal.toList := by
  rw [h.look, h.journal]
  cases ahead with
  | true =>
    obtain ⟨follower, hhead⟩ := h.calm rfl
    refine closesBefore_of_calm hhead ?_
    simp [hcalm, stuck_scans, Stream.stuck_sight hhead, h.concludes.stuck]
  | false =>
    refine closesBefore_sight ?_
    simp [hcalm, stuck_scans, h.concludes.stuck]

theorem Recounts.closesWith (h : Recounts last log tokens calls whole)
    (hlog : ClosesBefore last tokens log) : ClosesWith last whole := by
  induction h with
  | finished => simpa [ClosesBefore] using hlog
  | @failed log token tokens error hlast =>
    subst hlast
    have hcalm : log.filterMap Event.stuck? = [] := by simpa [ClosesBefore] using hlog
    refine ⟨log ++ scans tokens, by simp, ?_⟩
    rw [List.filterMap_append, hcalm, stuck_scans, List.append_nil]
  | @call log segment rest call calls lines ahead whole hne _ hafter hstart hwrites _ ih =>
    have hcalm : log.filterMap Event.stuck? = [] := by simpa [ClosesBefore, hne] using hlog
    exact ih (hwrites.closesBefore (by rw [hstart, hcalm]))

end Errors

section Reports

variable {last : Except LexicalError Token} {segment rest tokens : List Token}
  {log log' whole lines : List Event} {node? : Option Node} {ahead : Bool} {calls : List Call}

def FollowsUp (log : List Event) : Prop :=
  ∀ i diagnostic, log[i]? = some (.reported diagnostic) → ∃ culprit,
    log[i + 1]? = some (.skipped culprit) ∧ diagnostic.position = culprit.span.start ∧
    diagnostic.cause.found = culprit.kind.describe

theorem FollowsUp.append (h : FollowsUp log) (h' : FollowsUp log') : FollowsUp (log ++ log') := by
  intro i diagnostic hreport
  by_cases hi : i < log.length
  · rw [List.getElem?_append_left hi] at hreport
    obtain ⟨culprit, hculprit, habout⟩ := h i diagnostic hreport
    have hbound : i + 1 < log.length := (List.getElem?_eq_some_iff.mp hculprit).1
    exact ⟨culprit, by rw [List.getElem?_append_left hbound, hculprit], habout⟩
  · have hle : log.length ≤ i := Nat.le_of_not_lt hi
    rw [List.getElem?_append_right hle] at hreport
    obtain ⟨culprit, hculprit, habout⟩ := h' _ diagnostic hreport
    refine ⟨culprit, ?_, habout⟩
    have hnext : i + 1 - log.length = i - log.length + 1 := by omega
    rw [List.getElem?_append_right (by omega), hnext, hculprit]

theorem followsUp_of_none (h : log.filterMap Event.reported? = []) : FollowsUp log := by
  intro i diagnostic hreport
  have hmem := List.mem_of_getElem? hreport
  have hnone := List.filterMap_eq_nil_iff.mp h _ hmem
  cases hnone

theorem Concludes.followsUp (h : Concludes last segment rest node? lines ahead) :
    FollowsUp lines := by
  cases h with
  | construct | declaration => exact followsUp_of_none rfl
  | recovery _ hposition hfound | recoveryAtEnd _ _ hposition hfound =>
    intro i other hreport
    cases i with
    | zero =>
      obtain rfl := Event.reported.inj (Option.some.inj hreport)
      exact ⟨_, rfl, hposition, hfound⟩
    | succ i =>
      cases i with
      | zero => cases Option.some.inj hreport
      | succ i => simp at hreport

theorem followsUp_scans (tokens : List Token) : FollowsUp (scans tokens) :=
  followsUp_of_none (filterMap_scans (fun _ => rfl) tokens)

theorem Lexer.Stream.followsUp_sight (stream : Stream) : FollowsUp stream.sight :=
  followsUp_of_none (filterMap_sight (fun _ => rfl) (fun _ => rfl) stream)

theorem Recounts.followsUp (h : Recounts last log tokens calls whole) (hlog : FollowsUp log) :
    FollowsUp whole := by
  induction h with
  | finished => exact hlog
  | failed => exact hlog.append ((followsUp_scans _).append (followsUp_of_none rfl))
  | @call log segment rest call calls lines ahead whole hne _ hafter hstart hwrites _ ih =>
    have htraced := followsUp_scans segment.tail
    have hsight := Stream.followsUp_sight ⟨rest, last⟩
    have hlines := hwrites.concludes.followsUp
    refine ih ?_
    rw [hwrites.look, hwrites.journal, hstart]
    cases ahead with
    | true => simpa using (hlog.append (htraced.append hsight)).append hlines
    | false => simpa using ((hlog.append htraced).append hlines).append hsight

end Reports

end ExprLang
