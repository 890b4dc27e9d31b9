import ExprLang.Subscriber
import ExprLang.Proofs.Chronicle

/-!
The log of a run, line by line. Where nothing is filtered out, the lines about tokens, about
constructs and about diagnostics each come in their order and say what there is to say, a
diagnostic is followed by the token that was passed over for it, a lexical error has the last
word, and every line is written when the parser has read as far as it must and no further.
-/
namespace ExprLang

open Lexer (Stream)

/-- A filter that lets every record through, as the most detailed level does. -/
def LetsAllPass (passes : Record → Bool) : Prop := ∀ record, passes record = true

def Record.isFrom (target message : String) (record : Record) : Bool :=
  record.target = target && record.message = message

def Record.isScan : Record → Bool := isFrom "kaleidoscope::lexer::lexer" "token scanned"

def Record.isNode : Record → Bool :=
  isFrom "kaleidoscope::parser::parser" "parsed top-level construct"

def scanLine (token : Token) : Record :=
  ⟨.trace, "kaleidoscope::lexer::lexer", "token scanned", [("token", .bare token.dump)]⟩

def poisonLine (error : LexicalError) : Record :=
  ⟨.debug, "kaleidoscope::lexer::lexer",
    "lexer poisoned: could not continue lexing, unknown character found: '" ++
      byteText error.byte ++ "'",
    [("offset", .number error.position.offset.toNat), ("file", .bare error.position.file)]⟩

def nodeLine (node : Node) : Record :=
  ⟨.trace, "kaleidoscope::parser::parser", "parsed top-level construct",
    [("node", .bare node.sexpr)]⟩

def reportLine (diagnostic : Diagnostic) : Record :=
  ⟨.error, "kaleidoscope::errors::sink", diagnostic.cause.message,
    [("offset", .number diagnostic.position.offset.toNat),
      ("source", .bare diagnostic.position.file), ("kind", .string diagnostic.cause.name)]⟩

def skipLine (token : Token) : Record :=
  ⟨.debug, "kaleidoscope::parser::parser", "skipping token after syntax error",
    [("token", .bare token.kind.describe), ("offset", .number token.span.start.offset.toNat)]⟩

/-- The lines that conclude a call which takes a segment of the tokens in front of the rest:
about the node it gives, or about its diagnostic and the token that is passed over. The flag
says whether the token behind the segment has been looked at by then. -/
inductive Conclusion (last : Except LexicalError Token) (segment rest : List Token) :
    Option Node → List Record → Bool → Prop
  | construct {node} (hkind : ∀ token ∈ segment.head?, token.kind ≠ .declare) :
      Conclusion last segment rest (some node) [nodeLine node] true
  | declaration {node token} (hhead : segment.head? = some token) (hkind : token.kind = .declare) :
      Conclusion last segment rest (some node) [nodeLine node] false
  | recovery {diagnostic culprit} (hculprit : segment.getLast? = some culprit)
      (hposition : diagnostic.position = culprit.span.start)
      (hfound : diagnostic.cause.found = culprit.kind.describe) :
      Conclusion last segment rest none [reportLine diagnostic, skipLine culprit] false
  | recoveryAtEnd {diagnostic culprit} (hnone : rest = []) (hculprit : last = .ok culprit)
      (hposition : diagnostic.position = culprit.span.start)
      (hfound : diagnostic.cause.found = culprit.kind.describe) :
      Conclusion last segment rest none [reportLine diagnostic, skipLine culprit] true

/-- The call concludes with its lines when the tokens it has consumed have been scanned, and
the one behind them if that has been looked at. The log goes on behind these lines. -/
def Call.ConcludesAt (last : Except LexicalError Token) (log : List Record)
    (consumed : List Token) (call : Call) : Prop :=
  ∃ front lines behind ahead,
    Conclusion last call.taken call.after.ahead.tokens call.node? lines ahead ∧
    call.after.records = front ++ lines ∧ log = front ++ lines ++ behind ∧
    front.filter Record.isScan =
      (consumed ++ if ahead then call.after.ahead.tokens.take 1 else []).map scanLine

def EndsWith (last : Except LexicalError Token) (log : List Record) : Prop :=
  match last with
  | .ok _ => ∀ record ∈ log, ∀ error, record ≠ poisonLine error
  | .error error => ∃ front, log = front ++ [poisonLine error] ∧
      ∀ record ∈ front, ∀ error, record ≠ poisonLine error

structure IsFaithful (tokens : List Token) (last : Except LexicalError Token)
    (diagnostics : List Diagnostic) (calls : List Call) (log : List Record) : Prop where
  scanned : log.filter Record.isScan = tokens.map scanLine
  endsWith : EndsWith last log
  reported : log.filter (·.level = .error) = diagnostics.map reportLine
  followed : ∀ i record, log[i]? = some record → record.level = .error →
    ∃ diagnostic ∈ diagnostics, ∃ culprit : Token, record = reportLine diagnostic ∧
      log[i + 1]? = some (skipLine culprit) ∧ diagnostic.position = culprit.span.start ∧
      diagnostic.cause.found = culprit.kind.describe
  parsed : log.filter Record.isNode =
    (calls.filterMap Call.node?).map nodeLine
  /-- No call reads further than it has to before it concludes. -/
  onDemand : ∀ (i : Nat) (call : Call), calls[i]? = some call →
    call.ConcludesAt last log ((calls.take (i + 1)).flatMap Call.taken)

def AccountsFor (source : String) (file : Option String) (log : List Record) : Prop :=
  ∃ (tokens : List Token) (last : Except LexicalError Token) (calls : List Call)
    (ending : Except LexicalError Unit),
    IsRunOf source file calls ending ∧ (Lexer.ofSource source file).stream = ⟨tokens, last⟩ ∧
    tokenize source file = last.map (fun final => tokens ++ [final]) ∧
    (∀ token ∈ tokens, token.kind ≠ .endOfInput) ∧
    IsFaithful tokens last (parse source file).parser.diagnostics.toList calls log ∧
    ∀ nodes, (parse source file).outcome = .ok nodes →
      log.filter Record.isNode = nodes.map nodeLine

section Records

variable {β : Type} {last : Except LexicalError Token} {segment rest consumed : List Token}
  {node? : Option Node} {events lines : List Event} {ahead : Bool} {call : Call}

/-- The records of a kind are the lines of the events of a kind. -/
theorem filter_records {p : Record → Bool} {f : Event → Option β} {line : β → Record}
    (hkind : ∀ event, p event.record = (f event).isSome)
    (hline : ∀ event b, f event = some b → event.record = line b) (events : List Event) :
    (events.map Event.record).filter p = (events.filterMap f).map line := by
  induction events with
  | nil => rfl
  | cons event events ih =>
    have hevent := hkind event
    cases hf : f event with
    | none =>
      rw [hf, Option.isSome_none] at hevent
      rw [List.map_cons, List.filter_cons_of_neg (by simp [hevent]), List.filterMap_cons_none hf, ih]
    | some b =>
      rw [hf, Option.isSome_some] at hevent
      rw [List.map_cons, List.filter_cons_of_pos hevent, List.filterMap_cons_some hf,
        List.map_cons, hline event b hf, ih]

/-- The message about an error of the lexer is not the one about a token. -/
theorem Event.isScan_stuck (error : LexicalError) : (stuck error).record.isScan = false := by
  have hne : "lexer poisoned: " ++ error.message ≠ "token scanned" := by
    intro h
    have hhead : some 'l' = some 't' := by
      have hheads := congrArg (·.toList.head?) h
      rwa [String.toList_append] at hheads
    cases hhead
  simp [Record.isScan, Record.isFrom, record, hne]

theorem Event.isScan_record (event : Event) : event.record.isScan = event.scanned?.isSome := by
  cases event with
  | stuck error => exact isScan_stuck error
  | _ => rfl

theorem Event.isNode_record (event : Event) : event.record.isNode = event.parsed?.isSome := by
  cases event <;> rfl

theorem Event.level_record (event : Event) :
    decide (event.record.level = .error) = event.reported?.isSome := by
  cases event <;> rfl

theorem Event.scanned?_eq_some {event : Event} {token : Token} (h : event.scanned? = some token) :
    event.record = scanLine token := by
  cases event <;> cases h
  rfl

theorem Event.parsed?_eq_some {event : Event} {node : Node} (h : event.parsed? = some node) :
    event.record = nodeLine node := by
  cases event <;> cases h
  rfl

theorem Event.reported?_eq_some {event : Event} {diagnostic : Diagnostic}
    (h : event.reported? = some diagnostic) : event.record = reportLine diagnostic := by
  cases event <;> cases h
  rfl

/-- Only the events of a lexical error make lines about one. -/
theorem Event.record_ne_poisonLine {event : Event} (h : event.stuck? = none)
    (error : LexicalError) : event.record ≠ poisonLine error := by
  cases event with
  | stuck => cases h
  | _ => simp [record, poisonLine]

theorem filter_isScan (events : List Event) : (events.map Event.record).filter Record.isScan =
    (events.filterMap Event.scanned?).map scanLine :=
  filter_records Event.isScan_record (fun _ _ => Event.scanned?_eq_some) events

theorem forall_ne_poisonLine (h : events.filterMap Event.stuck? = []) :
    ∀ record ∈ events.map Event.record, ∀ error, record ≠ poisonLine error := by
  rw [List.forall_mem_map]
  exact fun event hevent error =>
    Event.record_ne_poisonLine (List.filterMap_eq_nil_iff.mp h event hevent) error

theorem ClosesWith.endsWith (h : ClosesWith last events) :
    EndsWith last (events.map Event.record) := by
  cases last with
  | ok final => exact forall_ne_poisonLine h
  | error error =>
    obtain ⟨front, rfl, hfront⟩ := h
    exact ⟨front.map Event.record, by rw [List.map_append]; rfl, forall_ne_poisonLine hfront⟩

theorem Concludes.conclusion (h : Concludes last segment rest node? lines ahead) :
    Conclusion last segment rest node? (lines.map Event.record) ahead := by
  cases h with
  | construct hkind => exact .construct hkind
  | declaration hhead hkind => exact .declaration hhead hkind
  | recovery hculprit hposition hfound => exact .recovery hculprit hposition hfound
  | recoveryAtEnd hnone hculprit hposition hfound =>
    exact .recoveryAtEnd hnone hculprit hposition hfound

theorem Call.ConcludesIn.concludesAt (h : call.ConcludesIn last events consumed) :
    call.ConcludesAt last (events.map Event.record) consumed := by
  obtain ⟨front, lines, ahead, hconcludes, hjournal, ⟨behind, hbehind⟩, hscanned⟩ := h
  refine ⟨front.map Event.record, lines.map Event.record, behind.map Event.record, ahead,
    hconcludes.conclusion, ?_, ?_, ?_⟩
  · rw [Parser.records, hjournal, List.map_append]
  · rw [← hbehind, hjournal, List.map_append, List.map_append]
  · rw [filter_isScan, hscanned]

/-- A line at the level of errors is about a diagnostic, and the next one about the token that
is passed over. -/
theorem FollowsUp.followed (h : FollowsUp events) {i : Nat} {record : Record}
    (hrecord : (events.map Event.record)[i]? = some record) (hlevel : record.level = .error) :
    ∃ diagnostic ∈ events.filterMap Event.reported?, ∃ culprit : Token,
      record = reportLine diagnostic ∧
      (events.map Event.record)[i + 1]? = some (skipLine culprit) ∧
      diagnostic.position = culprit.span.start ∧
      diagnostic.cause.found = culprit.kind.describe := by
  rw [List.getElem?_map, Option.map_eq_some_iff] at hrecord
  obtain ⟨event, hevent, rfl⟩ := hrecord
  cases event with
  | reported diagnostic =>
    obtain ⟨culprit, hnext, hposition, hfound⟩ := h i diagnostic hevent
    refine ⟨diagnostic, ?_, culprit, rfl, ?_, hposition, hfound⟩
    · exact List.mem_filterMap.mpr ⟨_, List.mem_of_getElem? hevent, rfl⟩
    · rw [List.getElem?_map, hnext]
      rfl
  | _ => cases hlevel

end Records

theorem Recounts.isFaithful {last : Except LexicalError Token} {tokens : List Token}
    {calls : List Call} {events : List Event}
    (h : Recounts last (Stream.sight ⟨tokens, last⟩) tokens calls events)
    (hfirst : (Stream.sight ⟨tokens, last⟩).filterMap Event.scanned? = tokens.take 1) :
    IsFaithful tokens last (calls.flatMap Call.reports) calls (events.map Event.record) := by
  have hscanned : events.filterMap Event.scanned? = tokens := h.scanned [] hfirst
  have hreported : events.filterMap Event.reported? = calls.flatMap Call.reports := by
    rw [h.filterMap Event.reported? Call.reports (fun _ => rfl) (fun _ => rfl) Call.Writes.reports,
      Stream.filterMap_sight (fun _ => rfl) (fun _ => rfl), List.nil_append]
  have hparsed : events.filterMap Event.parsed? = calls.filterMap Call.node? := by
    rw [h.filterMap Event.parsed? (fun call => call.node?.toList) (fun _ => rfl) (fun _ => rfl)
      (fun hwrites => hwrites.concludes.parsed), Stream.filterMap_sight (fun _ => rfl)
      (fun _ => rfl), List.nil_append, List.filterMap_eq_flatMap_toList]
  have hcloses := h.closesWith
    (closesBefore_sight (rfl : ([] : List Event).filterMap Event.stuck? = []))
  have hfollows := h.followsUp (Stream.followsUp_sight _)
  refine ⟨?_, hcloses.endsWith, ?_, fun i record hrecord hlevel => ?_, ?_, fun i call hcall => ?_⟩
  · rw [filter_isScan, hscanned]
  · rw [filter_records Event.level_record (fun _ _ => Event.reported?_eq_some), hreported]
  · rw [← hreported]
    exact hfollows.followed hrecord hlevel
  · rw [filter_records Event.isNode_record (fun _ _ => Event.parsed?_eq_some), hparsed]
  · exact (h.concludesIn [] hfirst i hcall).concludesAt

/-- The log of reading a source, where all records pass, is a faithful account of it. All
tokens of the source are traced, and the end of the input never; the log closes with the
lexical error if splitting the source into tokens fails, and speaks of none if it does not;
what is reported are the diagnostics that are collected, each with the token that is passed
over for it, and what is read are the nodes. Everything is written at its time: when a call
concludes, the tokens up to the last one it takes have been traced, and the one behind it if
the construct shows its end only there. -/
theorem parse_logs_faithfully (source : String) (file : Option String) {passes : Record → Bool}
    (hpasses : LetsAllPass passes) :
    AccountsFor source file ((parse source file).parser.records.filter passes) := by
  obtain ⟨calls, ending, h⟩ := exists_isRunOf source file
  rw [List.filter_eq_self.mpr fun record _ => hpasses record]
  cases hstream : (Lexer.ofSource source file).stream with
  | mk tokens last =>
    have hahead : (Parser.ofSource source file).ahead = ⟨tokens, last⟩ := hstream
    have hordinary := (Lexer.stream_kinds _ _ _ hstream).1
    have hrecounts := h.run.recounts hahead
    rw [Parser.journal_look rfl, hahead] at hrecounts
    have hfaithful := hrecounts.isFaithful (Parser.scanned_sight hahead)
    rw [← h.diagnostics] at hfaithful
    refine ⟨tokens, last, calls, ending, h, hstream, tokenize_eq source file _ _ hstream, hordinary,
      hfaithful, fun nodes hnodes => ?_⟩
    have hparsed := hfaithful.parsed
    rw [h.nodes] at hnodes
    cases ending with
    | ok _ =>
      rw [← Except.ok.inj hnodes]
      exact hparsed
    | error error => cases hnodes

/-- The case of a declaration, an expression, a stray parenthesis and a dollar sign, with the
filter for all details. -/
theorem parse_logs_faithfully_of_dollar :
    let passes := Filter.passes ⟨"", some .trace⟩
    let log := (parse "extern f() x ) $" none).parser.records.filter passes
    let scanned (token : String) : Record := ⟨.trace, "kaleidoscope::lexer::lexer",
      "token scanned", [("token", .bare ("Token \x7b kind: " ++ token ++ " \x7d"))]⟩
    let parsed (node : String) : Record := ⟨.trace, "kaleidoscope::parser::parser",
      "parsed top-level construct", [("node", .bare node)]⟩
    LetsAllPass passes ∧ AccountsFor "extern f() x ) $" none log ∧
      log = [scanned "Extern, span: 0..6", scanned "Identifier(\"f\"), span: 7..8",
        scanned "Character(\"(\"), span: 8..9", scanned "Character(\")\"), span: 9..10",
        parsed "(proto f ())",
        scanned "Identifier(\"x\"), span: 11..12", scanned "Character(\")\"), span: 13..14",
        parsed "x",
        ⟨.error, "kaleidoscope::errors::sink",
          "unknown token when expecting an expression: \")\"",
          [("offset", .number 13), ("source", .bare "shell"),
            ("kind", .string "UnexpectedToken")]⟩,
        ⟨.debug, "kaleidoscope::parser::parser", "skipping token after syntax error",
          [("token", .bare ")"), ("offset", .number 13)]⟩,
        ⟨.debug, "kaleidoscope::lexer::lexer",
          "lexer poisoned: could not continue lexing, unknown character found: '$'",
          [("offset", .number 15), ("file", .bare "shell")]⟩] := by
  intro passes log scanned parsed
  have hpasses : LetsAllPass passes := by
    rintro ⟨level, target, message, fields⟩
    cases level <;> rfl
  exact ⟨hpasses, parse_logs_faithfully _ none hpasses, by decide +kernel⟩

end ExprLang
