import ExprLang.Proofs.LexicalFailure

/-!
Where reading stops. A routine only moves forward and reports nothing, and if it fails it
stops in front of the token that the failure is about, whatever token it was started at. So
this token is still the next one for whoever asks, and recovery passes over no other.
-/
namespace ExprLang

open Lexer (Stream)

structure Lexer.Stream.IsEndOf (stream whole : Stream) : Prop where
  last_eq : stream.last = whole.last
  suffix : stream.tokens <:+ whole.tokens

namespace Lexer.Stream.IsEndOf

variable {first second third : Stream}

theorem refl (stream : Stream) : stream.IsEndOf stream := ⟨rfl, List.suffix_rfl⟩

theorem trans (h : first.IsEndOf second) (h' : second.IsEndOf third) : first.IsEndOf third :=
  ⟨h.last_eq.trans h'.last_eq, h.suffix.trans h'.suffix⟩

theorem tail (stream : Stream) : IsEndOf ⟨stream.tokens.tail, stream.last⟩ stream :=
  ⟨rfl, List.tail_suffix _⟩

/-- What stands next is one of the tokens of the whole stream or ends it. -/
theorem mem_of_head (h : first.IsEndOf second) {token : Token} (hhead : first.head = .ok token) :
    token ∈ second.tokens ∨ second.last = .ok token := by
  cases htokens : first.tokens with
  | nil =>
    refine Or.inr ?_
    rw [← h.last_eq, ← hhead]
    simp only [head, htokens]
  | cons other rest =>
    obtain rfl : other = token := by simpa only [head, htokens, Except.ok.injEq] using hhead
    exact Or.inl (h.suffix.subset (by simp [htokens]))

end Lexer.Stream.IsEndOf

structure Failure.StandsAt (failure : Failure) (head : Except LexicalError Token) : Prop where
  isAt : failure.IsAt head
  malformed : ∀ digits position, failure = .syntactic ⟨.malformedNumber digits, position⟩ →
    ∃ token, head = .ok token ∧ token.kind = .number digits ∧ Binary64.ofDigits? digits = none

namespace Parser

structure Moves (before after : Parser) : Prop where
  ahead : after.ahead.IsEndOf before.ahead
  diagnostics_eq : after.diagnostics = before.diagnostics

section Moving

variable {p q r : Parser}

theorem Moves.refl (p : Parser) : p.Moves p := ⟨.refl _, rfl⟩

theorem Moves.trans (h : p.Moves q) (h' : q.Moves r) : p.Moves r :=
  ⟨h'.ahead.trans h.ahead, h'.diagnostics_eq.trans h.diagnostics_eq⟩

theorem moves_look (p : Parser) : p.Moves p.look :=
  ⟨by rw [ahead_look]; exact .refl _, diagnostics_look p⟩

theorem ahead_pass_eq (p : Parser) : p.pass.ahead = ⟨p.ahead.tokens.tail, p.ahead.last⟩ :=
  ahead_pass_tail p _ _ rfl

theorem moves_pass (p : Parser) : p.Moves p.pass :=
  ⟨by rw [ahead_pass_eq]; exact .tail _, diagnostics_pass p⟩

end Moving

/-- From here the routine moves forward, and if it fails it stops in front of what the
failure is about. -/
structure StopsInFront {α : Type} (routine : ParseM α) (before : Parser) : Prop where
  moves : ∀ value after, routine before = .ok value after → before.Moves after
  stands : ∀ failure after, routine before = .error failure after →
    before.Moves after ∧ failure.StandsAt after.ahead.head

namespace StopsInFront

variable {α β : Type} {p : Parser}

theorem pure (value : α) : StopsInFront (Pure.pure value) p where
  moves := by
    rintro _ _ ⟨⟩
    exact .refl p
  stands := by rintro _ _ ⟨⟩

theorem throw {failure : Failure} (h : failure.StandsAt p.ahead.head) :
    StopsInFront (MonadExcept.throw failure : ParseM α) p where
  moves := by rintro _ _ ⟨⟩
  stands := by
    rintro _ _ ⟨⟩
    exact ⟨.refl p, h⟩

/-- One routine behind another one stops where the one that fails does. -/
theorem bind {first : ParseM α} {next : α → ParseM β} (h : StopsInFront first p)
    (hnext : ∀ value q, first p = .ok value q → StopsInFront (next value) q) :
    StopsInFront (first >>= next) p := by
  cases hfirst : first p with
  | error failure q =>
    have hrun := bind_of_error first next p q failure hfirst
    constructor
    · intro value after hafter
      rw [hrun] at hafter
      cases hafter
    · intro _ _ hafter
      rw [hrun] at hafter
      obtain ⟨rfl, rfl⟩ := EStateM.Result.error.inj hafter
      exact h.stands _ _ hfirst
  | ok value q =>
    have hrun := bind_of_ok first next p q value hfirst
    have hmoves := h.moves _ _ hfirst
    constructor
    · intro result after hafter
      rw [hrun] at hafter
      exact hmoves.trans ((hnext value q hfirst).moves _ _ hafter)
    · intro failure after hafter
      rw [hrun] at hafter
      obtain ⟨hbehind, hstands⟩ := (hnext value q hfirst).stands _ _ hafter
      exact ⟨hmoves.trans hbehind, hstands⟩

theorem bounded {routine : Nat → ParseM α} (h : ∀ n, StopsInFront (routine n) p) :
    StopsInFront (Parser.bounded routine) p :=
  ⟨(h p.lexer.pending).moves, (h p.lexer.pending).stands⟩

/-- Behind a look the token that was seen is the next one. -/
theorem peek {next : Token → ParseM α}
    (hnext : ∀ token q, q.ahead.head = .ok token → StopsInFront (next token) q) :
    StopsInFront (liftM Parser.peek >>= next) p := by
  have hlook : p.look.ahead.head = p.ahead.head := by rw [ahead_look]
  cases hhead : p.ahead.head with
  | error error =>
    have hrun := lift_of_error _ _ _ _ (peek_of_error p error hhead)
    refine bind ⟨fun value after hafter => ?_, fun failure after hafter => ?_⟩
      fun value q hq => ?_
    · rw [hrun] at hafter
      cases hafter
    · rw [hrun] at hafter
      obtain ⟨rfl, rfl⟩ := EStateM.Result.error.inj hafter
      exact ⟨moves_look p, hlook.trans hhead, by rintro _ _ ⟨⟩⟩
    · rw [hrun] at hq
      cases hq
  | ok token =>
    have hrun := lift_of_ok _ _ _ _ (peek_of_ok p token hhead)
    refine bind ⟨fun value after hafter => ?_, fun failure after hafter => ?_⟩
      fun value q hq => ?_
    · rw [hrun] at hafter
      obtain ⟨rfl, rfl⟩ := EStateM.Result.ok.inj hafter
      exact moves_look p
    · rw [hrun] at hafter
      cases hafter
    · rw [hrun] at hq
      obtain ⟨rfl, rfl⟩ := EStateM.Result.ok.inj hq
      exact hnext token p.look (hlook.trans hhead)

/-- A token is passed over unseen, and at the end of the input none is. -/
theorem advance : StopsInFront (liftM Parser.advance) p := by
  cases hhead : p.ahead.head with
  | error error =>
    have hrun : (liftM Parser.advance : ParseM Token) p = .error (.lexical error) p.look :=
      lift_of_error _ _ _ _ (bind_of_error _ _ _ _ _ (peek_of_error p error hhead))
    constructor
    · intro value after hafter
      rw [hrun] at hafter
      cases hafter
    · intro failure after hafter
      rw [hrun] at hafter
      obtain ⟨rfl, rfl⟩ := EStateM.Result.error.inj hafter
      exact ⟨moves_look p, by rw [ahead_look]; exact hhead, by rintro _ _ ⟨⟩⟩
  | ok token =>
    have hrun := lift_of_ok _ _ _ _ (advance_of_ok p token hhead)
    constructor
    · intro value after hafter
      rw [hrun] at hafter
      obtain ⟨rfl, rfl⟩ := EStateM.Result.ok.inj hafter
      exact moves_pass p
    · intro failure after hafter
      rw [hrun] at hafter
      cases hafter

end StopsInFront

section Routines

variable {p : Parser} {nested : ParseM Node} {token : Token} {wanted : String}

/-- What is not the token needed is what the failure is about. -/
theorem standsAt_unexpected {head : Except LexicalError Token} (h : head = .ok token) :
    (unexpected token wanted).StandsAt head :=
  ⟨⟨token, h, rfl, rfl⟩, by rintro _ _ ⟨⟩⟩

theorem standsAt_noExpression {head : Except LexicalError Token} (h : head = .ok token) :
    (noExpression token).StandsAt head :=
  ⟨⟨token, h, rfl, rfl⟩, by rintro _ _ ⟨⟩⟩

theorem standsAt_unclosed {head : Except LexicalError Token} (h : head = .ok token) :
    (unclosed token).StandsAt head :=
  ⟨⟨token, h, rfl, rfl⟩, by rintro _ _ ⟨⟩⟩

theorem standsAt_malformed {head : Except LexicalError Token} {digits : String}
    (h : head = .ok token) (hkind : token.kind = .number digits)
    (hvalue : Binary64.ofDigits? digits = none) :
    Failure.StandsAt (.syntactic ⟨.malformedNumber digits, token.span.start⟩) head := by
  refine ⟨⟨token, h, rfl, by rw [hkind]; rfl⟩, fun _ _ hsame => ?_⟩
  cases hsame
  exact ⟨token, h, hkind, hvalue⟩

theorem number_stops : StopsInFront number p := by
  refine .peek fun token q hhead => ?_
  split
  · next digits hkind =>
    split
    · exact StopsInFront.advance.bind fun _ _ _ => .pure _
    · next hvalue => exact .throw (standsAt_malformed hhead hkind hvalue)
  · exact .throw (standsAt_unexpected hhead)

theorem expectSymbol_stops (c : Char) (wanted : String) :
    StopsInFront (expectSymbol c wanted) p := by
  refine .peek fun token q hhead => ?_
  split
  · exact .advance
  · exact .throw (standsAt_unexpected hhead)

theorem expectIdentifier_stops (wanted : String) :
    StopsInFront (expectIdentifier wanted) p := by
  refine .peek fun token q hhead => ?_
  split
  · exact StopsInFront.advance.bind fun _ _ _ => .pure _
  · exact .throw (standsAt_unexpected hhead)

/-- The first token is not looked at, whatever it is. -/
theorem groupingWith_stops (hnested : ∀ q, StopsInFront nested q) :
    StopsInFront (groupingWith nested) p := by
  refine StopsInFront.advance.bind fun _ q _ => (hnested q).bind fun inner q _ => ?_
  refine .peek fun token q hhead => ?_
  split
  · exact StopsInFront.advance.bind fun _ _ _ => .pure _
  · exact .throw (standsAt_unclosed hhead)

theorem argumentsWith_stops (hnested : ∀ q, StopsInFront nested q) (n : Nat) :
    StopsInFront (argumentsWith nested n) p := by
  induction n generalizing p with
  | zero => exact .peek fun token q hhead => .throw (standsAt_noExpression hhead)
  | succ n ih =>
    refine (hnested p).bind fun arg q _ => .peek fun token q hhead => ?_
    split
    · exact StopsInFront.advance.bind fun _ _ _ => .pure _
    · split
      · exact StopsInFront.advance.bind fun _ q _ => ih.bind fun _ _ _ => .pure _
      · exact .throw (standsAt_unexpected hhead)

theorem identifierWith_stops (hnested : ∀ q, StopsInFront nested q) (n : Nat) :
    StopsInFront (identifierWith nested n) p := by
  refine (expectIdentifier_stops _).bind fun named q _ => .peek fun token q _ => ?_
  split
  · refine StopsInFront.advance.bind fun _ q _ => .peek fun token q _ => ?_
    split
    · exact StopsInFront.advance.bind fun _ _ _ => .pure _
    · exact (argumentsWith_stops hnested n).bind fun _ _ _ => .pure _
  · exact .pure _

theorem primaryWith_stops (hnested : ∀ q, StopsInFront nested q) (n : Nat) :
    StopsInFront (primaryWith nested n) p := by
  refine .peek fun token q hhead => ?_
  split
  · exact identifierWith_stops hnested n
  · exact number_stops
  · split
    · exact groupingWith_stops hnested
    · exact .throw (standsAt_noExpression hhead)

theorem operatorsWith_stops (hnested : ∀ q, StopsInFront nested q) (n : Nat) (least : Int)
    (lhs : Node) : StopsInFront (operatorsWith nested n least lhs) p := by
  induction n generalizing p least lhs with
  | zero => exact .peek fun token q _ => .pure _
  | succ n ih =>
    rw [operatorsWith_succ]
    refine .peek fun token q _ => ?_
    split
    · exact .pure _
    · next op _ =>
      split
      · exact .pure _
      · refine StopsInFront.advance.bind fun _ q _ => ?_
        refine (primaryWith_stops hnested n).bind fun operand q _ => ?_
        have hright : StopsInFront (rightOperand nested n op operand) q := by
          refine .peek fun next q _ => ?_
          split
          · exact .pure _
          · split
            · exact ih _ _
            · exact .pure _
        exact hright.bind fun rhs q _ => ih _ _

theorem expressionWithin_stops (n : Nat) : StopsInFront (expressionWithin n) p := by
  induction n generalizing p with
  | zero => exact .peek fun token q hhead => .throw (standsAt_noExpression hhead)
  | succ n ih =>
    exact (primaryWith_stops (fun q => ih) n).bind fun lhs q _ =>
      operatorsWith_stops (fun q => ih) n 0 lhs

theorem paramsWithin_stops (n : Nat) : StopsInFront (paramsWithin n) p := by
  induction n generalizing p with
  | zero => exact .peek fun token q _ => .pure _
  | succ n ih =>
    refine .peek fun token q _ => ?_
    split
    · exact StopsInFront.advance.bind fun _ q _ => ih.bind fun _ _ _ => .pure _
    · exact .pure _

theorem prototypeWithin_stopsInFront (n : Nat) : StopsInFront (prototypeWithin n) p :=
  (expectIdentifier_stops _).bind fun _ _ _ => (expectSymbol_stops _ _).bind fun _ _ _ =>
    (paramsWithin_stops n).bind fun _ _ _ => (expectSymbol_stops _ _).bind fun _ _ _ => .pure _

theorem definitionWithin_stops (n : Nat) : StopsInFront (definitionWithin n) p :=
  StopsInFront.advance.bind fun _ _ _ => (prototypeWithin_stopsInFront n).bind fun _ _ _ =>
    (expressionWithin_stops n).bind fun _ _ _ => .pure _

theorem declarationWithin_stops (n : Nat) : StopsInFront (declarationWithin n) p :=
  StopsInFront.advance.bind fun _ _ _ => (prototypeWithin_stopsInFront n).bind fun _ _ _ =>
    .pure _

theorem topLevelWithin_stopsInFront (n : Nat) : StopsInFront (topLevelWithin n) p := by
  refine .peek fun token q _ => ?_
  split
  · exact .pure _
  · exact (definitionWithin_stops n).bind fun _ _ _ => .pure _
  · exact (declarationWithin_stops n).bind fun _ _ _ => .pure _
  · exact (expressionWithin_stops n).bind fun _ _ _ => .pure _

end Routines

section Requests

variable {p q : Parser} {diagnostic : Diagnostic}

/-- A syntax error of the next construct is reported, and the token that it is about is
passed over. -/
theorem next_of_syntactic (h : topLevel p = .error (.syntactic diagnostic) q) :
    ∃ culprit, q.ahead.head = .ok culprit ∧
      next p = .ok none ((q.report diagnostic).pass.note (.skipped culprit)) := by
  obtain ⟨-, ⟨culprit, hhead, -⟩, -⟩ :=
    (topLevelWithin_stopsInFront p.lexer.pending).stands _ _ h
  refine ⟨culprit, hhead, ?_⟩
  have hrecover := recover_of_ok q diagnostic culprit hhead
  have htop : topLevelWithin p.lexer.pending p = .error (.syntactic diagnostic) q := h
  simp only [next, bounded, nextWithin, htop, bind, EStateM.bind, hrecover]
  rfl

theorem ahead_recovered (q : Parser) (diagnostic : Diagnostic) (culprit : Token) :
    ((q.report diagnostic).pass.note (.skipped culprit)).ahead =
      ⟨q.ahead.tokens.tail, q.ahead.last⟩ :=
  ahead_pass_eq (q.report diagnostic)

/-- The next construct fails only as a top-level construct does, with a lexical error. -/
theorem topLevel_of_next_error {error : LexicalError} (h : next p = .error error q) :
    topLevel p = .error (.lexical error) q := by
  cases htop : topLevel p with
  | ok node? after =>
    have hrun : topLevelWithin p.lexer.pending p = .ok node? after := htop
    cases node? <;> simp only [next, bounded, nextWithin, hrun] at h <;> cases h
  | error failure after =>
    cases failure with
    | lexical other =>
      have hrun : topLevelWithin p.lexer.pending p = .error (.lexical other) after := htop
      simp only [next, bounded, nextWithin, hrun] at h
      obtain ⟨rfl, rfl⟩ := EStateM.Result.error.inj h
      rfl
    | syntactic diagnostic =>
      obtain ⟨culprit, -, hnext⟩ := next_of_syntactic htop
      rw [hnext] at h
      cases h

/-- However the next construct ends, the parser only goes on. -/
theorem isEndOf_next {node? : Option Node} (h : next p = .ok node? q) :
    q.ahead.IsEndOf p.ahead := by
  cases htop : topLevel p with
  | ok found after =>
    have hmoves := (topLevelWithin_stopsInFront p.lexer.pending).moves _ _ htop
    have hrun : topLevelWithin p.lexer.pending p = .ok found after := htop
    cases found <;> simp only [next, bounded, nextWithin, hrun] at h <;>
      obtain ⟨-, rfl⟩ := EStateM.Result.ok.inj h <;> exact hmoves.ahead
  | error failure after =>
    have hmoves := ((topLevelWithin_stopsInFront p.lexer.pending).stands _ _ htop).1
    cases failure with
    | lexical error =>
      have hrun : topLevelWithin p.lexer.pending p = .error (.lexical error) after := htop
      simp only [next, bounded, nextWithin, hrun] at h
      cases h
    | syntactic diagnostic =>
      obtain ⟨culprit, -, hnext⟩ := next_of_syntactic htop
      rw [hnext] at h
      obtain ⟨-, rfl⟩ := EStateM.Result.ok.inj h
      rw [ahead_recovered]
      exact (Stream.IsEndOf.tail _).trans hmoves.ahead

theorem hasTokens_stops : StopsInFront (liftM hasTokens) p := by
  cases hhead : p.ahead.head with
  | error error =>
    have hrun := lift_of_error _ _ _ _ (hasTokens_of_error error hhead)
    constructor
    · intro value after hafter
      rw [hrun] at hafter
      cases hafter
    · intro failure after hafter
      rw [hrun] at hafter
      obtain ⟨rfl, rfl⟩ := EStateM.Result.error.inj hafter
      exact ⟨moves_look p, by rw [ahead_look]; exact hhead, by rintro _ _ ⟨⟩⟩
  | ok token =>
    have hrun := lift_of_ok _ _ _ _ (hasTokens_of_ok token hhead)
    constructor
    · intro value after hafter
      rw [hrun] at hafter
      obtain ⟨rfl, rfl⟩ := EStateM.Result.ok.inj hafter
      exact moves_look p
    · intro failure after hafter
      rw [hrun] at hafter
      cases hafter

/-- Every request but that for the next construct, which recovers, stops where it fails. -/
theorem Request.stopsInFront (request : Request) (hrequest : request ≠ .next) :
    StopsInFront request.run p := by
  cases request with
  | next => exact absurd rfl hrequest
  | current | kind => exact .peek fun _ _ _ => .pure _
  | advance => exact StopsInFront.advance.bind fun _ _ _ => .pure _
  | hasTokens => exact hasTokens_stops.bind fun _ _ _ => .pure _
  | expectSymbol c wanted => exact (expectSymbol_stops c wanted).bind fun _ _ _ => .pure _
  | expectIdentifier wanted => exact (expectIdentifier_stops wanted).bind fun _ _ _ => .pure _
  | topLevel => exact (StopsInFront.bounded topLevelWithin_stopsInFront).bind fun _ _ _ => .pure _
  | definition => exact (StopsInFront.bounded definitionWithin_stops).bind fun _ _ _ => .pure _
  | declaration => exact (StopsInFront.bounded declarationWithin_stops).bind fun _ _ _ => .pure _
  | prototype =>
    exact (StopsInFront.bounded prototypeWithin_stopsInFront).bind fun _ _ _ => .pure _
  | expression => exact (StopsInFront.bounded expressionWithin_stops).bind fun _ _ _ => .pure _
  | primary =>
    exact (StopsInFront.bounded fun n =>
      primaryWith_stops (fun _ => expressionWithin_stops n) n).bind fun _ _ _ => .pure _
  | grouping =>
    exact (StopsInFront.bounded fun n =>
      groupingWith_stops fun _ => expressionWithin_stops n).bind fun _ _ _ => .pure _
  | identifier =>
    exact (StopsInFront.bounded fun n =>
      identifierWith_stops (fun _ => expressionWithin_stops n) n).bind fun _ _ _ => .pure _
  | number => exact number_stops.bind fun _ _ _ => .pure _
  | operators least lhs =>
    exact (StopsInFront.bounded fun n =>
      operatorsWith_stops (fun _ => expressionWithin_stops n) n least lhs).bind
        fun _ _ _ => .pure _

/-- The request for the next construct ends as the routine does. -/
theorem Request.next_run (p : Parser) : Request.next.run p = match Parser.next p with
    | .ok node? after => .ok (.node? node?) after
    | .error error after => .error (.lexical error) after := by
  show ((liftM Parser.next : ParseM (Option Node)) >>= fun node? => pure (Reply.node? node?)) p = _
  cases hnext : Parser.next p with
  | ok node? after => rw [bind_of_ok _ _ _ _ _ (lift_of_ok _ _ _ _ hnext)]; rfl
  | error error after => rw [bind_of_error _ _ _ _ _ (lift_of_error _ _ _ _ hnext)]

/-- A request that fails has only moved forward, up to what its failure is about. -/
theorem Request.stands_of_error (request : Request) {failure : Failure}
    (h : request.run p = .error failure q) : p.Moves q ∧ failure.StandsAt q.ahead.head := by
  by_cases hrequest : request = .next
  · subst hrequest
    rw [next_run] at h
    cases hnext : Parser.next p with
    | ok node? after =>
      rw [hnext] at h
      cases h
    | error error after =>
      rw [hnext] at h
      obtain ⟨rfl, rfl⟩ := EStateM.Result.error.inj h
      exact (topLevelWithin_stopsInFront p.lexer.pending).stands _ _ (topLevel_of_next_error hnext)
  · exact (request.stopsInFront hrequest).stands _ _ h

/-- Whatever is asked of a parser, what is left afterwards is the end of what was left. -/
theorem Request.isEndOf_run (request : Request) (p : Parser) :
    (settled (request.run p)).2.ahead.IsEndOf p.ahead := by
  cases hrun : request.run p with
  | error failure after => exact (request.stands_of_error hrun).1.ahead
  | ok reply after =>
    by_cases hrequest : request = .next
    · subst hrequest
      rw [next_run] at hrun
      cases hnext : Parser.next p with
      | ok node? q =>
        rw [hnext] at hrun
        obtain ⟨-, rfl⟩ := EStateM.Result.ok.inj hrun
        exact isEndOf_next hnext
      | error error q =>
        rw [hnext] at hrun
        cases hrun
    · exact ((request.stopsInFront hrequest).moves _ _ hrun).ahead

theorem isEndOf_serve (requests : List Request) (p : Parser) :
    (serve requests p).2.ahead.IsEndOf p.ahead := by
  induction requests generalizing p with
  | nil => exact .refl _
  | cons request requests ih => exact (ih _).trans (request.isEndOf_run p)

end Requests

/-- Reading failed over this token. Only tokens in front of it were passed over and nothing
was reported, it is the one that is current afterwards, and the diagnostic tells where in
the source it starts and what it is. -/
structure FailedOver (file : String) (before after : Parser) (diagnostic : Diagnostic)
    (token : Token) : Prop where
  taken : ∃ taken, before.ahead = ⟨taken ++ after.ahead.tokens, after.ahead.last⟩
  current : ∃ looked, Request.current.run after = .ok (.token token) looked ∧
    looked.ahead = after.ahead
  position_eq : diagnostic.position = token.span.start
  file_eq : diagnostic.position.file = file
  found_eq : diagnostic.cause.found = token.kind.describe
  diagnostics_eq : after.diagnostics = before.diagnostics

end Parser

/-- Every token of a source, and what ends it, stands in this source. -/
theorem Tiles.file_eq {file : String} {offset : Nat} {text : List Char} {tokens : List Token}
    {last : Except LexicalError Token} (h : Tiles file offset text tokens last) :
    (∀ token ∈ tokens, token.span.start.file = file) ∧
      ∀ final, last = .ok final → final.span.start.file = file := by
  induction h with
  | finish =>
    refine ⟨by simp, fun final hfinal => ?_⟩
    obtain rfl := Except.ok.inj hfinal
    rfl
  | stuck => exact ⟨by simp, by rintro _ ⟨⟩⟩
  | token hblanks hmunch hrest ih => exact ⟨List.forall_mem_cons.mpr ⟨rfl, ih.1⟩, ih.2⟩

namespace Parser

section Sources

variable {source : String} {file : Option String} {start p q : Parser} {diagnostic : Diagnostic}
  {failure : Failure}

/-- What stands next in a source stands in this source. -/
theorem file_of_isEndOf (hstart : start.lexer = Lexer.ofSource source file)
    (h : p.ahead.IsEndOf start.ahead) {token : Token} (hhead : p.ahead.head = .ok token) :
    token.span.start.file = file.getD Lexer.defaultFile := by
  have htiles := Lexer.tiles_ofSource source file
  have hahead : start.ahead = (Lexer.ofSource source file).stream := by rw [ahead, hstart]
  rw [hahead] at h
  rcases h.mem_of_head hhead with hmem | hlast
  · exact htiles.file_eq.1 token hmem
  · exact htiles.file_eq.2 token hlast

/-- The digits that stand next in a source stand for a number. -/
theorem exists_ofDigits?_of_isEndOf (hstart : start.lexer = Lexer.ofSource source file)
    (h : p.ahead.IsEndOf start.ahead) {token : Token} (hhead : p.ahead.head = .ok token)
    {digits : String} (hkind : token.kind = .number digits) :
    ∃ value, Binary64.ofDigits? digits = some value := by
  have hahead : start.ahead = (Lexer.ofSource source file).stream := by rw [ahead, hstart]
  rw [hahead] at h
  rcases h.mem_of_head hhead with hmem | hlast
  · obtain ⟨text, rest, hmunch⟩ := (Lexer.tiles_ofSource source file).exists_munch? token hmem
    rw [hkind] at hmunch
    exact Token.Kind.exists_ofDigits? hmunch
  · have hend := (Lexer.stream_kinds (Lexer.ofSource source file) _ _ rfl).2 token hlast
    rw [hkind] at hend
    cases hend

/-- So no failure is ever about a number. -/
theorem not_malformed_of_standsAt (hstart : start.lexer = Lexer.ofSource source file)
    (h : p.ahead.IsEndOf start.ahead) (hstands : Failure.StandsAt failure p.ahead.head)
    (digits : String) (position : Position) :
    failure ≠ .syntactic ⟨.malformedNumber digits, position⟩ := by
  intro hfailure
  obtain ⟨token, hhead, hkind, hnone⟩ := hstands.malformed digits position hfailure
  obtain ⟨value, hvalue⟩ := exists_ofDigits?_of_isEndOf hstart h hhead hkind
  rw [hnone] at hvalue
  cases hvalue

/-- The error behind all tokens is the one that splitting the source into tokens gives. -/
theorem tokenize_of_isEndOf (hstart : start.lexer = Lexer.ofSource source file)
    (h : p.ahead.IsEndOf start.ahead) {error : LexicalError}
    (hhead : p.ahead.head = .error error) : tokenize source file = .error error := by
  have hahead : start.ahead = (Lexer.ofSource source file).stream := by rw [ahead, hstart]
  have hlast : p.ahead.last = .error error := Stream.last_of_head_error hhead
  rw [hahead] at h
  rw [h.last_eq] at hlast
  rw [tokenize_eq source file _ _ rfl, hlast]
  rfl

theorem FailedOver.of_standsAt (hstart : start.lexer = Lexer.ofSource source file)
    (hp : p.ahead.IsEndOf start.ahead) (hmoves : p.Moves q)
    (hstands : Failure.StandsAt (.syntactic diagnostic) q.ahead.head) :
    ∃ token, q.ahead.head = .ok token ∧
      FailedOver (file.getD Lexer.defaultFile) p q diagnostic token := by
  obtain ⟨token, hhead, hposition, hfound⟩ := hstands.isAt
  obtain ⟨taken, htaken⟩ := hmoves.ahead.suffix
  refine ⟨token, hhead, ⟨taken, ?_⟩, ⟨q.look, ?_, ahead_look q⟩, hposition, ?_, hfound,
    hmoves.diagnostics_eq⟩
  · rw [htaken, hmoves.ahead.last_eq]
  · exact bind_of_ok _ _ _ _ _ (lift_of_ok _ _ _ _ (peek_of_ok q token hhead))
  · rw [hposition]
    exact file_of_isEndOf hstart (hmoves.ahead.trans hp) hhead

end Sources

/-- Every routine stops at the token it fails over and leaves it untouched. Whatever was asked
of a parser before and whatever token is current, a request that fails with a diagnostic has
failed over the token that is current afterwards. One that fails with a lexical error has
met the error of the source, which every later request is answered with. And where the next
construct fails with a diagnostic, recovery reports just this one and passes over just
this token, or over none at the end of the input, and cannot fail itself. -/
theorem requests_stop_in_front (source : String) (file : Option String) (start : Parser)
    (hstart : start.lexer = Lexer.ofSource source file) (requests : List Request) :
    (∀ request diagnostic after,
      Request.run request (serve requests start).2 = .error (.syntactic diagnostic) after →
      ∃ token, FailedOver (file.getD Lexer.defaultFile) (serve requests start).2 after
        diagnostic token) ∧
    (∀ request error after,
      Request.run request (serve requests start).2 = .error (.lexical error) after →
      (∃ lexer, after.lexer.peek = .error error lexer) ∧ tokenize source file = .error error ∧
        after.diagnostics = (serve requests start).2.diagnostics ∧
        ∀ later, (serve later after).1 = later.map (fun _ => .error (.lexical error)) ∧
          (serve later after).2.diagnostics = after.diagnostics) ∧
    ∀ diagnostic after,
      topLevel (serve requests start).2 = .error (.syntactic diagnostic) after →
      ∃ token behind, FailedOver (file.getD Lexer.defaultFile) (serve requests start).2 after
          diagnostic token ∧
        next (serve requests start).2 = .ok none behind ∧
        behind.diagnostics = (serve requests start).2.diagnostics.push diagnostic ∧
        if token.kind = .endOfInput then behind.ahead = after.ahead
        else after.ahead = ⟨token :: behind.ahead.tokens, behind.ahead.last⟩ := by
  have hp := isEndOf_serve requests start
  generalize (serve requests start).2 = p at hp
  refine ⟨fun request diagnostic after hrun => ?_, fun request error after hrun => ?_,
    fun diagnostic after htop => ?_⟩
  · obtain ⟨hmoves, hstands⟩ := request.stands_of_error hrun
    obtain ⟨token, -, hover⟩ := FailedOver.of_standsAt hstart hp hmoves hstands
    exact ⟨token, hover⟩
  · obtain ⟨hmoves, hstands⟩ := request.stands_of_error hrun
    have hhead : after.ahead.head = .error error := hstands.isAt
    have hnext : after.lexer.next = .error error := (Lexer.head_stream _).symm.trans hhead
    have hnil := Stream.nil_of_head_error hhead
    have hlast := Stream.last_of_head_error hhead
    have hahead : after.ahead = ⟨[], .error error⟩ := by
      rw [← hnil, ← hlast]
      rfl
    refine ⟨⟨_, by rw [Lexer.peek_eq, hnext]⟩, ?_, hmoves.diagnostics_eq,
      fun later => serve_of_error later hahead⟩
    exact tokenize_of_isEndOf hstart (hmoves.ahead.trans hp) hhead
  · obtain ⟨hmoves, hstands⟩ := (topLevelWithin_stopsInFront p.lexer.pending).stands _ _ htop
    obtain ⟨token, hhead, hover⟩ := FailedOver.of_standsAt hstart hp hmoves hstands
    obtain ⟨culprit, hculprit, hnext⟩ := next_of_syntactic htop
    obtain rfl := Except.ok.inj (hhead.symm.trans hculprit)
    refine ⟨token, _, hover, hnext, ?_, ?_⟩
    · show (after.report diagnostic).pass.diagnostics = _
      rw [diagnostics_pass, ← hmoves.diagnostics_eq]
      rfl
    · rw [ahead_recovered]
      have hkinds := Lexer.stream_kinds after.lexer _ _ rfl
      cases htokens : after.ahead.tokens with
      | nil =>
        have hlast : after.ahead.last = .ok token := by
          rw [← hhead]
          simp only [Stream.head, htokens]
        rw [if_pos (hkinds.2 token hlast), List.tail_nil, ← htokens]
      | cons first rest =>
        obtain rfl : first = token := by
          simpa only [Stream.head, htokens, Except.ok.injEq] using hhead
        rw [if_neg (hkinds.1 first (by rw [show after.lexer.stream.tokens = _ from htokens]; simp)),
          List.tail_cons, ← htokens]

/-- The case of a definition asked for at a parenthesis, of recovery from there, and of an
operand asked for at a character outside the alphabet. -/
theorem requests_stop_in_front_of_parenthesis :
    (Parser.ofSource "f(1 def $" none).lexer = Lexer.ofSource "f(1 def $" none ∧
    (∃ after token,
      Request.run .definition (serve [.advance] (Parser.ofSource "f(1 def $" none)).2 =
        .error (.syntactic ⟨.unexpected "1" "expected function name in prototype",
          ⟨2, "shell"⟩⟩) after ∧
      FailedOver "shell" (serve [.advance] (Parser.ofSource "f(1 def $" none)).2 after
        ⟨.unexpected "1" "expected function name in prototype", ⟨2, "shell"⟩⟩ token) ∧
    (∃ after behind,
      topLevel (serve [.advance] (Parser.ofSource "f(1 def $" none)).2 =
        .error (.syntactic ⟨.unclosedParenthesis "def", ⟨4, "shell"⟩⟩) after ∧
      next (serve [.advance] (Parser.ofSource "f(1 def $" none)).2 = .ok none behind ∧
      behind.diagnostics = (serve [.advance] (Parser.ofSource "f(1 def $" none)).2.diagnostics.push
        ⟨.unclosedParenthesis "def", ⟨4, "shell"⟩⟩) ∧
    ∃ after,
      Request.run .primary (serve [.next, .next] (Parser.ofSource "f(1 def $" none)).2 =
        .error (.lexical ⟨36, ⟨8, "shell"⟩⟩) after ∧
      tokenize "f(1 def $" none = .error ⟨36, ⟨8, "shell"⟩⟩ ∧
      (serve [.current, .next] after).1 =
        [.error (.lexical ⟨36, ⟨8, "shell"⟩⟩), .error (.lexical ⟨36, ⟨8, "shell"⟩⟩)] := by
  obtain ⟨hsyntactic, -, hrecovers⟩ :=
    requests_stop_in_front "f(1 def $" none (Parser.ofSource "f(1 def $" none) rfl [.advance]
  obtain ⟨-, hlexical, -⟩ :=
    requests_stop_in_front "f(1 def $" none (Parser.ofSource "f(1 def $" none) rfl [.next, .next]
  refine ⟨rfl, ?_, ?_, ?_⟩
  · have hfails : (match Request.run .definition
        (serve [.advance] (Parser.ofSource "f(1 def $" none)).2 with
      | .error failure _ => some failure
      | .ok _ _ => none) = some (.syntactic
        ⟨.unexpected "1" "expected function name in prototype", ⟨2, "shell"⟩⟩) := by
      decide +kernel
    split at hfails
    · next failure after hrun =>
      obtain rfl := Option.some.inj hfails
      obtain ⟨token, hover⟩ := hsyntactic .definition _ after hrun
      exact ⟨after, token, hrun, hover⟩
    · cases hfails
  · have hfails : (match topLevel (serve [.advance] (Parser.ofSource "f(1 def $" none)).2 with
      | .error failure _ => some failure
      | .ok _ _ => none) = some (.syntactic ⟨.unclosedParenthesis "def", ⟨4, "shell"⟩⟩) := by
      decide +kernel
    split at hfails
    · next failure after hrun =>
      obtain rfl := Option.some.inj hfails
      obtain ⟨token, behind, -, hnext, hreport, -⟩ := hrecovers _ after hrun
      exact ⟨after, behind, hrun, hnext, hreport⟩
    · cases hfails
  · have hfails : (match Request.run .primary
        (serve [.next, .next] (Parser.ofSource "f(1 def $" none)).2 with
      | .error failure _ => some failure
      | .ok _ _ => none) = some (.lexical ⟨36, ⟨8, "shell"⟩⟩) := by
      decide +kernel
    split at hfails
    · next failure after hrun =>
      obtain rfl := Option.some.inj hfails
      obtain ⟨-, htokens, -, hlater⟩ := hlexical .primary _ after hrun
      exact ⟨after, hrun, htokens, (hlater [.current, .next]).1⟩
    · cases hfails

end Parser

end ExprLang
