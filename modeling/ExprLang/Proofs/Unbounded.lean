import ExprLang.Proofs.Programs

/-!
The routines need no bound. A routine with a bound ends because the bound is used up at last.
Without one it ends just the same: where the bound is no smaller than the number of tokens
left, the program of the routine has a run, which ends as the routine with the bound does.
-/
namespace ExprLang.Parser

open Lexer (Stream)

def remaining (p : Parser) : Nat := p.ahead.tokens.length

section Remaining

variable {p q : Parser} {token : Token}

theorem remaining_look (p : Parser) : p.look.remaining = p.remaining := by
  rw [remaining, ahead_look, remaining]

/-- Nothing is taken away where nothing is left. -/
theorem remaining_pass (p : Parser) : p.pass.remaining = p.remaining - 1 := by
  rw [remaining, ahead_pass_eq, List.length_tail, remaining]

theorem remaining_pos (hhead : p.ahead.head = .ok token) (hkind : token.kind ≠ .endOfInput) :
    0 < p.remaining := by
  rw [remaining, List.length_pos_iff]
  intro hnil
  have hlast : p.ahead.last = .ok token := by simpa only [Stream.head, hnil] using hhead
  exact hkind ((Lexer.stream_kinds p.lexer _ _ rfl).2 token hlast)

/-- Where nothing is left, the end of the input is the only token to be seen. -/
theorem kind_of_remaining_eq_zero (hp : p.remaining = 0) (hhead : p.ahead.head = .ok token) :
    token.kind = .endOfInput := by
  by_contra hkind
  have hpos := remaining_pos hhead hkind
  omega

theorem Moves.remaining_le (h : p.Moves q) : q.remaining ≤ p.remaining :=
  h.ahead.suffix.length_le

end Remaining

/-- From here the program ends as the routine with a bound does. -/
def Follows {α : Type} (program : Program α) (routine : ParseM α) (p : Parser) : Prop :=
  program.Runs p (settled (routine p)).1 (settled (routine p)).2

namespace Follows

variable {α β : Type} {program : Program α} {routine : ParseM α} {p : Parser}

theorem of_ok {value : α} {q : Parser} (hrun : routine p = .ok value q)
    (h : program.Runs p (.ok value) q) : Follows program routine p := by
  rw [Follows, hrun]
  exact h

theorem of_error {failure : Failure} {q : Parser} (hrun : routine p = .error failure q)
    (h : program.Runs p (.error failure) q) : Follows program routine p := by
  rw [Follows, hrun]
  exact h

theorem pure (value : α) : Follows (Pure.pure value) (Pure.pure value) p := .done

theorem throw (failure : Failure) :
    Follows (Program.fail failure : Program α) (MonadExcept.throw failure) p := .done

theorem bind {next : α → Program β} {next' : α → ParseM β} (h : Follows program routine p)
    (hnext : ∀ value q, routine p = .ok value q → Follows (next value) (next' value) q) :
    Follows (program >>= next) (routine >>= next') p := by
  cases hrun : routine p with
  | ok value q =>
    rw [Follows, hrun] at h
    rw [Follows, bind_of_ok _ _ _ _ _ hrun]
    exact h.bind_ok (hnext value q hrun)
  | error failure q =>
    rw [Follows, hrun] at h
    exact of_error (bind_of_error _ _ _ _ _ hrun) h.bind_error

theorem read (reading : Reading) {next : Token → Program α} {next' : Token → ParseM α}
    (hnext : ∀ token, p.ahead.head = .ok token →
      Follows (next token) (next' token) (reading.behind p)) :
    Follows (.read reading next) (liftM reading.run >>= next') p := by
  cases hhead : p.ahead.head with
  | ok token =>
    have hread := reading.run_of_ok hhead
    rw [Follows, bind_of_ok _ next' _ _ _ (lift_of_ok _ _ _ _ hread)]
    exact .read hread (hnext token hhead)
  | error error =>
    have hread := reading.run_of_error hhead
    exact of_error (bind_of_error _ next' _ _ _ (lift_of_error _ _ _ _ hread)) (.readFails hread)

theorem peek {next : Token → Program α} {next' : Token → ParseM α}
    (hnext : ∀ token, p.ahead.head = .ok token → Follows (next token) (next' token) p.look) :
    Follows (Program.peek >>= next) (liftM Parser.peek >>= next') p :=
  read .look hnext

theorem advance {next : Token → Program α} {next' : Token → ParseM α}
    (hnext : ∀ token, p.ahead.head = .ok token → Follows (next token) (next' token) p.pass) :
    Follows (Program.advance >>= next) (liftM Parser.advance >>= next') p :=
  read .pass hnext

theorem advance_alone : Follows Program.advance (liftM Parser.advance) p := by
  have hbind : (liftM Parser.advance >>= Pure.pure : ParseM Token) = liftM Parser.advance :=
    bind_pure _
  rw [← hbind]
  exact read .pass fun token _ => pure token

/-- What counts for a bound is the parser that the routine is started from. -/
theorem bounded (routine : Nat → ParseM α) (h : Follows program (routine p.lexer.pending) p) :
    Follows program (Parser.bounded routine) p := h

theorem invoke (called : Routine) {routine : ParseM called.Result}
    (h : Follows called.body routine p) : Follows (Program.invoke called) routine p := by
  cases hrun : routine p with
  | ok value q =>
    rw [Follows, hrun] at h
    exact of_ok hrun (.call h .done)
  | error failure q =>
    rw [Follows, hrun] at h
    exact of_error hrun (.callFails h)

end Follows

def Takes {α : Type} (routine : ParseM α) (p : Parser) : Prop :=
  ∀ value q, routine p = .ok value q → q.remaining < p.remaining

namespace Takes

variable {α β : Type} {first : ParseM α} {next : α → ParseM β} {p : Parser}

theorem throw (failure : Failure) : Takes (MonadExcept.throw failure : ParseM α) p := by
  rintro _ _ ⟨⟩

/-- What two routines read, one behind the other, the second one read where the first one
stopped. -/
theorem exists_of_bind {value : β} {r : Parser} (h : (first >>= next) p = .ok value r) :
    ∃ found q, first p = .ok found q ∧ next found q = .ok value r := by
  cases hfirst : first p with
  | ok found q =>
    rw [bind_of_ok _ _ _ _ _ hfirst] at h
    exact ⟨found, q, rfl, h⟩
  | error failure q =>
    rw [bind_of_error _ _ _ _ _ hfirst] at h
    cases h

theorem bind_first (h : Takes first p)
    (hnext : ∀ value q, first p = .ok value q → StopsInFront (next value) q) :
    Takes (first >>= next) p := by
  intro value r hrun
  obtain ⟨found, q, hfirst, hrest⟩ := exists_of_bind hrun
  have hless := h found q hfirst
  have hle := ((hnext found q hfirst).moves value r hrest).remaining_le
  omega

theorem bind_next (h : StopsInFront first p)
    (hnext : ∀ value q, first p = .ok value q → Takes (next value) q) :
    Takes (first >>= next) p := by
  intro value r hrun
  obtain ⟨found, q, hfirst, hrest⟩ := exists_of_bind hrun
  have hle := (h.moves found q hfirst).remaining_le
  have hless := hnext found q hfirst value r hrest
  omega

theorem peek {next : Token → ParseM β}
    (hnext : ∀ token, p.look.ahead.head = .ok token → Takes (next token) p.look) :
    Takes (liftM Parser.peek >>= next) p := by
  intro value q hrun
  cases hhead : p.ahead.head with
  | ok token =>
    rw [bind_of_ok _ next _ _ _ (lift_of_ok _ _ _ _ (peek_of_ok p token hhead))] at hrun
    rw [← remaining_look p]
    exact hnext token (by rw [ahead_look, hhead]) value q hrun
  | error error =>
    rw [bind_of_error _ next _ _ _ (lift_of_error _ _ _ _ (peek_of_error p error hhead))] at hrun
    cases hrun

/-- All tokens but the end of the input are passed over. -/
theorem advance {token : Token} (hhead : p.ahead.head = .ok token)
    (hkind : token.kind ≠ .endOfInput) : Takes (liftM Parser.advance) p := by
  intro value q hrun
  rw [lift_of_ok _ _ _ _ (advance_of_ok p token hhead)] at hrun
  obtain ⟨-, rfl⟩ := EStateM.Result.ok.inj hrun
  have hpos := remaining_pos hhead hkind
  have hpass := remaining_pass p
  omega

end Takes

section Taking

variable {p : Parser} {m n : Nat}

theorem kind_ne_of_isSymbol {token : Token} {c : Char} (h : token.kind.isSymbol c) :
    token.kind ≠ .endOfInput := by
  rw [(Token.Kind.isSymbol_iff _ _).mp h]
  rintro ⟨⟩

theorem number_takes : Takes number p := by
  refine .peek fun token hhead => ?_
  split
  · next digits hkind =>
    split
    · exact (Takes.advance hhead (by simp [hkind])).bind_first fun _ _ _ => .pure _
    · exact .throw _
  · exact .throw _

theorem expectSymbol_takes (c : Char) (wanted : String) : Takes (expectSymbol c wanted) p := by
  refine .peek fun token hhead => ?_
  split
  · next hsymbol => exact .advance hhead (kind_ne_of_isSymbol hsymbol)
  · exact .throw _

theorem expectIdentifier_takes (wanted : String) : Takes (expectIdentifier wanted) p := by
  refine .peek fun token hhead => ?_
  split
  · next name hkind =>
    exact (Takes.advance hhead (by simp [hkind])).bind_first fun _ _ _ => .pure _
  · exact .throw _

/-- The first token may be none that is passed over, but the last one is a parenthesis. -/
theorem groupingWith_takes : Takes (groupingWith (expressionWithin m)) p := by
  refine .bind_next .advance fun _ _ _ => ?_
  refine .bind_next (expressionWithin_stops m) fun inner _ _ => .peek fun token hhead => ?_
  split
  · next hclose =>
    exact (Takes.advance hhead (kind_ne_of_isSymbol hclose)).bind_first fun _ _ _ => .pure _
  · exact .throw _

theorem argumentsWith_takes : Takes (argumentsWith (expressionWithin m) n) p := by
  induction n generalizing p with
  | zero => exact .peek fun _ _ => .throw _
  | succ n ih =>
    refine .bind_next (expressionWithin_stops m) fun arg _ _ => .peek fun token hhead => ?_
    split
    · next hclose =>
      exact (Takes.advance hhead (kind_ne_of_isSymbol hclose)).bind_first fun _ _ _ => .pure _
    · split
      · next hcomma =>
        refine (Takes.advance hhead (kind_ne_of_isSymbol hcomma)).bind_first fun _ _ _ => ?_
        exact (argumentsWith_stops (fun _ => expressionWithin_stops m) n).bind
          fun _ _ _ => .pure _
      · exact .throw _

theorem identifierWith_takes : Takes (identifierWith (expressionWithin m) n) p := by
  refine (expectIdentifier_takes _).bind_first fun named _ _ => .peek fun token _ _ => ?_
  split
  · refine StopsInFront.advance.bind fun _ _ _ => .peek fun _ _ _ => ?_
    split
    · exact StopsInFront.advance.bind fun _ _ _ => .pure _
    · exact (argumentsWith_stops (fun _ => expressionWithin_stops m) n).bind fun _ _ _ => .pure _
  · exact .pure _

theorem primaryWith_takes : Takes (primaryWith (expressionWithin m) n) p := by
  refine .peek fun token _ => ?_
  split
  · exact identifierWith_takes
  · exact number_takes
  · split
    · exact groupingWith_takes
    · exact .throw _

theorem expressionWithin_takes : Takes (expressionWithin n) p := by
  cases n with
  | zero => exact .peek fun _ _ => .throw _
  | succ n =>
    exact primaryWith_takes.bind_first fun lhs _ _ =>
      operatorsWith_stops (fun _ => expressionWithin_stops n) n 0 lhs

theorem prototypeWithin_takes : Takes (prototypeWithin n) p :=
  (expectIdentifier_takes _).bind_first fun _ _ _ => (expectSymbol_stops _ _).bind fun _ _ _ =>
    (paramsWithin_stops n).bind fun _ _ _ => (expectSymbol_stops _ _).bind fun _ _ _ => .pure _

theorem definitionWithin_takes : Takes (definitionWithin n) p :=
  .bind_next .advance fun _ _ _ => prototypeWithin_takes.bind_first fun _ _ _ =>
    (expressionWithin_stops n).bind fun _ _ _ => .pure _

theorem declarationWithin_takes : Takes (declarationWithin n) p :=
  .bind_next .advance fun _ _ _ => prototypeWithin_takes.bind_first fun _ _ _ => .pure _

end Taking

section Routines

variable {p : Parser} {m n : Nat}

theorem expectSymbol_follows (c : Char) (wanted : String) :
    Follows (Program.expectSymbol c wanted) (expectSymbol c wanted) p := by
  refine .peek fun token _ => ?_
  split
  · exact .advance_alone
  · exact .throw _

theorem expectIdentifier_follows (wanted : String) :
    Follows (Program.expectIdentifier wanted) (expectIdentifier wanted) p := by
  refine .peek fun token _ => ?_
  cases token.kind with
  | identifier name => exact .advance fun _ _ => .pure _
  | _ => exact .throw _

theorem number_follows : Follows Program.number number p := by
  refine .peek fun token _ => ?_
  cases token.kind with
  | number digits =>
    cases hvalue : Binary64.ofDigits? digits with
    | some value =>
      simp only [hvalue]
      exact .advance fun _ _ => .pure _
    | none =>
      simp only [hvalue]
      exact .throw _
  | _ => exact .throw _

/-- Where no token is left, what has to start with an operand fails as a routine does whose
bound is used up. -/
def FailsAtEnd {α : Type} (program : Program α) (p : Parser) : Prop :=
  p.remaining = 0 → Follows program (do throw (noExpression (← peek))) p

theorem FailsAtEnd.bind {α β : Type} {program : Program α} {next : α → Program β}
    (h : FailsAtEnd program p) : FailsAtEnd (program >>= next) p := by
  intro hp
  -- What fails anyway can be followed by anything.
  have hbind : (do throw (noExpression (← peek)) : ParseM β) =
      (do throw (noExpression (← peek)) : ParseM α) >>=
        fun _ => (do throw (noExpression (← peek))) := by
    rw [bind_assoc]
    rfl
  rw [hbind]
  refine (h hp).bind fun value q hrun => ?_
  have htakes : Takes (do throw (noExpression (← peek)) : ParseM α) p :=
    .peek fun _ _ => .throw _
  have hless := htakes value q hrun
  omega

theorem primary_failsAtEnd : FailsAtEnd Program.primary p := by
  intro hp
  refine .peek fun token hhead => ?_
  rw [kind_of_remaining_eq_zero hp hhead]
  exact .throw _

theorem expression_failsAtEnd : FailsAtEnd Program.expression p :=
  FailsAtEnd.bind fun hp => .invoke .primary (primary_failsAtEnd hp)

theorem arguments_failsAtEnd : FailsAtEnd Program.arguments p :=
  FailsAtEnd.bind fun hp => .invoke .expression (expression_failsAtEnd hp)

theorem rightOperand_stops (op : Operator) (operand : Node) :
    StopsInFront (Parser.rightOperand (expressionWithin m) n op operand) p := by
  refine .peek fun token _ _ => ?_
  split
  · exact .pure _
  · split
    · exact operatorsWith_stops (fun _ => expressionWithin_stops m) n _ _
    · exact .pure _

theorem rightOperand_follows (op : Operator) (operand : Node)
    (hoperators : ∀ (q : Parser) (least : Int) (lhs : Node), q.remaining ≤ p.remaining →
      Follows (Program.operators least lhs) (operatorsWith (expressionWithin m) n least lhs) q) :
    Follows (Program.rightOperand op operand)
      (Parser.rightOperand (expressionWithin m) n op operand) p := by
  refine .peek fun token _ => ?_
  cases token.kind.operator? with
  | none => exact .pure _
  | some next =>
    simp only
    split
    · exact .invoke (.operators _ _) (hoperators _ _ _ (remaining_look p).le)
    · exact .pure _

/-! Expressions refer to themselves. In the lemmas below the expressions with no more than a
number of tokens left are known to follow, and this number is what the induction is on. -/

section Nested

variable (hnested : ∀ q : Parser, q.remaining ≤ m →
  Follows Program.expression (expressionWithin m) q)

include hnested

theorem grouping_follows (hp : p.remaining ≤ m + 1) :
    Follows Program.grouping (groupingWith (expressionWithin m)) p := by
  have hpass := remaining_pass p
  refine .advance fun _ _ => ?_
  refine .bind (.invoke .expression (hnested _ (by omega))) fun inner q _ => ?_
  refine .peek fun token _ => ?_
  split
  · exact .advance fun _ _ => .pure _
  · exact .throw _

theorem arguments_follows (hm : p.remaining ≤ m) (hn : p.remaining ≤ n) :
    Follows Program.arguments (argumentsWith (expressionWithin m) n) p := by
  induction n generalizing p with
  | zero => exact arguments_failsAtEnd (by omega)
  | succ n ih =>
    refine .bind (.invoke .expression (hnested p hm)) fun arg q hrun => ?_
    -- The argument took a token, so the bound for those behind the comma is large enough.
    have hless := expressionWithin_takes _ _ hrun
    have hlook := remaining_look q
    have hpass := remaining_pass q.look
    refine .peek fun token _ => ?_
    split
    · exact .advance fun _ _ => .pure _
    · split
      · refine .advance fun _ _ => ?_
        exact .bind (.invoke .arguments (ih (by omega) (by omega))) fun _ _ _ => .pure _
      · exact .throw _

theorem identifier_follows (hm : p.remaining ≤ m + 1) (hn : p.remaining ≤ n + 1) :
    Follows Program.identifier (identifierWith (expressionWithin m) n) p := by
  refine (expectIdentifier_follows _).bind fun named q hrun => ?_
  have hless := expectIdentifier_takes _ _ _ hrun
  have hlook := remaining_look q
  have hpass := remaining_pass q.look
  have hlook' := remaining_look q.look.pass
  refine .peek fun token _ => ?_
  split
  · refine .advance fun _ _ => .peek fun _ _ => ?_
    split
    · exact .advance fun _ _ => .pure _
    · exact .bind (.invoke .arguments (arguments_follows hnested (by omega) (by omega)))
        fun _ _ _ => .pure _
  · exact .pure _

theorem primary_follows (hm : p.remaining ≤ m + 1) (hn : p.remaining ≤ n + 1) :
    Follows Program.primary (primaryWith (expressionWithin m) n) p := by
  have hlook := remaining_look p
  refine .peek fun token _ => ?_
  cases hkind : token.kind with
  | identifier name =>
    exact .invoke .identifier (identifier_follows hnested (by omega) (by omega))
  | number digits => exact .invoke .number number_follows
  | _ =>
    simp only
    split
    · exact .invoke .grouping (grouping_follows hnested (by omega))
    · exact .throw _

theorem operators_follows (least : Int) (lhs : Node) (hm : p.remaining ≤ m)
    (hn : p.remaining ≤ n) : Follows (Program.operators least lhs)
      (operatorsWith (expressionWithin m) n least lhs) p := by
  induction n generalizing p least lhs with
  | zero =>
    refine .peek fun token hhead => ?_
    rw [kind_of_remaining_eq_zero (by omega) hhead]
    exact .pure _
  | succ n ih =>
    have hlook := remaining_look p
    have hpass := remaining_pass p.look
    rw [operatorsWith_succ]
    refine .peek fun token _ => ?_
    cases token.kind.operator? with
    | none => exact .pure _
    | some op =>
      simp only
      split
      · exact .pure _
      · refine .advance fun _ _ => ?_
        refine .bind (.invoke .primary (primary_follows hnested (by omega) (by omega)))
          fun operand q hrun => ?_
        have hless := primaryWith_takes _ _ hrun
        refine .bind (rightOperand_follows op operand fun r least lhs hr =>
          ih least lhs (by omega) (by omega)) fun rhs r hrun' => ?_
        have hle := ((rightOperand_stops op operand).moves _ _ hrun').remaining_le
        exact .invoke (.operators _ _) (ih _ _ (by omega) (by omega))

end Nested

theorem expression_follows (hn : p.remaining ≤ n) :
    Follows Program.expression (expressionWithin n) p := by
  induction n generalizing p with
  | zero => exact expression_failsAtEnd (by omega)
  | succ n ih =>
    refine .bind (.invoke .primary (primary_follows (fun q => ih) hn hn)) fun lhs q hrun => ?_
    -- The operators have one bound less, and the first operand took a token.
    have hless := primaryWith_takes _ _ hrun
    exact .invoke (.operators _ _) (operators_follows (fun q => ih) 0 lhs (by omega) (by omega))

theorem params_follows (hn : p.remaining ≤ n) :
    Follows Program.params (paramsWithin n) p := by
  induction n generalizing p with
  | zero =>
    refine .peek fun token hhead => ?_
    rw [kind_of_remaining_eq_zero (by omega) hhead]
    exact .pure _
  | succ n ih =>
    have hlook := remaining_look p
    have hpass := remaining_pass p.look
    refine .peek fun token _ => ?_
    cases token.kind with
    | identifier name =>
      refine .advance fun _ _ => ?_
      exact .bind (.invoke .params (ih (by omega))) fun _ _ _ => .pure _
    | _ => exact .pure _

theorem prototype_follows (hn : p.remaining ≤ n) :
    Follows Program.prototype (prototypeWithin n) p := by
  refine (expectIdentifier_follows _).bind fun named q hrun => ?_
  have hless := expectIdentifier_takes _ _ _ hrun
  refine (expectSymbol_follows _ _).bind fun _ r hrun' => ?_
  have hless' := expectSymbol_takes _ _ _ _ hrun'
  refine .bind (.invoke .params (params_follows (by omega))) fun _ _ _ => ?_
  exact (expectSymbol_follows _ _).bind fun _ _ _ => .pure _

theorem definition_follows (hn : p.remaining ≤ n) :
    Follows Program.definition (definitionWithin n) p := by
  have hpass := remaining_pass p
  refine .advance fun _ _ => ?_
  refine .bind (.invoke .prototype (prototype_follows (by omega))) fun proto q hrun => ?_
  have hless := prototypeWithin_takes _ _ hrun
  exact .bind (.invoke .expression (expression_follows (by omega))) fun _ _ _ => .pure _

theorem declaration_follows (hn : p.remaining ≤ n) :
    Follows Program.declaration (declarationWithin n) p := by
  have hpass := remaining_pass p
  refine .advance fun _ _ => ?_
  exact .bind (.invoke .prototype (prototype_follows (by omega))) fun _ _ _ => .pure _

theorem topLevel_follows (hn : p.remaining ≤ n) :
    Follows Program.topLevel (topLevelWithin n) p := by
  have hlook := remaining_look p
  refine .peek fun token _ => ?_
  cases token.kind with
  | endOfInput => exact .pure _
  | define =>
    exact .bind (.invoke .definition (definition_follows (by omega))) fun _ _ _ => .pure _
  | declare =>
    exact .bind (.invoke .declaration (declaration_follows (by omega))) fun _ _ _ => .pure _
  | _ =>
    exact .bind (.invoke .expression (expression_follows (by omega))) fun _ _ _ => .pure _

end Routines

def Routine.run : (routine : Routine) → ParseM routine.Result
  | topLevel => Parser.topLevel
  | definition => Parser.definition
  | declaration => Parser.declaration
  | prototype => Parser.prototype
  | params => bounded paramsWithin
  | expression => Parser.expression
  | primary => Parser.primary
  | operators least lhs => Parser.operators least lhs
  | grouping => Parser.grouping
  | identifier => Parser.identifier
  | arguments => bounded fun bound => argumentsWith (expressionWithin bound) bound
  | number => Parser.number

/-- The bound decides nothing, wherever a routine is started. -/
theorem Routine.follows (routine : Routine) (p : Parser) :
    Follows routine.body routine.run p := by
  have hbound : p.remaining ≤ p.lexer.pending := Lexer.length_tokens_le_pending p.lexer
  have hnested : ∀ q : Parser, q.remaining ≤ p.lexer.pending →
      Follows Program.expression (expressionWithin p.lexer.pending) q := fun _ => expression_follows
  cases routine with
  | topLevel => exact .bounded topLevelWithin (topLevel_follows hbound)
  | definition => exact .bounded definitionWithin (definition_follows hbound)
  | declaration => exact .bounded declarationWithin (declaration_follows hbound)
  | prototype => exact .bounded prototypeWithin (prototype_follows hbound)
  | params => exact .bounded paramsWithin (params_follows hbound)
  | expression => exact .bounded expressionWithin (expression_follows hbound)
  | primary =>
    exact .bounded (fun bound => primaryWith (expressionWithin bound) bound)
      (primary_follows hnested (by omega) (by omega))
  | operators least lhs =>
    exact .bounded (fun bound => operatorsWith (expressionWithin bound) bound least lhs)
      (operators_follows hnested least lhs hbound hbound)
  | grouping =>
    exact .bounded (fun bound => groupingWith (expressionWithin bound))
      (grouping_follows hnested (by omega))
  | identifier =>
    exact .bounded (fun bound => identifierWith (expressionWithin bound) bound)
      (identifier_follows hnested (by omega) (by omega))
  | arguments =>
    exact .bounded (fun bound => argumentsWith (expressionWithin bound) bound)
      (arguments_follows hnested hbound hbound)
  | number => exact number_follows

/-- Every routine ends, in one way, and this is how it ends with a bound. -/
theorem Routine.runs_iff (routine : Routine) (p q : Parser)
    (outcome : Except Failure routine.Result) :
    routine.body.Runs p outcome q ↔ settled (routine.run p) = (outcome, q) := by
  have hruns := routine.follows p
  constructor
  · intro h
    obtain ⟨houtcome, hafter⟩ := hruns.unique h
    exact Prod.ext houtcome hafter
  · intro h
    rw [Follows, h] at hruns
    exact hruns

end ExprLang.Parser
