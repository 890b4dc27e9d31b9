import ExprLang.Proofs.Unbounded
import Mathlib.Data.List.Chain
import Mathlib.Logic.Relation

/-!
How deep the routines call one another. What is called starts and ends between the tokens at
which the caller does. An expression inside of another one stands behind a parenthesis that
the other one has passed over, so that fewer tokens are left for it. There is then no more
than one expression inside of another one for each token left.
-/
namespace ExprLang.Parser

open Relation

structure Frame where
  routine : Routine
  parser : Parser

/-- The program, started here, comes to this call. What the calls in front of it call
themselves is left out. -/
inductive Program.Calls : {α : Type} → Program α → Parser → Frame → Prop
  | call {α : Type} {routine : Routine} {rest : routine.Result → Program α} {p : Parser} :
      Calls (.call routine rest) p ⟨routine, p⟩
  | read {α : Type} {reading : Reading} {rest : Token → Program α} {token : Token} {p q : Parser}
      {inner : Frame} (hread : reading.run p = .ok token q) (hrest : Calls (rest token) q inner) :
      Calls (.read reading rest) p inner
  | behind {α : Type} {routine : Routine} {rest : routine.Result → Program α}
      {value : routine.Result} {p q : Parser} {inner : Frame}
      (hcall : Runs routine.body p (.ok value) q) (hrest : Calls (rest value) q inner) :
      Calls (.call routine rest) p inner

def Frame.Calls (outer inner : Frame) : Prop := outer.routine.body.Calls outer.parser inner

section Moving

variable {α : Type} {program : Program α} {token : Token} {p q : Parser} {outer inner : Frame}

theorem Program.Calls.moves (h : program.Calls p inner) : p.Moves inner.parser := by
  induction h with
  | call => exact .refl _
  | read hread _ ih => exact (Reading.moves_of_ok hread).trans ih
  | behind hcall _ ih => exact hcall.moves.trans ih

/-- A call that a program makes ends too, and no later than the program does. -/
theorem Program.Calls.ends {outcome : Except Failure α} (h : program.Calls p inner)
    (hruns : program.Runs p outcome q) :
    ∃ outcome' after, inner.routine.body.Runs inner.parser outcome' after ∧ after.Moves q := by
  induction h with
  | call =>
    cases hruns with
    | call hcall hrest => exact ⟨_, _, hcall, hrest.moves⟩
    | callFails hcall => exact ⟨_, _, hcall, .refl _⟩
  | read hread _ ih =>
    cases hruns with
    | read hread' hrest =>
      obtain ⟨rfl, rfl⟩ := EStateM.Result.ok.inj (hread.symm.trans hread')
      exact ih hrest
    | readFails hread' => cases hread.symm.trans hread'
  | behind hcall _ ih =>
    cases hruns with
    | call hcall' hrest =>
      obtain ⟨hvalue, rfl⟩ := hcall.unique hcall'
      obtain rfl := Except.ok.inj hvalue
      exact ih hrest
    | callFails hcall' => cases (hcall.unique hcall').1

theorem Program.Calls.of_peek {next : Token → Program α} (hhead : p.ahead.head = .ok token)
    (h : (next token).Calls p.look inner) : (Program.peek >>= next).Calls p inner :=
  .read (Reading.run_of_ok .look hhead) h

theorem Frame.moves_of_reflTransGen (h : ReflTransGen Frame.Calls outer inner) :
    outer.parser.Moves inner.parser := by
  induction h with
  | refl => exact .refl _
  | tail _ hcalls ih => exact ih.trans (Program.Calls.moves hcalls)

def Frame.after (frame : Frame) : Parser := (settled (frame.routine.run frame.parser)).2

theorem Frame.moves_after (frame : Frame) : frame.parser.Moves frame.after :=
  (frame.routine.follows frame.parser).moves

theorem Frame.after_moves_of_reflTransGen (h : ReflTransGen Frame.Calls outer inner) :
    inner.after.Moves outer.after := by
  induction h with
  | refl => exact .refl _
  | @tail middle inner _ hcalls ih =>
    obtain ⟨_, after, hruns, hmoves⟩ :=
      Program.Calls.ends hcalls (middle.routine.follows middle.parser)
    obtain rfl : inner.after = after := ((inner.routine.follows inner.parser).unique hruns).2
    exact hmoves.trans ih

end Moving

def EachCall {α : Type} (P : Frame → Prop) (program : Program α) (p : Parser) : Prop :=
  ∀ inner, program.Calls p inner → P inner

namespace EachCall

variable {α β : Type} {P : Frame → Prop} {p : Parser}

theorem done (outcome : Except Failure α) : EachCall P (.done outcome) p := by
  intro inner h
  cases h

theorem read (reading : Reading) {next : Token → Program α}
    (hnext : ∀ token, p.ahead.head = .ok token → EachCall P (next token) (reading.behind p)) :
    EachCall P (.read reading next) p := by
  intro inner h
  cases h with
  | read hread hrest =>
    obtain ⟨hhead, rfl⟩ := Reading.head_of_run hread
    exact hnext _ hhead inner hrest

theorem peek {next : Token → Program α}
    (hnext : ∀ token, p.ahead.head = .ok token → EachCall P (next token) p.look) :
    EachCall P (Program.peek >>= next) p :=
  read .look hnext

theorem advance {next : Token → Program α}
    (hnext : ∀ token, p.ahead.head = .ok token → EachCall P (next token) p.pass) :
    EachCall P (Program.advance >>= next) p :=
  read .pass hnext

theorem invoke_bind (routine : Routine) {next : routine.Result → Program α} (h : P ⟨routine, p⟩)
    (hnext : ∀ value q, routine.body.Runs p (.ok value) q → EachCall P (next value) q) :
    EachCall P (Program.invoke routine >>= next) p := by
  intro inner h
  cases h with
  | call => exact h
  | behind hcall hrest => exact hnext _ _ hcall inner hrest

/-- A call at the end of a program. -/
theorem invoke (routine : Routine) (h : P ⟨routine, p⟩) :
    EachCall P (Program.invoke routine) p := by
  intro inner h
  cases h with
  | call => exact h
  | behind _ hrest => cases hrest

theorem bind {first : Program α} {next : α → Program β} (h : EachCall P first p)
    (hnext : ∀ value q, first.Runs p (.ok value) q → EachCall P (next value) q) :
    EachCall P (first >>= next) p := by
  -- Each step of the first program is one of both programs, so the induction is on its text.
  induction first generalizing p with
  | done outcome =>
    cases outcome with
    | ok value => exact hnext value p .done
    | error failure => exact done _
  | read reading rest ih =>
    intro inner hinner
    cases hinner with
    | read hread hrest =>
      exact ih _ (fun inner hinner => h inner (.read hread hinner))
        (fun value q hruns => hnext value q (.read hread hruns)) inner hrest
  | call routine rest ih =>
    intro inner hinner
    cases hinner with
    | call => exact h _ .call
    | behind hcall hrest =>
      exact ih _ (fun inner hinner => h inner (.behind hcall hinner))
        (fun value q hruns => hnext value q (.call hcall hruns)) inner hrest

end EachCall

/-- A call that an expression with this number of tokens left may make, itself or through
other calls. Another expression has less left, and so have arguments. -/
def Frame.Within (count : Nat) (frame : Frame) : Prop :=
  match frame.routine with
  | .expression | .arguments => frame.parser.remaining < count
  | .primary | .identifier | .number | .operators _ _ => frame.parser.remaining ≤ count
  | .grouping => 0 < frame.parser.remaining ∧ frame.parser.remaining ≤ count
  | .topLevel | .definition | .declaration | .prototype | .params => False

section Within

variable {p : Parser} {count : Nat} {outer inner : Frame}

theorem grouping_within (hpos : 0 < p.remaining) (hle : p.remaining ≤ count) :
    EachCall (Frame.Within count) Program.grouping p := by
  have hpass := remaining_pass p
  refine .advance fun _ _ => .invoke_bind .expression ?_ fun inner q _ => .peek fun token _ => ?_
  · show p.pass.remaining < count
    omega
  · split
    · exact .advance fun _ _ => .done _
    · exact .done _

theorem arguments_within (hless : p.remaining < count) :
    EachCall (Frame.Within count) Program.arguments p := by
  refine .invoke_bind .expression hless fun arg q hruns => .peek fun token _ => ?_
  have hle := hruns.moves.remaining_le
  have hlook := remaining_look q
  have hpass := remaining_pass q.look
  split
  · exact .advance fun _ _ => .done _
  · split
    · refine .advance fun _ _ => .invoke_bind .arguments ?_ fun _ _ _ => .done _
      show q.look.pass.remaining < count
      omega
    · exact .done _

theorem expectIdentifier_calls (P : Frame → Prop) (wanted : String) :
    EachCall P (Program.expectIdentifier wanted) p := by
  refine .peek fun token _ => ?_
  split
  · exact .advance fun _ _ => .done _
  · exact .done _

/-- Behind a name there is a token less. -/
theorem remaining_lt_of_expectIdentifier {wanted : String} {named : String × Token} {q : Parser}
    (h : (Program.expectIdentifier wanted).Runs p (.ok named) q) : q.remaining < p.remaining := by
  obtain ⟨houtcome, hafter⟩ := (expectIdentifier_follows wanted).unique h
  cases hrun : expectIdentifier wanted p with
  | ok value r =>
    rw [hrun] at hafter
    obtain rfl : r = q := hafter
    exact expectIdentifier_takes wanted value r hrun
  | error failure r =>
    rw [hrun] at houtcome
    cases houtcome

theorem identifier_within (hle : p.remaining ≤ count) :
    EachCall (Frame.Within count) Program.identifier p := by
  refine (expectIdentifier_calls _ _).bind fun named q hruns => .peek fun token _ => ?_
  -- The name alone leaves less for the arguments than was left for the call.
  have hless := remaining_lt_of_expectIdentifier hruns
  have hlook := remaining_look q
  have hpass := remaining_pass q.look
  have hlook' := remaining_look q.look.pass
  split
  · refine .advance fun _ _ => .peek fun _ _ => ?_
    split
    · exact .advance fun _ _ => .done _
    · refine .invoke_bind .arguments ?_ fun _ _ _ => .done _
      show q.look.pass.look.remaining < count
      omega
  · exact .done _

theorem primary_within (hle : p.remaining ≤ count) :
    EachCall (Frame.Within count) Program.primary p := by
  have hlook := remaining_look p
  refine .peek fun token hhead => ?_
  split
  · exact .invoke .identifier (hlook.trans_le hle)
  · exact .invoke .number (hlook.trans_le hle)
  · split
    · next hopen =>
      -- Only here is a grouping called, where a parenthesis is left for it to pass over.
      have hpos := remaining_pos hhead (kind_ne_of_isSymbol hopen)
      exact .invoke .grouping ⟨hpos.trans_eq hlook.symm, hlook.trans_le hle⟩
    · exact .done _

theorem rightOperand_within (op : Operator) (operand : Node) (hle : p.remaining ≤ count) :
    EachCall (Frame.Within count) (Program.rightOperand op operand) p := by
  have hlook := remaining_look p
  refine .peek fun token _ => ?_
  split
  · exact .done _
  · split
    · exact .invoke (.operators _ _) (hlook.trans_le hle)
    · exact .done _

theorem operators_within (least : Int) (lhs : Node) (hle : p.remaining ≤ count) :
    EachCall (Frame.Within count) (Program.operators least lhs) p := by
  have hlook := remaining_look p
  have hpass := remaining_pass p.look
  refine .peek fun token _ => ?_
  split
  · exact .done _
  · next op _ =>
    split
    · exact .done _
    · refine .advance fun _ _ => .invoke_bind .primary ?_ fun operand q hruns => ?_
      · show p.look.pass.remaining ≤ count
        omega
      have hle' := hruns.moves.remaining_le
      refine (rightOperand_within op operand (by omega)).bind fun rhs r hruns' => ?_
      have hle'' := hruns'.moves.remaining_le
      refine .invoke (.operators _ _) ?_
      show r.remaining ≤ count
      omega

theorem expression_within (hle : p.remaining ≤ count) :
    EachCall (Frame.Within count) Program.expression p := by
  refine .invoke_bind .primary hle fun lhs q hruns => .invoke (.operators _ _) ?_
  exact hruns.moves.remaining_le.trans hle

theorem number_within : EachCall (Frame.Within count) Program.number p := by
  refine .peek fun token _ => ?_
  split
  · split
    · exact .advance fun _ _ => .done _
    · exact .done _
  · exact .done _

/-- What may be called within an expression calls nothing but what may be called there. -/
theorem Frame.Within.step (h : outer.Within count) (hcalls : outer.Calls inner) :
    inner.Within count := by
  obtain ⟨routine, parser⟩ := outer
  cases routine with
  | expression => exact expression_within (Nat.le_of_lt h) inner hcalls
  | arguments => exact arguments_within h inner hcalls
  | primary => exact primary_within h inner hcalls
  | identifier => exact identifier_within h inner hcalls
  | number => exact number_within inner hcalls
  | operators least lhs => exact operators_within least lhs h inner hcalls
  | grouping => exact grouping_within h.1 h.2 inner hcalls
  | topLevel | definition | declaration | prototype | params => exact h.elim

theorem Frame.within_of_transGen (hexpression : outer.routine = .expression)
    (h : TransGen Frame.Calls outer inner) : inner.Within outer.parser.remaining := by
  induction h with
  | single hcalls =>
    obtain ⟨routine, parser⟩ := outer
    obtain rfl : routine = .expression := hexpression
    exact expression_within le_rfl _ hcalls
  | tail _ hcalls ih => exact ih.step hcalls

/-- Fewer tokens are left for an expression inside of another one. -/
theorem Frame.remaining_lt_of_transGen (houter : outer.routine = .expression)
    (hinner : inner.routine = .expression) (h : TransGen Frame.Calls outer inner) :
    inner.parser.remaining < outer.parser.remaining := by
  have hwithin := within_of_transGen houter h
  obtain ⟨routine, parser⟩ := inner
  obtain rfl : routine = .expression := hinner
  exact hwithin

/-- Expressions that are each inside of the one before are no more than the tokens left. -/
theorem Frame.length_le_remaining {nest : List Frame} (houter : outer.routine = .expression)
    (hnest : ∀ inner ∈ nest, inner.routine = .expression)
    (hchain : (outer :: nest).IsChain (TransGen Frame.Calls)) :
    nest.length ≤ outer.parser.remaining := by
  -- Each one leaves fewer tokens to those inside of it.
  induction nest generalizing outer with
  | nil => exact Nat.zero_le _
  | cons inner nest ih =>
    obtain ⟨hinner, hrest⟩ := List.forall_mem_cons.mp hnest
    obtain ⟨hcalls, hchain⟩ := List.isChain_cons_cons.mp hchain
    have hless := remaining_lt_of_transGen houter hinner hcalls
    have hle := ih hinner hrest hchain
    rw [List.length_cons]
    omega

end Within

/-- Behind an opening parenthesis that an expression starts with, another one starts. -/
theorem Frame.transGen_of_parenthesis {p : Parser} {token : Token}
    (hhead : p.ahead.head = .ok token) (hkind : token.kind = .mark '(') :
    TransGen Frame.Calls ⟨.expression, p⟩ ⟨.expression, p.look.pass⟩ := by
  have hhead' : p.look.ahead.head = .ok token := by rw [ahead_look, hhead]
  have hprimary : Frame.Calls ⟨.expression, p⟩ ⟨.primary, p⟩ := Program.Calls.call
  have hgrouping : Frame.Calls ⟨.primary, p⟩ ⟨.grouping, p.look⟩ := by
    show Program.Calls (Program.peek >>= _) p _
    refine .of_peek hhead ?_
    split
    · next heq => rw [hkind] at heq; cases heq
    · next heq => rw [hkind] at heq; cases heq
    · rw [hkind]
      exact .call
  have hexpression : Frame.Calls ⟨.grouping, p.look⟩ ⟨.expression, p.look.pass⟩ :=
    .read (Reading.run_of_ok .pass hhead') .call
  exact ((TransGen.single hprimary).tail hgrouping).tail hexpression

def IsAtToken (source : String) (file : Option String) (index : Nat) (p : Parser) : Prop :=
  ∃ behind, (Lexer.ofSource source file).stream =
    ⟨behind ++ p.ahead.tokens, p.ahead.last⟩ ∧ behind.length = index

section Indices

variable {source : String} {file : Option String} {index : Nat} {p q : Parser}

theorem IsAtToken.add_remaining (h : IsAtToken source file index p) :
    index + p.remaining = (Lexer.ofSource source file).stream.tokens.length := by
  obtain ⟨behind, hstream, rfl⟩ := h
  rw [hstream, List.length_append, remaining]

theorem exists_isAtToken (h : p.ahead.IsEndOf (Lexer.ofSource source file).stream) :
    ∃ index, IsAtToken source file index p := by
  obtain ⟨behind, hbehind⟩ := h.suffix
  exact ⟨behind.length, behind, by rw [hbehind, h.last_eq], rfl⟩

theorem IsAtToken.exists_of_moves (h : IsAtToken source file index p) (hmoves : p.Moves q) :
    ∃ later, IsAtToken source file later q := by
  obtain ⟨behind, hstream, -⟩ := h
  have hend : p.ahead.IsEndOf (Lexer.ofSource source file).stream :=
    ⟨by rw [hstream], by rw [hstream]; exact List.suffix_append _ _⟩
  exact exists_isAtToken (hmoves.ahead.trans hend)

/-- What the index grows by is what is left less, so it never falls. -/
theorem IsAtToken.le_of_moves {later : Nat} (h : IsAtToken source file index p)
    (h' : IsAtToken source file later q) (hmoves : p.Moves q) : index ≤ later := by
  have hcount := h.add_remaining
  have hcount' := h'.add_remaining
  have hle := hmoves.remaining_le
  omega

end Indices

/-- The call ends with this outcome, and in no other way. It goes from the token with the first
index to the token with the last one, and the routine with a bound does the same. -/
structure Frame.Goes (source : String) (file : Option String) (first last : Nat) (frame : Frame)
    (outcome : Except Failure frame.routine.Result) : Prop where
  starts : IsAtToken source file first frame.parser
  ends : IsAtToken source file last frame.after
  runs : ∀ outcome' after, frame.routine.body.Runs frame.parser outcome' after ↔
    (outcome', after) = (outcome, frame.after)
  settled_eq : settled (frame.routine.run frame.parser) = (outcome, frame.after)

theorem Frame.exists_goes {source : String} {file : Option String} {first : Nat} {frame : Frame}
    (hfirst : IsAtToken source file first frame.parser) :
    ∃ last outcome, frame.Goes source file first last outcome := by
  obtain ⟨last, hlast⟩ := hfirst.exists_of_moves frame.moves_after
  refine ⟨last, _, hfirst, hlast, fun outcome after => ?_, rfl⟩
  exact (frame.routine.runs_iff frame.parser after outcome).trans eq_comm

/-- Whether what a routine has read cannot be without tokens. The operators behind a left
operand may be none, the parameters of a prototype too, and at the end of the input no
construct is read. -/
def Routine.HasRead : (routine : Routine) → routine.Result → Prop
  | .topLevel, node? => node?.isSome
  | .operators _ _, _ => False
  | .params, _ => False
  | _, _ => True

section Reading

variable {p q : Parser} {n : Nat}

theorem topLevelWithin_takes {node : Node} (h : topLevelWithin n p = .ok (some node) q) :
    q.remaining < p.remaining := by
  have hlook := remaining_look p
  cases hhead : p.ahead.head with
  | error error =>
    rw [topLevelWithin,
      bind_of_error _ _ _ _ _ (lift_of_error _ _ _ _ (peek_of_error p error hhead))] at h
    cases h
  | ok token =>
    rw [topLevelWithin,
      bind_of_ok _ _ _ _ _ (lift_of_ok _ _ _ _ (peek_of_ok p token hhead))] at h
    cases hkind : token.kind with
    | endOfInput =>
      rw [hkind] at h
      cases h
    | define =>
      rw [hkind] at h
      have hless := (definitionWithin_takes.bind_first fun _ _ _ => .pure _) _ _ h
      omega
    | declare =>
      rw [hkind] at h
      have hless := (declarationWithin_takes.bind_first fun _ _ _ => .pure _) _ _ h
      omega
    | _ =>
      rw [hkind] at h
      have hless := (expressionWithin_takes.bind_first fun _ _ _ => .pure _) _ _ h
      omega

theorem Routine.remaining_lt_of_hasRead {routine : Routine} {value : routine.Result}
    (h : routine.run p = .ok value q) (hread : routine.HasRead value) :
    q.remaining < p.remaining := by
  cases routine with
  | topLevel =>
    obtain ⟨node, rfl⟩ := Option.isSome_iff_exists.mp hread
    exact topLevelWithin_takes h
  | definition => exact definitionWithin_takes _ _ h
  | declaration => exact declarationWithin_takes _ _ h
  | prototype => exact prototypeWithin_takes _ _ h
  | params => exact hread.elim
  | expression => exact expressionWithin_takes _ _ h
  | primary => exact primaryWith_takes _ _ h
  | operators least lhs => exact hread.elim
  | grouping => exact groupingWith_takes _ _ h
  | identifier => exact identifierWith_takes _ _ h
  | arguments => exact argumentsWith_takes _ _ h
  | number => exact number_takes _ _ h

end Reading

/-- Where something was read, the call ends at a later token than it started at. -/
theorem Frame.Goes.lt_of_hasRead {source : String} {file : Option String} {first last : Nat}
    {frame : Frame} {value : frame.routine.Result}
    (h : frame.Goes source file first last (.ok value)) (hread : frame.routine.HasRead value) :
    first < last := by
  have hstarts := h.starts.add_remaining
  have hends := h.ends.add_remaining
  have hless : frame.after.remaining < frame.parser.remaining := by
    have hsettled := h.settled_eq
    cases hrun : frame.routine.run frame.parser with
    | ok found after =>
      rw [hrun] at hsettled
      obtain ⟨hfound, hafter⟩ := Prod.mk.inj hsettled
      obtain rfl := Except.ok.inj hfound
      rw [← hafter]
      exact Routine.remaining_lt_of_hasRead hrun hread
    | error failure after =>
      rw [hrun] at hsettled
      cases (Prod.mk.inj hsettled).1
  omega

/-- Every routine ends and goes on. Take a parser that anything was asked of before, any
routine, whatever token is current, and any call made while it runs, itself among them. The
call ends, in one way, at a token with no smaller index than the one it started at, and at a
later one if something was read. All calls that are made meanwhile start and end in between,
and an expression inside of an expression starts at a later token, so that there are no more
of them inside of one another than tokens left. -/
theorem routines_go_on (source : String) (file : Option String) (start : Parser)
    (hstart : start.lexer = Lexer.ofSource source file) (requests : List Request) :
    ∃ index, IsAtToken source file index (serve requests start).2 ∧
      ∀ routine frame,
        ReflTransGen Frame.Calls ⟨routine, (serve requests start).2⟩ frame →
        ∃ first last outcome, frame.Goes source file first last outcome ∧
          index ≤ first ∧ first ≤ last ∧
          (∀ value, outcome = .ok value → frame.routine.HasRead value → first < last) ∧
          (∀ inner, TransGen Frame.Calls frame inner →
            ∃ first' last' outcome', inner.Goes source file first' last' outcome' ∧
              first ≤ first' ∧ first' ≤ last' ∧ last' ≤ last ∧
              (frame.routine = .expression → inner.routine = .expression → first < first')) ∧
          (frame.routine = .expression → ∀ nest : List Frame,
            (frame :: nest).IsChain (TransGen Frame.Calls) →
            (∀ inner ∈ nest, inner.routine = .expression) →
            first + nest.length ≤ (Lexer.ofSource source file).stream.tokens.length) := by
  have hend : (serve requests start).2.ahead.IsEndOf (Lexer.ofSource source file).stream := by
    rw [← hstart]
    exact isEndOf_serve requests start
  generalize (serve requests start).2 = p at hend
  obtain ⟨index, hindex⟩ := exists_isAtToken hend
  refine ⟨index, hindex, fun routine frame hcalls => ?_⟩
  have hmoves : p.Moves frame.parser := Frame.moves_of_reflTransGen hcalls
  obtain ⟨first, hfirst⟩ := hindex.exists_of_moves hmoves
  obtain ⟨last, outcome, hgoes⟩ := Frame.exists_goes hfirst
  refine ⟨first, last, outcome, hgoes, hindex.le_of_moves hfirst hmoves,
    hfirst.le_of_moves hgoes.ends frame.moves_after, fun value hvalue hread => ?_,
    fun inner hinner => ?_, fun hexpression nest hchain hnest => ?_⟩
  · subst hvalue
    exact hgoes.lt_of_hasRead hread
  · have hmoves' := Frame.moves_of_reflTransGen hinner.to_reflTransGen
    obtain ⟨first', hfirst'⟩ := hfirst.exists_of_moves hmoves'
    obtain ⟨last', outcome', hgoes'⟩ := Frame.exists_goes hfirst'
    refine ⟨first', last', outcome', hgoes', hfirst.le_of_moves hfirst' hmoves',
      hfirst'.le_of_moves hgoes'.ends inner.moves_after,
      hgoes'.ends.le_of_moves hgoes.ends
        (Frame.after_moves_of_reflTransGen hinner.to_reflTransGen),
      fun hexpression hroutine => ?_⟩
    have hless := Frame.remaining_lt_of_transGen hexpression hroutine hinner
    have hcount := hfirst.add_remaining
    have hcount' := hfirst'.add_remaining
    omega
  · have hlength := Frame.length_le_remaining hexpression hnest hchain
    have htotal := hfirst.add_remaining
    omega

/-- The case of an expression inside of two parentheses, which are never closed, and of the
number in there. -/
theorem routines_go_on_in_parentheses :
    (Parser.ofSource "((1 2" none).lexer = Lexer.ofSource "((1 2" none ∧
    (∃ last inner later last' outcome,
      Frame.Goes "((1 2" none 0 last ⟨.expression, Parser.ofSource "((1 2" none⟩
        (.error (.syntactic ⟨.unclosedParenthesis "2", ⟨4, "shell"⟩⟩)) ∧
      TransGen Frame.Calls ⟨.expression, Parser.ofSource "((1 2" none⟩ inner ∧
      inner.routine = .expression ∧ inner.Goes "((1 2" none later last' outcome ∧
      0 < later ∧ last' ≤ last) ∧
    ∃ first last value,
      Frame.Goes "((1 2" none first last
        ⟨.number, (serve [.advance, .advance] (Parser.ofSource "((1 2" none)).2⟩ (.ok value) ∧
      first < last := by
  refine ⟨rfl, ?_, ?_⟩
  · obtain ⟨index, -, hcalls⟩ :=
      routines_go_on "((1 2" none (Parser.ofSource "((1 2" none) rfl []
    obtain ⟨first, last, outcome, hgoes, -, -, -, hinside, -⟩ := hcalls .expression _ .refl
    have hzero : IsAtToken "((1 2" none 0 (Parser.ofSource "((1 2" none) := ⟨[], rfl, rfl⟩
    obtain rfl : first = 0 := by
      have hcount := hgoes.starts.add_remaining
      have hcount' := hzero.add_remaining
      exact Nat.add_right_cancel (hcount.trans hcount'.symm)
    have hhead : (Parser.ofSource "((1 2" none).ahead.head =
        .ok ⟨.mark '(', ⟨⟨0, "shell"⟩, ⟨1, "shell"⟩⟩⟩ := by
      rw [ahead, Lexer.head_stream]
      decide +kernel
    have hinner := Frame.transGen_of_parenthesis hhead rfl
    obtain ⟨later, last', outcome', hgoes', -, -, hle, hless⟩ := hinside _ hinner
    have hfails : (settled (Parser.expression (Parser.ofSource "((1 2" none))).1.map (fun _ => ()) =
        .error (.syntactic ⟨.unclosedParenthesis "2", ⟨4, "shell"⟩⟩) := by
      decide +kernel
    have hsettled : (settled (Parser.expression (Parser.ofSource "((1 2" none))).1 = outcome :=
      congrArg Prod.fst hgoes.settled_eq
    rw [hsettled] at hfails
    cases outcome with
    | ok value => cases hfails
    | error failure =>
      obtain rfl := Except.error.inj hfails
      exact ⟨last, _, later, last', outcome', hgoes, hinner, rfl, hgoes', hless rfl rfl, hle⟩
  · obtain ⟨index, -, hcalls⟩ :=
      routines_go_on "((1 2" none (Parser.ofSource "((1 2" none) rfl [.advance, .advance]
    obtain ⟨first, last, outcome, hgoes, -, -, htakes, -, -⟩ := hcalls .number _ .refl
    have hreads : (settled (Parser.number (serve [.advance, .advance]
        (Parser.ofSource "((1 2" none)).2)).1.isOk := by
      decide +kernel
    have hsettled : (settled (Parser.number (serve [.advance, .advance]
        (Parser.ofSource "((1 2" none)).2)).1 = outcome :=
      congrArg Prod.fst hgoes.settled_eq
    rw [hsettled] at hreads
    cases outcome with
    | ok value => exact ⟨first, last, value, hgoes, htakes value rfl trivial⟩
    | error failure => cases hreads

end ExprLang.Parser
