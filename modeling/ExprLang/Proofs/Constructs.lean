import ExprLang.Proofs.Routines

/-!
Top-level constructs on a list of tokens, as rules like those for expressions,
and the routines that follow them. One call for the next construct either reads
a construct, or reports one diagnostic and passes over the token it is about, or
gives up at a lexical error.
-/
namespace ExprLang

open Lexer (Stream)
open Token.Kind (mark)

inductive ReadsPrototype : List Token → Prototype → List Token → Prop
  | intro {token opener closer : Token} {params rest : List Token} {name : String}
      {names : List String} (hkind : token.kind = .identifier name) (hopen : opener.kind = mark '(')
      (hparams : params.map Token.kind = names.map .identifier) (hclose : closer.kind = mark ')') :
      ReadsPrototype (token :: opener :: (params ++ closer :: rest))
        ⟨name, names, token.span.through closer.span⟩ rest

inductive Refuses (last : Except LexicalError Token) (wanted : String) :
    List Token → Failure → Prop
  | stuck {tokens error} (hhead : Stream.head ⟨tokens, last⟩ = .error error) :
      Refuses last wanted tokens (.lexical error)
  | unexpected {tokens token} (hhead : Stream.head ⟨tokens, last⟩ = .ok token) :
      Refuses last wanted tokens (Parser.unexpected token wanted)

/-- A prototype fails, and the rest begins with the token it fails at. -/
inductive FailsPrototype (last : Except LexicalError Token) :
    List Token → Failure → List Token → Prop
  | name {tokens failure}
      (hkind : ∀ token name, Stream.head ⟨tokens, last⟩ = .ok token →
        token.kind ≠ .identifier name)
      (hrefuses : Refuses last "expected function name in prototype" tokens failure) :
      FailsPrototype last tokens failure tokens
  | opener {token rest name failure} (hkind : token.kind = .identifier name)
      (hopen : ∀ token, Stream.head ⟨rest, last⟩ = .ok token → token.kind ≠ mark '(')
      (hrefuses : Refuses last "expected `(` in prototype" rest failure) :
      FailsPrototype last (token :: rest) failure rest
  | closer {token opener params rest name failure} {names : List String}
      (hkind : token.kind = .identifier name) (hopen : opener.kind = mark '(')
      (hparams : params.map Token.kind = names.map .identifier)
      (hparam : ∀ token name, Stream.head ⟨rest, last⟩ = .ok token →
        token.kind ≠ .identifier name)
      (hclose : ∀ token, Stream.head ⟨rest, last⟩ = .ok token → token.kind ≠ mark ')')
      (hrefuses : Refuses last "expected `)` in prototype" rest failure) :
      FailsPrototype last (token :: opener :: (params ++ rest)) failure rest

inductive ReadsTop (last : Except LexicalError Token) : List Token → Node → List Token → Prop
  | definition {keyword tokens tokens₁ rest proto body} (hkind : keyword.kind = .define)
      (hproto : ReadsPrototype tokens proto tokens₁)
      (hbody : Reads last .expression tokens₁ body rest) :
      ReadsTop last (keyword :: tokens) (.function proto body (keyword.span.through body.span)) rest
  | declaration {keyword tokens rest proto} (hkind : keyword.kind = .declare)
      (hproto : ReadsPrototype tokens proto rest) :
      ReadsTop last (keyword :: tokens)
        (.prototype { proto with span := keyword.span.through proto.span }) rest
  | expression {tokens node rest} (h : Reads last .expression tokens node rest) :
      ReadsTop last tokens node rest

inductive FailsTop (last : Except LexicalError Token) : List Token → Failure → List Token → Prop
  | definitionPrototype {keyword tokens rest failure} (hkind : keyword.kind = .define)
      (hproto : FailsPrototype last tokens failure rest) :
      FailsTop last (keyword :: tokens) failure rest
  | definitionBody {keyword tokens tokens₁ rest proto failure} (hkind : keyword.kind = .define)
      (hproto : ReadsPrototype tokens proto tokens₁)
      (hbody : Fails last .expression tokens₁ failure rest) :
      FailsTop last (keyword :: tokens) failure rest
  | declaration {keyword tokens rest failure} (hkind : keyword.kind = .declare)
      (hproto : FailsPrototype last tokens failure rest) :
      FailsTop last (keyword :: tokens) failure rest
  | expression {token tokens rest failure} (hend : token.kind ≠ .endOfInput)
      (hdefine : token.kind ≠ .define) (hdeclare : token.kind ≠ .declare)
      (h : Fails last .expression (token :: tokens) failure rest) :
      FailsTop last (token :: tokens) failure rest

variable {last : Except LexicalError Token} {tokens rest : List Token}

theorem ReadsPrototype.length_lt {proto : Prototype} (h : ReadsPrototype tokens proto rest) :
    rest.length < tokens.length := by
  cases h with
  | intro =>
    simp only [List.length_cons, List.length_append]
    omega

theorem Refuses.isAt {wanted : String} {failure : Failure}
    (h : Refuses last wanted tokens failure) : failure.IsAt (Stream.head ⟨tokens, last⟩) := by
  cases h with
  | stuck hhead => exact hhead
  | unexpected hhead => exact ⟨_, hhead, rfl, rfl⟩

theorem FailsPrototype.isAt {failure : Failure} (h : FailsPrototype last tokens failure rest) :
    failure.IsAt (Stream.head ⟨rest, last⟩) := by
  cases h with
  | name _ hrefuses | opener _ _ hrefuses | closer _ _ _ _ _ hrefuses => exact hrefuses.isAt

/-- A top-level construct fails at the token in front of the rest. -/
theorem FailsTop.isAt {failure : Failure} (h : FailsTop last tokens failure rest) :
    failure.IsAt (Stream.head ⟨rest, last⟩) := by
  cases h with
  | definitionPrototype _ hproto | declaration _ hproto => exact hproto.isAt
  | definitionBody _ _ hbody => exact hbody.isAt
  | expression _ _ _ hfail => exact hfail.isAt

/-- A top-level construct takes something. -/
theorem ReadsTop.length_lt {node : Node} (h : ReadsTop last tokens node rest) :
    rest.length < tokens.length := by
  cases h with
  | definition _ hproto hbody =>
    have hless := hproto.length_lt
    have hle := hbody.length_le
    simp only [List.length_cons]
    omega
  | declaration _ hproto =>
    have hless := hproto.length_lt
    simp only [List.length_cons]
    omega
  | expression hread => exact hread.length_lt trivial

section Totality

/-- The names in front of the first token that is none. -/
theorem exists_params (hlast : ∀ token, last = .ok token → token.kind = .endOfInput)
    (tokens : List Token) : ∃ (params : List Token) (names : List String) (rest : List Token),
      tokens = params ++ rest ∧
      params.map Token.kind = names.map .identifier ∧
      ∀ token name, Stream.head ⟨rest, last⟩ = .ok token → token.kind ≠ .identifier name := by
  induction tokens with
  | nil =>
    refine ⟨[], [], [], rfl, rfl, fun token name hhead => ?_⟩
    rw [hlast token hhead]
    simp
  | cons token tokens ih =>
    by_cases hkind : ∃ name, token.kind = .identifier name
    · obtain ⟨name, hname⟩ := hkind
      obtain ⟨params, names, rest, rfl, hparams, hrest⟩ := ih
      exact ⟨token :: params, name :: names, rest, rfl, by simp [hname, hparams], hrest⟩
    · refine ⟨[], [], token :: tokens, rfl, rfl, fun next name hhead hname => hkind ⟨name, ?_⟩⟩
      obtain rfl := Except.ok.inj hhead
      exact hname

theorem exists_refusal (wanted : String) (tokens : List Token) :
    ∃ failure, Refuses last wanted tokens failure := by
  cases hhead : Stream.head ⟨tokens, last⟩ with
  | error error => exact ⟨_, .stuck hhead⟩
  | ok token => exact ⟨_, .unexpected hhead⟩

/-- On every list of tokens a prototype is read or fails. -/
theorem settles_prototype (hlast : ∀ token, last = .ok token → token.kind = .endOfInput)
    (tokens : List Token) : (∃ proto rest, ReadsPrototype tokens proto rest) ∨
      ∃ failure rest, FailsPrototype last tokens failure rest := by
  by_cases hname : ∃ token name, Stream.head ⟨tokens, last⟩ = .ok token ∧
      token.kind = .identifier name
  · obtain ⟨token, name, hhead, hkind⟩ := hname
    obtain ⟨tokens, rfl⟩ := exists_cons_of_head hlast hhead (by simp [hkind])
    by_cases hopen : ∃ opener, Stream.head ⟨tokens, last⟩ = .ok opener ∧ opener.kind = mark '('
    · obtain ⟨opener, hopener, hopen⟩ := hopen
      obtain ⟨tokens, rfl⟩ := exists_cons_of_head hlast hopener (by simp [hopen, mark])
      obtain ⟨params, names, rest, rfl, hparams, hparam⟩ := exists_params hlast tokens
      by_cases hclose : ∃ closer, Stream.head ⟨rest, last⟩ = .ok closer ∧ closer.kind = mark ')'
      · obtain ⟨closer, hcloser, hclose⟩ := hclose
        obtain ⟨rest, rfl⟩ := exists_cons_of_head hlast hcloser (by simp [hclose, mark])
        exact Or.inl ⟨_, _, .intro hkind hopen hparams hclose⟩
      · obtain ⟨failure, hrefuses⟩ := exists_refusal "expected `)` in prototype" rest
        exact Or.inr ⟨_, _, .closer hkind hopen hparams hparam
          (fun token hhead heq => hclose ⟨token, hhead, heq⟩) hrefuses⟩
    · obtain ⟨failure, hrefuses⟩ := exists_refusal "expected `(` in prototype" tokens
      exact Or.inr ⟨_, _, .opener hkind (fun token hhead heq => hopen ⟨token, hhead, heq⟩) hrefuses⟩
  · obtain ⟨failure, hrefuses⟩ := exists_refusal "expected function name in prototype" tokens
    exact Or.inr ⟨_, _, .name (fun token name hhead heq => hname ⟨token, name, hhead, heq⟩) hrefuses⟩

/-- In front of an ordinary token a top-level construct is read or fails. -/
theorem settles_top (hlast : ∀ token, last = .ok token → token.kind = .endOfInput) (token : Token)
    (tokens : List Token) (hkind : token.kind ≠ .endOfInput) :
    (∃ node rest, ReadsTop last (token :: tokens) node rest) ∨
      ∃ failure rest, FailsTop last (token :: tokens) failure rest := by
  by_cases hdefine : token.kind = .define
  · rcases settles_prototype hlast tokens with ⟨proto, tokens₁, hproto⟩ | ⟨failure, rest, hfail⟩
    · rcases settles hlast .expression tokens₁ with ⟨body, rest, hbody⟩ | ⟨failure, rest, hfail⟩
      · exact Or.inl ⟨_, _, .definition hdefine hproto hbody⟩
      · exact Or.inr ⟨_, _, .definitionBody hdefine hproto hfail⟩
    · exact Or.inr ⟨_, _, .definitionPrototype hdefine hfail⟩
  · by_cases hdeclare : token.kind = .declare
    · rcases settles_prototype hlast tokens with ⟨proto, rest, hproto⟩ | ⟨failure, rest, hfail⟩
      · exact Or.inl ⟨_, _, .declaration hdeclare hproto⟩
      · exact Or.inr ⟨_, _, .declaration hdeclare hfail⟩
    · rcases settles hlast .expression (token :: tokens) with
        ⟨node, rest, hread⟩ | ⟨failure, rest, hfail⟩
      · exact Or.inl ⟨_, _, .expression hread⟩
      · exact Or.inr ⟨_, _, .expression hkind hdefine hdeclare hfail⟩

end Totality

namespace Parser

variable {α β : Type} {p : Parser} {n : Nat} {outcome : Except Failure Node}

def EndsBehind (routine : ParseM α) (before : Parser) (tokens : List Token) (value : α)
    (rest : List Token) : Prop :=
  ∃ token q, before.Leads tokens (token :: rest) q ∧ routine before = .ok value q.pass

namespace EndsBehind

theorem ends {routine : ParseM α} {value : α} (h : EndsBehind routine p tokens value rest) :
    Ends false routine p tokens (.ok value) rest := by
  obtain ⟨token, q, hleads, hrun⟩ := h
  exact ⟨q.pass, hleads.pass, by simp, hrun⟩

theorem bind {looked : Bool} {routine : ParseM α} {next : α → ParseM β} {value : α} {value' : β}
    {final : List Token} (hp : p.ahead = ⟨tokens, last⟩)
    (h : Ends looked routine p tokens (.ok value) rest)
    (hnext : ∀ q : Parser, q.ahead = ⟨rest, last⟩ → EndsBehind (next value) q rest value' final) :
    EndsBehind (routine >>= next) p tokens value' final := by
  obtain ⟨q, hleads, -, hrun⟩ := h
  obtain ⟨token, s, hleads', hrun'⟩ := hnext q (hleads.ahead_eq hp)
  refine ⟨token, s, hleads.trans hleads', ?_⟩
  rw [bind_of_ok _ _ _ _ _ hrun, hrun']

theorem map {routine : ParseM α} {value : α} (f : α → β)
    (h : EndsBehind routine p tokens value rest) :
    EndsBehind (do return f (← routine)) p tokens (f value) rest := by
  obtain ⟨token, q, hleads, hrun⟩ := h
  exact ⟨token, q, hleads, by rw [bind_of_ok _ _ _ _ _ hrun]; rfl⟩

/-- Two routines that end alike do the same. -/
theorem run_eq {first second : ParseM α} {value : α} (h : EndsBehind first p tokens value rest)
    (h' : EndsBehind second p tokens value rest) : first p = second p := by
  obtain ⟨token, q, hq, hrun⟩ := h
  obtain ⟨token', s, hs, hrun'⟩ := h'
  have htoken : token = token' := by
    obtain ⟨taken, rfl, -⟩ := hq
    obtain ⟨taken', htaken, -⟩ := hs
    have hsame := List.append_inj_right' htaken rfl
    exact (List.cons.inj hsame).1
  subst htoken
  rw [hrun, hrun', pass_congr q s (hq.look_eq hs)]

end EndsBehind

theorem expectSymbol_ends {token : Token} {c : Char} {wanted : String}
    (hp : p.ahead = ⟨token :: rest, last⟩) (hkind : token.kind = mark c) :
    EndsBehind (expectSymbol c wanted) p (token :: rest) token rest := by
  refine EndsBehind.bind hp (Ends.peek hp rfl) fun q hq => ?_
  rw [if_pos ((Token.Kind.isSymbol_iff _ _).mpr hkind)]
  exact ⟨token, q, Leads.refl q _, lift_of_ok _ _ _ _ (advance_of_ok q token (by rw [hq]; rfl))⟩

theorem expectSymbol_refuses {c : Char} {wanted : String} {failure : Failure}
    (hp : p.ahead = ⟨tokens, last⟩)
    (hkind : ∀ token, Stream.head ⟨tokens, last⟩ = .ok token → token.kind ≠ mark c)
    (h : Refuses last wanted tokens failure) :
    Ends true (expectSymbol c wanted) p tokens (.error failure) tokens := by
  cases h with
  | stuck hhead => exact Ends.bind_error (Ends.peek_error hp hhead)
  | unexpected hhead =>
    refine Ends.bind hp (Ends.peek hp hhead) fun q hq hlook => ?_
    rw [if_neg fun h => hkind _ hhead ((Token.Kind.isSymbol_iff _ _).mp h)]
    exact Ends.throw hlook

theorem expectIdentifier_refuses {wanted : String} {failure : Failure}
    (hp : p.ahead = ⟨tokens, last⟩)
    (hkind : ∀ token name, Stream.head ⟨tokens, last⟩ = .ok token →
      token.kind ≠ .identifier name)
    (h : Refuses last wanted tokens failure) :
    Ends true (expectIdentifier wanted) p tokens (.error failure) tokens := by
  cases h with
  | stuck hhead => exact Ends.bind_error (Ends.peek_error hp hhead)
  | unexpected hhead =>
    refine Ends.bind hp (Ends.peek hp hhead) fun q hq hlook => ?_
    split
    · next name heq => exact absurd heq (hkind _ _ hhead)
    · exact Ends.throw hlook

/-- The names of the parameters, up to the first token that is no name. -/
theorem paramsWithin_ends {params : List Token} {names : List String} {follower : Token}
    (hp : p.ahead = ⟨params ++ rest, last⟩) (hn : params.length ≤ n)
    (hparams : params.map Token.kind = names.map .identifier)
    (hhead : Stream.head ⟨rest, last⟩ = .ok follower)
    (hkind : ∀ name, follower.kind ≠ .identifier name) :
    Ends true (paramsWithin n) p (params ++ rest) (.ok names) rest := by
  induction params generalizing names n p with
  | nil =>
    obtain rfl := List.map_eq_nil_iff.mp hparams.symm
    cases n with
    | zero => exact Ends.bind hp (Ends.peek hp hhead) fun q hq hlook => Ends.pure hlook
    | succ n =>
      refine Ends.bind hp (Ends.peek hp hhead) fun q hq hlook => ?_
      split
      · next name heq => exact absurd heq (hkind name)
      · exact Ends.pure hlook
  | cons param params ih =>
    obtain ⟨name, names, rfl, hname, hnames⟩ := List.map_eq_cons_iff.mp hparams.symm
    cases n with
    | zero => simp at hn
    | succ n =>
      refine Ends.bind hp (Ends.peek hp rfl) fun q hq _ => ?_
      simp only [← hname]
      refine Ends.bind hq (Ends.advance hq) fun q hq _ => ?_
      exact Ends.bind hq (ih hq (by simpa using hn) hnames.symm) fun q hq hlook => Ends.pure hlook

theorem paramsWithin_stuck {params : List Token} {names : List String} {error : LexicalError}
    (hp : p.ahead = ⟨params ++ rest, last⟩) (hn : params.length ≤ n)
    (hparams : params.map Token.kind = names.map .identifier)
    (hhead : Stream.head ⟨rest, last⟩ = .error error) :
    Ends true (paramsWithin n) p (params ++ rest) (.error (.lexical error)) rest := by
  induction params generalizing names n p with
  | nil =>
    cases n with
    | zero => exact Ends.bind_error (Ends.peek_error hp hhead)
    | succ n => exact Ends.bind_error (Ends.peek_error hp hhead)
  | cons param params ih =>
    obtain ⟨name, names, rfl, hname, hnames⟩ := List.map_eq_cons_iff.mp hparams.symm
    cases n with
    | zero => simp at hn
    | succ n =>
      refine Ends.bind hp (Ends.peek hp rfl) fun q hq _ => ?_
      simp only [← hname]
      refine Ends.bind hq (Ends.advance hq) fun q hq _ => ?_
      exact Ends.bind_error (ih hq (by simpa using hn) hnames.symm)

theorem prototypeWithin_gives {proto : Prototype} (h : ReadsPrototype tokens proto rest)
    (hp : p.ahead = ⟨tokens, last⟩) (hn : tokens.length ≤ n) :
    EndsBehind (prototypeWithin n) p tokens proto rest := by
  cases h with
  | @intro token opener closer params _ name names hkind hopen hparams hclose =>
    simp only [List.length_cons, List.length_append] at hn
    refine EndsBehind.bind hp (expectIdentifier_ends hp hkind) fun q hq => ?_
    refine EndsBehind.bind hq (expectSymbol_ends hq hopen).ends fun q hq => ?_
    refine EndsBehind.bind hq (paramsWithin_ends hq (by omega) hparams rfl
      (by simp [hclose, mark])) fun q hq => ?_
    exact (expectSymbol_ends hq hclose).map fun close =>
      (⟨name, names, token.span.through close.span⟩ : Prototype)

theorem prototypeWithin_stops {failure : Failure} (h : FailsPrototype last tokens failure rest)
    (hp : p.ahead = ⟨tokens, last⟩) (hn : tokens.length ≤ n) :
    Ends true (prototypeWithin n) p tokens (.error failure) rest := by
  cases h with
  | name hkind hrefuses => exact Ends.bind_error (expectIdentifier_refuses hp hkind hrefuses)
  | opener hkind hopen hrefuses =>
    refine Ends.bind hp (expectIdentifier_ends hp hkind) fun q hq _ => ?_
    exact Ends.bind_error (expectSymbol_refuses hq hopen hrefuses)
  | closer hkind hopen hparams hparam hclose hrefuses =>
    simp only [List.length_cons, List.length_append] at hn
    refine Ends.bind hp (expectIdentifier_ends hp hkind) fun q hq _ => ?_
    refine Ends.bind hq (expectSymbol_ends hq hopen).ends fun q hq _ => ?_
    cases hhead : Stream.head ⟨rest, last⟩ with
    | error error =>
      obtain rfl : failure = .lexical error := by
        cases hrefuses with
        | stuck herror => rw [Except.error.inj (hhead.symm.trans herror)]
        | unexpected hok => simp [hhead] at hok
      exact Ends.bind_error (paramsWithin_stuck hq (by omega) hparams hhead)
    | ok follower =>
      refine Ends.bind hq (paramsWithin_ends hq (by omega) hparams hhead
        fun name => hparam follower name hhead) fun q hq _ => ?_
      exact Ends.bind_error (expectSymbol_refuses hq hclose hrefuses)

theorem definitionWithin_gives {keyword : Token} {tokens₁ : List Token} {proto : Prototype}
    {body : Node} (hproto : ReadsPrototype tokens proto tokens₁)
    (hbody : Reads last .expression tokens₁ body rest) (hp : p.ahead = ⟨keyword :: tokens, last⟩)
    (hn : tokens.length ≤ n) :
    Ends true (definitionWithin n) p (keyword :: tokens)
      (.ok (.function proto body (keyword.span.through body.span))) rest := by
  have hless := hproto.length_lt
  refine Ends.bind hp (Ends.advance hp) fun q hq _ => ?_
  refine Ends.bind hq (prototypeWithin_gives hproto hq hn).ends fun q hq _ => ?_
  exact Ends.bind hq (hbody.gives n q (by omega) hq) fun q hq hlook => Ends.pure hlook

theorem definitionWithin_stopsBody {keyword : Token} {tokens₁ : List Token} {proto : Prototype}
    {failure : Failure} (hproto : ReadsPrototype tokens proto tokens₁)
    (hbody : Fails last .expression tokens₁ failure rest)
    (hp : p.ahead = ⟨keyword :: tokens, last⟩) (hn : tokens.length ≤ n) :
    Ends true (definitionWithin n) p (keyword :: tokens) (.error failure) rest := by
  have hless := hproto.length_lt
  refine Ends.bind hp (Ends.advance hp) fun q hq _ => ?_
  refine Ends.bind hq (prototypeWithin_gives hproto hq hn).ends fun q hq _ => ?_
  exact Ends.bind_error (hbody.stops n q (by omega) hq)

/-- A first token that is neither reserved nor the end asks for an expression. -/
theorem topLevelWithin_expression {token : Token} {outcome : Except Failure Node}
    (hp : p.ahead = ⟨token :: tokens, last⟩) (hend : token.kind ≠ .endOfInput)
    (hdefine : token.kind ≠ .define) (hdeclare : token.kind ≠ .declare)
    (h : ∀ q : Parser, q.ahead = ⟨token :: tokens, last⟩ →
      Ends true (expressionWithin n) q (token :: tokens) outcome rest) :
    Ends true (topLevelWithin n) p (token :: tokens) (outcome.map some) rest := by
  refine Ends.bind hp (Ends.peek hp rfl) fun q hq _ => ?_
  split
  · next heq => exact absurd heq hend
  · next heq => exact absurd heq hdefine
  · next heq => exact absurd heq hdeclare
  · cases outcome with
    | ok node => exact Ends.bind hq (h q hq) fun q _ hlook => Ends.pure hlook
    | error failure => exact Ends.bind_error (h q hq)

/-- What the rules read, the routine reads. It surely looks at the token behind
the construct except behind a declaration, whose last token it passes over. -/
theorem topLevelWithin_gives {token : Token} {node : Node}
    (h : ReadsTop last (token :: tokens) node rest) (hp : p.ahead = ⟨token :: tokens, last⟩)
    (hn : (token :: tokens).length ≤ n) :
    (token.kind ≠ .declare →
      Ends true (topLevelWithin n) p (token :: tokens) (.ok (some node)) rest) ∧
    (token.kind = .declare →
      EndsBehind (topLevelWithin n) p (token :: tokens) (some node) rest) := by
  have hshort : tokens.length ≤ n := Nat.le_of_succ_le hn
  cases h with
  | definition hkind hproto hbody =>
    refine ⟨fun _ => ?_, fun hdeclare => by simp [hkind] at hdeclare⟩
    refine Ends.bind hp (Ends.peek hp rfl) fun q hq _ => ?_
    simp only [hkind]
    exact Ends.bind hq (definitionWithin_gives hproto hbody hq hshort) fun q _ hlook =>
      Ends.pure hlook
  | declaration hkind hproto =>
    refine ⟨fun hdeclare => absurd hkind hdeclare, fun _ => ?_⟩
    refine EndsBehind.bind hp (Ends.peek hp rfl) fun q hq => ?_
    simp only [hkind]
    refine EndsBehind.map some (EndsBehind.bind hq (Ends.advance hq) fun q hq => ?_)
    exact (prototypeWithin_gives hproto hq hshort).map fun proto =>
      Node.prototype { proto with span := token.span.through proto.span }
  | expression hread =>
    obtain ⟨first, tail, heq, hstart⟩ := hread.starts
    obtain ⟨rfl, rfl⟩ := List.cons.inj heq
    obtain ⟨hend, hdefine, hdeclare⟩ := hstart.ordinary
    exact ⟨fun _ => topLevelWithin_expression hp hend hdefine hdeclare fun q hq =>
      hread.gives n q hn hq, fun heq => absurd heq hdeclare⟩

/-- What fails by the rules, the routine fails at. -/
theorem topLevelWithin_stops {token : Token} {failure : Failure}
    (h : FailsTop last (token :: tokens) failure rest) (hp : p.ahead = ⟨token :: tokens, last⟩)
    (hn : (token :: tokens).length ≤ n) :
    Ends true (topLevelWithin n) p (token :: tokens) (.error failure) rest := by
  have hshort : tokens.length ≤ n := Nat.le_of_succ_le hn
  cases h with
  | definitionPrototype hkind hproto =>
    refine Ends.bind hp (Ends.peek hp rfl) fun q hq _ => ?_
    simp only [hkind]
    refine Ends.bind_error (Ends.bind hq (Ends.advance hq) fun q hq _ => ?_)
    exact Ends.bind_error (prototypeWithin_stops hproto hq hshort)
  | definitionBody hkind hproto hbody =>
    refine Ends.bind hp (Ends.peek hp rfl) fun q hq _ => ?_
    simp only [hkind]
    exact Ends.bind_error (definitionWithin_stopsBody hproto hbody hq hshort)
  | declaration hkind hproto =>
    refine Ends.bind hp (Ends.peek hp rfl) fun q hq _ => ?_
    simp only [hkind]
    refine Ends.bind_error (Ends.bind hq (Ends.advance hq) fun q hq _ => ?_)
    exact Ends.bind_error (prototypeWithin_stops hproto hq hshort)
  | expression hend hdefine hdeclare hfail =>
    exact topLevelWithin_expression hp hend hdefine hdeclare fun q hq => hfail.stops n q hn hq

/-- The bound decides nothing as long as it is large enough. -/
theorem topLevelWithin_congr {token : Token} {m : Nat}
    (hlast : ∀ token, last = .ok token → token.kind = .endOfInput)
    (hkind : token.kind ≠ .endOfInput) (hp : p.ahead = ⟨token :: tokens, last⟩)
    (hm : (token :: tokens).length ≤ m) (hn : (token :: tokens).length ≤ n) :
    topLevelWithin m p = topLevelWithin n p := by
  rcases settles_top hlast token tokens hkind with ⟨node, rest, hread⟩ | ⟨failure, rest, hfail⟩
  · by_cases hdeclare : token.kind = .declare
    · exact ((topLevelWithin_gives hread hp hm).2 hdeclare).run_eq
        ((topLevelWithin_gives hread hp hn).2 hdeclare)
    · exact ((topLevelWithin_gives hread hp hm).1 hdeclare).run_eq
        ((topLevelWithin_gives hread hp hn).1 hdeclare)
  · exact (topLevelWithin_stops hfail hp hm).run_eq (topLevelWithin_stops hfail hp hn)

end Parser

end ExprLang
