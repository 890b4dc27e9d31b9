import ExprLang.Proofs.Accounts
import ExprLang.Proofs.Alphabet

/-!
Lexical errors are final. A source that has a byte outside the alphabet can neither
be split into tokens nor be read, and the error is about the first such byte in
both cases, however many syntax errors come before it. Afterwards the parser gives
the same error to every request and reports nothing more.
-/
namespace ExprLang

open Lexer (Stream)

namespace Parser

inductive Request where
  | current
  | kind
  | advance
  | hasTokens
  | expectSymbol (c : Char) (wanted : String)
  | expectIdentifier (wanted : String)
  | next
  | topLevel
  | definition
  | declaration
  | prototype
  | expression
  | primary
  | grouping
  | identifier
  | number
  | operators (least : Int) (lhs : Node)

inductive Reply where
  | token (token : Token)
  | kind (kind : Token.Kind)
  | left (any : Bool)
  | named (name : String) (token : Token)
  | node (node : Node)
  | node? (node? : Option Node)
  | prototype (proto : Prototype)

def Request.run : Request → ParseM Reply
  | current => do return .token (← Parser.peek)
  | kind => do return .kind (← Parser.peek).kind
  | advance => do return .token (← Parser.advance)
  | hasTokens => do return .left (← Parser.hasTokens)
  | expectSymbol c wanted => do return .token (← Parser.expectSymbol c wanted)
  | expectIdentifier wanted => do
    let (name, token) ← Parser.expectIdentifier wanted
    return .named name token
  | next => do return .node? (← Parser.next)
  | topLevel => do return .node? (← Parser.topLevel)
  | definition => do return .node (← Parser.definition)
  | declaration => do return .node (← Parser.declaration)
  | prototype => do return .prototype (← Parser.prototype)
  | expression => do return .node (← Parser.expression)
  | primary => do return .node (← Parser.primary)
  | grouping => do return .node (← Parser.grouping)
  | identifier => do return .node (← Parser.identifier)
  | number => do return .node (← Parser.number)
  | operators least lhs => do return .node (← Parser.operators least lhs)

def serve : List Request → Parser → List (Except Failure Reply) × Parser
  | [], parser => ([], parser)
  | request :: requests, parser =>
    let (reply, parser) := settled (request.run parser)
    let (replies, parser) := serve requests parser
    (reply :: replies, parser)

section Stuck

variable {α : Type} {error : LexicalError} {p : Parser} {n : Nat} {nested : ParseM Node}

def HaltsAt (error : LexicalError) (routine : ParseM α) : Prop :=
  ∀ p : Parser, p.ahead = ⟨[], .error error⟩ →
    Ends true routine p [] (.error (.lexical error)) []

namespace HaltsAt

theorem bind {β : Type} {routine : ParseM α} (h : HaltsAt error routine) (rest : α → ParseM β) :
    HaltsAt error (routine >>= rest) :=
  fun p hp => (h p hp).bind_error

theorem bounded {routine : Nat → ParseM α} (h : ∀ n, HaltsAt error (routine n)) :
    HaltsAt error (Parser.bounded routine) :=
  fun p hp => h p.lexer.pending p hp

theorem peek : HaltsAt error (liftM Parser.peek) := fun _ hp => Ends.peek_error hp rfl

/-- What begins with a look stops there, when it reads tokens only too. -/
theorem of_peek (rest : Token → ReadM α) : HaltsAt error (liftM (Parser.peek >>= rest)) := by
  intro p hp
  have hpeek := peek_of_error p error (by rw [hp]; rfl)
  exact ⟨p.look, (Leads.refl p []).look, fun _ => look_look p,
    lift_of_error _ _ _ _ (bind_of_error _ _ _ _ _ hpeek)⟩

theorem expectIdentifier (wanted : String) : HaltsAt error (Parser.expectIdentifier wanted) :=
  peek.bind _

theorem groupingWith : HaltsAt error (Parser.groupingWith nested) := (of_peek _).bind _

theorem identifierWith : HaltsAt error (Parser.identifierWith nested n) :=
  (expectIdentifier _).bind _

theorem primaryWith : HaltsAt error (Parser.primaryWith nested n) := peek.bind _

theorem operatorsWith (least : Int) (lhs : Node) :
    HaltsAt error (Parser.operatorsWith nested n least lhs) :=
  fun _ hp => operatorsWith_stuck hp rfl

theorem expressionWithin (n : Nat) : HaltsAt error (Parser.expressionWithin n) := by
  cases n with
  | zero => exact peek.bind _
  | succ n => exact primaryWith.bind _

theorem prototypeWithin (n : Nat) : HaltsAt error (Parser.prototypeWithin n) :=
  (expectIdentifier _).bind _

theorem topLevelWithin (n : Nat) : HaltsAt error (Parser.topLevelWithin n) := peek.bind _

/-- There is no recovery from the error. -/
theorem next : HaltsAt error (liftM Parser.next) := by
  intro p hp
  obtain ⟨q, hleads, hlook, hrun⟩ := topLevelWithin p.lexer.pending p hp
  have hnext : Parser.next p = .error error q := by
    simp only [Parser.next, Parser.bounded, nextWithin, hrun]
  exact ⟨q, hleads, hlook, lift_of_error _ _ _ _ hnext⟩

end HaltsAt

/-- Every request stops at the error that is next. -/
theorem Request.haltsAt (request : Request) : HaltsAt error request.run := by
  cases request with
  | current | kind => exact HaltsAt.peek.bind _
  | advance | hasTokens => exact (HaltsAt.of_peek _).bind _
  | expectSymbol c wanted => exact (HaltsAt.peek.bind _).bind _
  | expectIdentifier wanted => exact (HaltsAt.expectIdentifier wanted).bind _
  | next => exact HaltsAt.next.bind _
  | topLevel => exact (HaltsAt.bounded HaltsAt.topLevelWithin).bind _
  | definition => exact (HaltsAt.bounded fun _ => (HaltsAt.of_peek _).bind _).bind _
  | declaration => exact (HaltsAt.bounded fun _ => (HaltsAt.of_peek _).bind _).bind _
  | prototype => exact (HaltsAt.bounded HaltsAt.prototypeWithin).bind _
  | expression => exact (HaltsAt.bounded HaltsAt.expressionWithin).bind _
  | primary => exact (HaltsAt.bounded fun _ => HaltsAt.primaryWith).bind _
  | grouping => exact (HaltsAt.bounded fun _ => HaltsAt.groupingWith).bind _
  | identifier => exact (HaltsAt.bounded fun _ => HaltsAt.identifierWith).bind _
  | number => exact (HaltsAt.peek.bind _).bind _
  | operators least lhs =>
    exact (HaltsAt.bounded fun _ => HaltsAt.operatorsWith least lhs).bind _

/-- At an error every request gives the error, and nothing is reported. -/
theorem serve_of_error (requests : List Request) (hp : p.ahead = ⟨[], .error error⟩) :
    (serve requests p).1 = requests.map (fun _ => .error (.lexical error)) ∧
      (serve requests p).2.diagnostics = p.diagnostics := by
  induction requests generalizing p with
  | nil => exact ⟨rfl, rfl⟩
  | cons request requests ih =>
    obtain ⟨q, hleads, -, hrun⟩ := request.haltsAt p hp
    obtain ⟨hreplies, hkept⟩ := ih (hleads.ahead_eq hp)
    simp only [serve, hrun, settled, List.map_cons, hreplies]
    exact ⟨trivial, hkept.trans hleads.diagnostics_eq⟩

end Stuck

/-- A run goes on to what stands behind all tokens, and ends as this tells. -/
theorem Run.ahead_final {p final : Parser} {calls : List Call} {outcome : Except LexicalError Unit}
    {tokens : List Token} {last : Except LexicalError Token} (h : Run p calls outcome final)
    (hp : p.ahead = ⟨tokens, last⟩) :
    final.ahead = ⟨[], last⟩ ∧ outcome = last.map fun _ => () := by
  induction h generalizing tokens with
  | @finished p q htokens =>
    obtain rfl := nil_of_hasTokens hp htokens
    obtain ⟨rfl, token, hhead, -⟩ := exists_of_hasTokens htokens
    rw [hp] at hhead
    obtain rfl : last = .ok token := hhead
    exact ⟨by rw [ahead_look, hp], rfl⟩
  | @blocked p q error htokens =>
    obtain ⟨rfl, hhead⟩ := error_of_hasTokens htokens
    rw [hp] at hhead
    obtain rfl := Stream.nil_of_head_error hhead
    obtain rfl : last = .error error := hhead
    exact ⟨by rw [ahead_look, hp], rfl⟩
  | @failed p q final error htokens hnext =>
    obtain ⟨token, tail, rfl, hkind, hahead⟩ := exists_ahead_of_hasTokens hp htokens
    rcases next_cases hkind hahead with ⟨_, _, _, _, _, hrun⟩ | ⟨_, _, _, _, _, _, _, hrun⟩ |
      ⟨other, rest, r, hfail, hleads, hrun⟩
    · rw [hnext] at hrun
      cases hrun
    · rw [hnext] at hrun
      cases hrun
    · rw [hnext] at hrun
      obtain ⟨rfl, rfl⟩ := EStateM.Result.error.inj hrun
      have hhead : Stream.head ⟨rest, last⟩ = .error error := hfail.isAt
      obtain rfl := Stream.nil_of_head_error hhead
      obtain rfl : last = .error error := hhead
      exact ⟨hleads.ahead_eq hahead, rfl⟩
  | @call p q r final node? calls outcome htokens hnext hrest ih =>
    obtain ⟨token, tail, rfl, hkind, hahead⟩ := exists_ahead_of_hasTokens hp htokens
    obtain ⟨segment, rest, -, -, hafter, -⟩ := next_takes hkind hahead hnext
    exact ih hafter

end Parser

/-- The error is about the first byte of a source that is outside the alphabet. It is
the first byte of a character. -/
structure LexicalError.IsFirst (source file : String) (error : LexicalError) : Prop where
  split : ∃ front behind, bytes source = front ++ error.byte :: behind ∧
    (∀ byte ∈ front, isLegalByte byte = true) ∧ error.position.offset.toNat = front.length
  illegal : isLegalByte error.byte = false
  first : error.byte.IsUTF8FirstByte
  file_eq : error.position.file = file

/-- A text that is not divided up to its end has its first illegal byte where the division
stops. -/
theorem Tiles.isFirst {source file : String} {tokens : List Token} {error : LexicalError}
    (h : Tiles file 0 source.toList tokens (.error error))
    (hsize : source.utf8ByteSize < UInt32.size) : error.IsFirst source file := by
  obtain ⟨front, c, behind, htext, hfront, hc, rfl⟩ := h.exists_of_error
  obtain ⟨tail, hbytes⟩ := exists_bytes_of_toList htext hfront
  have hfits : 0 + front.length < UInt32.size := by
    have hlength := length_le_utf8ByteSize source
    rw [htext, List.length_append] at hlength
    omega
  refine ⟨⟨_, tail, hbytes, ?_, ?_⟩, ?_, isUTF8FirstByte_leadByte c, rfl⟩
  · rw [List.forall_mem_map]
    intro d hd
    rw [isLegalByte, ofUInt8_toUInt8 (toNat_lt_of_isLegalChar (hfront d hd))]
    exact hfront d hd
  · rw [List.length_map]
    exact (UInt32.toNat_ofNat_of_lt' hfits).trans (Nat.zero_add _)
  · rw [isLegalByte_leadByte]
    exact hc

/-- Reading ends as splitting into tokens does, and the parser is then behind all tokens. -/
theorem parse_ends (source : String) (file : Option String) :
    ∃ nodes, (parse source file).outcome =
        (Lexer.ofSource source file).stream.last.map (fun _ => nodes) ∧
      (parse source file).parser.ahead = ⟨[], (Lexer.ofSource source file).stream.last⟩ := by
  obtain ⟨calls, outcome, hrun, hnodes⟩ := parse_run source file
  obtain ⟨hahead, rfl⟩ := hrun.ahead_final rfl
  refine ⟨calls.filterMap Call.node?, ?_, hahead⟩
  rw [hnodes]
  show (Except.map _ (Except.map _ (Lexer.ofSource source file).stream.last)) = _
  cases (Lexer.ofSource source file).stream.last <;> rfl

theorem parse_of_tokenize_error {source : String} {file : Option String} {error : LexicalError}
    (h : tokenize source file = .error error) : (parse source file).outcome = .error error := by
  obtain ⟨nodes, houtcome, -⟩ := parse_ends source file
  have hsplit := tokenize_eq source file _ _ rfl
  rw [h] at hsplit
  cases hlast : (Lexer.ofSource source file).stream.last with
  | ok final =>
    rw [hlast] at hsplit
    cases hsplit
  | error other =>
    rw [hlast] at hsplit houtcome
    rw [houtcome, Except.error.inj hsplit]
    rfl

/-- Splitting a source into tokens and reading it fail on the same sources with the same
error: on those with a byte outside the alphabet, with an error about the first such
byte. After reading, no tokens are left if it succeeded. If it failed, every further
request is answered with the error, and no diagnostic is added. -/
theorem parse_fails_as_tokenize (source : String) (file : Option String)
    (hsize : source.utf8ByteSize < UInt32.size) :
    ((∃ error, tokenize source file = .error error) ↔
      ∃ byte ∈ bytes source, isLegalByte byte = false) ∧
    (∀ error, tokenize source file = .error error →
      error.IsFirst source (file.getD Lexer.defaultFile)) ∧
    (∀ error, (parse source file).outcome = .error error ↔ tokenize source file = .error error) ∧
    (∀ nodes, (parse source file).outcome = .ok nodes →
      ∃ after, Parser.hasTokens (parse source file).parser = .ok false after) ∧
    ∀ error, (parse source file).outcome = .error error →
      (∃ after, Parser.hasTokens (parse source file).parser = .error error after) ∧
      ∀ requests : List Parser.Request,
        (Parser.serve requests (parse source file).parser).1 =
          requests.map (fun _ => .error (.lexical error)) ∧
        (Parser.serve requests (parse source file).parser).2.diagnostics =
          (parse source file).parser.diagnostics := by
  have htiles := Lexer.tiles_ofSource source file
  have hsplit := tokenize_eq source file _ _ rfl
  have hkinds := (Lexer.stream_kinds (Lexer.ofSource source file) _ _ rfl).2
  obtain ⟨nodes, houtcome, hahead⟩ := parse_ends source file
  generalize (Lexer.ofSource source file).stream.tokens = tokens at htiles hsplit
  generalize (Lexer.ofSource source file).stream.last = last at htiles hsplit hkinds houtcome hahead
  rw [hsplit, houtcome]
  cases last with
  | ok final =>
    have hlegal := isLegalByte_bytes_iff.mpr htiles.isLegalChar_of_ok
    have hnone : ¬ ∃ byte ∈ bytes source, isLegalByte byte = false := by
      rintro ⟨byte, hbyte, hillegal⟩
      rw [hlegal byte hbyte] at hillegal
      cases hillegal
    have hleft := Parser.hasTokens_of_ok final (congrArg Stream.head hahead)
    simp only [hkinds final rfl, ne_eq, not_true_eq_false, decide_false] at hleft
    refine ⟨iff_of_false (by rintro ⟨error, herror⟩; cases herror) hnone, ?_, fun error => ?_,
      fun _ _ => ⟨_, hleft⟩, ?_⟩
    · intro error herror
      cases herror
    · constructor <;> intro herror <;> cases herror
    · intro error herror
      cases herror
  | error error =>
    have hfirst := htiles.isFirst hsize
    obtain ⟨front, behind, hbytes, -⟩ := hfirst.split
    have hleft := Parser.hasTokens_of_error error (congrArg Stream.head hahead)
    refine ⟨iff_of_true ⟨error, rfl⟩ ⟨error.byte, by simp [hbytes], hfirst.illegal⟩, ?_,
      fun other => ?_, ?_, ?_⟩
    · rintro _ ⟨⟩
      exact hfirst
    · constructor <;> rintro ⟨⟩ <;> rfl
    · rintro _ ⟨⟩
    · rintro _ ⟨⟩
      exact ⟨⟨_, hleft⟩, fun requests => Parser.serve_of_error requests hahead⟩

/-- The case of a letter outside ASCII behind a syntax error. -/
theorem parse_fails_as_tokenize_of_accent : "1 + ) é".utf8ByteSize < UInt32.size ∧
    tokenize "1 + ) é" none = .error ⟨195, ⟨6, "shell"⟩⟩ ∧
    (parse "1 + ) é" none).outcome = .error ⟨195, ⟨6, "shell"⟩⟩ ∧
    (parse "1 + ) é" none).parser.diagnostics.size = 1 ∧
    (Parser.serve [.next, .advance] (parse "1 + ) é" none).parser).1 =
      [.error (.lexical ⟨195, ⟨6, "shell"⟩⟩), .error (.lexical ⟨195, ⟨6, "shell"⟩⟩)] ∧
    (Parser.serve [.next, .advance] (parse "1 + ) é" none).parser).2.diagnostics =
      (parse "1 + ) é" none).parser.diagnostics := by
  have hsize : "1 + ) é".utf8ByteSize < UInt32.size := by decide +kernel
  have htokens : tokenize "1 + ) é" none = .error ⟨195, ⟨6, "shell"⟩⟩ := by decide +kernel
  obtain ⟨-, -, hsame, -, hafter⟩ := parse_fails_as_tokenize "1 + ) é" none hsize
  have hparse := (hsame _).mpr htokens
  obtain ⟨hreplies, hkept⟩ := (hafter _ hparse).2 [.next, .advance]
  exact ⟨hsize, htokens, hparse, by decide +kernel, hreplies, hkept⟩

end ExprLang
