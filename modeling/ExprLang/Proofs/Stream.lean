import ExprLang.Lexer
import Mathlib.Data.List.TakeWhile

/-!
What a lexer has left to read: finitely many ordinary tokens, and behind them
the end of the input or a lexical error. Looking at the next token never changes
what is left, passing over it takes exactly that token away, and the tokens of a
whole source are those its first lexer has left.
-/
namespace ExprLang

namespace Lexer

def next (lexer : Lexer) : Except LexicalError Token :=
  match lexer.scanned with
  | some outcome => outcome
  | none => lexer.scan.1

def looked (lexer : Lexer) : Lexer :=
  match lexer.scanned with
  | some _ => lexer
  | none => { lexer.scan.2 with scanned := some lexer.scan.1 }

def passed (lexer : Lexer) : Lexer := lexer.looked.dropToken

theorem peek_eq (lexer : Lexer) :
    lexer.peek = match lexer.next with
      | .ok token => .ok token lexer.looked
      | .error error => .error error lexer.looked := by
  unfold peek next looked
  cases lexer.scanned <;> rfl

theorem scanned_looked (lexer : Lexer) : lexer.looked.scanned = some lexer.next := by
  unfold looked next
  split
  · next h => exact h
  · rfl

theorem looked_of_scanned (lexer : Lexer) (outcome : Except LexicalError Token)
    (h : lexer.scanned = some outcome) : lexer.looked = lexer := by
  simp only [looked, h]

theorem looked_looked (lexer : Lexer) : lexer.looked.looked = lexer.looked :=
  looked_of_scanned _ _ (scanned_looked lexer)

theorem next_looked (lexer : Lexer) : lexer.looked.next = lexer.next := by
  simp only [next, scanned_looked]

theorem passed_looked (lexer : Lexer) : lexer.looked.passed = lexer.passed := by
  rw [passed, looked_looked, passed]

/-- Nothing is passed over at the end of the input and at an error. -/
theorem passed_of_final (lexer : Lexer)
    (h : ∀ token, lexer.next = .ok token → token.kind = .endOfInput) :
    lexer.passed = lexer.looked := by
  unfold passed dropToken
  rw [scanned_looked]
  cases hnext : lexer.next with
  | error error => rfl
  | ok token => simp [h token hnext]

/-- Behind an ordinary token nothing is scanned yet. -/
theorem passed_of_ordinary (lexer : Lexer) (token : Token) (hnext : lexer.next = .ok token)
    (hkind : token.kind ≠ .endOfInput) :
    lexer.passed = { lexer.looked with scanned := none } := by
  unfold passed dropToken
  rw [scanned_looked, hnext]
  simp [hkind]

/-- Scanning an ordinary token takes it out of the text. -/
theorem length_rest_scan (lexer : Lexer) (token : Token) (h : lexer.scan.1 = .ok token)
    (hkind : token.kind ≠ .endOfInput) : lexer.scan.2.rest.length < lexer.rest.length := by
  have hblanks := List.length_dropWhile_le isBlank lexer.rest
  unfold scan at h ⊢
  simp only [skipBlanks] at h ⊢
  generalize lexer.rest.dropWhile isBlank = text at h hblanks ⊢
  cases text with
  | nil =>
    simp only [Except.ok.injEq] at h
    exact absurd (congrArg Token.kind h.symm) hkind
  | cons c cs =>
    simp only at h ⊢
    cases hmunch : Token.Kind.munch? (c :: cs) with
    | none => simp [hmunch] at h
    | some found =>
      have hshort := Token.Kind.length_lt_of_munch?_eq_some (c :: cs) found.2 found.1 hmunch
      simp only
      omega

/-- Passing over an ordinary token lowers the bound on the tokens left. -/
theorem pending_passed (lexer : Lexer) (token : Token) (hnext : lexer.next = .ok token)
    (hkind : token.kind ≠ .endOfInput) : lexer.passed.pending < lexer.pending := by
  rw [passed_of_ordinary lexer token hnext hkind]
  unfold pending
  cases hscanned : lexer.scanned with
  | some outcome =>
    have houtcome : outcome = .ok token := by simpa [next, hscanned] using hnext
    subst houtcome
    simp [looked_of_scanned lexer _ hscanned, hkind]
  | none =>
    have hscan : lexer.scan.1 = .ok token := by simpa [next, hscanned] using hnext
    simpa [looked, hscanned] using length_rest_scan lexer token hscan hkind

/-- The tokens that are left, and what stands behind them. -/
structure Stream where
  tokens : List Token
  last : Except LexicalError Token

def Stream.head (stream : Stream) : Except LexicalError Token :=
  match stream.tokens with
  | [] => stream.last
  | token :: _ => .ok token

/-- A look can meet an error only behind all tokens. -/
theorem Stream.last_of_head_error {tokens : List Token} {last : Except LexicalError Token}
    {error : LexicalError} (h : head ⟨tokens, last⟩ = .error error) : last = .error error := by
  cases tokens with
  | nil => exact h
  | cons token tokens => cases h

theorem Stream.nil_of_head_error {tokens : List Token} {last : Except LexicalError Token}
    {error : LexicalError} (h : head ⟨tokens, last⟩ = .error error) : tokens = [] := by
  cases tokens with
  | nil => rfl
  | cons token tokens => cases h

def stream (lexer : Lexer) : Stream :=
  match _h : lexer.next with
  | .error error => ⟨[], .error error⟩
  | .ok token =>
    if _hkind : token.kind = .endOfInput then ⟨[], .ok token⟩
    else
      let rest := lexer.passed.stream
      ⟨token :: rest.tokens, rest.last⟩
termination_by lexer.pending
decreasing_by exact pending_passed lexer token _h _hkind

theorem stream_of_final (lexer : Lexer)
    (h : ∀ token, lexer.next = .ok token → token.kind = .endOfInput) :
    lexer.stream = ⟨[], lexer.next⟩ := by
  rw [stream]
  split
  · next error hnext => rw [hnext]
  · next token hnext => rw [dif_pos (h token hnext), hnext]

theorem stream_of_ordinary (lexer : Lexer) (token : Token) (hnext : lexer.next = .ok token)
    (hkind : token.kind ≠ .endOfInput) :
    lexer.stream = ⟨token :: lexer.passed.stream.tokens, lexer.passed.stream.last⟩ := by
  rw [stream]
  split
  · next error herror => rw [hnext] at herror; simp at herror
  · next token' hnext' =>
    obtain rfl : token = token' := Except.ok.inj (hnext.symm.trans hnext')
    rw [dif_neg hkind]

/-- Either nothing but the end or an error is left, or an ordinary token. -/
theorem final_or_ordinary (lexer : Lexer) :
    (∀ token, lexer.next = .ok token → token.kind = .endOfInput) ∨
      ∃ token, lexer.next = .ok token ∧ token.kind ≠ .endOfInput := by
  by_cases h : ∃ token, lexer.next = .ok token ∧ token.kind ≠ .endOfInput
  · exact Or.inr h
  · refine Or.inl fun token hnext => ?_
    by_contra hkind
    exact h ⟨token, hnext, hkind⟩

theorem stream_looked (lexer : Lexer) : lexer.looked.stream = lexer.stream := by
  rcases lexer.final_or_ordinary with h | ⟨token, hnext, hkind⟩
  · rw [stream_of_final lexer h, stream_of_final, next_looked]
    rwa [next_looked]
  · rw [stream_of_ordinary lexer token hnext hkind,
      stream_of_ordinary lexer.looked token (by rwa [next_looked]) hkind, passed_looked]

/-- A look gives the first token left. -/
theorem head_stream (lexer : Lexer) : lexer.stream.head = lexer.next := by
  rcases lexer.final_or_ordinary with h | ⟨token, hnext, hkind⟩
  · rw [stream_of_final lexer h]
    rfl
  · rw [stream_of_ordinary lexer token hnext hkind, hnext]
    rfl

/-- Passing over an ordinary token takes just this token away. -/
theorem stream_passed (lexer : Lexer) (token : Token) (tokens : List Token)
    (last : Except LexicalError Token) (h : lexer.stream = ⟨token :: tokens, last⟩) :
    lexer.passed.stream = ⟨tokens, last⟩ := by
  rcases lexer.final_or_ordinary with hfinal | ⟨token', hnext, hkind⟩
  · rw [stream_of_final lexer hfinal] at h
    simp at h
  · rw [stream_of_ordinary lexer token' hnext hkind] at h
    simp only [Stream.mk.injEq, List.cons.injEq] at h
    obtain ⟨⟨-, htokens⟩, hlast⟩ := h
    rw [← htokens, ← hlast]

theorem stream_passed_nil (lexer : Lexer) (last : Except LexicalError Token)
    (h : lexer.stream = ⟨[], last⟩) : lexer.passed = lexer.looked := by
  apply passed_of_final
  intro token hnext
  by_contra hkind
  rw [stream_of_ordinary lexer token hnext hkind] at h
  simp at h

/-- The end of the input is no ordinary token, and no other token ends it. -/
theorem stream_kinds (lexer : Lexer) (tokens : List Token) (last : Except LexicalError Token)
    (h : lexer.stream = ⟨tokens, last⟩) :
    (∀ token ∈ tokens, token.kind ≠ .endOfInput) ∧
      ∀ token, last = .ok token → token.kind = .endOfInput := by
  induction tokens generalizing lexer with
  | nil =>
    refine ⟨by simp, fun token hlast => ?_⟩
    have hhead := head_stream lexer
    rw [h] at hhead
    rcases lexer.final_or_ordinary with hfinal | ⟨token', hnext, hkind⟩
    · exact hfinal token (hhead.symm.trans hlast)
    · rw [stream_of_ordinary lexer token' hnext hkind] at h
      simp at h
  | cons token tokens ih =>
    obtain ⟨htokens, hlast⟩ := ih lexer.passed (stream_passed lexer token tokens last h)
    refine ⟨?_, hlast⟩
    rcases lexer.final_or_ordinary with hfinal | ⟨token', hnext, hkind⟩
    · rw [stream_of_final lexer hfinal] at h
      simp at h
    · rw [stream_of_ordinary lexer token' hnext hkind] at h
      simp only [Stream.mk.injEq, List.cons.injEq] at h
      rw [← h.1.1]
      exact List.forall_mem_cons.mpr ⟨hkind, htokens⟩

theorem length_tokens_le_pending (lexer : Lexer) : lexer.stream.tokens.length ≤ lexer.pending := by
  induction hlength : lexer.stream.tokens generalizing lexer with
  | nil => exact Nat.zero_le _
  | cons token tokens ih =>
    rcases lexer.final_or_ordinary with hfinal | ⟨token', hnext, hkind⟩
    · rw [stream_of_final lexer hfinal] at hlength
      simp at hlength
    · have hless := pending_passed lexer token' hnext hkind
      rw [stream_of_ordinary lexer token' hnext hkind] at hlength
      have hrest := ih lexer.passed (List.cons.inj hlength).2
      simp only [List.length_cons]
      omega

theorem consume_of_ordinary (lexer : Lexer) (token : Token) (hnext : lexer.next = .ok token) :
    lexer.looked.consume = .ok () lexer.passed := by
  have hpeek := peek_eq lexer.looked
  rw [next_looked, hnext, looked_looked] at hpeek
  simp only [consume, bind, EStateM.bind, hpeek]
  rfl

/-- Reading all tokens gives what is left, or the error it ends in. -/
theorem tokensWithin_eq (lexer : Lexer) (tokens : List Token) (last : Except LexicalError Token)
    (bound : Nat) (h : lexer.stream = ⟨tokens, last⟩) (hbound : tokens.length ≤ bound) :
    ∃ after, tokensWithin bound lexer = match last with
      | .ok token => .ok (tokens ++ [token]) after
      | .error error => .error error after := by
  induction bound generalizing lexer tokens with
  | zero =>
    obtain rfl := List.length_eq_zero_iff.mp (Nat.le_zero.mp hbound)
    have hpeek := peek_eq lexer
    rw [← head_stream, h] at hpeek
    refine ⟨lexer.looked, ?_⟩
    simp only [tokensWithin, bind, EStateM.bind, hpeek, Stream.head]
    cases last <;> rfl
  | succ bound ih =>
    have hpeek := peek_eq lexer
    rw [← head_stream, h] at hpeek
    cases tokens with
    | nil =>
      refine ⟨lexer.looked, ?_⟩
      simp only [tokensWithin, bind, EStateM.bind, hpeek, Stream.head]
      cases hlast : last with
      | error error => rfl
      | ok token => simp [(stream_kinds lexer [] last h).2 token hlast, pure, EStateM.pure]
    | cons token tokens =>
      have hnext : lexer.next = .ok token := by rw [← head_stream, h]; rfl
      have hkind := (stream_kinds lexer _ last h).1 token (List.mem_cons_self ..)
      obtain ⟨after, hrest⟩ := ih lexer.passed tokens (stream_passed lexer token tokens last h)
        (by simpa using hbound)
      refine ⟨after, ?_⟩
      simp only [tokensWithin, bind, EStateM.bind, hpeek, Stream.head, if_neg hkind,
        consume_of_ordinary lexer token hnext, hrest]
      cases last <;> rfl

end Lexer

/-- The tokens of a source are those its first lexer has left, unless an error
stands behind them. -/
theorem tokenize_eq (source : String) (file : Option String) (tokens : List Token)
    (last : Except LexicalError Token) (h : (Lexer.ofSource source file).stream = ⟨tokens, last⟩) :
    tokenize source file = last.map (fun token => tokens ++ [token]) := by
  have hbound := Lexer.length_tokens_le_pending (Lexer.ofSource source file)
  rw [h] at hbound
  obtain ⟨after, hrun⟩ := Lexer.tokensWithin_eq _ tokens last _ h hbound
  simp only [tokenize, hrun]
  cases last <;> rfl

end ExprLang
