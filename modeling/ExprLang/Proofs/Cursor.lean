import ExprLang.Grammar
import ExprLang.Proofs.Stream

/-!
The parser as a cursor over the stream of its lexer. All that reading does is to
look at the next token and to pass over it, so a parser on the way is known by
where it started and by how many tokens it has passed over since, up to whether
it has already looked at the next one.
-/
namespace ExprLang

section Sequencing

variable {ε σ α β : Type}

theorem bind_of_ok (first : EStateM ε σ α) (second : α → EStateM ε σ β) (before after : σ)
    (value : α) (h : first before = .ok value after) :
    (first >>= second) before = second value after := by
  simp only [bind, EStateM.bind, h]

theorem bind_of_error (first : EStateM ε σ α) (second : α → EStateM ε σ β) (before after : σ)
    (error : ε) (h : first before = .error error after) :
    (first >>= second) before = .error error after := by
  simp only [bind, EStateM.bind, h]

def settled : EStateM.Result ε σ α → Except ε α × σ
  | .ok value after => (.ok value, after)
  | .error error after => (.error error, after)

end Sequencing

namespace Parser

def ahead (parser : Parser) : Lexer.Stream := parser.lexer.stream

def look (parser : Parser) : Parser := parser.afterPeek parser.lexer.looked

def pass (parser : Parser) : Parser :=
  { parser.look with lexer := parser.look.lexer.dropToken }

theorem lexer_afterPeek (parser : Parser) (lexer : Lexer) :
    (parser.afterPeek lexer).lexer = lexer := by
  simp only [afterPeek]
  split <;> rfl

theorem diagnostics_afterPeek (parser : Parser) (lexer : Lexer) :
    (parser.afterPeek lexer).diagnostics = parser.diagnostics := by
  simp only [afterPeek]
  split <;> rfl

theorem lexer_look (parser : Parser) : parser.look.lexer = parser.lexer.looked :=
  lexer_afterPeek parser _

theorem lexer_pass (parser : Parser) : parser.pass.lexer = parser.lexer.passed := by
  simp only [pass, lexer_look, Lexer.passed]

theorem diagnostics_look (parser : Parser) : parser.look.diagnostics = parser.diagnostics :=
  diagnostics_afterPeek parser _

theorem diagnostics_pass (parser : Parser) : parser.pass.diagnostics = parser.diagnostics :=
  diagnostics_look parser

/-- A second look finds nothing new. -/
theorem look_look (parser : Parser) : parser.look.look = parser.look := by
  have hscanned := Lexer.scanned_looked parser.lexer
  conv => lhs; rw [look, lexer_look, Lexer.looked_looked]
  unfold afterPeek
  rw [lexer_look, hscanned]
  rw [← lexer_look]

theorem pass_congr (p q : Parser) (h : p.look = q.look) : p.pass = q.pass := by
  rw [pass, h, pass]

theorem ahead_look (parser : Parser) : parser.look.ahead = parser.ahead := by
  rw [ahead, lexer_look, Lexer.stream_looked, ahead]

theorem ahead_pass (parser : Parser) (token : Token) (tokens : List Token)
    (last : Except LexicalError Token) (h : parser.ahead = ⟨token :: tokens, last⟩) :
    parser.pass.ahead = ⟨tokens, last⟩ := by
  rw [ahead, lexer_pass]
  exact Lexer.stream_passed _ token tokens last h

/-- At the end of the stream passing on is no more than looking. -/
theorem pass_of_nil (parser : Parser) (last : Except LexicalError Token)
    (h : parser.ahead = ⟨[], last⟩) : parser.pass = parser.look := by
  have hlexer : parser.lexer.passed = parser.lexer.looked := Lexer.stream_passed_nil _ last h
  rw [Lexer.passed, ← lexer_look] at hlexer
  rw [pass, hlexer]

theorem ahead_pass_tail (parser : Parser) (tokens : List Token) (last : Except LexicalError Token)
    (h : parser.ahead = ⟨tokens, last⟩) : parser.pass.ahead = ⟨tokens.tail, last⟩ := by
  cases tokens with
  | nil => rw [pass_of_nil parser last h, ahead_look, h, List.tail_nil]
  | cons token tokens => exact ahead_pass parser token tokens last h

theorem peek_of_ok (parser : Parser) (token : Token) (h : parser.ahead.head = .ok token) :
    peek parser = .ok token parser.look := by
  have hnext : parser.lexer.next = .ok token := (Lexer.head_stream _).symm.trans h
  simp only [peek, Lexer.peek_eq, hnext]
  rfl

theorem peek_of_error (parser : Parser) (error : LexicalError)
    (h : parser.ahead.head = .error error) : peek parser = .error error parser.look := by
  have hnext : parser.lexer.next = .error error := (Lexer.head_stream _).symm.trans h
  simp only [peek, Lexer.peek_eq, hnext]
  rfl

theorem advance_of_ok (parser : Parser) (token : Token) (h : parser.ahead.head = .ok token) :
    advance parser = .ok token parser.pass := by
  simp only [advance, bind_of_ok _ _ _ _ _ (peek_of_ok parser token h)]
  rfl

theorem lift_of_ok {α : Type} (action : ReadM α) (before after : Parser) (value : α)
    (h : action before = .ok value after) :
    (liftM action : ParseM α) before = .ok value after := by
  simp only [liftM, monadLift, MonadLift.monadLift, EStateM.adaptExcept, h]

theorem lift_of_error {α : Type} (action : ReadM α) (before after : Parser) (error : LexicalError)
    (h : action before = .error error after) :
    (liftM action : ParseM α) before = .error (.lexical error) after := by
  simp only [liftM, monadLift, MonadLift.monadLift, EStateM.adaptExcept, h]

def skip : Nat → Parser → Parser
  | 0, parser => parser
  | n + 1, parser => skip n parser.pass

theorem skip_add (m n : Nat) (parser : Parser) :
    skip (m + n) parser = skip n (skip m parser) := by
  induction m generalizing parser with
  | zero => simp [skip]
  | succ m ih =>
    rw [Nat.succ_add]
    exact ih parser.pass

theorem look_skip_congr (n : Nat) (p q : Parser) (h : p.look = q.look) :
    (skip n p).look = (skip n q).look := by
  cases n with
  | zero => exact h
  | succ n => simp only [skip, pass_congr p q h]

theorem diagnostics_skip (n : Nat) (parser : Parser) :
    (skip n parser).diagnostics = parser.diagnostics := by
  induction n generalizing parser with
  | zero => rfl
  | succ n ih => exact (ih parser.pass).trans (diagnostics_pass parser)

theorem ahead_skip (taken rest : List Token) (last : Except LexicalError Token) (parser : Parser)
    (h : parser.ahead = ⟨taken ++ rest, last⟩) :
    (skip taken.length parser).ahead = ⟨rest, last⟩ := by
  induction taken generalizing parser with
  | nil => exact h
  | cons token taken ih => exact ih parser.pass (ahead_pass parser token _ last h)

/-- One parser is where the other one comes when of the given tokens just the
rest is left. Whether the next token has been looked at is left open. -/
def Leads (before : Parser) (tokens rest : List Token) (after : Parser) : Prop :=
  ∃ taken, tokens = taken ++ rest ∧ after.look = (skip taken.length before).look

namespace Leads

variable {p q s : Parser} {tokens rest rest' : List Token} {last : Except LexicalError Token}

theorem refl (p : Parser) (tokens : List Token) : p.Leads tokens tokens p := ⟨[], rfl, rfl⟩

theorem trans (h : p.Leads tokens rest q) (h' : q.Leads rest rest' s) : p.Leads tokens rest' s := by
  obtain ⟨taken, rfl, hq⟩ := h
  obtain ⟨taken', rfl, hs⟩ := h'
  refine ⟨taken ++ taken', (List.append_assoc ..).symm, ?_⟩
  rw [hs, List.length_append, skip_add]
  exact look_skip_congr _ _ _ hq

theorem look (h : p.Leads tokens rest q) : p.Leads tokens rest q.look := by
  obtain ⟨taken, htokens, hq⟩ := h
  exact ⟨taken, htokens, by rw [look_look, hq]⟩

theorem pass {token : Token} (h : p.Leads tokens (token :: rest) q) :
    p.Leads tokens rest q.pass :=
  h.trans ⟨[token], rfl, rfl⟩

theorem ahead_eq (h : p.Leads tokens rest q) (hp : p.ahead = ⟨tokens, last⟩) :
    q.ahead = ⟨rest, last⟩ := by
  obtain ⟨taken, rfl, hq⟩ := h
  rw [← ahead_look, hq, ahead_look]
  exact ahead_skip taken rest last p hp

theorem diagnostics_eq (h : p.Leads tokens rest q) : q.diagnostics = p.diagnostics := by
  obtain ⟨taken, rfl, hq⟩ := h
  rw [← diagnostics_look, hq, diagnostics_look, diagnostics_skip]

/-- Apart from a look at the next token there is one parser at each place. -/
theorem look_eq (h : p.Leads tokens rest q) (h' : p.Leads tokens rest s) : q.look = s.look := by
  obtain ⟨taken, rfl, hq⟩ := h
  obtain ⟨taken', htaken, hs⟩ := h'
  rw [hq, hs, List.append_cancel_right htaken]

end Leads

end Parser

end ExprLang
