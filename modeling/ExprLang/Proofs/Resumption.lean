import ExprLang.Proofs.Shift
import ExprLang.Proofs.Truncation

/-!
Nothing but the place in the source is kept between two calls for the next construct.
After any number of calls the rest of a run gives and reports what reading the rest of
the source afresh does, further back by what the calls have passed over. The token that
may have been looked at already makes no difference.
-/
namespace ExprLang

open Lexer (Stream)

def Call.taken (call : Call) : List Token :=
  call.before.ahead.tokens.take (call.before.ahead.tokens.length - call.after.ahead.tokens.length)

/-- The offset behind the last one of some tokens, or the start of the source if there
are none. -/
def endOffset (tokens : List Token) : Nat :=
  match tokens.getLast? with
  | some token => token.span.stop.offset.toNat
  | none => 0

/-- The calls that reading a source makes, and how they end: with all nodes, or with the
lexical error. -/
structure IsRunOf (source : String) (file : Option String) (calls : List Call)
    (ending : Except LexicalError Unit) : Prop where
  run : Parser.Run (Parser.ofSource source file) calls ending (parse source file).parser
  nodes : (parse source file).outcome = ending.map fun _ => calls.filterMap Call.node?
  diagnostics : (parse source file).parser.diagnostics.toList = calls.flatMap Call.reports

variable {last : Except LexicalError Token} {tokens segment rest : List Token}

theorem exists_isRunOf (source : String) (file : Option String) :
    ∃ calls ending, IsRunOf source file calls ending := by
  obtain ⟨calls, ending, hrun, hnodes⟩ := parse_run source file
  obtain ⟨-, -, -, -, -, -, hreports⟩ := hrun.covers rfl
  exact ⟨calls, ending, hrun, hnodes, hreports⟩

theorem Call.taken_eq {call : Call} (hbefore : call.before.ahead = ⟨segment ++ rest, last⟩)
    (hafter : call.after.ahead = ⟨rest, last⟩) : call.taken = segment := by
  simp [taken, hbefore, hafter]

/-- The calls of a run behind the first few are a run from the tokens that these leave. -/
theorem Parser.Run.drop {p final : Parser} {calls : List Call} {outcome : Except LexicalError Unit}
    (h : Run p calls outcome final) (hp : p.ahead = ⟨tokens, last⟩) (n : Nat) :
    ∃ q rest, Run q (calls.drop n) outcome final ∧ q.ahead = ⟨rest, last⟩ ∧
      tokens = (calls.take n).flatMap Call.taken ++ rest := by
  induction n generalizing p calls tokens with
  | zero => exact ⟨p, tokens, h, hp, rfl⟩
  | succ n ih =>
    -- Where no call is left to drop, the rest of the run is all of it.
    cases h with
    | finished htokens => exact ⟨p, tokens, .finished htokens, hp, rfl⟩
    | blocked htokens => exact ⟨p, tokens, .blocked htokens, hp, rfl⟩
    | failed htokens hnext => exact ⟨p, tokens, .failed htokens hnext, hp, rfl⟩
    | @call _ q r _ node? calls _ htokens hnext hrest =>
      obtain ⟨token, tail, rfl, hkind, hahead⟩ := exists_ahead_of_hasTokens hp htokens
      obtain ⟨segment, rest, hsegment, -, hafter, -⟩ := next_takes hkind hahead hnext
      obtain ⟨q', rest', hrun, hahead', rfl⟩ := ih hrest hafter
      rw [hsegment] at hahead ⊢
      have htaken : Call.taken ⟨q, node?, r⟩ = segment := Call.taken_eq hahead hafter
      refine ⟨q', rest', hrun, hahead', ?_⟩
      rw [List.take_succ_cons, List.flatMap_cons, htaken, List.append_assoc]

/-- A text can be cut behind the first few of its tokens, which divide the text in front. -/
theorem Tiles.exists_front {file : String} {offset : Nat} {text : List Char} {taken : List Token}
    (h : Tiles file offset text (taken ++ rest) last) :
    ∃ front behind, text = front ++ behind ∧
      Tiles file offset front taken (.ok (.placed file (offset + front.length) .endOfInput)) ∧
      Tiles file (offset + front.length) behind rest last ∧ (taken = [] → front = []) ∧
      ∀ token ∈ taken.getLast?, token.span.stop = ⟨(offset + front.length).toUInt32, file⟩ := by
  induction taken generalizing offset text with
  | nil => exact ⟨[], text, rfl, .finish (by simp), h, fun _ => rfl, by simp⟩
  | cons token taken ih =>
    rw [List.cons_append] at h
    cases h with
    | @token _ blanks text kind behind _ _ hblanks hmunch hrest =>
      obtain ⟨front, behind, rfl, hfront, htiles, hnil, hlast⟩ := ih hrest
      obtain ⟨hkind, hstops⟩ := Token.Kind.isLegal_of_munch? hmunch
      obtain ⟨rfl, -⟩ := Token.Kind.munch?_eq_some _ _ _ hmunch
      have hlength : offset + (blanks ++ (kind.spelling.toList ++ front)).length =
          offset + blanks.length + kind.spelling.length + front.length := by
        simp only [List.length_append, String.length_toList, Nat.add_assoc]
      refine ⟨blanks ++ (kind.spelling.toList ++ front), behind, by simp, ?_, ?_, by simp, ?_⟩
      · rw [hlength]
        exact .token hblanks (hkind.munch? hstops.of_append) hfront
      · rwa [hlength]
      · rw [hlength]
        intro last hmem
        cases taken with
        | nil =>
          obtain rfl : Token.placed file (offset + blanks.length) kind = last := by simpa using hmem
          rw [hnil rfl]
          rfl
        | cons next taken => exact hlast last (by simpa using hmem)

/-- What is left of a source behind some of its tokens are the tokens of the text behind
them, further back. -/
theorem Lexer.exists_rest {source : String} {file : Option String} {taken : List Token}
    (hsize : source.utf8ByteSize < UInt32.size)
    (hstream : (ofSource source file).stream = ⟨taken ++ rest, last⟩) :
    ∃ front behind : String, source = front ++ behind ∧ front.utf8ByteSize = endOffset taken ∧
      ∃ tokens' last', (ofSource behind file).stream = ⟨tokens', last'⟩ ∧
        rest = tokens'.map (Token.shift front.utf8ByteSize) ∧
        last = Stream.shiftLast front.utf8ByteSize last' := by
  obtain ⟨front, behind, htext, hfront, hrest, hnil, hend⟩ := (tiles_of_stream hstream).exists_front
  obtain ⟨front', behind', hsplit, -, hchars, hbytes⟩ :=
    exists_front_of_toList htext hfront.isLegalChar_of_ok
  rw [Nat.zero_add, ← hbytes] at hrest hend
  have hfits : front'.utf8ByteSize < UInt32.size := by
    rw [hsplit, String.utf8ByteSize_append] at hsize
    omega
  have hplace : front'.utf8ByteSize = endOffset taken := by
    unfold endOffset
    cases hget : taken.getLast? with
    | none => rw [hbytes, hnil (List.getLast?_eq_none_iff.mp hget), List.length_nil]
    | some token =>
      simp only [hend token hget]
      exact (UInt32.toNat_ofNat_of_lt' hfits).symm
  -- What is left divides the text behind, and so does a fresh division moved to its place.
  have hfresh := (tiles_ofSource behind' file).shift front'.utf8ByteSize
  rw [hchars, Nat.zero_add] at hfresh
  obtain ⟨htokens, hlast⟩ := hrest.unique hfresh
  exact ⟨front', behind', hsplit, hplace, _, _, rfl, htokens, hlast⟩

/-- Behind any number of calls the rest of a run is a fresh run on the text behind the last
token that the calls took: it gives the same nodes and the same diagnostics and ends with
the same error, if any, further back by the length of the text in front. -/
theorem parse_resumes (source : String) (file : Option String)
    (hsize : source.utf8ByteSize < UInt32.size) :
    ∃ calls ending, IsRunOf source file calls ending ∧
      ∀ n, ∃ front behind : String, source = front ++ behind ∧
        front.utf8ByteSize = endOffset ((calls.take n).flatMap Call.taken) ∧
        ∃ fresh ending', IsRunOf behind file fresh ending' ∧
          (calls.drop n).filterMap Call.node? =
            (fresh.filterMap Call.node?).map (Node.shift front.utf8ByteSize) ∧
          (calls.drop n).flatMap Call.reports =
            (fresh.flatMap Call.reports).map (Diagnostic.shift front.utf8ByteSize) ∧
          ending = ending'.mapError (LexicalError.shift front.utf8ByteSize) := by
  obtain ⟨calls, ending, h⟩ := exists_isRunOf source file
  refine ⟨calls, ending, h, fun n => ?_⟩
  cases hstream : (Lexer.ofSource source file).stream with
  | mk tokens last =>
    have hahead : (Parser.ofSource source file).ahead = ⟨tokens, last⟩ := hstream
    obtain ⟨q, rest, hdrop, hrest, rfl⟩ := h.run.drop hahead n
    obtain ⟨front, behind, hsplit, hfront, tokens', last', hstream', rfl, rfl⟩ :=
      Lexer.exists_rest hsize hstream
    obtain ⟨fresh, ending', h'⟩ := exists_isRunOf behind file
    have hahead' : (Parser.ofSource behind file).ahead = ⟨tokens', last'⟩ := hstream'
    have htiles := Lexer.tiles_of_stream hstream'
    have hfresh := (h'.run.readsAll hahead').shift htiles.alike_self.1 htiles.alike_self.2
      front.utf8ByteSize
    obtain ⟨hnodes, hreports⟩ := hfresh.unique (hdrop.readsAll hrest)
    refine ⟨front, behind, hsplit, hfront, fresh, ending', h', hnodes, hreports, ?_⟩
    obtain ⟨-, rfl⟩ := h.run.ahead_final hahead
    obtain ⟨-, rfl⟩ := h'.run.ahead_final hahead'
    cases last' <;> rfl

/-- The case of one call that passes over a stray parenthesis. -/
theorem parse_resumes_of_parenthesis : ") f $".utf8ByteSize < UInt32.size ∧
    ∃ calls ending, IsRunOf ") f $" none calls ending ∧
      ∃ front behind : String, ") f $" = front ++ behind ∧
        front.utf8ByteSize = endOffset ((calls.take 1).flatMap Call.taken) ∧
        ∃ fresh ending', IsRunOf behind none fresh ending' ∧
          (calls.drop 1).filterMap Call.node? =
            (fresh.filterMap Call.node?).map (Node.shift front.utf8ByteSize) ∧
          (calls.drop 1).flatMap Call.reports =
            (fresh.flatMap Call.reports).map (Diagnostic.shift front.utf8ByteSize) ∧
          ending = ending'.mapError (LexicalError.shift front.utf8ByteSize) := by
  have hsize : ") f $".utf8ByteSize < UInt32.size := by decide +kernel
  obtain ⟨calls, ending, h, hresumes⟩ := parse_resumes ") f $" none hsize
  exact ⟨hsize, calls, ending, h, hresumes 1⟩

end ExprLang
