import ExprLang.Proofs.Accounts
import ExprLang.Proofs.Alphabet
import Mathlib.Data.List.Forall2
import Mathlib.Order.Monotone.Basic

/-!
The lexer against a cursor over a fixed stream. Whatever is asked of a lexer, in
whatever order, with copies kept and taken up again, it answers like a counter that
runs along the tokens of the source and stops at what stands behind them. The
lexer's cursor is ahead of that counter by the token that has been scanned.
-/
namespace ExprLang

structure Reader (σ : Type) where
  peek : σ → Except LexicalError Token × σ
  consume : σ → Except LexicalError Unit × σ
  position : σ → Position

namespace Reader

inductive Request where
  | peek
  | consume
  | position
  | save
  | restore
deriving DecidableEq

inductive Answer where
  | looked (outcome : Except LexicalError Token)
  | passed (outcome : Except LexicalError Unit)
  | place (position : Position)
  /-- The number of copies kept, or nothing if there was none to go back to. -/
  | kept (height? : Option Nat)

namespace Answer

def error? : Answer → Option LexicalError
  | looked (.error error) | passed (.error error) => some error
  | _ => none

def succeeds : Answer → Bool
  | looked (.ok _) | passed (.ok _) => true
  | _ => false

def InOrder (first second : Answer) : Prop :=
  (∀ place place', first = .place place → second = .place place' → place.offset ≤ place'.offset) ∧
    (first.error?.isSome → second.succeeds = false)

end Answer

structure State (σ : Type) where
  current : σ
  saved : List σ

variable {σ τ : Type}

def answer (reader : Reader σ) (state : State σ) : Request → Answer × State σ
  | .peek =>
    let (outcome, current) := reader.peek state.current
    (.looked outcome, { state with current })
  | .consume =>
    let (outcome, current) := reader.consume state.current
    (.passed outcome, { state with current })
  | .position => (.place (reader.position state.current), state)
  | .save => (.kept (some (state.saved.length + 1)), ⟨state.current, state.current :: state.saved⟩)
  | .restore =>
    match state.saved with
    | [] => (.kept none, state)
    | current :: saved => (.kept (some saved.length), ⟨current, saved⟩)

def answers (reader : Reader σ) (state : State σ) : List Request → List Answer
  | [] => []
  | request :: requests =>
    let (answer, state) := reader.answer state request
    answer :: reader.answers state requests

theorem answers_cons (reader : Reader σ) (state : State σ) (request : Request)
    (requests : List Request) : reader.answers state (request :: requests) =
      (reader.answer state request).1 ::
        reader.answers (reader.answer state request).2 requests :=
  rfl

/-- States that one relation matches answer alike and are matched afterwards. -/
structure Simulates (Matches : σ → τ → Prop) (first : Reader σ) (second : Reader τ) : Prop where
  peek {s t} (h : Matches s t) : (first.peek s).1 = (second.peek t).1 ∧
    Matches (first.peek s).2 (second.peek t).2
  consume {s t} (h : Matches s t) : (first.consume s).1 = (second.consume t).1 ∧
    Matches (first.consume s).2 (second.consume t).2
  position {s t} (h : Matches s t) : first.position s = second.position t

namespace Simulates

variable {Matches : σ → τ → Prop} {first : Reader σ} {second : Reader τ} {s : State σ} {t : State τ}

/-- One request. -/
theorem answer (h : Simulates Matches first second) (hcurrent : Matches s.current t.current)
    (hsaved : List.Forall₂ Matches s.saved t.saved) (request : Request) :
    (first.answer s request).1 = (second.answer t request).1 ∧
      Matches (first.answer s request).2.current (second.answer t request).2.current ∧
      List.Forall₂ Matches (first.answer s request).2.saved (second.answer t request).2.saved := by
  cases request with
  | peek => exact ⟨congrArg Answer.looked (h.peek hcurrent).1, (h.peek hcurrent).2, hsaved⟩
  | consume =>
    exact ⟨congrArg Answer.passed (h.consume hcurrent).1, (h.consume hcurrent).2, hsaved⟩
  | position => exact ⟨congrArg Answer.place (h.position hcurrent), hcurrent, hsaved⟩
  | save =>
    refine ⟨?_, hcurrent, .cons hcurrent hsaved⟩
    simp only [Reader.answer, hsaved.length_eq]
  | restore =>
    obtain ⟨current, saved⟩ := s
    obtain ⟨current', saved'⟩ := t
    cases hsaved with
    | nil => exact ⟨rfl, hcurrent, .nil⟩
    | cons hkept hsaved =>
      refine ⟨?_, hkept, hsaved⟩
      simp only [Reader.answer, hsaved.length_eq]

/-- Any number of requests. -/
theorem answers_eq (h : Simulates Matches first second) (hcurrent : Matches s.current t.current)
    (hsaved : List.Forall₂ Matches s.saved t.saved) (requests : List Request) :
    first.answers s requests = second.answers t requests := by
  induction requests generalizing s t with
  | nil => rfl
  | cons request requests ih =>
    obtain ⟨hanswer, hcurrent', hsaved'⟩ := h.answer hcurrent hsaved request
    rw [answers_cons, answers_cons, hanswer, ih hcurrent' hsaved']

end Simulates

end Reader

def stopOf : Except LexicalError Token → Position
  | .ok token => token.span.stop
  | .error error => error.position

namespace Lexer

open Reader (Request Answer)

def reader : Reader Lexer where
  peek lexer := settled (Lexer.peek lexer)
  consume lexer := settled (Lexer.consume lexer)
  position := position

/-- A number of tokens that are passed over, and whether the next one has been
scanned. -/
structure Cursor where
  index : Nat
  scanned : Bool

def Cursor.reached (cursor : Cursor) : Nat :=
  if cursor.scanned then cursor.index + 1 else cursor.index

theorem Cursor.reached_le (cursor : Cursor) : cursor.reached ≤ cursor.index + 1 := by
  unfold reached
  split <;> omega

namespace Stream

/-- What stands at an index of a stream: an ordinary token, or behind all of them what
the stream ends in. -/
def entry (stream : Stream) (index : Nat) : Except LexicalError Token :=
  match stream.tokens[index]? with
  | some token => .ok token
  | none => stream.last

def boundary (stream : Stream) (start : Position) : Nat → Position
  | 0 => start
  | index + 1 => stopOf (stream.entry index)

def EndsInOrder (stream : Stream) (file : String) : Prop :=
  Monotone fun index => (stream.boundary ⟨0, file⟩ index).offset.toNat

def reader (stream : Stream) (file : String) : Reader Cursor where
  peek cursor := (stream.entry cursor.index, ⟨cursor.index, true⟩)
  consume cursor :=
    match stream.entry cursor.index with
    | .ok token =>
      if token.kind = .endOfInput then (.ok (), ⟨cursor.index, true⟩)
      else (.ok (), ⟨cursor.index + 1, false⟩)
    | .error error => (.error error, ⟨cursor.index, true⟩)
  position cursor :=
    if cursor.scanned then stopOf (stream.entry cursor.index)
    else stream.boundary ⟨0, file⟩ cursor.index

theorem head_drop (stream : Stream) (index : Nat) :
    head ⟨stream.tokens.drop index, stream.last⟩ = stream.entry index := by
  unfold entry
  rw [← List.head?_drop]
  cases stream.tokens.drop index <;> rfl

end Stream

theorem Stream.position_reader (stream : Stream) (file : String) (cursor : Cursor) :
    (stream.reader file).position cursor = stream.boundary ⟨0, file⟩ cursor.reached := by
  unfold Cursor.reached
  simp only [reader]
  split <;> rfl

structure IsAt (stream : Stream) (file : String) (lexer : Lexer) (cursor : Cursor) : Prop where
  ahead : lexer.stream = ⟨stream.tokens.drop cursor.index, stream.last⟩
  scanned : lexer.scanned.isSome = cursor.scanned
  position : lexer.position = (stream.reader file).position cursor

/-- Scanning moves the cursor up to the end of what was scanned. -/
theorem position_scan (lexer : Lexer) : lexer.scan.2.position = stopOf lexer.scan.1 := by
  unfold scan
  dsimp only
  split
  · rfl
  · split <;> rfl

theorem settled_peek (lexer : Lexer) : settled lexer.peek = (lexer.next, lexer.looked) := by
  rw [peek_eq]
  cases lexer.next <;> rfl

theorem settled_consume (lexer : Lexer) :
    settled lexer.consume = (lexer.next.map fun _ => (), lexer.passed) := by
  have hpeek := peek_eq lexer
  simp only [consume, bind, EStateM.bind]
  cases hnext : lexer.next with
  | ok token =>
    rw [hnext] at hpeek
    rw [hpeek]
    rfl
  | error error =>
    rw [hnext] at hpeek
    rw [hpeek, passed_of_final lexer (by simp [hnext])]
    rfl

namespace IsAt

variable {stream : Stream} {file : String} {lexer : Lexer} {cursor : Cursor}

theorem next_eq (h : IsAt stream file lexer cursor) : lexer.next = stream.entry cursor.index := by
  rw [← head_stream, h.ahead, stream.head_drop]

theorem looked (h : IsAt stream file lexer cursor) :
    IsAt stream file lexer.looked ⟨cursor.index, true⟩ where
  ahead := by rw [stream_looked, h.ahead]
  scanned := by rw [scanned_looked]; rfl
  position := by
    show lexer.looked.position = stopOf (stream.entry cursor.index)
    cases hscanned : lexer.scanned with
    | some outcome =>
      have hcursor : true = cursor.scanned := by rw [← h.scanned, hscanned]; rfl
      rw [looked_of_scanned lexer outcome hscanned, h.position]
      exact if_pos hcursor.symm
    | none =>
      rw [← h.next_eq]
      simp only [Lexer.looked, next, hscanned]
      exact position_scan lexer

theorem passed (h : IsAt stream file lexer cursor) {token : Token}
    (hnext : lexer.next = .ok token) (hkind : token.kind ≠ .endOfInput) :
    IsAt stream file lexer.passed ⟨cursor.index + 1, false⟩ where
  ahead := by
    have hahead := h.ahead
    rw [stream_of_ordinary lexer token hnext hkind] at hahead
    obtain ⟨htokens, hlast⟩ := Stream.mk.inj hahead
    rw [← List.tail_drop, ← htokens, ← hlast, List.tail_cons]
  scanned := by rw [passed_of_ordinary lexer token hnext hkind]; rfl
  position := by
    rw [passed_of_ordinary lexer token hnext hkind]
    exact h.looked.position

end IsAt

/-- A lexer answers as the stream it is on, and stays on it. -/
theorem simulates (stream : Stream) (file : String) :
    Reader.Simulates (IsAt stream file) reader (stream.reader file) where
  peek {lexer cursor} h := by
    simp only [reader, settled_peek, Stream.reader]
    exact ⟨h.next_eq, h.looked⟩
  consume {lexer cursor} h := by
    simp only [reader, settled_consume, Stream.reader]
    rw [← h.next_eq]
    cases hnext : lexer.next with
    | error error =>
      rw [passed_of_final lexer (by simp [hnext])]
      exact ⟨rfl, h.looked⟩
    | ok token =>
      by_cases hkind : token.kind = .endOfInput
      · rw [passed_of_final lexer (by simp [hnext, hkind])]
        simp only [hkind, if_true]
        exact ⟨rfl, h.looked⟩
      · simp only [hkind, if_false]
        exact ⟨rfl, h.passed hnext hkind⟩
  position h := h.position

theorem isAt_ofSource (source : String) (file : Option String) :
    IsAt (ofSource source file).stream (file.getD defaultFile) (ofSource source file) ⟨0, false⟩ :=
  ⟨rfl, rfl, rfl⟩

namespace Stream

variable {stream : Stream} {file : String} {requests : List Request}

/-- An error stands only behind all tokens. -/
theorem last_of_entry_error {index : Nat} {error : LexicalError}
    (h : stream.entry index = .error error) : stream.last = .error error := by
  rw [← head_drop] at h
  exact last_of_head_error h

/-- What an answer tells about the place it is given at. -/
theorem answer_current (state : Reader.State Cursor) (request : Request) (answer : Answer)
    (h : ((stream.reader file).answer state request).1 = answer) :
    (∀ place, answer = .place place → place = (stream.reader file).position state.current) ∧
    (∀ error, answer.error? = some error → stream.entry state.current.index = .error error) ∧
    (answer.succeeds = true → ∃ token, stream.entry state.current.index = .ok token) := by
  subst h
  cases request with
  | peek =>
    cases hentry : stream.entry state.current.index with
    | ok token => simp [Reader.answer, reader, hentry, Answer.error?]
    | error error => simp [Reader.answer, reader, hentry, Answer.error?, Answer.succeeds]
  | consume =>
    cases hentry : stream.entry state.current.index with
    | ok token =>
      by_cases hkind : token.kind = .endOfInput <;>
        simp [Reader.answer, reader, hentry, hkind, Answer.error?]
    | error error => simp [Reader.answer, reader, hentry, Answer.error?, Answer.succeeds]
  | position => simp [Reader.answer, Answer.error?, Answer.succeeds]
  | save => simp [Reader.answer, Answer.error?, Answer.succeeds]
  | restore =>
    cases hsaved : state.saved <;> simp [Reader.answer, hsaved, Answer.error?, Answer.succeeds]

/-- But for going back to a copy, a cursor moves forward, and it stays at an error. -/
theorem answer_forward (state : Reader.State Cursor) (request : Request)
    (hrequest : request ≠ .restore) (after : Reader.State Cursor)
    (h : ((stream.reader file).answer state request).2 = after) :
    state.current.reached ≤ after.current.reached ∧
      ∀ error, stream.entry state.current.index = .error error →
        stream.entry after.current.index = .error error := by
  subst h
  cases request with
  | peek => exact ⟨Cursor.reached_le _, fun error herror => herror⟩
  | consume =>
    cases hentry : stream.entry state.current.index with
    | ok token =>
      refine ⟨?_, by simp⟩
      by_cases hkind : token.kind = .endOfInput
      · simp only [Reader.answer, reader, hentry, hkind, if_true]
        exact Cursor.reached_le _
      · simp only [Reader.answer, reader, hentry, hkind, if_false]
        exact Cursor.reached_le _
    | error error =>
      simp only [Reader.answer, reader, hentry]
      exact ⟨Cursor.reached_le _, fun error herror => herror⟩
  | position | save => exact ⟨le_refl _, fun error herror => herror⟩
  | restore => exact absurd rfl hrequest

/-- All errors are the one that stands behind the tokens. -/
theorem answers_error (state : Reader.State Cursor) (answer : Answer)
    (hanswer : answer ∈ (stream.reader file).answers state requests) (error : LexicalError)
    (herror : answer.error? = some error) : stream.last = .error error := by
  induction requests generalizing state with
  | nil => cases hanswer
  | cons request requests ih =>
    rcases List.mem_cons.mp hanswer with hfirst | hrest
    · exact last_of_entry_error ((answer_current state request answer hfirst.symm).2.1 error herror)
    · exact ih _ hrest

/-- As long as no copy is taken up again, later answers are given further on. -/
theorem answers_behind (hordered : stream.EndsInOrder file) (hrequests : .restore ∉ requests)
    (state : Reader.State Cursor) (answer : Answer)
    (hanswer : answer ∈ (stream.reader file).answers state requests) :
    (∀ place, answer = .place place →
      ((stream.reader file).position state.current).offset.toNat ≤ place.offset.toNat) ∧
    ∀ error, stream.entry state.current.index = .error error → answer.succeeds = false := by
  induction requests generalizing state with
  | nil => cases hanswer
  | cons request requests ih =>
    obtain ⟨hrequest, hrequests⟩ := not_or.mp (mt List.mem_cons.mpr hrequests)
    rw [Reader.answers_cons] at hanswer
    rcases List.mem_cons.mp hanswer with hfirst | hrest
    · obtain ⟨hplace, -, hsucceeds⟩ := answer_current state request answer hfirst.symm
      refine ⟨fun place hanswer => by rw [hplace place hanswer], fun error herror => ?_⟩
      by_contra hsuccess
      obtain ⟨token, htoken⟩ := hsucceeds (by simpa using hsuccess)
      rw [herror] at htoken
      cases htoken
    · generalize hafter : ((stream.reader file).answer state request).2 = after at hrest
      obtain ⟨hreached, hstuck⟩ := answer_forward state request (Ne.symm hrequest) after hafter
      obtain ⟨hplace, hfails⟩ := ih hrequests after hrest
      refine ⟨fun place hanswer => le_trans ?_ (hplace place hanswer),
        fun error herror => hfails error (hstuck error herror)⟩
      rw [position_reader, position_reader]
      exact hordered hreached

/-- As long as no copy is taken up again, places never go back, and behind an error
nothing succeeds. -/
theorem answers_inOrder (hordered : stream.EndsInOrder file) (hrequests : .restore ∉ requests)
    (state : Reader.State Cursor) :
    ((stream.reader file).answers state requests).Pairwise Answer.InOrder := by
  induction requests generalizing state with
  | nil => exact .nil
  | cons request requests ih =>
    obtain ⟨-, hrest⟩ := not_or.mp (mt List.mem_cons.mpr hrequests)
    rw [Reader.answers_cons]
    refine .cons (fun second hsecond => ?_) (ih hrest _)
    generalize hfirst : ((stream.reader file).answer state request).1 = first
    obtain ⟨hplace, herror, -⟩ := answer_current state request first hfirst
    -- The second answer is one of those from the place that the first is given at.
    obtain ⟨hbehind, hfails⟩ := answers_behind hordered hrequests state second
      (List.mem_cons_of_mem _ hsecond)
    refine ⟨fun place place' hfirst hsecond => ?_, fun hfailed => ?_⟩
    · rw [UInt32.le_iff_toNat_le, hplace place hfirst]
      exact hbehind place' hsecond
    · obtain ⟨error, hfirst⟩ := Option.isSome_iff_exists.mp hfailed
      exact hfails error (herror error hfirst)

theorem boundary_cons (token : Token) (tokens : List Token) (last : Except LexicalError Token)
    (start : Position) (index : Nat) : boundary ⟨token :: tokens, last⟩ start (index + 1) =
      boundary ⟨tokens, last⟩ token.span.stop index := by
  cases index <;> rfl

end Stream

end Lexer

/-- The tokens of a text end one behind the other, as long as offsets are words. -/
theorem Tiles.boundary_le {file : String} {offset : Nat} {text : List Char} {tokens : List Token}
    {last : Except LexicalError Token} (h : Tiles file offset text tokens last)
    (hsize : offset + text.length < UInt32.size) (index : Nat) :
    (Lexer.Stream.boundary ⟨tokens, last⟩ ⟨offset.toUInt32, file⟩ index).offset.toNat ≤
      (Lexer.Stream.boundary ⟨tokens, last⟩ ⟨offset.toUInt32, file⟩ (index + 1)).offset.toNat := by
  have hle : ∀ m n : Nat, m ≤ n → n < UInt32.size → m.toUInt32.toNat ≤ n.toUInt32.toNat := by
    intro m n hmn hn
    rw [UInt32.toNat_ofNat_of_lt' (lt_of_le_of_lt hmn hn), UInt32.toNat_ofNat_of_lt' hn]
    exact hmn
  induction h generalizing index with
  | @finish offset blanks hblanks =>
    cases index with
    | zero => exact hle _ _ (by omega) hsize
    | succ index => exact le_of_eq rfl
  | @stuck offset blanks c text hblanks hc hmunch =>
    rw [List.length_append] at hsize
    cases index with
    | zero => exact hle _ _ (by omega) (by omega)
    | succ index => exact le_of_eq rfl
  | @token offset blanks text kind rest tokens last hblanks hmunch hrest ih =>
    obtain ⟨rfl, -⟩ := Token.Kind.munch?_eq_some _ _ _ hmunch
    simp only [List.length_append, String.length_toList] at hsize
    cases index with
    | zero => exact hle _ _ (by omega) (by omega)
    | succ index =>
      rw [Lexer.Stream.boundary_cons, Lexer.Stream.boundary_cons]
      exact ih (by omega) index

namespace Lexer

open Reader (Request Answer)

/-- The lexer refines a cursor over one finite stream, that of the tokens of the source
and of what stands behind them. Any requests are answered as by the cursor. All
errors are the one that ends the stream, and unless a copy is taken up again, the
places that are reported never go back and nothing succeeds behind an error. -/
theorem refines_stream (source : String) (file : Option String)
    (hsize : source.utf8ByteSize < UInt32.size) :
    ∃ stream : Stream, (∀ token ∈ stream.tokens, token.kind ≠ .endOfInput) ∧
      (∀ final, stream.last = .ok final → final.kind = .endOfInput ∧
        final.span.stop.offset.toNat = source.utf8ByteSize) ∧
      tokenize source file = stream.last.map (fun final => stream.tokens ++ [final]) ∧
      ∀ requests : List Request,
        reader.answers ⟨ofSource source file, []⟩ requests =
          (stream.reader (file.getD defaultFile)).answers ⟨⟨0, false⟩, []⟩ requests ∧
        (∀ answer ∈ reader.answers ⟨ofSource source file, []⟩ requests,
          ∀ error, answer.error? = some error → stream.last = .error error) ∧
        (.restore ∉ requests →
          (reader.answers ⟨ofSource source file, []⟩ requests).Pairwise Answer.InOrder) := by
  have htiles := tiles_ofSource source file
  obtain ⟨htokens, hlast⟩ := stream_kinds (ofSource source file) _ _ rfl
  have hlength := length_le_utf8ByteSize source
  have hfits : 0 + source.toList.length < UInt32.size := by omega
  refine ⟨(ofSource source file).stream, htokens, fun final hfinal => ⟨hlast final hfinal, ?_⟩,
    tokenize_eq source file _ _ rfl, fun requests => ?_⟩
  · rw [hfinal] at htiles
    have hbytes := utf8ByteSize_of_isLegalChar htiles.isLegalChar_of_ok
    rw [htiles.final_eq, hbytes]
    refine (UInt32.toNat_ofNat_of_lt' hfits).trans ?_
    exact Nat.zero_add _
  · have heq := (simulates (ofSource source file).stream (file.getD defaultFile)).answers_eq
      (s := ⟨ofSource source file, []⟩) (t := ⟨⟨0, false⟩, []⟩)
      (isAt_ofSource source file) .nil requests
    have hordered : (ofSource source file).stream.EndsInOrder (file.getD defaultFile) :=
      monotone_nat_of_le_succ (htiles.boundary_le hfits)
    rw [heq]
    exact ⟨rfl, Stream.answers_error _, fun hrequests =>
      Stream.answers_inOrder hordered hrequests _⟩

/-- The case of a source that a character outside the alphabet ends. -/
theorem refines_stream_of_dollar : "a $".utf8ByteSize < UInt32.size ∧
    ∃ stream : Stream, stream.last = .error ⟨36, ⟨2, "shell"⟩⟩ ∧
      ∀ requests : List Request, reader.answers ⟨ofSource "a $" none, []⟩ requests =
        (stream.reader "shell").answers ⟨⟨0, false⟩, []⟩ requests := by
  have hsize : "a $".utf8ByteSize < UInt32.size := by decide +kernel
  obtain ⟨stream, -, -, htokens, hanswers⟩ := refines_stream "a $" none hsize
  have herror : tokenize "a $" none = .error ⟨36, ⟨2, "shell"⟩⟩ := by decide +kernel
  refine ⟨hsize, stream, ?_, fun requests => (hanswers requests).1⟩
  rw [herror] at htokens
  cases hlast : stream.last with
  | ok final =>
    rw [hlast] at htokens
    cases htokens
  | error error =>
    rw [hlast] at htokens
    exact congrArg Except.error (Except.error.inj htokens).symm

end Lexer

end ExprLang
