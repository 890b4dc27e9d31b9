import ExprLang.Session
import ExprLang.Proofs.LexicalFailure

/-!
How reading a source ends. Splitting it into tokens and reading it succeed together, if all
its bytes are of the alphabet. Otherwise they fail together, with an error about the first
byte that is not, whatever was read in front of it. What a session writes about the source
follows from which of the two it is.
-/
namespace ExprLang

inductive Verdict (source : String) (file : Option String) : Prop
  | read {tokens nodes} (hlegal : ∀ byte ∈ bytes source, isLegalByte byte = true)
      (htokens : tokenize source file = .ok tokens)
      (houtcome : (parse source file).outcome = .ok nodes)
  | failed {front behind} {error : LexicalError}
      (hbytes : bytes source = front ++ error.byte :: behind)
      (hfront : ∀ byte ∈ front, isLegalByte byte = true) (hbyte : isLegalByte error.byte = false)
      (hposition : error.position = ⟨front.length.toUInt32, file.getD Lexer.defaultFile⟩)
      (htokens : tokenize source file = .error error)
      (houtcome : (parse source file).outcome = .error error)

/-- Reading any source ends in one of the two ways. -/
theorem verdict (source : String) (file : Option String) : Verdict source file := by
  have htiles := Lexer.tiles_ofSource source file
  have hsplit := tokenize_eq source file _ _ rfl
  obtain ⟨nodes, houtcome, -⟩ := parse_ends source file
  generalize (Lexer.ofSource source file).stream.tokens = tokens at htiles hsplit
  generalize (Lexer.ofSource source file).stream.last = last at htiles hsplit houtcome
  cases last with
  | ok final => exact .read (isLegalByte_bytes_iff.mpr htiles.isLegalChar_of_ok) hsplit houtcome
  | error error =>
    obtain ⟨before, c, after, htext, hbefore, hc, rfl⟩ := htiles.exists_of_error
    obtain ⟨tail, hbytes⟩ := exists_bytes_of_toList htext hbefore
    refine .failed hbytes ?_ ?_ ?_ hsplit houtcome
    · rw [List.forall_mem_map]
      intro d hd
      rw [isLegalByte, ofUInt8_toUInt8 (toNat_lt_of_isLegalChar (hbefore d hd))]
      exact hbefore d hd
    · rw [isLegalByte_leadByte]
      exact hc
    · rw [List.length_map, Nat.zero_add]

/-- The first character outside the alphabet is what splitting a source into tokens fails at. -/
theorem tokenize_of_toList {source : String} {front behind : List Char} {c : Char}
    (htext : source.toList = front ++ c :: behind)
    (hfront : ∀ d ∈ front, isLegalChar d = true) (hc : isLegalChar c = false)
    (file : Option String) : tokenize source file =
      .error ⟨leadByte c, ⟨front.length.toUInt32, file.getD Lexer.defaultFile⟩⟩ := by
  have htiles := Lexer.tiles_ofSource source file
  rw [tokenize_eq source file _ _ rfl]
  generalize (Lexer.ofSource source file).stream.tokens = tokens at htiles
  generalize (Lexer.ofSource source file).stream.last = last at htiles
  cases last with
  | ok final =>
    have hlegal := htiles.isLegalChar_of_ok c (by simp [htext])
    rw [hc] at hlegal
    cases hlegal
  | error error =>
    obtain ⟨before, d, after, hcut, hbefore, hd, rfl⟩ := htiles.exists_of_error
    have hrun : (front ++ c :: behind).takeWhile isLegalChar = front :=
      takeWhile_run hfront (by simpa using hc)
    have hrun' : (before ++ d :: after).takeWhile isLegalChar = before :=
      takeWhile_run hbefore (by simpa using hd)
    obtain rfl : front = before := by rw [← hrun, ← htext, hcut, hrun']
    rw [hcut] at htext
    obtain ⟨rfl, -⟩ := List.cons.inj (List.append_cancel_left htext)
    rw [Nat.zero_add]
    rfl

theorem isLegalChar_replicate (n : Nat) :
    ∀ c ∈ List.replicate n '1', isLegalChar c = true := by
  intro c hc
  rw [List.eq_of_mem_replicate hc]
  decide

/-- The case of digits in front of a dollar sign. -/
theorem tokenize_digits (n : Nat) (file : Option String) :
    tokenize (String.ofList (List.replicate n '1' ++ ['$'])) file =
      .error ⟨0x24, ⟨n.toUInt32, file.getD Lexer.defaultFile⟩⟩ := by
  have h := tokenize_of_toList (String.toList_ofList (l := List.replicate n '1' ++ ['$']))
    (isLegalChar_replicate n) (by decide) file
  rwa [List.length_replicate] at h

/-- The place of an error is in the text, also where offsets wrap around. -/
theorem offset_le_of_position {source file : String} {front behind : List UInt8}
    {error : LexicalError} (hbytes : bytes source = front ++ error.byte :: behind)
    (hposition : error.position = ⟨front.length.toUInt32, file⟩) :
    error.position.offset.toNat ≤ (bytes source).length := by
  have hwrap : front.length.toUInt32.toNat ≤ front.length := by simpa using Nat.mod_le _ _
  rw [hposition, hbytes, List.length_append]
  exact le_trans hwrap (Nat.le_add_right _ _)

@[simp] theorem Output.mk_append_mk (out out' : String) (err err' : List Notice) :
    (⟨out, err⟩ : Output) ++ ⟨out', err'⟩ = ⟨out ++ out', err ++ err'⟩ := rfl

@[simp] theorem Output.empty_append (output : Output) :
    (⟨"", []⟩ : Output) ++ output = output := by
  obtain ⟨out, err⟩ := output
  simp

/-- Nodes as they are printed: outlines from the margin on, or symbolic expressions on a line
each. -/
def printed (options : Options) (nodes : List Node) : String :=
  String.join (nodes.map fun node =>
    if options.outline then node.writeOutline options.indent 0 "" else node.sexpr ++ "\n")

def passing (passes : Record → Bool) (records : List Record) : List Notice :=
  (records.filter passes).map .logged

namespace Session

variable {session : Session} {source : String} {parsed : Parsed}

/-- About a source that was read, all nodes are written. -/
theorem answer_of_ok {nodes : List Node} (h : parsed.outcome = .ok nodes) :
    session.answer source parsed =
      (⟨printed session.options nodes, passing session.passes parsed.parser.records⟩, none) := by
  simp only [answer, h]
  rfl

/-- About a source with a lexical error no node is written. -/
theorem answer_of_report {error : LexicalError} {text : String}
    (h : parsed.outcome = .error error) (hreport : error.report source = some text) :
    session.answer source parsed =
      (⟨"", passing session.passes parsed.parser.records ++ [.shown text]⟩, none) := by
  simp only [answer, h, hreport]
  rfl

/-- Without a report the session breaks off. -/
theorem answer_of_panic {error : LexicalError} (h : parsed.outcome = .error error)
    (hreport : error.report source = none) :
    session.answer source parsed =
      (⟨"", passing session.passes parsed.parser.records ++ [.panicked]⟩, some 101) := by
  simp only [answer, h, hreport]
  rfl

end Session

end ExprLang
