import ExprLang.Proofs.Shift
import ExprLang.Proofs.Truncation

/-!
Reading texts one behind the other. A construct that ends a text is read in the same
way in front of any token that does not go on with it, and what fails in front of the
end of a text fails there whatever stands behind it. So where the first text reports
nothing about its end, and the second one begins with no operator and no opening
parenthesis, the two with blanks between them give what they give apart.
-/
namespace ExprLang

open Lexer (Stream)
open Token.Kind (mark)

variable {last : Except LexicalError Token} {tokens behind rest : List Token} {final : Token}

/-- The next token goes on with no construct: it is neither an operator nor an opening
parenthesis. -/
def Lexer.Stream.BeginsAnew (next : Except LexicalError Token) : Prop :=
  ∀ token, next = .ok token → token.kind ≠ mark '(' ∧ token.kind.operator? = none

/-- A token that goes on with nothing closes what any other one closes. -/
theorem Lexer.Stream.BeginsAnew.closes {token : Token} (h : BeginsAnew (.ok token))
    (other : Except LexicalError Token) : Closes (.ok token) other := by
  obtain ⟨hopen, hop⟩ := h token rfl
  refine fun follower _ => ⟨token, rfl, fun heq => absurd heq hopen, fun op heq => ?_⟩
  rw [hop] at heq
  cases heq

/-- A construct at the end of a text is read in front of a token that goes on with
nothing, and in front of an error it is read or cut short. -/
theorem ReadsTop.append {node : Node} (h : ReadsTop (.ok final) tokens node rest)
    (hanew : Stream.BeginsAnew (Stream.head ⟨behind, last⟩)) :
    ReadsTop last (tokens ++ behind) node (rest ++ behind) ∨
      rest = [] ∧ behind = [] ∧ ∃ error rest', last = .error error ∧
        FailsTop last tokens (.lexical error) rest' := by
  cases hhead : Stream.head ⟨rest ++ behind, last⟩ with
  | ok token =>
    have hcloses : Stream.Closes (Stream.head ⟨rest ++ behind, last⟩)
        (Stream.head ⟨rest, .ok final⟩) := by
      cases rest with
      | nil =>
        rw [List.nil_append] at hhead ⊢
        rw [hhead] at hanew ⊢
        exact hanew.closes _
      | cons follower tail => exact .refl (.ok follower)
    obtain ⟨taken, rfl, h'⟩ := h.congr_rest hcloses
    rw [List.append_assoc]
    exact Or.inl h'
  | error error =>
    obtain ⟨rfl, rfl⟩ := List.append_eq_nil_iff.mp (Stream.nil_of_head_error hhead)
    obtain rfl := Stream.last_of_head_error hhead
    -- An error right behind the text is met only by constructs that look that far.
    rw [List.append_nil, List.append_nil]
    rcases settles_at_error error h.begins with ⟨node', rest', hread⟩ |
      ⟨diagnostic, rest', hfail⟩ | ⟨rest', hcut⟩
    · obtain ⟨rfl, rfl⟩ := h.unique hread.of_error
      exact Or.inl hread
    · exact absurd hfail.of_error h.not_fails
    · exact Or.inr ⟨rfl, rfl, error, rest', rfl, hcut⟩

/-- What fails in front of the end of a text fails whatever stands behind the text. -/
theorem FailsTop.append {diagnostic : Diagnostic}
    (h : FailsTop (.ok final) tokens (.syntactic diagnostic) rest)
    (hplace : diagnostic.position ≠ final.span.start) :
    FailsTop last (tokens ++ behind) (.syntactic diagnostic) (rest ++ behind) ∧ rest ≠ [] := by
  cases rest with
  | nil =>
    obtain ⟨token, hhead, hposition, -⟩ := h.isAt
    obtain rfl := Except.ok.inj hhead
    exact absurd hposition hplace
  | cons culprit tail =>
    obtain ⟨taken, rfl, h'⟩ : ∃ taken, tokens = taken ++ culprit :: tail ∧
        FailsTop last (taken ++ culprit :: (tail ++ behind)) (.syntactic diagnostic)
          (culprit :: (tail ++ behind)) := h.congr_rest (tail ++ behind)
    rw [List.append_assoc]
    exact ⟨h', List.cons_ne_nil culprit tail⟩

/-- Texts without a diagnostic about the end of the first one are read apart. The nodes
count only where no error stops the reading. -/
theorem ReadsAll.append {nodes nodes' : List Node} {diagnostics diagnostics' : List Diagnostic}
    (h : ReadsAll (.ok final) tokens nodes diagnostics)
    (hquiet : ∀ diagnostic ∈ diagnostics, diagnostic.position ≠ final.span.start)
    (hbehind : ReadsAll last behind nodes' diagnostics')
    (hanew : Stream.BeginsAnew (Stream.head ⟨behind, last⟩)) :
    ∃ both, ReadsAll last (tokens ++ behind) both (diagnostics ++ diagnostics') ∧
      ∀ final', last = .ok final' → both = nodes ++ nodes' := by
  induction h with
  | done => exact ⟨nodes', hbehind, fun _ _ => rfl⟩
  | @construct tokens node rest nodes diagnostics hread hrest ih =>
    rcases hread.append hanew with hread' | ⟨rfl, rfl, error, rest', rfl, hfail⟩
    · obtain ⟨both, hall, hboth⟩ := ih hquiet
      exact ⟨node :: both, .construct hread' hall, fun final' hlast => by
        rw [hboth final' hlast, List.cons_append]⟩
    · obtain ⟨-, rfl⟩ := hrest.eq_nil
      obtain ⟨-, rfl⟩ := hbehind.eq_nil
      refine ⟨[], ?_, fun final' hlast => by cases hlast⟩
      rw [List.append_nil]
      exact .stuck hfail
  | @recovery tokens diagnostic rest nodes diagnostics hfail hrest ih =>
    obtain ⟨hhere, hquiet'⟩ := List.forall_mem_cons.mp hquiet
    obtain ⟨hfail', hne⟩ : FailsTop last (tokens ++ behind) (.syntactic diagnostic)
        (rest ++ behind) ∧ rest ≠ [] := hfail.append hhere
    obtain ⟨both, hall, hboth⟩ := ih hquiet'
    rw [← List.tail_append_of_ne_nil hne] at hall
    exact ⟨both, .recovery hfail' hall, hboth⟩
  | stuck hfail =>
    -- No error stands behind the first text.
    cases Stream.last_of_head_error hfail.isAt

section Texts

variable {file : String} {offset : Nat} {text text' blanks : List Char}

/-- Blanks in front of a text do not change its tokens. -/
theorem Tiles.blanks_append (hblanks : ∀ c ∈ blanks, isBlank c = true)
    (h : Tiles file (offset + blanks.length) text tokens last) :
    Tiles file offset (blanks ++ text) tokens last := by
  generalize hplace : offset + blanks.length = place at h
  cases h with
  | finish hmore =>
    have hall : ∀ c ∈ blanks ++ text, isBlank c = true :=
      List.forall_mem_append.mpr ⟨hblanks, hmore⟩
    rw [← hplace, Nat.add_assoc, ← List.length_append]
    exact .finish hall
  | @stuck _ more c behind hmore hc hmunch =>
    have hall : ∀ c ∈ blanks ++ more, isBlank c = true :=
      List.forall_mem_append.mpr ⟨hblanks, hmore⟩
    rw [← hplace, Nat.add_assoc, ← List.length_append, ← List.append_assoc]
    exact .stuck hall hc hmunch
  | @token _ more behind kind rest tokens _ hmore hmunch hrest =>
    have hall : ∀ c ∈ blanks ++ more, isBlank c = true :=
      List.forall_mem_append.mpr ⟨hblanks, hmore⟩
    have hlength : place + more.length = offset + (blanks ++ more).length := by
      rw [← hplace, Nat.add_assoc, List.length_append]
    rw [hlength] at hrest ⊢
    rw [← List.append_assoc]
    exact .token hall hmunch hrest

/-- A token that ends a text does not go on into blanks behind it. -/
theorem Token.Kind.StopsAt.append_blanks {kind : Token.Kind} (h : kind.StopsAt text)
    (hne : blanks ≠ []) (hblanks : ∀ c ∈ blanks, isBlank c = true) (text' : List Char) :
    kind.StopsAt (text ++ (blanks ++ text')) := by
  cases text with
  | cons c text => exact h
  | nil =>
    obtain ⟨blank, more, rfl⟩ := List.exists_cons_of_ne_nil hne
    intro c hc
    obtain rfl : blank = c := by simpa using hc
    obtain ⟨halphanum, hdigit⟩ := not_alphanum_of_isBlank (hblanks blank (List.mem_cons_self ..))
    exact ⟨fun _ => halphanum, fun _ => hdigit⟩

/-- The tokens of two texts with blanks between them are the tokens of both. -/
theorem Tiles.append {tokens' : List Token} (h : Tiles file offset text tokens (.ok final))
    (hne : blanks ≠ []) (hblanks : ∀ c ∈ blanks, isBlank c = true)
    (h' : Tiles file (offset + text.length + blanks.length) text' tokens' last) :
    Tiles file offset (text ++ (blanks ++ text')) (tokens ++ tokens') last := by
  generalize hend : Except.ok final = ending at h
  induction h with
  | finish hmore => exact .blanks_append hmore (.blanks_append hblanks h')
  | stuck => cases hend
  | @token offset more text kind rest tokens ending hmore hmunch hrest ih =>
    obtain ⟨hkind, hstops⟩ := Token.Kind.isLegal_of_munch? hmunch
    obtain ⟨rfl, -⟩ := Token.Kind.munch?_eq_some _ _ _ hmunch
    have hplace : offset + (more ++ (kind.spelling.toList ++ rest)).length =
        offset + more.length + kind.spelling.length + rest.length := by
      simp only [List.length_append, String.length_toList, Nat.add_assoc]
    rw [hplace] at h'
    rw [List.append_assoc, List.append_assoc, List.cons_append]
    exact .token hmore (hkind.munch? (hstops.append_blanks hne hblanks text')) (ih h' hend)

end Texts

theorem Lexer.Stream.head_shift (n : Nat) (tokens : List Token) (last : Except LexicalError Token) :
    head ⟨tokens.map (Token.shift n), shiftLast n last⟩ = shiftLast n (head ⟨tokens, last⟩) := by
  cases tokens <;> rfl

/-- A text that begins with no operator and no opening parenthesis goes on with nothing,
wherever it stands. -/
theorem Lexer.Stream.beginsAnew_shift {lexer : Lexer} (hstream : lexer.stream = ⟨tokens, last⟩)
    (h : ∀ token after, lexer.peek = .ok token after →
      ∀ c ∈ ['(', '+', '-', '*'], token.kind.isSymbol c = false) (n : Nat) :
    BeginsAnew (head ⟨tokens.map (Token.shift n), shiftLast n last⟩) := by
  rw [head_shift, ← hstream, head_stream]
  intro token htoken
  have hpeek := lexer.peek_eq
  cases hnext : lexer.next with
  | error error =>
    rw [hnext] at htoken
    cases htoken
  | ok first =>
    rw [hnext] at htoken hpeek
    obtain rfl := Except.ok.inj htoken
    have hnone : ∀ c ∈ ['(', '+', '-', '*'], first.kind ≠ mark c := by
      intro c hc heq
      have hsymbol := h first _ hpeek c hc
      rw [(Token.Kind.isSymbol_iff c _).mpr heq] at hsymbol
      cases hsymbol
    refine ⟨hnone '(' (by decide), Option.eq_none_iff_forall_ne_some.mpr fun op hop => ?_⟩
    exact hnone op.symbol (by cases op <;> decide) ((Token.Kind.operator?_eq_some_iff _ _).mp hop)

/-- The tokens of a text with another one behind it are those of both, the second ones
further back. -/
theorem Lexer.stream_append {first blanks second : String} {file : Option String}
    {tokens' : List Token} (hne : blanks ≠ "") (hblanks : ∀ c ∈ blanks.toList, isBlank c = true)
    (h : (ofSource first file).stream = ⟨tokens, .ok final⟩)
    (h' : (ofSource second file).stream = ⟨tokens', last⟩) :
    (ofSource (first ++ blanks ++ second) file).stream =
      ⟨tokens ++ tokens'.map (Token.shift (first ++ blanks).utf8ByteSize),
        Stream.shiftLast (first ++ blanks).utf8ByteSize last⟩ := by
  have htiles := tiles_of_stream h
  have hn : (first ++ blanks).utf8ByteSize = first.toList.length + blanks.toList.length := by
    rw [String.utf8ByteSize_append, utf8ByteSize_of_isLegalChar htiles.isLegalChar_of_ok,
      utf8ByteSize_of_isLegalChar (Tiles.isLegalChar_of_blanks hblanks)]
  have hmoved := (tiles_of_stream h').shift (first ++ blanks).utf8ByteSize
  rw [hn, ← Nat.add_assoc] at hmoved
  have hboth := htiles.append (by simpa using hne) hblanks hmoved
  rw [← List.append_assoc, ← String.toList_append, ← String.toList_append] at hboth
  rw [hn]
  exact hboth.stream_eq

/-- Two texts with blanks between them give what they give apart, the second one further
back, if the first one reports nothing about its end and the second one begins with no
operator and no opening parenthesis. -/
theorem parse_append (first blanks second : String) (file : Option String) (nodes : List Node)
    (hsize : (first ++ blanks ++ second).utf8ByteSize < UInt32.size) (hne : blanks ≠ "")
    (hblanks : ∀ c ∈ blanks.toList, isBlank c = true)
    (hparse : (parse first file).outcome = .ok nodes)
    (hquiet : ∀ diagnostic ∈ (parse first file).parser.diagnostics,
      diagnostic.position.offset.toNat ≠ first.utf8ByteSize)
    (hanew : ∀ token after, (Lexer.ofSource second file).peek = .ok token after →
      ∀ c ∈ ['(', '+', '-', '*'], token.kind.isSymbol c = false) :
    (parse (first ++ blanks ++ second) file).outcome =
        ((parse second file).outcome.map fun behind =>
          nodes ++ behind.map (Node.shift (first ++ blanks).utf8ByteSize)).mapError
            (LexicalError.shift (first ++ blanks).utf8ByteSize) ∧
      (parse (first ++ blanks ++ second) file).parser.diagnostics =
        (parse first file).parser.diagnostics ++
          (parse second file).parser.diagnostics.map
            (Diagnostic.shift (first ++ blanks).utf8ByteSize) := by
  cases hstream : (Lexer.ofSource first file).stream with
  | mk tokens last =>
    obtain ⟨nodes₁, hread, houtcome⟩ := parse_readsAll hstream
    rw [hparse] at houtcome
    cases last with
    | error error => cases houtcome
    | ok final =>
      obtain rfl := Except.ok.inj houtcome
      cases hstream' : (Lexer.ofSource second file).stream with
      | mk tokens' last' =>
        have htiles := Lexer.tiles_of_stream hstream
        have htiles' := Lexer.tiles_of_stream hstream'
        obtain ⟨nodes₂, hread', houtcome'⟩ := parse_readsAll hstream'
        have hboth := Lexer.stream_append hne hblanks hstream hstream'
        have hplain := Stream.beginsAnew_shift hstream' hanew (first ++ blanks).utf8ByteSize
        generalize (first ++ blanks).utf8ByteSize = n at hboth hplain ⊢
        have hmoved := hread'.shift htiles'.alike_self.1 htiles'.alike_self.2 n
        have hend : final.span.start.offset.toNat = first.utf8ByteSize := by
          have hbytes := utf8ByteSize_of_isLegalChar htiles.isLegalChar_of_ok
          simp only [String.utf8ByteSize_append] at hsize
          rw [htiles.final_eq, hbytes, Nat.zero_add]
          exact Token.start_placed _ _ _ (by omega)
        have hquiet' : ∀ diagnostic ∈ (parse first file).parser.diagnostics.toList,
            diagnostic.position ≠ final.span.start := fun diagnostic hmem heq =>
          hquiet diagnostic (Array.mem_toList_iff.mp hmem) (by rw [heq, hend])
        obtain ⟨both, hall, hnodes⟩ := hread.append hquiet' hmoved hplain
        obtain ⟨hresult, hlist⟩ := parse_of_readsAll hboth hall
        constructor
        · rw [hresult, houtcome']
          cases last' with
          | error error => rfl
          | ok final' =>
            rw [hnodes _ rfl]
            rfl
        · rw [← Array.toList_inj, hlist, Array.toList_append, Array.toList_map]

/-- The case of a name in front of a stray parenthesis. -/
theorem parse_append_of_name : ∃ nodes,
    (") f" ++ "\n" ++ ") g").utf8ByteSize < UInt32.size ∧ "\n" ≠ "" ∧
    (∀ c ∈ "\n".toList, isBlank c = true) ∧ (parse ") f" none).outcome = .ok nodes ∧
    (∀ diagnostic ∈ (parse ") f" none).parser.diagnostics,
      diagnostic.position.offset.toNat ≠ ") f".utf8ByteSize) ∧
    (∀ token after, (Lexer.ofSource ") g" none).peek = .ok token after →
      ∀ c ∈ ['(', '+', '-', '*'], token.kind.isSymbol c = false) ∧
    (parse ") f\n) g" none).outcome = ((parse ") g" none).outcome.map fun behind =>
      nodes ++ behind.map (Node.shift 4)).mapError (LexicalError.shift 4) ∧
    (parse ") f\n) g" none).parser.diagnostics = (parse ") f" none).parser.diagnostics ++
      (parse ") g" none).parser.diagnostics.map (Diagnostic.shift 4) := by
  have hsize : (") f" ++ "\n" ++ ") g").utf8ByteSize < UInt32.size := by decide +kernel
  have hne : "\n" ≠ "" := by decide +kernel
  have hblanks : ∀ c ∈ "\n".toList, isBlank c = true := List.all_eq_true.mp (by decide)
  have hok : (parse ") f" none).outcome.isOk = true := by decide +kernel
  have hquiet : ∀ diagnostic ∈ (parse ") f" none).parser.diagnostics,
      diagnostic.position.offset.toNat ≠ ") f".utf8ByteSize := by decide +kernel
  have hanew : ∀ token after, (Lexer.ofSource ") g" none).peek = .ok token after →
      ∀ c ∈ ['(', '+', '-', '*'], token.kind.isSymbol c = false := by
    intro token after hpeek
    have hkind : token.kind = .symbol ")" := congrArg Token.kind (EStateM.Result.ok.inj hpeek).1.symm
    simp [hkind, Token.Kind.isSymbol]
  have htext : ") f" ++ "\n" ++ ") g" = ") f\n) g" := by decide +kernel
  have hbytes : (") f" ++ "\n").utf8ByteSize = 4 := by decide +kernel
  cases hparse : (parse ") f" none).outcome with
  | error error =>
    rw [hparse] at hok
    cases hok
  | ok nodes =>
    obtain ⟨houtcome, hdiagnostics⟩ :=
      parse_append ") f" "\n" ") g" none nodes hsize hne hblanks hparse hquiet hanew
    rw [htext, hbytes] at houtcome hdiagnostics
    exact ⟨nodes, hsize, hne, hblanks, rfl, hquiet, hanew, houtcome, hdiagnostics⟩

end ExprLang
