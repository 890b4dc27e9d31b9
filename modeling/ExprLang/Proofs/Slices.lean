import ExprLang.Proofs.Resumption
import ExprLang.Proofs.Spans

/-!
The text at the span of a node. It is divided into the tokens at the span, so reading it by
itself reads these tokens. They spell the node if and only if their parentheses match; where
the node begins or ends with an operand in parentheses its span leaves some of them out, and
then the text at the span is not a source for the node.
-/
namespace ExprLang

open Lexer (Stream)
open Token.Kind (mark)

/-- Reading the text by itself gives just the node, moved to the start of its source, and no
diagnostic. -/
def IsReadAlone (text : String) (file : Option String) (node : Node) : Prop :=
  ∃ node', (parse text file).outcome = .ok [node'] ∧
    (parse text file).parser.diagnostics = #[] ∧
    node'.shift node.span.start.offset.toNat = node

section Texts

variable {file : String} {offset : Nat} {text : List Char} {tokens taken rest : List Token}
  {last : Except LexicalError Token} {token : Token}

/-- No token but a parenthesis is written with one. -/
theorem ne_parenthesis_of_isLegal {kind : Token.Kind} (h : kind.IsLegal) (hopen : kind ≠ mark '(')
    (hclose : kind ≠ mark ')') : ∀ c ∈ kind.spelling.toList, c ≠ '(' ∧ c ≠ ')' := by
  have halphanum : ∀ c : Char, c.isAlphanum = true → c ≠ '(' ∧ c ≠ ')' := by
    intro c hc
    constructor <;> rintro rfl <;> exact absurd hc (by decide)
  cases h with
  | define | declare => simp [Token.Kind.spelling]
  | @identifier name hname =>
    obtain ⟨first, cs, hcs, hfirst, hall⟩ := hname.begins
    show ∀ c ∈ name.toList, _
    rw [hcs]
    exact List.forall_mem_cons.mpr ⟨halphanum _ (by simp [Char.isAlphanum, hfirst]),
      fun c hc => halphanum c (hall c hc)⟩
  | number hne hdigits =>
    exact fun c hc => halphanum c (by simp [Char.isAlphanum, hdigits c hc])
  | @mark c hc =>
    rw [ne_eq, Token.Kind.mark_inj] at hopen hclose
    simpa [Token.Kind.mark, Token.Kind.spelling] using ⟨hopen, hclose⟩

theorem depthAfter_spelling (token : Token) (h : token.kind.IsLegal) (depth : Nat) :
    depthAfter depth token.kind.spelling.toList = depthAfter depth (parentheses [token]) := by
  by_cases hopen : token.kind = mark '('
  · rw [parentheses_open hopen, hopen]
    rfl
  · by_cases hclose : token.kind = mark ')'
    · rw [parentheses_close hclose, hclose]
      rfl
    · rw [parentheses_other hopen hclose]
      exact depthAfter_of_plain (ne_parenthesis_of_isLegal h hopen hclose)

theorem depthAfter_of_blanks {blanks : List Char} (hblanks : ∀ c ∈ blanks, isBlank c = true)
    (depth : Nat) : depthAfter depth blanks = some depth := by
  apply depthAfter_of_plain
  intro c hc
  constructor <;> rintro rfl <;> exact absurd (hblanks _ hc) (by decide)

/-- The parentheses in a text are those of its tokens. -/
theorem Tiles.depthAfter_eq {final : Token} (h : Tiles file offset text tokens (.ok final))
    (depth : Nat) : depthAfter depth text = depthAfter depth (parentheses tokens) := by
  generalize hlast : Except.ok final = last at h
  induction h generalizing depth with
  | finish hblanks => exact depthAfter_of_blanks hblanks depth
  | stuck => cases hlast
  | @token offset blanks text kind rest tokens last hblanks hmunch hrest ih =>
    obtain ⟨hkind, -⟩ := Token.Kind.isLegal_of_munch? hmunch
    obtain ⟨rfl, -⟩ := Token.Kind.munch?_eq_some _ _ _ hmunch
    have hspelling : depthAfter depth kind.spelling.toList =
        depthAfter depth (parentheses [.placed file (offset + blanks.length) kind]) :=
      depthAfter_spelling (.placed file (offset + blanks.length) kind) hkind depth
    rw [← List.singleton_append, parentheses_append, depthAfter_append depth (parentheses _),
      ← hspelling, depthAfter_append, depthAfter_of_blanks hblanks depth, Option.bind_some,
      depthAfter_append]
    exact Option.bind_congr fun depth _ => ih depth hlast

/-- Tokens in the middle of a text divide the text from the start of the first of them to
the end of the last. -/
theorem Tiles.exists_slice {core behind : List Token} {span : Span}
    (h : Tiles file offset text (taken ++ (core ++ behind)) last) (hspan : span.GoesOver core) :
    ∃ front slice rest, text = front ++ (slice ++ rest) ∧
      Tiles file (offset + front.length) slice core
        (.ok (.placed file (offset + front.length + slice.length) .endOfInput)) ∧
      span.start = ⟨(offset + front.length).toUInt32, file⟩ ∧
      span.stop = ⟨(offset + front.length + slice.length).toUInt32, file⟩ := by
  obtain ⟨token, hhead, hstart⟩ := hspan.starts
  obtain ⟨closer, hlast, hstop⟩ := hspan.stops
  obtain ⟨before, text', rfl, -, htiles, -, -⟩ := h.exists_front
  cases core with
  | nil => cases hhead
  | cons first core =>
    obtain rfl : first = token := by simpa using hhead
    rw [List.cons_append] at htiles
    cases htiles with
    | @token _ blanks text' kind rest' _ _ hblanks hmunch hrest =>
      have hlength : offset + before.length + blanks.length =
          offset + (before ++ blanks).length := by
        rw [List.length_append, Nat.add_assoc]
      rw [hlength] at hrest hstart hlast ⊢
      -- Without the blanks in front of it the division starts at the first token.
      have hplain : Tiles file (offset + (before ++ blanks).length) ([] ++ text')
          (.placed file (offset + (before ++ blanks).length) kind :: (core ++ behind)) last :=
        .token (by simp) hmunch hrest
      rw [List.nil_append, ← List.cons_append] at hplain
      obtain ⟨slice, rest, rfl, hslice, -, -, hend⟩ := hplain.exists_front
      refine ⟨before ++ blanks, slice, rest, by simp, hslice, hstart.symm, ?_⟩
      rw [← hstop, hend closer hlast]

end Texts

/-- The text at a span that goes over tokens of a source, and its own tokens. -/
theorem Lexer.exists_slice {source : String} {file : Option String} {tokens core : List Token}
    {final : Token} {span : Span} (hsize : source.utf8ByteSize < UInt32.size)
    (hstream : (ofSource source file).stream = ⟨tokens, .ok final⟩) (hcore : core <:+: tokens)
    (hspan : span.GoesOver core) :
    ∃ front slice behind : String, source = front ++ slice ++ behind ∧
      front.utf8ByteSize = span.start.offset.toNat ∧
      (front ++ slice).utf8ByteSize = span.stop.offset.toNat ∧
      (IsBalanced slice.toList ↔ IsBalanced (parentheses core)) ∧
      ∃ tokens' final', (ofSource slice file).stream = ⟨tokens', .ok final'⟩ ∧
        core = tokens'.map (Token.shift span.start.offset.toNat) := by
  obtain ⟨taken, rest, rfl⟩ := hcore
  have htiles := tiles_of_stream hstream
  have hlegal := htiles.isLegalChar_of_ok
  rw [List.append_assoc] at htiles
  obtain ⟨front, slice, behind, htext, hslice, hstart, hstop⟩ := htiles.exists_slice hspan
  rw [htext] at hlegal
  simp only [List.forall_mem_append] at hlegal
  obtain ⟨hfront, hinner, -⟩ := hlegal
  obtain ⟨front', rest', rfl, -, hrest, hfrontSize⟩ := exists_front_of_toList htext hfront
  obtain ⟨slice', behind', rfl, hsliceText, -, hsliceSize⟩ := exists_front_of_toList hrest hinner
  subst hsliceText
  rw [Nat.zero_add] at hslice hstart hstop
  simp only [String.utf8ByteSize_append] at hsize
  have hplace : span.start.offset.toNat = front.length := by
    rw [hstart]
    exact UInt32.toNat_ofNat_of_lt' (by omega)
  have hend : span.stop.offset.toNat = front.length + slice'.toList.length := by
    rw [hstop]
    exact UInt32.toNat_ofNat_of_lt' (by omega)
  -- The tokens of the text at the span divide it, and so do its own tokens moved to its place.
  have hfresh := (tiles_ofSource slice' file).shift front.length
  rw [Nat.zero_add] at hfresh
  obtain ⟨htokens, hlast⟩ := hslice.unique hfresh
  refine ⟨front', slice', behind', (String.append_assoc ..).symm, by rw [hplace, hfrontSize], ?_,
    ?_, ?_⟩
  · rw [hend, String.utf8ByteSize_append, hfrontSize, hsliceSize]
  · rw [IsBalanced, IsBalanced, hslice.depthAfter_eq]
  · cases hstream' : (ofSource slice' file).stream with
    | mk tokens' last' =>
      rw [hstream'] at htokens hlast
      cases last' with
      | error error => cases hlast
      | ok final' => exact ⟨tokens', final', rfl, by rw [hplace, htokens]⟩

/-- What is read as one node without a diagnostic is spelled by all tokens. -/
theorem ReadsAll.spelled_alone {final : Token} {tokens : List Token} {node : Node}
    (h : ReadsAll (.ok final) tokens [node] []) : SpellsTop node tokens := by
  cases h with
  | @construct _ _ rest _ _ hread hrest =>
    obtain ⟨taken, rfl, hspells⟩ := hread.spelled
    have hnil : rest = [] := by
      cases hrest with
      | done => rfl
      | stuck hfail => cases Stream.last_of_head_error hfail.isAt
    rwa [hnil, List.append_nil]

/-- A text is read as a node alone if and only if its tokens, moved to the place of the
node, spell the node. -/
theorem isReadAlone_iff {text : String} {file : Option String} {tokens : List Token}
    {final : Token} (hstream : (Lexer.ofSource text file).stream = ⟨tokens, .ok final⟩)
    (node : Node) : IsReadAlone text file node ↔
      SpellsTop node (tokens.map (Token.shift node.span.start.offset.toNat)) := by
  have hfinal := (Lexer.stream_kinds _ _ _ hstream).2 final rfl
  have htiles := Lexer.tiles_of_stream hstream
  obtain ⟨nodes, hall, houtcome⟩ := parse_readsAll hstream
  have hmoved := hall.shift htiles.alike_self.1 htiles.alike_self.2 node.span.start.offset.toNat
  constructor
  · rintro ⟨node', hnode', hsilent, hshift⟩
    obtain rfl := Except.ok.inj (houtcome.symm.trans hnode')
    rw [hsilent, List.map_singleton, hshift] at hmoved
    exact hmoved.spelled_alone
  · intro hspells
    have hkind : (final.shift node.span.start.offset.toNat).kind = .endOfInput := hfinal
    have hend : Stream.head ⟨[], Stream.shiftLast node.span.start.offset.toNat (.ok final)⟩ =
      .ok (final.shift node.span.start.offset.toNat) := rfl
    have hread := hspells.reads hend (by simp [hkind, mark]) (by simp [hkind, Token.Kind.operator?])
    rw [List.append_nil] at hread
    obtain ⟨hnodes, hdiagnostics⟩ := (ReadsAll.construct hread .done).unique hmoved
    obtain ⟨node', rfl, hnode'⟩ := List.map_eq_singleton_iff.mp hnodes
    refine ⟨node', houtcome, ?_, hnode'⟩
    rw [← Array.toList_inj, List.map_eq_nil_iff.mp hdiagnostics]

/-- The text at the span of a node, or of an expression inside of one, is a source for just
this node if and only if its parentheses match. -/
theorem parse_slice_iff (source : String) (file : Option String) (nodes : List Node)
    (node part : Node) (hsize : source.utf8ByteSize < UInt32.size)
    (hparse : (parse source file).outcome = .ok nodes) (hnode : node ∈ nodes)
    (hpart : part.PartOf node) :
    ∃ front slice behind : String, source = front ++ slice ++ behind ∧
      front.utf8ByteSize = part.span.start.offset.toNat ∧
      (front ++ slice).utf8ByteSize = part.span.stop.offset.toNat ∧
      (IsReadAlone slice file part ↔ IsBalanced slice.toList) := by
  obtain ⟨tokens, final, pieces, hstream, hspelled, -, hpieces⟩ := parse_spelled hparse
  obtain ⟨piece, hpiece, hspells⟩ := exists_mem_of_forall₂ hspelled hnode
  obtain ⟨own, hown, hpartSpells⟩ := hpart.exists_spellsTop hspells
  obtain ⟨opens, core, closes, rfl, hextent, hcore⟩ := hpartSpells.exists_extent
  have hinner : core <:+: tokens :=
    ((List.infix_append' _ _ _).trans hown).trans (hpieces piece hpiece)
  obtain ⟨front, slice, behind, hsource, hstart, hstop, hbalanced, tokens', final', hslice,
    hmoved⟩ := Lexer.exists_slice hsize hstream hinner hextent.goesOver
  refine ⟨front, slice, behind, hsource, hstart, hstop, ?_⟩
  rw [isReadAlone_iff hslice, ← hmoved, hbalanced]
  exact ⟨SpellsTop.isBalanced, hcore⟩

/-- The case of a sum with its left operand in parentheses. -/
theorem parse_slice_iff_of_sum : "(1)+2".utf8ByteSize < UInt32.size ∧
    ∃ node, (parse "(1)+2" none).outcome = .ok [node] ∧ node.PartOf node ∧
      ∃ front slice behind : String, "(1)+2" = front ++ slice ++ behind ∧
        front.utf8ByteSize = node.span.start.offset.toNat ∧
        (front ++ slice).utf8ByteSize = node.span.stop.offset.toNat ∧
        (IsReadAlone slice none node ↔ IsBalanced slice.toList) := by
  have hsize : "(1)+2".utf8ByteSize < UInt32.size := by decide +kernel
  have hlength : (parse "(1)+2" none).outcome.map List.length = .ok 1 := by decide +kernel
  cases hparse : (parse "(1)+2" none).outcome with
  | error error =>
    rw [hparse] at hlength
    cases hlength
  | ok nodes =>
    rw [hparse] at hlength
    obtain ⟨node, rfl⟩ := List.length_eq_one_iff.mp (Except.ok.inj hlength)
    exact ⟨hsize, node, rfl, .refl node, parse_slice_iff "(1)+2" none [node] node node hsize hparse
      (List.mem_singleton_self node) (.refl node)⟩

/-- Not every node is read back from the text at its span: the one of this sum starts behind
the parenthesis in front of its left operand, which is then closed but not opened. -/
theorem not_isReadAlone_of_sum : ¬ ∀ (source : String) (file : Option String)
    (nodes : List Node) (node part : Node), source.utf8ByteSize < UInt32.size →
    (parse source file).outcome = .ok nodes → node ∈ nodes → part.PartOf node →
    ∀ front slice behind : String, source = front ++ slice ++ behind →
      front.utf8ByteSize = part.span.start.offset.toNat →
      (front ++ slice).utf8ByteSize = part.span.stop.offset.toNat →
      IsReadAlone slice file part := by
  intro h
  have hsize : "(1)+2".utf8ByteSize < UInt32.size := by decide +kernel
  have hspans : (parse "(1)+2" none).outcome.map (List.map Node.span) =
      .ok [⟨⟨1, "shell"⟩, ⟨5, "shell"⟩⟩] := by decide +kernel
  have hloud : (parse "1)+2" none).parser.diagnostics ≠ #[] := by
    intro hsilent
    have hcount : (parse "1)+2" none).parser.diagnostics.size = 2 := by decide +kernel
    rw [hsilent] at hcount
    cases hcount
  cases hparse : (parse "(1)+2" none).outcome with
  | error error =>
    rw [hparse] at hspans
    cases hspans
  | ok nodes =>
    rw [hparse] at hspans
    obtain ⟨node, rfl, hspan⟩ := List.map_eq_singleton_iff.mp (Except.ok.inj hspans)
    obtain ⟨-, -, hsilent, -⟩ := h "(1)+2" none [node] node node hsize hparse
      (List.mem_singleton_self node) (.refl node) "(" "1)+2" "" rfl (by rw [hspan]; decide +kernel)
      (by rw [hspan]; decide +kernel)
    exact hloud hsilent

end ExprLang
