import ExprLang.Proofs.Extent

/-!
Where the nodes of a source stand. Tokens stand one behind another, and nodes are made of
consecutive tokens, so the parts of a node stand one behind another inside of it, and so do
the nodes of a source. Two spans are joined only where the first one ends in front of the
second one, and there joining them gives the smallest span that covers both.
-/
namespace ExprLang

open Token.Kind (mark)

def Span.Before (first second : Span) : Prop := first.stop.offset ≤ second.start.offset

structure Span.Covers (outer inner : Span) : Prop where
  file_start : inner.start.file = outer.start.file
  file_stop : inner.stop.file = outer.stop.file
  start_le : outer.start.offset ≤ inner.start.offset
  stop_le : inner.stop.offset ≤ outer.stop.offset

/-- The smallest span that covers both of two spans. -/
structure Span.IsHull (hull first second : Span) : Prop where
  covers_first : hull.Covers first
  covers_second : hull.Covers second
  least : ∀ other : Span, other.Covers first → other.Covers second → other.Covers hull

structure InOrder (file : String) (size : Nat) (tokens : List Token) : Prop where
  file_start : ∀ token ∈ tokens, token.span.start.file = file
  file_stop : ∀ token ∈ tokens, token.span.stop.file = file
  nonempty : ∀ token ∈ tokens, token.span.start.offset < token.span.stop.offset
  stop_le : ∀ token ∈ tokens, token.span.stop.offset.toNat ≤ size
  pairwise : tokens.Pairwise fun first second => first.span.Before second.span

structure Span.IsPlaced (file : String) (size : Nat) (tokens : List Token) (span : Span) :
    Prop where
  file_start : span.start.file = file
  file_stop : span.stop.file = file
  nonempty : span.start.offset < span.stop.offset
  stop_le : span.stop.offset.toNat ≤ size
  starts : ∃ token ∈ tokens, token.span.start = span.start
  stops : ∃ token ∈ tokens, token.span.stop = span.stop

structure Prototype.GoesOver (proto : Prototype) (name closer : Token) (tokens : List Token) :
    Prop where
  exists_params : ∃ opener params, tokens = name :: opener :: (params ++ [closer]) ∧
    opener.kind = mark '(' ∧ params.map Token.kind = proto.params.map .identifier
  name_kind : name.kind = .identifier proto.name
  closer_kind : closer.kind = mark ')'

/-- How the span of a node goes with those of the parts and the tokens it is made of. -/
inductive Node.LaidOut (tokens : List Token) : Node → Prop
  | number {token digits value} (htoken : token ∈ tokens) (hkind : token.kind = .number digits)
      (hvalue : Binary64.ofDigits? digits = some value) :
      LaidOut tokens (.number value token.span)
  | var {token name} (htoken : token ∈ tokens) (hkind : token.kind = .identifier name) :
      LaidOut tokens (.var name token.span)
  | binary {op lhs rhs} (hbefore : lhs.span.stop.offset < rhs.span.start.offset)
      (hhull : (lhs.span.through rhs.span).IsHull lhs.span rhs.span) :
      LaidOut tokens (.binary op lhs rhs (lhs.span.through rhs.span))
  | call {token opener inner closer callee args}
      (htokens : token :: opener :: (inner ++ [closer]) <:+: tokens)
      (hkind : token.kind = .identifier callee) (hopen : opener.kind = mark '(')
      (hclose : closer.kind = mark ')')
      (hinside : ∀ arg ∈ args, token.span.stop.offset < arg.span.start.offset ∧
        arg.span.Before closer.span)
      (hargs : args.Pairwise fun first second => first.span.stop.offset < second.span.start.offset)
      (hhull : (token.span.through closer.span).IsHull token.span closer.span) :
      LaidOut tokens (.call callee args (token.span.through closer.span))
  | declaration {keyword name closer taken proto} (htokens : keyword :: taken <:+: tokens)
      (hkind : keyword.kind = .declare) (hproto : proto.GoesOver name closer taken)
      (hspan : proto.span = keyword.span.through (name.span.through closer.span))
      (hinner : (name.span.through closer.span).IsHull name.span closer.span)
      (hhull : proto.span.IsHull keyword.span (name.span.through closer.span)) :
      LaidOut tokens (.prototype proto)
  | definition {keyword name closer taken proto body} (htokens : keyword :: taken <:+: tokens)
      (hkind : keyword.kind = .define) (hproto : proto.GoesOver name closer taken)
      (hspan : proto.span = name.span.through closer.span)
      (hinner : proto.span.IsHull name.span closer.span)
      (hfront : keyword.span.Before proto.span) (hbehind : proto.span.Before body.span)
      (hcovers : (keyword.span.through body.span).Covers proto.span)
      (hhull : (keyword.span.through body.span).IsHull keyword.span body.span) :
      LaidOut tokens (.function proto body (keyword.span.through body.span))

def Node.spans : Node → List Span
  | function proto _ span => [span, proto.span]
  | node => [node.span]

variable {file : String} {size : Nat} {tokens taken left right : List Token}
  {first second span : Span} {token : Token}

namespace InOrder

theorem sublist (h : InOrder file size tokens) (htaken : taken.Sublist tokens) :
    InOrder file size taken where
  file_start token htoken := h.file_start token (htaken.subset htoken)
  file_stop token htoken := h.file_stop token (htaken.subset htoken)
  nonempty token htoken := h.nonempty token (htaken.subset htoken)
  stop_le token htoken := h.stop_le token (htaken.subset htoken)
  pairwise := h.pairwise.sublist htaken

theorem of_append_left (h : InOrder file size (left ++ right)) : InOrder file size left :=
  h.sublist (List.sublist_append_left _ _)

theorem of_append_right (h : InOrder file size (left ++ right)) : InOrder file size right :=
  h.sublist (List.sublist_append_right _ _)

/-- Among some of the tokens a token has a place. -/
theorem isPlaced (h : InOrder file size tokens) (htoken : token ∈ tokens) :
    token.span.IsPlaced file size tokens where
  file_start := h.file_start token htoken
  file_stop := h.file_stop token htoken
  nonempty := h.nonempty token htoken
  stop_le := h.stop_le token htoken
  starts := ⟨token, htoken, rfl⟩
  stops := ⟨token, htoken, rfl⟩

/-- The tokens of a text stand one behind another. -/
theorem of_tiles {offset : Nat} {text : List Char} {last : Except LexicalError Token}
    (h : Tiles file offset text tokens last) (hsize : offset + text.length < UInt32.size) :
    InOrder file (offset + text.length) tokens ∧
      ∀ token ∈ tokens, offset ≤ token.span.start.offset.toNat := by
  induction h with
  | finish | stuck => exact ⟨⟨by simp, by simp, by simp, by simp, .nil⟩, by simp⟩
  | @token offset blanks text kind rest tokens last hblanks hmunch hrest ih =>
    obtain ⟨rfl, hne⟩ := Token.Kind.munch?_eq_some _ _ _ hmunch
    have hpositive := List.length_pos_iff.mpr hne
    simp only [List.length_append, String.length_toList] at hsize hpositive ⊢
    obtain ⟨horder, hbounds⟩ := ih (by omega)
    have hstart := Token.start_placed file (offset + blanks.length) kind (by omega)
    have hstop : (Token.placed file (offset + blanks.length) kind).span.stop.offset.toNat =
        offset + blanks.length + kind.spelling.length :=
      UInt32.toNat_ofNat_of_lt' (by omega)
    have hend : offset + (blanks.length + (kind.spelling.length + rest.length)) =
        offset + blanks.length + kind.spelling.length + rest.length := by
      omega
    rw [hend]
    refine ⟨⟨List.forall_mem_cons.mpr ⟨rfl, horder.file_start⟩,
      List.forall_mem_cons.mpr ⟨rfl, horder.file_stop⟩,
      List.forall_mem_cons.mpr ⟨?_, horder.nonempty⟩,
      List.forall_mem_cons.mpr ⟨?_, horder.stop_le⟩,
      List.pairwise_cons.mpr ⟨fun token htoken => ?_, horder.pairwise⟩⟩,
      List.forall_mem_cons.mpr ⟨?_, fun token htoken => ?_⟩⟩
    · rw [UInt32.lt_iff_toNat_lt, hstart, hstop]
      omega
    · omega
    · have hbound := hbounds token htoken
      rw [Span.Before, UInt32.le_iff_toNat_le]
      omega
    · omega
    · have hbound := hbounds token htoken
      omega

end InOrder

namespace Span.IsPlaced

theorem mono (h : span.IsPlaced file size taken) (htaken : taken ⊆ tokens) :
    span.IsPlaced file size tokens where
  file_start := h.file_start
  file_stop := h.file_stop
  nonempty := h.nonempty
  stop_le := h.stop_le
  starts := h.starts.imp fun _ h => ⟨htaken h.1, h.2⟩
  stops := h.stops.imp fun _ h => ⟨htaken h.1, h.2⟩

/-- What goes over tokens one behind another has a place among them. -/
theorem of_goesOver (h : InOrder file size tokens) (hspan : span.GoesOver tokens) :
    span.IsPlaced file size tokens := by
  obtain ⟨token, hhead, hstart⟩ := hspan.starts
  obtain ⟨closer, hlast, hstop⟩ := hspan.stops
  have htoken := List.mem_of_mem_head? hhead
  have hcloser := List.mem_of_mem_getLast? hlast
  refine ⟨?_, ?_, ?_, ?_, ⟨token, htoken, hstart⟩, ⟨closer, hcloser, hstop⟩⟩
  · rw [← hstart, h.file_start token htoken]
  · rw [← hstop, h.file_stop closer hcloser]
  · rw [← hstart, ← hstop]
    cases tokens with
    | nil => cases htoken
    | cons first rest =>
      obtain rfl : first = token := by simpa using hhead
      rcases List.mem_cons.mp hcloser with rfl | hmem
      · exact h.nonempty _ htoken
      · have hbefore := (List.pairwise_cons.mp h.pairwise).1 closer hmem
        exact UInt32.lt_trans (UInt32.lt_of_lt_of_le (h.nonempty _ htoken) hbefore)
          (h.nonempty closer hcloser)
  · rw [← hstop]
    exact h.stop_le closer hcloser

/-- Places among tokens one behind another stand one behind another. -/
theorem before (h : first.IsPlaced file size left) (h' : second.IsPlaced file size right)
    (horder : InOrder file size (left ++ right)) : first.Before second := by
  obtain ⟨token, htoken, hstop⟩ := h.stops
  obtain ⟨token', htoken', hstart⟩ := h'.starts
  have hbefore := (List.pairwise_append.mp horder.pairwise).2.2 token htoken token' htoken'
  rwa [Span.Before, hstop, hstart] at hbefore

/-- Places with a token between them do not touch. -/
theorem stop_lt (h : first.IsPlaced file size left) (h' : second.IsPlaced file size right)
    (horder : InOrder file size (left ++ token :: right)) :
    first.stop.offset < second.start.offset := by
  have hbehind := horder.of_append_right
  have htoken := hbehind.isPlaced (List.mem_cons_self ..)
  have hmiddle := (horder.of_append_right.isPlaced (List.mem_cons_self ..)).nonempty
  have hsingle : token.span.IsPlaced file size [token] :=
    (hbehind.sublist (by simp : [token].Sublist (token :: right))).isPlaced (by simp)
  exact UInt32.lt_of_lt_of_le (UInt32.lt_of_le_of_lt (h.before htoken horder) hmiddle)
    (hsingle.before h' hbehind)

/-- Joining a span to one behind it gives the smallest span that covers both. -/
theorem isHull_through (h : first.IsPlaced file size left) (h' : second.IsPlaced file size right)
    (hbefore : first.Before second) : (first.through second).IsHull first second where
  covers_first := ⟨rfl, h.file_stop.trans h'.file_stop.symm, UInt32.le_refl _,
    UInt32.le_of_lt (UInt32.lt_of_le_of_lt hbefore h'.nonempty)⟩
  covers_second := ⟨h'.file_start.trans h.file_start.symm, rfl,
    UInt32.le_of_lt (UInt32.lt_of_lt_of_le h.nonempty hbefore), UInt32.le_refl _⟩
  least _ hfirst hsecond :=
    ⟨hfirst.file_start, hsecond.file_stop, hfirst.start_le, hsecond.stop_le⟩

/-- What stands between two spans lies in what joining these gives. -/
theorem covers_between {middle : Span} (h : middle.IsPlaced file size tokens)
    (hfirst : first.IsPlaced file size left) (hsecond : second.IsPlaced file size right)
    (hbefore : first.Before middle) (hbehind : middle.Before second) :
    (first.through second).Covers middle where
  file_start := h.file_start.trans hfirst.file_start.symm
  file_stop := h.file_stop.trans hsecond.file_stop.symm
  start_le := UInt32.le_of_lt (UInt32.lt_of_lt_of_le hfirst.nonempty hbefore)
  stop_le := UInt32.le_of_lt (UInt32.lt_of_le_of_lt hbehind hsecond.nonempty)

end Span.IsPlaced

section Nodes

variable {node : Node}

/-- A node has a place among its tokens. -/
theorem SpellsTop.isPlaced (h : SpellsTop node taken) (horder : InOrder file size taken) :
    node.span.IsPlaced file size taken := by
  obtain ⟨opens, core, closes, rfl, hextent, -⟩ := h.exists_extent
  have hcore := Span.IsPlaced.of_goesOver horder.of_append_right.of_append_left hextent.goesOver
  exact hcore.mono (List.infix_append' _ _ _).subset

theorem SpellsTop.isPlaced_of_infix (h : SpellsTop node taken) (htaken : taken <:+: tokens)
    (horder : InOrder file size tokens) : node.span.IsPlaced file size tokens :=
  (h.isPlaced (horder.sublist htaken.sublist)).mono htaken.subset

theorem Spells.isPlaced (h : Spells (.sum node) taken) (horder : InOrder file size taken) :
    node.span.IsPlaced file size taken :=
  SpellsTop.isPlaced (.expression h) horder

/-- An argument has a place among the tokens of all arguments. -/
theorem Spells.argument_isPlaced {args : List Node} {arg : Node}
    (h : Spells (.arguments args) taken) (harg : arg ∈ args) (horder : InOrder file size taken) :
    arg.span.IsPlaced file size taken := by
  obtain ⟨piece, hpiece, hspells⟩ := h.exists_argument rfl harg
  exact SpellsTop.isPlaced_of_infix (.expression hspells) hpiece horder

/-- Arguments do not touch each other. -/
theorem Spells.arguments_pairwise {form : Form} {args : List Node} (h : Spells form taken)
    (hform : form = .arguments args) (horder : InOrder file size taken) :
    args.Pairwise fun first second => first.span.stop.offset < second.span.start.offset := by
  induction h generalizing args with
  | noArguments =>
    obtain rfl := Form.arguments.inj hform
    exact .nil
  | lastArgument =>
    obtain rfl := Form.arguments.inj hform
    exact List.pairwise_singleton _ _
  | argument harg hcomma hargs _ ih =>
    obtain rfl := Form.arguments.inj hform
    have hbehind := horder.of_append_right.sublist (List.sublist_cons_self ..)
    apply List.pairwise_cons.mpr
    refine ⟨?_, ih rfl hbehind⟩
    intro other hother
    have hplace := hargs.argument_isPlaced hother hbehind
    exact (harg.isPlaced horder.of_append_left).stop_lt hplace horder
  | _ => cases hform

/-- From the first one of some tokens to the last one. -/
theorem InOrder.isHull_ends {closer : Token} {inner : List Token}
    (h : InOrder file size (token :: (inner ++ [closer]))) :
    (token.span.through closer.span).IsHull token.span closer.span := by
  have htoken := (h.sublist (by simp : [token].Sublist (token :: (inner ++ [closer])))).isPlaced
    (List.mem_singleton_self token)
  have hcloser := (h.sublist (List.sublist_cons_self ..)).isPlaced
    (List.mem_append_right inner (List.mem_singleton_self closer))
  exact htoken.isHull_through hcloser (htoken.before hcloser h)

theorem Composes.spans_eq (h : Composes node taken) : node.spans = [node.span] := by
  cases h <;> rfl

/-- An expression goes with its parts. -/
theorem Composes.laidOut (h : Composes node taken) (htaken : taken <:+: tokens)
    (horder : InOrder file size tokens) : node.LaidOut tokens := by
  have hown := horder.sublist htaken.sublist
  cases h with
  | number hkind hvalue => exact .number (htaken.subset (List.mem_singleton_self _)) hkind hvalue
  | name hkind => exact .var (htaken.subset (List.mem_singleton_self _)) hkind
  | @call token opener closer inner name args hkind hopen hargs hclose =>
    have hbehind := hown.sublist (List.sublist_cons_self ..)
    have hinner := hbehind.sublist (List.sublist_cons_self ..)
    have hends : InOrder file size (token :: ((opener :: inner) ++ [closer])) := hown
    have hfront : InOrder file size ([token] ++ opener :: inner) :=
      hown.sublist (by simp)
    have hpairs := hargs.arguments_pairwise rfl hinner.of_append_left
    refine .call htaken hkind hopen hclose ?_ hpairs hends.isHull_ends
    intro arg harg
    have hplace := hargs.argument_isPlaced harg hinner.of_append_left
    have htoken := hfront.of_append_left.isPlaced (List.mem_singleton_self token)
    have hcloser := hinner.of_append_right.isPlaced (List.mem_singleton_self closer)
    exact ⟨htoken.stop_lt hplace hfront, hplace.before hcloser hinner⟩
  | binary hlhs hop hrhs =>
    have hleft := hlhs.isPlaced hown.of_append_left
    have hright := hrhs.isPlaced (hown.of_append_right.sublist (List.sublist_cons_self ..))
    have hlt := hleft.stop_lt hright hown
    exact .binary hlt (hleft.isHull_through hright (UInt32.le_of_lt hlt))

/-- The span of a prototype goes from its name to the parenthesis that closes it. -/
theorem ReadsPrototype.exists_goesOver {proto : Prototype} (h : ReadsPrototype taken proto []) :
    ∃ name closer, proto.GoesOver name closer taken ∧
      proto.span = name.span.through closer.span := by
  cases h with
  | @intro token opener closer params _ name names hkind hopen hparams hclose =>
    exact ⟨token, closer, ⟨⟨opener, params, rfl, hopen, hparams⟩, hkind, hclose⟩, rfl⟩

theorem Prototype.GoesOver.isPlaced {proto : Prototype} {name closer : Token}
    (h : proto.GoesOver name closer taken) (horder : InOrder file size taken) :
    (name.span.through closer.span).IsPlaced file size taken ∧
      (name.span.through closer.span).IsHull name.span closer.span := by
  obtain ⟨opener, params, rfl, -, -⟩ := h.exists_params
  rw [← List.cons_append] at horder ⊢
  exact ⟨.of_goesOver horder (.of_ends name closer (opener :: params)), horder.isHull_ends⟩

/-- A construct goes with its parts, and its own spans have places. -/
theorem SpellsTop.laidOut (h : SpellsTop node taken) (htaken : taken <:+: tokens)
    (horder : InOrder file size tokens) :
    node.LaidOut tokens ∧ ∀ span ∈ node.spans, span.IsPlaced file size tokens := by
  have hown := horder.sublist htaken.sublist
  have hplace := h.isPlaced_of_infix htaken horder
  cases h with
  | @definition keyword front proto body behind hkind hproto hbody =>
    obtain ⟨name, closer, hover, hspan⟩ := hproto.exists_goesOver
    have hinner := hown.sublist (List.sublist_cons_self ..)
    obtain ⟨hprotoPlace, hprotoHull⟩ := hover.isPlaced hinner.of_append_left
    rw [← hspan] at hprotoPlace hprotoHull
    have hbodyPlace := hbody.isPlaced hinner.of_append_right
    have hkeyword := (hown.sublist (by simp : [keyword].Sublist _)).isPlaced
      (List.mem_singleton_self keyword)
    have hfront : keyword.span.Before proto.span :=
      hkeyword.before (hprotoPlace.mono (List.subset_append_left front behind)) hown
    have hbehind := hprotoPlace.before hbodyPlace hinner
    have hhull := hkeyword.isHull_through
      (hbodyPlace.mono (List.subset_append_right front behind))
      (hkeyword.before (hbodyPlace.mono (List.subset_append_right front behind)) hown)
    refine ⟨.definition (List.IsInfix.trans ⟨[], behind, by simp⟩ htaken) hkind hover hspan
      hprotoHull hfront hbehind ?_ hhull, ?_⟩
    · exact hprotoPlace.covers_between hkeyword hbodyPlace hfront hbehind
    · have hproto : front ⊆ tokens := fun token htoken =>
        htaken.subset (List.mem_cons_of_mem _ (List.mem_append_left _ htoken))
      simp only [Node.spans, List.forall_mem_cons]
      exact ⟨hplace, hprotoPlace.mono hproto, by simp⟩
  | @declaration keyword taken proto hkind hproto =>
    obtain ⟨name, closer, hover, hspan⟩ := hproto.exists_goesOver
    obtain ⟨hprotoPlace, hprotoHull⟩ := hover.isPlaced (hown.sublist (List.sublist_cons_self ..))
    have hkeyword := (hown.sublist (by simp : [keyword].Sublist _)).isPlaced
      (List.mem_singleton_self keyword)
    refine ⟨.declaration htaken hkind ⟨hover.exists_params, hover.name_kind, hover.closer_kind⟩
      (by rw [hspan]) hprotoHull ?_, by simpa [Node.spans] using hplace⟩
    rw [hspan]
    exact hkeyword.isHull_through hprotoPlace (hkeyword.before hprotoPlace hown)
  | expression hspells =>
    obtain ⟨bare, hbare, hcomposes⟩ := hspells.exists_composes rfl
    refine ⟨hcomposes.laidOut (hbare.trans htaken) horder, ?_⟩
    simpa [hcomposes.spans_eq] using hplace

/-- Nodes stand one behind another if their tokens do. -/
theorem pairwise_before {nodes : List Node} {pieces : List (List Token)}
    (h : List.Forall₂ SpellsTop nodes pieces) (horder : InOrder file size pieces.flatten) :
    nodes.Pairwise fun first second => first.span.Before second.span := by
  induction h with
  | nil => exact .nil
  | @cons node piece nodes pieces hnode hrest ih =>
    rw [List.flatten_cons] at horder
    apply List.pairwise_cons.mpr
    refine ⟨?_, ih horder.of_append_right⟩
    intro other hother
    obtain ⟨piece', hpiece', hspells⟩ := exists_mem_of_forall₂ hrest hother
    have hplace := hspells.isPlaced_of_infix (List.infix_of_mem_flatten hpiece')
      horder.of_append_right
    exact (hnode.isPlaced horder.of_append_left).before hplace horder

end Nodes

/-- The spans of all nodes and of all expressions inside of them. -/
theorem parse_spans (source : String) (file : Option String) (nodes : List Node)
    (hsize : source.utf8ByteSize < UInt32.size) (hparse : (parse source file).outcome = .ok nodes) :
    ∃ tokens final, tokenize source file = .ok (tokens ++ [final]) ∧ final.kind = .endOfInput ∧
      (∀ node ∈ nodes, ∀ part : Node, part.PartOf node → part.LaidOut tokens ∧
        ∀ span ∈ part.spans,
          span.IsPlaced (file.getD Lexer.defaultFile) source.utf8ByteSize tokens) ∧
      nodes.Pairwise fun first second => first.span.Before second.span := by
  obtain ⟨tokens, final, pieces, hstream, hspelled, hsublist, hpieces⟩ := parse_spelled hparse
  have htiles := Lexer.tiles_of_stream hstream
  have hlength := utf8ByteSize_of_isLegalChar htiles.isLegalChar_of_ok
  obtain ⟨horder, -⟩ := InOrder.of_tiles htiles (by omega)
  rw [Nat.zero_add, ← hlength] at horder
  refine ⟨tokens, final, tokenize_eq source file tokens _ hstream, ?_, ?_, ?_⟩
  · exact (Lexer.stream_kinds _ _ _ hstream).2 final rfl
  · intro node hnode part hpart
    obtain ⟨piece, hpiece, hspells⟩ := exists_mem_of_forall₂ hspelled hnode
    obtain ⟨own, hown, hpartSpells⟩ := hpart.exists_spellsTop hspells
    exact hpartSpells.laidOut (hown.trans (hpieces piece hpiece)) horder
  · exact pairwise_before hspelled (horder.sublist hsublist)

/-- The case of two constructs with a stray parenthesis between them. -/
theorem parse_spans_of_call : "def f(x) (x)) f(1, 2)".utf8ByteSize < UInt32.size ∧
    ∃ nodes, (parse "def f(x) (x)) f(1, 2)" none).outcome = .ok nodes ∧ nodes.length = 2 ∧
      ∃ tokens final, tokenize "def f(x) (x)) f(1, 2)" none = .ok (tokens ++ [final]) ∧
        (∀ node ∈ nodes, ∀ part : Node, part.PartOf node → part.LaidOut tokens ∧
          ∀ span ∈ part.spans, span.IsPlaced "shell" 21 tokens) ∧
        nodes.Pairwise fun first second => first.span.Before second.span := by
  have hsize : "def f(x) (x)) f(1, 2)".utf8ByteSize < UInt32.size := by decide +kernel
  have hlength : (parse "def f(x) (x)) f(1, 2)" none).outcome.map List.length = .ok 2 := by
    decide +kernel
  cases hparse : (parse "def f(x) (x)) f(1, 2)" none).outcome with
  | error error =>
    rw [hparse] at hlength
    cases hlength
  | ok nodes =>
    rw [hparse] at hlength
    obtain ⟨tokens, final, htokens, -, hparts, hnodes⟩ :=
      parse_spans "def f(x) (x)) f(1, 2)" none nodes hsize hparse
    exact ⟨hsize, nodes, rfl, Except.ok.inj hlength, tokens, final, htokens, hparts, hnodes⟩

end ExprLang
