import ExprLang.Proofs.Alphabet
import ExprLang.Proofs.Spelling

/-!
How far the span of a node reaches over its tokens. Parentheses around an expression are
not in its span, and so the span of a chain leaves out parentheses around its first operand
that open in front of it, and those around its last operand that close behind it. All other
tokens of a node are at its span. They spell the node if and only if nothing is left out,
which shows in the parentheses at the span alone: they match.
-/
namespace ExprLang

open Token.Kind (mark)

/-- How many parentheses are open behind a character, if there is one that it may close. -/
def stepDepth (depth : Nat) (c : Char) : Option Nat :=
  if c = '(' then some (depth + 1)
  else if c = ')' then if depth = 0 then none else some (depth - 1)
  else some depth

def depthAfter (depth : Nat) (text : List Char) : Option Nat := text.foldlM stepDepth depth

def IsBalanced (text : List Char) : Prop := depthAfter 0 text = some 0

instance (text : List Char) : Decidable (IsBalanced text) :=
  inferInstanceAs (Decidable (depthAfter 0 text = some 0))

example : IsBalanced "f((1), 2)".toList ∧ ¬ IsBalanced "1)+(2".toList := by decide +kernel

def parentheses (tokens : List Token) : List Char :=
  tokens.filterMap fun token =>
    if token.kind = mark '(' then some '(' else if token.kind = mark ')' then some ')' else none

structure Span.GoesOver (span : Span) (tokens : List Token) : Prop where
  starts : ∃ token ∈ tokens.head?, token.span.start = span.start
  stops : ∃ token ∈ tokens.getLast?, token.span.stop = span.stop

section Depths

variable {text text' : List Char} {depth depth' : Nat}

theorem depthAfter_cons (depth : Nat) (c : Char) (text : List Char) :
    depthAfter depth (c :: text) = (stepDepth depth c).bind (depthAfter · text) := rfl

theorem depthAfter_append (depth : Nat) (text text' : List Char) :
    depthAfter depth (text ++ text') = (depthAfter depth text).bind (depthAfter · text') :=
  List.foldlM_append

/-- Other characters do not count. -/
theorem depthAfter_of_plain (h : ∀ c ∈ text, c ≠ '(' ∧ c ≠ ')') :
    depthAfter depth text = some depth := by
  induction text with
  | nil => rfl
  | cons c text ih =>
    obtain ⟨⟨hopen, hclose⟩, hrest⟩ := List.forall_mem_cons.mp h
    rw [depthAfter_cons, stepDepth, if_neg hopen, if_neg hclose]
    exact ih hrest

theorem stepDepth_add {c : Char} (h : stepDepth depth c = some depth') (n : Nat) :
    stepDepth (depth + n) c = some (depth' + n) := by
  grind [stepDepth]

/-- What is open in front of a text stays open behind it. -/
theorem depthAfter_add (h : depthAfter depth text = some depth') (n : Nat) :
    depthAfter (depth + n) text = some (depth' + n) := by
  induction text generalizing depth with
  | nil => rw [Option.some.inj (show some depth = some depth' from h)]; rfl
  | cons c text ih =>
    obtain ⟨next, hnext, hrest⟩ := Option.bind_eq_some_iff.mp h
    rw [depthAfter_cons, stepDepth_add hnext]
    exact ih hrest

theorem depthAfter_opens (depth n : Nat) :
    depthAfter depth (List.replicate n '(') = some (depth + n) := by
  induction n generalizing depth with
  | zero => rfl
  | succ n ih =>
    rw [List.replicate_succ, depthAfter_cons, stepDepth, if_pos rfl, Option.bind_some, ih,
      Nat.add_assoc, Nat.add_comm 1 n]

namespace IsBalanced

theorem nil : IsBalanced [] := rfl

theorem append (h : IsBalanced text) (h' : IsBalanced text') : IsBalanced (text ++ text') := by
  rw [IsBalanced, depthAfter_append, h]
  exact h'

theorem around (h : IsBalanced text) : IsBalanced ('(' :: (text ++ [')'])) := by
  rw [IsBalanced, depthAfter_cons, stepDepth, if_pos rfl, Option.bind_some, depthAfter_append,
    depthAfter_add h 1]
  rfl

/-- If two texts match together, then nothing that opens in front of the first one is missing,
and nothing that closes behind the second one. -/
theorem eq_zero_of_append {n m : Nat} (hleft : IsBalanced (List.replicate n '(' ++ text))
    (hright : IsBalanced (text' ++ List.replicate m ')')) (h : IsBalanced (text ++ text')) :
    n = 0 ∧ m = 0 := by
  rw [IsBalanced, depthAfter_append] at hleft hright h
  rw [depthAfter_opens, Nat.zero_add] at hleft
  obtain ⟨middle, hmiddle, hbehind⟩ := Option.bind_eq_some_iff.mp h
  have hsum := depthAfter_add hmiddle n
  rw [Nat.zero_add] at hsum
  have hzero : middle + n = 0 := Option.some.inj (hsum.symm.trans hleft)
  obtain ⟨rfl, rfl⟩ := Nat.add_eq_zero_iff.mp hzero
  rw [hbehind] at hright
  refine ⟨rfl, ?_⟩
  cases m with
  | zero => rfl
  | succ m => cases hright

end IsBalanced

end Depths

section Tokens

variable {tokens tokens' : List Token} {token : Token}

theorem parentheses_append (tokens tokens' : List Token) :
    parentheses (tokens ++ tokens') = parentheses tokens ++ parentheses tokens' :=
  List.filterMap_append

theorem parentheses_open (hkind : token.kind = mark '(') (tokens : List Token) :
    parentheses (token :: tokens) = '(' :: parentheses tokens := by
  simp [parentheses, hkind]

theorem parentheses_close (hkind : token.kind = mark ')') (tokens : List Token) :
    parentheses (token :: tokens) = ')' :: parentheses tokens := by
  simp [parentheses, hkind, Token.Kind.mark_inj]

theorem parentheses_other (hopen : token.kind ≠ mark '(') (hclose : token.kind ≠ mark ')')
    (tokens : List Token) : parentheses (token :: tokens) = parentheses tokens := by
  simp [parentheses, hopen, hclose]

theorem parentheses_operator {op : Operator} (hop : token.kind.operator? = some op)
    (tokens : List Token) : parentheses (token :: tokens) = parentheses tokens := by
  rw [Token.Kind.operator?_eq_some_iff] at hop
  refine parentheses_other ?_ ?_ tokens <;> rw [hop, ne_eq, Token.Kind.mark_inj] <;>
    cases op <;> decide

theorem parentheses_name {name : String} (hkind : token.kind = .identifier name)
    (tokens : List Token) : parentheses (token :: tokens) = parentheses tokens :=
  parentheses_other (by simp [hkind, mark]) (by simp [hkind, mark]) tokens

theorem parentheses_opens (h : ∀ token ∈ tokens, token.kind = mark '(') :
    parentheses tokens = List.replicate tokens.length '(' := by
  induction tokens with
  | nil => rfl
  | cons token tokens ih =>
    obtain ⟨hkind, hrest⟩ := List.forall_mem_cons.mp h
    rw [parentheses_open hkind, ih hrest]
    rfl

theorem parentheses_closes (h : ∀ token ∈ tokens, token.kind = mark ')') :
    parentheses tokens = List.replicate tokens.length ')' := by
  induction tokens with
  | nil => rfl
  | cons token tokens ih =>
    obtain ⟨hkind, hrest⟩ := List.forall_mem_cons.mp h
    rw [parentheses_close hkind, ih hrest]
    rfl

/-- The parentheses of a phrase match. -/
theorem Spells.isBalanced {form : Form} {taken : List Token} (h : Spells form taken) :
    IsBalanced (parentheses taken) := by
  induction h with
  | number hkind =>
    rw [parentheses_other (by simp [hkind, mark]) (by simp [hkind, mark])]
    exact .nil
  | name hkind =>
    rw [parentheses_name hkind]
    exact .nil
  | call hkind hopen hargs hclose ih =>
    rw [parentheses_name hkind, parentheses_open hopen, parentheses_append,
      parentheses_close hclose]
    exact ih.around
  | grouping hopen hinner hclose ih =>
    rw [parentheses_open hopen, parentheses_append, parentheses_close hclose]
    exact ih.around
  | factor h ih | term h ih | lastArgument h ih => exact ih
  | multiply hlhs hop hrhs ih₁ ih₂ =>
    rw [parentheses_append, parentheses_operator hop]
    exact ih₁.append ih₂
  | add hlhs hop hloose hrhs ih₁ ih₂ =>
    rw [parentheses_append, parentheses_operator hop]
    exact ih₁.append ih₂
  | noArguments => exact .nil
  | argument harg hcomma hargs ih₁ ih₂ =>
    rw [parentheses_append, parentheses_other (by simp [hcomma, Token.Kind.mark_inj])
      (by simp [hcomma, Token.Kind.mark_inj])]
    exact ih₁.append ih₂

theorem ReadsPrototype.isBalanced {proto : Prototype} {taken : List Token}
    (h : ReadsPrototype taken proto []) : IsBalanced (parentheses taken) := by
  cases h with
  | @intro token opener closer params _ name names hkind hopen hparams hclose =>
    have hnone : parentheses params = [] := by
      refine List.filterMap_eq_nil_iff.mpr fun param hparam => ?_
      have hmem := List.mem_map_of_mem (f := Token.kind) hparam
      rw [hparams] at hmem
      obtain ⟨name, -, hname⟩ := List.mem_map.mp hmem
      simp [← hname, mark]
    rw [parentheses_name hkind, parentheses_open hopen, parentheses_append, hnone,
      parentheses_close hclose]
    exact IsBalanced.nil.around

/-- The parentheses of a construct match. -/
theorem SpellsTop.isBalanced {node : Node} {taken : List Token} (h : SpellsTop node taken) :
    IsBalanced (parentheses taken) := by
  cases h with
  | definition hkind hproto hbody =>
    rw [parentheses_other (by simp [hkind, mark]) (by simp [hkind, mark]), parentheses_append]
    exact hproto.isBalanced.append hbody.isBalanced
  | declaration hkind hproto =>
    rw [parentheses_other (by simp [hkind, mark]) (by simp [hkind, mark])]
    exact hproto.isBalanced
  | expression hspells => exact hspells.isBalanced

end Tokens

namespace Span.GoesOver

variable {first second : Span} {left right : List Token}

theorem single (token : Token) : token.span.GoesOver [token] :=
  ⟨⟨token, rfl, rfl⟩, ⟨token, rfl, rfl⟩⟩

theorem of_ends (token closer : Token) (inner : List Token) :
    (token.span.through closer.span).GoesOver (token :: (inner ++ [closer])) := by
  refine ⟨⟨token, rfl, rfl⟩, ⟨closer, ?_, rfl⟩⟩
  rw [← List.cons_append, List.getLast?_concat]
  rfl

theorem through (h : first.GoesOver left) (h' : second.GoesOver right) (middle : List Token) :
    (first.through second).GoesOver (left ++ (middle ++ right)) := by
  obtain ⟨token, hhead, hstart⟩ := h.starts
  obtain ⟨closer, hlast, hstop⟩ := h'.stops
  refine ⟨⟨token, ?_, hstart⟩, ⟨closer, ?_, hstop⟩⟩
  · rw [List.head?_append, Option.mem_def.mp hhead]
    rfl
  · rw [List.getLast?_append, List.getLast?_append, Option.mem_def.mp hlast]
    rfl

end Span.GoesOver

/-- The tokens of a node at its span, and the parentheses among its tokens that are not. -/
structure Extent (node : Node) (opens core closes : List Token) : Prop where
  opens_kind : ∀ token ∈ opens, token.kind = mark '('
  closes_kind : ∀ token ∈ closes, token.kind = mark ')'
  goesOver : node.span.GoesOver core

namespace Extent

variable {node lhs rhs : Node} {opens core closes opens' core' closes' : List Token}

/-- All tokens are at the span. -/
theorem whole (h : node.span.GoesOver core) : Extent node [] core [] := ⟨by simp, by simp, h⟩

/-- Further parentheses are not at the span. -/
theorem around {opener closer : Token} (h : Extent node opens core closes)
    (hopen : opener.kind = mark '(') (hclose : closer.kind = mark ')') :
    Extent node (opener :: opens) core (closes ++ [closer]) where
  opens_kind := List.forall_mem_cons.mpr ⟨hopen, h.opens_kind⟩
  closes_kind := List.forall_mem_append.mpr ⟨h.closes_kind, by simpa using hclose⟩
  goesOver := h.goesOver

/-- Between two operands everything is at the span. -/
theorem binary (h : Extent lhs opens core closes) (h' : Extent rhs opens' core' closes')
    (op : Operator) (token : Token) :
    Extent (.binary op lhs rhs (lhs.span.through rhs.span)) opens
      (core ++ (closes ++ token :: opens' ++ core')) closes' where
  opens_kind := h.opens_kind
  closes_kind := h'.closes_kind
  goesOver := h.goesOver.through h'.goesOver _

/-- If the parentheses at the span match, none of the others is missing. -/
theorem eq_nil_of_isBalanced {left right : List Token} (h : Extent node opens core closes)
    (hcore : core = left ++ right) (hleft : IsBalanced (parentheses (opens ++ left)))
    (hright : IsBalanced (parentheses (right ++ closes)))
    (hbalanced : IsBalanced (parentheses core)) : opens = [] ∧ closes = [] := by
  rw [parentheses_append, parentheses_opens h.opens_kind] at hleft
  rw [parentheses_append, parentheses_closes h.closes_kind] at hright
  rw [hcore, parentheses_append] at hbalanced
  obtain ⟨hopens, hcloses⟩ := hleft.eq_zero_of_append hright hbalanced
  exact ⟨List.eq_nil_of_length_eq_zero hopens, List.eq_nil_of_length_eq_zero hcloses⟩

end Extent

/-- The tokens of a chain are those at its span with the parentheses around them that open
in front of its first operand and those that close behind its last one. -/
theorem Spells.exists_extent_chain {lhs rhs : Node} {token : Token} {left right : List Token}
    {op : Operator} (hop : token.kind.operator? = some op)
    (h : Spells (.sum (.binary op lhs rhs (lhs.span.through rhs.span))) (left ++ token :: right))
    (hlhs : ∃ opens core closes, left = opens ++ (core ++ closes) ∧ Extent lhs opens core closes)
    (hrhs : ∃ opens core closes, right = opens ++ (core ++ closes) ∧ Extent rhs opens core closes)
    (hleft : IsBalanced (parentheses left)) (hright : IsBalanced (parentheses right)) :
    ∃ opens core closes, left ++ token :: right = opens ++ (core ++ closes) ∧
      Extent (.binary op lhs rhs (lhs.span.through rhs.span)) opens core closes ∧
      (IsBalanced (parentheses core) →
        Spells (.sum (.binary op lhs rhs (lhs.span.through rhs.span))) core) := by
  obtain ⟨opens, core, closes, rfl, hextent⟩ := hlhs
  obtain ⟨opens', core', closes', rfl, hextent'⟩ := hrhs
  have hwhole := hextent.binary hextent' op token
  refine ⟨opens, _, closes', by simp, hwhole, fun hbalanced => ?_⟩
  have hcore : core ++ (closes ++ token :: opens' ++ core') =
      (core ++ closes) ++ (token :: opens' ++ core') := by simp
  have hnone : opens = [] ∧ closes' = [] := by
    refine hwhole.eq_nil_of_isBalanced hcore hleft ?_ hbalanced
    rwa [List.cons_append, List.cons_append, parentheses_operator hop, List.append_assoc]
  obtain ⟨rfl, rfl⟩ := hnone
  simpa using h

/-- The tokens of an expression are those at its span with parentheses around them. If the
parentheses at the span match, then the tokens there spell the expression. -/
theorem Spells.exists_extent {form : Form} {node : Node} {taken : List Token}
    (h : Spells form taken) (hnode : form.node? = some node) :
    ∃ opens core closes, taken = opens ++ (core ++ closes) ∧ Extent node opens core closes ∧
      (IsBalanced (parentheses core) → Spells (.sum node) core) := by
  induction h generalizing node with
  | @number token _ _ hkind hvalue =>
    obtain rfl := Option.some.inj hnode
    exact ⟨[], [token], [], rfl, .whole (.single token),
      fun _ => .term (.factor (.number hkind hvalue))⟩
  | @name token _ hkind =>
    obtain rfl := Option.some.inj hnode
    exact ⟨[], [token], [], rfl, .whole (.single token), fun _ => .term (.factor (.name hkind))⟩
  | @call token opener closer inner name args hkind hopen hargs hclose =>
    obtain rfl := Option.some.inj hnode
    exact ⟨[], _, [], (List.append_nil _).symm, .whole (.of_ends token closer (opener :: inner)),
      fun _ => .term (.factor (.call hkind hopen hargs hclose))⟩
  | @grouping opener closer inner _ hopen hinner hclose ih =>
    obtain ⟨opens, core, closes, rfl, hextent, hspells⟩ := ih hnode
    exact ⟨opener :: opens, core, closes ++ [closer], by simp, hextent.around hopen hclose, hspells⟩
  | factor h ih | term h ih => exact ih hnode
  | multiply hlhs hop hrhs ih₁ ih₂ =>
    obtain rfl := Option.some.inj hnode
    obtain ⟨opens, core, closes, htaken, hextent, -⟩ := ih₁ rfl
    obtain ⟨opens', core', closes', htaken', hextent', -⟩ := ih₂ rfl
    exact exists_extent_chain hop (.term (.multiply hlhs hop hrhs))
      ⟨opens, core, closes, htaken, hextent⟩ ⟨opens', core', closes', htaken', hextent'⟩
      hlhs.isBalanced hrhs.isBalanced
  | add hlhs hop hloose hrhs ih₁ ih₂ =>
    obtain rfl := Option.some.inj hnode
    obtain ⟨opens, core, closes, htaken, hextent, -⟩ := ih₁ rfl
    obtain ⟨opens', core', closes', htaken', hextent', -⟩ := ih₂ rfl
    exact exists_extent_chain hop (.add hlhs hop hloose hrhs)
      ⟨opens, core, closes, htaken, hextent⟩ ⟨opens', core', closes', htaken', hextent'⟩
      hlhs.isBalanced hrhs.isBalanced
  | noArguments | lastArgument | argument => cases hnode

/-- The tokens of a construct are those at its span with parentheses around them. If the
parentheses at the span match, then the tokens there spell the construct. -/
theorem SpellsTop.exists_extent {node : Node} {taken : List Token} (h : SpellsTop node taken) :
    ∃ opens core closes, taken = opens ++ (core ++ closes) ∧ Extent node opens core closes ∧
      (IsBalanced (parentheses core) → SpellsTop node core) := by
  cases h with
  | @definition keyword front proto body behind hkind hproto hbody =>
    obtain ⟨opens, core, closes, rfl, hextent, -⟩ := hbody.exists_extent rfl
    have hwhole : Extent (.function proto body (keyword.span.through body.span)) []
        (keyword :: (front ++ (opens ++ core))) closes := by
      refine ⟨by simp, hextent.closes_kind, ?_⟩
      rw [← List.append_assoc]
      exact (Span.GoesOver.single keyword).through hextent.goesOver (front ++ opens)
    refine ⟨[], _, closes, by simp, hwhole, fun hbalanced => ?_⟩
    have hall : IsBalanced (parentheses (keyword :: (front ++ (opens ++ core)) ++ closes)) := by
      have htaken := (SpellsTop.definition hkind hproto hbody).isBalanced
      simpa using htaken
    obtain ⟨-, rfl⟩ := hwhole.eq_nil_of_isBalanced (List.nil_append _).symm .nil hall hbalanced
    rw [List.append_nil] at hbody
    exact .definition hkind hproto hbody
  | @declaration keyword taken proto hkind hproto =>
    refine ⟨[], keyword :: taken, [], (List.append_nil _).symm, .whole ?_,
      fun _ => .declaration hkind hproto⟩
    cases hproto with
    | @intro token opener closer params _ name names =>
      exact .of_ends keyword closer (token :: opener :: params)
  | expression hspells =>
    obtain ⟨opens, core, closes, htaken, hextent, hcore⟩ := hspells.exists_extent rfl
    exact ⟨opens, core, closes, htaken, hextent, fun hbalanced => .expression (hcore hbalanced)⟩

end ExprLang
