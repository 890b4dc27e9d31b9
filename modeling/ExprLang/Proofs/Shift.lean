import ExprLang.Proofs.Correspondence

/-!
The same text further back in a source. Its tokens are the same ones, moved by the
number of bytes in front of it, and so is everything that reading makes of them:
nodes, diagnostics and the error that stops the reading. Offsets are words, and
moving them adds words.
-/
namespace ExprLang

/-- The position this many bytes further on. -/
def Position.shift (n : Nat) (position : Position) : Position :=
  { position with offset := position.offset + n.toUInt32 }

def Span.shift (n : Nat) (span : Span) : Span := ⟨span.start.shift n, span.stop.shift n⟩

def Token.shift (n : Nat) (token : Token) : Token := { token with span := token.span.shift n }

def LexicalError.shift (n : Nat) (error : LexicalError) : LexicalError :=
  { error with position := error.position.shift n }

def Diagnostic.shift (n : Nat) (diagnostic : Diagnostic) : Diagnostic :=
  { diagnostic with position := diagnostic.position.shift n }

def Prototype.shift (n : Nat) (proto : Prototype) : Prototype :=
  { proto with span := proto.span.shift n }

namespace Node

mutual

def shift (n : Nat) : Node → Node
  | number value span => number value (span.shift n)
  | var name span => var name (span.shift n)
  | binary op lhs rhs span => binary op (shift n lhs) (shift n rhs) (span.shift n)
  | call callee args span => call callee (shiftAll n args) (span.shift n)
  | prototype proto => prototype (proto.shift n)
  | function proto body span => function (proto.shift n) (shift n body) (span.shift n)

def shiftAll (n : Nat) : List Node → List Node
  | [] => []
  | node :: nodes => shift n node :: shiftAll n nodes

end

end Node

def Lexer.Stream.shiftLast (n : Nat) (last : Except LexicalError Token) :
    Except LexicalError Token :=
  (last.map (Token.shift n)).mapError (LexicalError.shift n)

open Lexer (Stream)

variable {n : Nat}

theorem Token.shift_placed (file : String) (offset : Nat) (kind : Token.Kind) :
    (placed file offset kind).shift n = placed file (offset + n) kind := by
  have hstop : offset + n + kind.spelling.length = offset + kind.spelling.length + n := by omega
  simp only [shift, placed, Span.shift, Position.shift, hstop, UInt32.ofNat_add, Nat.toUInt32]

/-- A text is divided in the same way wherever it stands. -/
theorem Tiles.shift {file : String} {offset : Nat} {text : List Char} {tokens : List Token}
    {last : Except LexicalError Token} (h : Tiles file offset text tokens last) (n : Nat) :
    Tiles file (offset + n) text (tokens.map (Token.shift n)) (Stream.shiftLast n last) := by
  induction h with
  | @finish offset blanks hblanks =>
    have hplace : offset + n + blanks.length = offset + blanks.length + n := by omega
    have hfinish : Tiles file (offset + n) blanks [] _ := .finish hblanks
    rwa [hplace, ← Token.shift_placed] at hfinish
  | @stuck offset blanks c text hblanks hc hmunch =>
    have hplace : (offset + n + blanks.length).toUInt32 =
        (offset + blanks.length).toUInt32 + n.toUInt32 := by
      rw [show offset + n + blanks.length = offset + blanks.length + n by omega]
      exact UInt32.ofNat_add _ _
    have hstuck : Tiles file (offset + n) (blanks ++ c :: text) [] _ := .stuck hblanks hc hmunch
    rwa [hplace] at hstuck
  | @token offset blanks text kind rest tokens last hblanks hmunch hrest ih =>
    have hplace : offset + n + blanks.length = offset + blanks.length + n := by omega
    have hbehind : offset + blanks.length + n + kind.spelling.length =
        offset + blanks.length + kind.spelling.length + n := by omega
    rw [List.map_cons, Token.shift_placed, ← hplace]
    exact .token hblanks hmunch (by rwa [hplace, hbehind])

def Token.Moved (n : Nat) (token token' : Token) : Prop :=
  token' = token.shift n ∧ token.kind.Alike token.kind

section Corresponding

theorem Span.Corresponds.eq_shift {span span' : Span}
    (h : span.Corresponds (Token.Moved n) span') : span' = span.shift n := by
  obtain ⟨first, first', last, last', ⟨rfl, -⟩, ⟨rfl, -⟩, rfl, rfl⟩ := h
  rfl

theorem NamesCorrespond.eq_of_moved {name name' : String}
    (h : NamesCorrespond (Token.Moved n) name name') : name' = name := by
  obtain ⟨token, token', ⟨rfl, -⟩, hkind, hkind'⟩ := h
  exact Token.Kind.identifier.inj (hkind'.symm.trans hkind)

/-- A list is the image of another one if each element is the image of its counterpart. -/
theorem eq_map_of_forall₂ {α β : Type} {relation : α → β → Prop} {f : α → β} {list : List α}
    {list' : List β} (h : List.Forall₂ relation list list')
    (himage : ∀ a b, relation a b → b = f a) : list' = list.map f := by
  induction h with
  | nil => rfl
  | cons hfirst hrest ih => rw [List.map_cons, ← himage _ _ hfirst, ← ih]

theorem Prototype.Corresponds.eq_shift {proto proto' : Prototype}
    (h : proto.Corresponds (Token.Moved n) proto') : proto' = proto.shift n := by
  obtain ⟨hname, hparams, hspan⟩ := h
  have hsame := eq_map_of_forall₂ (f := id) hparams fun _ _ => NamesCorrespond.eq_of_moved
  rw [List.map_id] at hsame
  cases proto'
  simp only [Prototype.shift, Prototype.mk.injEq]
  exact ⟨hname.eq_of_moved, hsame, hspan.eq_shift⟩

mutual

theorem Node.Corresponds.eq_shift {node node' : Node}
    (h : node.Corresponds (Token.Moved n) node') : node' = node.shift n := by
  cases h with
  | number htoken hkind hkind' hvalue hvalue' =>
    obtain ⟨rfl, -⟩ := htoken
    obtain rfl := Token.Kind.number.inj (hkind.symm.trans hkind')
    obtain rfl := Option.some.inj (hvalue.symm.trans hvalue')
    rfl
  | var htoken hkind hkind' =>
    obtain ⟨rfl, -⟩ := htoken
    obtain rfl := Token.Kind.identifier.inj (hkind.symm.trans hkind')
    rfl
  | binary hlhs hrhs hspan =>
    rw [hlhs.eq_shift, hrhs.eq_shift, hspan.eq_shift]
    rfl
  | call hcallee hargs hspan =>
    rw [hcallee.eq_of_moved, hargs.eq_shiftAll, hspan.eq_shift]
    rfl
  | prototype hproto =>
    rw [hproto.eq_shift]
    rfl
  | function hproto hbody hspan =>
    rw [hproto.eq_shift, hbody.eq_shift, hspan.eq_shift]
    rfl

theorem Node.AllCorrespond.eq_shiftAll {nodes nodes' : List Node}
    (h : AllCorrespond (Token.Moved n) nodes nodes') : nodes' = shiftAll n nodes := by
  cases h with
  | nil => rfl
  | cons hnode hnodes =>
    rw [hnode.eq_shift, hnodes.eq_shiftAll]
    rfl

end

/-- What was wrong is told by the kind of error, the token found and the demand. -/
theorem Diagnostic.Cause.eq_of_parts {cause cause' : Cause} (hname : cause.name = cause'.name)
    (hfound : cause.found = cause'.found) (hwanted : cause.wanted? = cause'.wanted?) :
    cause = cause' := by
  cases cause <;> cases cause' <;> simp_all [name, found, wanted?]

theorem Diagnostic.Corresponds.eq_shift {diagnostic diagnostic' : Diagnostic}
    (h : diagnostic.Corresponds (Token.Moved n) diagnostic') :
    diagnostic' = diagnostic.shift n := by
  obtain ⟨hname, hwanted, token, token', ⟨rfl, -⟩, hposition, hposition', hfound, hfound'⟩ := h
  have hcause : diagnostic'.cause = diagnostic.cause :=
    Cause.eq_of_parts hname.symm (hfound'.trans hfound.symm) hwanted.symm
  cases diagnostic'
  simp only [shift, mk.injEq]
  exact ⟨hcause, by rw [hposition]; exact hposition'⟩

end Corresponding

/-- The tokens of a text are alike to themselves, and so is the end of the input. -/
theorem Tiles.alike_self {file : String} {offset : Nat} {text : List Char} {tokens : List Token}
    {last : Except LexicalError Token} (h : Tiles file offset text tokens last) :
    (∀ token ∈ tokens, token.kind.Alike token.kind) ∧
      ∀ final, last = .ok final → final.kind.Alike final.kind := by
  refine ⟨fun token htoken => ?_, fun final hfinal => ?_⟩
  · obtain ⟨text, rest, hmunch⟩ := h.exists_munch? token htoken
    have hvalue : ∀ digits, token.kind = .number digits →
        ∃ value, Binary64.ofDigits? digits = some value := fun digits hkind =>
      Token.Kind.exists_ofDigits? (hkind ▸ hmunch)
    exact .of_bare rfl hvalue hvalue
  · subst hfinal
    rw [h.final_eq]
    exact .endOfInput

/-- Tokens further on are read as the same nodes and diagnostics further on. -/
theorem ReadsAll.shift {last : Except LexicalError Token} {tokens : List Token}
    {nodes : List Node} {diagnostics : List Diagnostic}
    (h : ReadsAll last tokens nodes diagnostics)
    (htokens : ∀ token ∈ tokens, token.kind.Alike token.kind)
    (hlast : ∀ final, last = .ok final → final.kind.Alike final.kind) (n : Nat) :
    ReadsAll (Stream.shiftLast n last) (tokens.map (Token.shift n)) (nodes.map (Node.shift n))
      (diagnostics.map (Diagnostic.shift n)) := by
  have hmoved : List.Forall₂ (Token.Moved n) tokens (tokens.map (Token.shift n)) :=
    List.forall₂_map_right_iff.mpr
      (List.forall₂_same.mpr fun token htoken => ⟨rfl, htokens token htoken⟩)
  have hends : Stream.EndsCorrespond (Token.Moved n) last (Stream.shiftLast n last) := by
    cases last with
    | ok final => exact .ok ⟨rfl, hlast final rfl⟩
    | error error => exact .error _ _
  have hR : ∀ token token', Token.Moved n token token' → token.kind.Alike token'.kind := by
    rintro token token' ⟨rfl, halike⟩
    exact halike
  obtain ⟨nodes', diagnostics', hall, hnodes, hdiagnostics⟩ := h.corresponds hR hends hmoved
  obtain rfl := eq_map_of_forall₂ hnodes fun _ _ => Node.Corresponds.eq_shift
  obtain rfl := eq_map_of_forall₂ hdiagnostics fun _ _ => Diagnostic.Corresponds.eq_shift
  exact hall

end ExprLang
