import ExprLang.Proofs.Layout
import ExprLang.Proofs.NumberText
import ExprLang.Proofs.Tree
import ExprLang.SExpression

/-!
The symbolic expression of a tree determines the tree. What a text in parentheses is can be told
from its first two characters, so a name may be any word, also one that stands for a kind of
node. Words and numbers end where a space or a parenthesis follows, all other trees where their
parenthesis closes, so that no tree goes on in the text of another one.
-/
namespace ExprLang

/-- A character that may be part of a word or a number. -/
def isAtomChar (c : Char) : Bool := c != ' ' && c != '(' && c != ')'

/-- No word and no number goes on in the text. -/
def Parted (text : List Char) : Prop := ∀ c ∈ text.head?, isAtomChar c = false

def IsWord (name : String) : Prop :=
  ∃ c cs, name.toList = c :: cs ∧ c.isAlpha = true ∧ ∀ d ∈ cs, d.isAlphanum = true

def Binary64.IsFinite (value : Binary64) : Prop := value.isNaN = false ∧ value.isInfinite = false

section Atoms

variable {name name' : String} {value value' : Binary64} {text text' : List Char}

theorem isAtomChar_of_isAlphanum {c : Char} (h : c.isAlphanum = true) : isAtomChar c = true := by
  simp only [isAtomChar, Bool.and_eq_true, bne_iff_ne]
  refine ⟨⟨?_, ?_⟩, ?_⟩ <;>
  · rintro rfl
    exact absurd h (by decide)

theorem parted_space (text : List Char) : Parted (' ' :: text) := by
  simp [Parted, isAtomChar]

theorem parted_close (text : List Char) : Parted (')' :: text) := by
  simp [Parted, isAtomChar]

theorem parted_nil : Parted [] := nofun

theorem IsWord.isAtomChar (h : IsWord name) : ∀ c ∈ name.toList, isAtomChar c = true := by
  obtain ⟨c, cs, hname, hc, hcs⟩ := h
  rw [hname]
  exact List.forall_mem_cons.mpr ⟨isAtomChar_of_isAlphanum (by simp [Char.isAlphanum, hc]),
    fun d hd => isAtomChar_of_isAlphanum (hcs d hd)⟩

theorem Binary64.IsFinite.isAtomChar (h : value.IsFinite) :
    ∀ c ∈ value.text.toList, isAtomChar c = true := by
  obtain ⟨first, rest, htext, hfirst, hrest⟩ := Binary64.text_shape h.1 h.2
  have hdigit : ∀ c : Char, c.isDigit = true → ExprLang.isAtomChar c = true := fun c hc =>
    isAtomChar_of_isAlphanum (by simp [Char.isAlphanum, hc])
  rw [htext]
  refine List.forall_mem_cons.mpr ⟨hfirst.elim (hdigit first) ?_, fun c hc => ?_⟩
  · rintro rfl
    rfl
  · refine (hrest c hc).elim (hdigit c) ?_
    rintro rfl
    rfl

/-- A word can be read off the text that begins with it. -/
theorem IsWord.inj (hname : IsWord name) (hname' : IsWord name') (htext : Parted text)
    (htext' : Parted text') (h : name.toList ++ text = name'.toList ++ text') :
    name = name' ∧ text = text' := by
  obtain ⟨hnames, htexts⟩ := run_inj hname.isAtomChar hname'.isAtomChar htext htext' h
  exact ⟨String.toList_inj.mp hnames, htexts⟩

/-- A number can be read off the text that begins with it. -/
theorem Binary64.IsFinite.inj (hvalue : value.IsFinite) (hvalue' : value'.IsFinite)
    (htext : Parted text) (htext' : Parted text')
    (h : value.text.toList ++ text = value'.text.toList ++ text') :
    value = value' ∧ text = text' := by
  obtain ⟨hvalues, htexts⟩ := run_inj hvalue.isAtomChar hvalue'.isAtomChar htext htext' h
  exact ⟨Binary64.eq_of_text hvalue.1 hvalue'.1 (String.toList_inj.mp hvalues), htexts⟩

theorem toList_intercalate_cons (name : String) (names : List String) :
    (" ".intercalate (name :: names)).toList =
      name.toList ++ names.flatMap (' ' :: ·.toList) := by
  rw [String.toList_intercalate]
  induction names generalizing name with
  | nil => simp
  | cons second names ih =>
    rw [List.map_cons, List.map_cons, List.intercalate_cons_cons, ← List.map_cons, ih]
    simp

theorem parted_words (names : List String) (text : List Char) :
    Parted (names.flatMap (' ' :: ·.toList) ++ ')' :: text) := by
  cases names with
  | nil => exact parted_close text
  | cons name names => exact parted_space _

/-- Words with a space before each can be read off the text up to the parenthesis. -/
theorem spacedWords_inj {names names' : List String} (hnames : ∀ name ∈ names, IsWord name)
    (hnames' : ∀ name ∈ names', IsWord name)
    (h : names.flatMap (' ' :: ·.toList) ++ ')' :: text =
      names'.flatMap (' ' :: ·.toList) ++ ')' :: text') : names = names' ∧ text = text' := by
  induction names generalizing names' with
  | nil =>
    cases names' with
    | nil => exact ⟨rfl, (List.cons.inj h).2⟩
    | cons name' names' => simp at h
  | cons name names ih =>
    cases names' with
    | nil => simp at h
    | cons name' names' =>
      rw [List.forall_mem_cons] at hnames hnames'
      simp only [List.flatMap_cons, List.cons_append, List.append_assoc, List.cons.injEq,
        true_and] at h
      obtain ⟨rfl, hothers⟩ := hnames.1.inj hnames'.1 (parted_words _ _) (parted_words _ _) h
      obtain ⟨rfl, htexts⟩ := ih hnames.2 hnames'.2 hothers
      exact ⟨rfl, htexts⟩

/-- Words with spaces between them can be read off the text up to the parenthesis. -/
theorem separatedWords_inj {params params' : List String}
    (hparams : ∀ param ∈ params, IsWord param) (hparams' : ∀ param ∈ params', IsWord param)
    (h : (" ".intercalate params).toList ++ ')' :: text =
      (" ".intercalate params').toList ++ ')' :: text') : params = params' ∧ text = text' := by
  have hne : ∀ param (text text' : List Char), IsWord param →
      param.toList ++ text' ≠ ')' :: text := by
    intro param text text' hparam h
    obtain ⟨c, cs, hname, hc, -⟩ := hparam
    rw [hname] at h
    exact absurd hc (by rw [(List.cons.inj h).1]; decide)
  cases params with
  | nil =>
    cases params' with
    | nil => exact ⟨rfl, by simpa using h⟩
    | cons param' params' =>
      rw [toList_intercalate_cons, List.append_assoc] at h
      exact absurd h.symm (hne _ _ _ (List.forall_mem_cons.mp hparams').1)
  | cons param params =>
    rw [List.forall_mem_cons] at hparams
    cases params' with
    | nil =>
      rw [toList_intercalate_cons, List.append_assoc] at h
      exact absurd h (hne _ _ _ hparams.1)
    | cons param' params' =>
      rw [List.forall_mem_cons] at hparams'
      rw [toList_intercalate_cons, toList_intercalate_cons, List.append_assoc,
        List.append_assoc] at h
      obtain ⟨rfl, hothers⟩ := hparams.1.inj hparams'.1 (parted_words _ _) (parted_words _ _) h
      obtain ⟨rfl, htexts⟩ := spacedWords_inj hparams.2 hparams'.2 hothers
      exact ⟨rfl, htexts⟩

end Atoms

namespace Tree

inductive Kind where
  | number
  | var
  | binary
  | call
  | prototype
  | function

def Kind.ofText : List Char → Kind
  | '(' :: 'c' :: _ => call
  | '(' :: 'p' :: _ => prototype
  | '(' :: 'd' :: _ => function
  | '(' :: _ => binary
  | c :: _ => if c.isAlpha then var else number
  | [] => number

theorem Kind.ofText_cons {c : Char} (h : c ≠ '(') (text : List Char) :
    ofText (c :: text) = if c.isAlpha then var else number := by
  unfold ofText
  split <;> simp_all

def kind : Tree → Kind
  | .number _ => .number
  | .var _ => .var
  | .binary _ _ _ => .binary
  | .call _ _ => .call
  | .prototype _ _ => .prototype
  | .function _ _ _ => .function

def prototypeChars (name : String) (params : List String) : List Char :=
  ['(', 'p', 'r', 'o', 't', 'o', ' '] ++ (name.toList ++ ([' ', '('] ++
    ((" ".intercalate params).toList ++ [')', ')'])))

mutual

def chars : Tree → List Char
  | .number value => value.text.toList
  | .var name => name.toList
  | .binary op lhs rhs =>
    '(' :: op.symbol :: ' ' :: (chars lhs ++ ' ' :: (chars rhs ++ [')']))
  | .call callee args =>
    ['(', 'c', 'a', 'l', 'l', ' '] ++ (callee.toList ++ (argChars args ++ [')']))
  | .prototype name params => prototypeChars name params
  | .function name params body =>
    ['(', 'd', 'e', 'f', ' '] ++ (prototypeChars name params ++ ' ' :: (chars body ++ [')']))

def argChars : List Tree → List Char
  | [] => []
  | arg :: args => ' ' :: (chars arg ++ argChars args)

end

end Tree

theorem Prototype.toList_sexpr (proto : Prototype) :
    proto.sexpr.toList = Tree.prototypeChars proto.name proto.params := by
  simp [sexpr, Tree.prototypeChars, String.toList_append]

namespace Node

mutual

theorem toList_sexpr (node : Node) : node.sexpr.toList = node.tree.chars := by
  cases node with
  | number value span | var name span => rw [sexpr, tree, Tree.chars]
  | binary op lhs rhs span =>
    simp [sexpr, tree, Tree.chars, String.toList_append, toList_sexpr lhs, toList_sexpr rhs]
  | call callee args span =>
    simp [sexpr, tree, Tree.chars, String.toList_append, toList_sexprArgs args]
  | prototype proto => exact proto.toList_sexpr
  | function proto body span =>
    simp [sexpr, tree, Tree.chars, String.toList_append, proto.toList_sexpr, toList_sexpr body]

theorem toList_sexprArgs (args : List Node) :
    (sexprArgs args).toList = Tree.argChars (trees args) := by
  cases args with
  | nil => rfl
  | cons arg args =>
    simp [sexprArgs, trees, Tree.argChars, String.toList_append, toList_sexpr arg,
      toList_sexprArgs args]

end

end Node

namespace Tree

variable {first second : Tree} {text text' : List Char}

abbrev IsReadable : Tree → Prop := Only Binary64.IsFinite IsWord

abbrev AllReadable : List Tree → Prop := AllOnly Binary64.IsFinite IsWord

def isAtom : Tree → Bool
  | .number _ | .var _ => true
  | _ => false

section Kinds

/-- The kind of a tree can be told from the text that begins with it. -/
theorem IsReadable.kind_eq {tree : Tree} (h : tree.IsReadable) (text : List Char) :
    Kind.ofText (tree.chars ++ text) = tree.kind := by
  cases tree with
  | number value =>
    obtain ⟨first, rest, hchars, hfirst, -⟩ := Binary64.text_shape h.1 h.2
    have hplain : first ≠ '(' ∧ first.isAlpha = false := by
      rcases hfirst with hfirst | rfl
      · refine ⟨?_, isAlpha_of_isDigit hfirst⟩
        rintro rfl
        exact absurd hfirst (by decide)
      · decide
    rw [chars, hchars, List.cons_append, Kind.ofText_cons hplain.1, hplain.2]
    rfl
  | var name =>
    obtain ⟨c, cs, hname, hc, -⟩ := h
    have hne : c ≠ '(' := by
      rintro rfl
      exact absurd hc (by decide)
    rw [chars, hname, List.cons_append, Kind.ofText_cons hne, hc]
    rfl
  | binary op lhs rhs => cases op <;> rfl
  | call | prototype | function => rfl

/-- Words and numbers do not start with a parenthesis. -/
theorem IsReadable.isAtom_eq {tree : Tree} (h : tree.IsReadable)
    (hchars : tree.chars.head? = some '(') : tree.isAtom = false := by
  have hatom : ∀ text : List Char, (∀ c ∈ text, isAtomChar c = true) → text.head? ≠ some '(' :=
    fun text htext hhead => absurd (htext _ (List.mem_of_mem_head? hhead)) (by decide)
  cases tree with
  | number value =>
    rw [chars] at hchars
    exact absurd hchars (hatom _ (Binary64.IsFinite.isAtomChar h))
  | var name =>
    rw [chars] at hchars
    exact absurd hchars (hatom _ (IsWord.isAtomChar h))
  | _ => rfl

end Kinds

theorem prototypeChars_inj {name name' : String} {params params' : List String}
    (hname : IsWord name) (hname' : IsWord name') (hparams : ∀ param ∈ params, IsWord param)
    (hparams' : ∀ param ∈ params', IsWord param)
    (h : prototypeChars name params ++ text = prototypeChars name' params' ++ text') :
    name = name' ∧ params = params' ∧ text = text' := by
  simp only [prototypeChars, List.cons_append, List.nil_append, List.append_assoc,
    List.cons.injEq, true_and] at h
  obtain ⟨rfl, hlist⟩ := hname.inj hname' (parted_space _) (parted_space _) h
  simp only [List.cons.injEq, true_and] at hlist
  obtain ⟨rfl, htexts⟩ := separatedWords_inj hparams hparams' hlist
  exact ⟨rfl, rfl, (List.cons.inj htexts).2⟩

theorem parted_argChars (args : List Tree) (text : List Char) :
    Parted (argChars args ++ ')' :: text) := by
  cases args with
  | nil => exact parted_close text
  | cons arg args => exact parted_space _

mutual

/-- A tree can be read off the text that begins with it. If it is a word or a number, it has to
be parted from what follows. -/
theorem chars_inj {text text' : List Char} (first second : Tree) (hfirst : first.IsReadable)
    (hsecond : second.IsReadable) (htext : first.isAtom = true → Parted text)
    (htext' : second.isAtom = true → Parted text')
    (h : first.chars ++ text = second.chars ++ text') : first = second ∧ text = text' := by
  have hkind : first.kind = second.kind := by
    rw [← hfirst.kind_eq text, h, hsecond.kind_eq]
  cases first with
  | number value =>
    cases second with
    | number value' =>
      obtain ⟨rfl, htexts⟩ := hfirst.inj hsecond (htext rfl) (htext' rfl) h
      exact ⟨rfl, htexts⟩
    | _ => cases hkind
  | var name =>
    cases second with
    | var name' =>
      obtain ⟨rfl, htexts⟩ := IsWord.inj hfirst hsecond (htext rfl) (htext' rfl) h
      exact ⟨rfl, htexts⟩
    | _ => cases hkind
  | binary op lhs rhs =>
    cases second with
    | binary op' lhs' rhs' =>
      simp only [chars, List.cons_append, List.append_assoc, List.nil_append, List.cons.injEq,
        true_and] at h
      obtain ⟨rfl, hright⟩ := chars_inj lhs lhs' hfirst.1 hsecond.1 (fun _ => parted_space _)
        (fun _ => parted_space _) h.2
      obtain ⟨rfl, htexts⟩ := chars_inj rhs rhs' hfirst.2 hsecond.2 (fun _ => parted_close _)
        (fun _ => parted_close _) (List.cons.inj hright).2
      exact ⟨by rw [Operator.symbol_inj h.1], (List.cons.inj htexts).2⟩
    | _ => cases hkind
  | call callee args =>
    cases second with
    | call callee' args' =>
      simp only [chars, List.cons_append, List.append_assoc, List.nil_append, List.cons.injEq,
        true_and] at h
      obtain ⟨rfl, hargs⟩ := hfirst.1.inj hsecond.1 (parted_argChars _ _) (parted_argChars _ _) h
      obtain ⟨rfl, htexts⟩ := argChars_inj args args' hfirst.2 hsecond.2 hargs
      exact ⟨rfl, htexts⟩
    | _ => cases hkind
  | prototype name params =>
    cases second with
    | prototype name' params' =>
      obtain ⟨rfl, rfl, htexts⟩ := prototypeChars_inj hfirst.1 hsecond.1 hfirst.2 hsecond.2 h
      exact ⟨rfl, htexts⟩
    | _ => cases hkind
  | function name params body =>
    cases second with
    | function name' params' body' =>
      simp only [chars, List.cons_append, List.append_assoc, List.nil_append, List.cons.injEq,
        true_and] at h
      obtain ⟨rfl, rfl, hbody⟩ :=
        prototypeChars_inj hfirst.1.1 hsecond.1.1 hfirst.1.2 hsecond.1.2 h
      obtain ⟨rfl, htexts⟩ := chars_inj body body' hfirst.2 hsecond.2 (fun _ => parted_close _)
        (fun _ => parted_close _) (List.cons.inj hbody).2
      exact ⟨rfl, (List.cons.inj htexts).2⟩
    | _ => cases hkind

/-- Arguments can be read off the text up to the parenthesis of the call. -/
theorem argChars_inj {text text' : List Char} (args args' : List Tree) (hargs : AllReadable args)
    (hargs' : AllReadable args')
    (h : argChars args ++ ')' :: text = argChars args' ++ ')' :: text') :
    args = args' ∧ text = text' := by
  cases args with
  | nil =>
    cases args' with
    | nil => exact ⟨rfl, (List.cons.inj h).2⟩
    | cons arg' args' => simp [argChars] at h
  | cons arg args =>
    cases args' with
    | nil => simp [argChars] at h
    | cons arg' args' =>
      simp only [argChars, List.cons_append, List.append_assoc, List.cons.injEq, true_and] at h
      obtain ⟨rfl, hothers⟩ := chars_inj arg arg' hargs.1 hargs'.1
        (fun _ => parted_argChars _ _) (fun _ => parted_argChars _ _) h
      obtain ⟨rfl, htexts⟩ := argChars_inj args args' hargs.2 hargs'.2 hothers
      exact ⟨rfl, htexts⟩

end

end Tree

namespace Node

/-- A tree with words for names and finite numbers is determined by its text on one line, and no
text in parentheses begins with another one. -/
theorem sexpr_determines_tree (first second : Node) (hfirst : first.tree.IsReadable)
    (hsecond : second.tree.IsReadable) :
    (first.sexpr = second.sexpr → first.tree = second.tree) ∧
    (first.sexpr.toList.head? = some '(' → second.sexpr.toList.head? = some '(' →
      ∀ rest, first.sexpr ++ rest = second.sexpr → rest = "") := by
  have hread : ∀ text, first.sexpr.toList ++ text = second.sexpr.toList →
      (first.tree.isAtom = true → Parted text) → first.tree = second.tree ∧ text = [] := by
    intro text h hparted
    rw [toList_sexpr, toList_sexpr, ← List.append_nil second.tree.chars] at h
    exact Tree.chars_inj _ _ hfirst hsecond hparted (fun _ => parted_nil) h
  constructor
  · intro h
    exact (hread [] (by rw [List.append_nil, h]) fun _ => parted_nil).1
  · intro hopen _ rest h
    have hlist : first.sexpr.toList ++ rest.toList = second.sexpr.toList := by
      rw [← String.toList_append, h]
    rw [toList_sexpr] at hopen
    have hatom : first.tree.isAtom = true → Parted rest.toList := fun h =>
      absurd h (by rw [hfirst.isAtom_eq hopen]; decide)
    exact String.toList_eq_nil_iff.mp (hread _ hlist hatom).2

/-- A definition whose names are the words of the format. -/
theorem sexpr_determines_tree_of_keywords :
    (function ⟨"proto", ["def", "call"], ⟨⟨4, "a"⟩, ⟨19, "a"⟩⟩⟩
      (call "call" [number ⟨0x4000000000000000⟩ ⟨⟨25, "a"⟩, ⟨26, "a"⟩⟩] ⟨⟨20, "a"⟩, ⟨27, "a"⟩⟩)
      ⟨⟨0, "a"⟩, ⟨27, "a"⟩⟩).sexpr = "(def (proto proto (def call)) (call call 2))" ∧
    (function ⟨"proto", ["def", "call"], ⟨⟨5, "b"⟩, ⟨20, "b"⟩⟩⟩
      (call "call" [number ⟨0x4000000000000000⟩ ⟨⟨27, "b"⟩, ⟨28, "b"⟩⟩] ⟨⟨22, "b"⟩, ⟨30, "b"⟩⟩)
      ⟨⟨0, "b"⟩, ⟨30, "b"⟩⟩).sexpr = "(def (proto proto (def call)) (call call 2))" ∧
    (function ⟨"proto", ["def", "call"], ⟨⟨4, "a"⟩, ⟨19, "a"⟩⟩⟩
      (call "call" [number ⟨0x4000000000000000⟩ ⟨⟨25, "a"⟩, ⟨26, "a"⟩⟩] ⟨⟨20, "a"⟩, ⟨27, "a"⟩⟩)
      ⟨⟨0, "a"⟩, ⟨27, "a"⟩⟩).tree =
    (function ⟨"proto", ["def", "call"], ⟨⟨5, "b"⟩, ⟨20, "b"⟩⟩⟩
      (call "call" [number ⟨0x4000000000000000⟩ ⟨⟨27, "b"⟩, ⟨28, "b"⟩⟩] ⟨⟨22, "b"⟩, ⟨30, "b"⟩⟩)
      ⟨⟨0, "b"⟩, ⟨30, "b"⟩⟩).tree := by
  have hproto : IsWord "proto" := ⟨'p', ['r', 'o', 't', 'o'], rfl, by decide, by simp⟩
  have hdef : IsWord "def" := ⟨'d', ['e', 'f'], rfl, by decide, by simp⟩
  have hcall : IsWord "call" := ⟨'c', ['a', 'l', 'l'], rfl, by decide, by simp⟩
  have hnumber : Binary64.IsFinite ⟨0x4000000000000000⟩ := ⟨by decide, by decide⟩
  have hparams : ∀ param ∈ ["def", "call"], IsWord param := by simp [hdef, hcall]
  refine ⟨?first, ?second, (sexpr_determines_tree _ _ ?_ ?_).1 (Eq.trans ?first (Eq.symm ?second))⟩
  case first => decide +kernel
  case second => decide +kernel
  all_goals exact ⟨⟨hproto, hparams⟩, hcall, hnumber, trivial⟩

-- An infinite number and a variable may have the same text.
example (span : Span) : (number ⟨0x7FF0000000000000⟩ span).sexpr = (var "inf" span).sexpr :=
  rfl

end Node

end ExprLang
