import ExprLang.Proofs.Acceptance
import ExprLang.Proofs.Layout

/-!
Trees written in infix form. An operand stands in parentheses where it would be
read with other operators otherwise, any expression may stand in more of them,
and whole expressions and bodies stand in one pair at least. However a list of
trees is written and laid out, reading gives it back.
-/
namespace ExprLang

open Token.Kind (mark)

namespace Tree

def isSum : Tree → Bool
  | binary .add _ _ | binary .subtract _ _ => true
  | _ => false

def isBinary : Tree → Bool
  | binary _ _ _ => true
  | _ => false

end Tree

namespace Operator

/-- A left operand needs parentheses if it binds looser than the operator. -/
def needsLeft (op : Operator) (lhs : Tree) : Bool :=
  match op with
  | multiply => lhs.isSum
  | add | subtract => false

/-- A right operand needs parentheses unless it binds tighter than the operator. -/
def needsRight (op : Operator) (rhs : Tree) : Bool :=
  match op with
  | multiply => rhs.isBinary
  | add | subtract => rhs.isSum

end Operator

inductive Writing where
  | expression (wrapped : Bool) (tree : Tree)
  | arguments (trees : List Tree)

inductive Written : Writing → List Token.Kind → Prop
  | number {digits value} (hvalue : Binary64.ofDigits? digits = some value) :
      Written (.expression false (.number value)) [.number digits]
  | name {name} (hname : IsName name) :
      Written (.expression false (.var name)) [.identifier name]
  | call {name args kinds} (hname : IsName name) (hargs : Written (.arguments args) kinds) :
      Written (.expression false (.call name args))
        (.identifier name :: mark '(' :: (kinds ++ [mark ')']))
  | binary {op lhs rhs left right kinds kinds'} (hlhs : Written (.expression left lhs) kinds)
      (hrhs : Written (.expression right rhs) kinds')
      (hleft : op.needsLeft lhs = true → left = true)
      (hright : op.needsRight rhs = true → right = true) :
      Written (.expression false (.binary op lhs rhs)) (kinds ++ mark op.symbol :: kinds')
  | parentheses {wrapped tree kinds} (hinner : Written (.expression wrapped tree) kinds) :
      Written (.expression true tree) (mark '(' :: (kinds ++ [mark ')']))
  | noArguments : Written (.arguments []) []
  | lastArgument {wrapped tree kinds} (harg : Written (.expression wrapped tree) kinds) :
      Written (.arguments [tree]) kinds
  | argument {wrapped tree kinds next args kinds'} (harg : Written (.expression wrapped tree) kinds)
      (hargs : Written (.arguments (next :: args)) kinds') :
      Written (.arguments (tree :: next :: args)) (kinds ++ mark ',' :: kinds')

inductive WrittenTop : Tree → List Token.Kind → Prop
  | expression {tree kinds} (h : Written (.expression true tree) kinds) : WrittenTop tree kinds
  | function {name params body kinds} (hname : IsName name)
      (hparams : ∀ param ∈ params, IsName param) (hbody : Written (.expression true body) kinds) :
      WrittenTop (.function name params body)
        (.define :: ((.identifier name :: mark '(' :: (params.map .identifier ++ [mark ')'])) ++ kinds))
  | prototype {name params} (hname : IsName name) (hparams : ∀ param ∈ params, IsName param) :
      WrittenTop (.prototype name params)
        (.declare :: .identifier name :: mark '(' :: (params.map .identifier ++ [mark ')']))

/-- What a writing derives: an expression is a chain that parentheses close, and the
operators of the chain are those that its tree leaves open. -/
def Writing.Derived (writing : Writing) (kinds : List Token.Kind) : Prop :=
  match writing with
  | .expression wrapped tree => ∃ first links kinds₁ kinds₂, kinds = kinds₁ ++ kinds₂ ∧
      Derives (.primary first) kinds₁ ∧ Derives (.links links) kinds₂ ∧ Groups first links tree ∧
      (wrapped = true ∨ tree.isBinary = false → links = []) ∧
      (wrapped = true ∨ tree.isSum = false → ∀ link ∈ links, link.1 = .multiply)
  | .arguments trees => Derives (.arguments trees) kinds

section Operands

variable {op : Operator} {lhs rhs : Tree} {links : List (Operator × Tree)} {wrapped : Bool}

/-- Nothing left of an operator is looser. -/
theorem Operator.not_tighter_of_needsLeft (hneeds : op.needsLeft lhs = true → wrapped = true)
    (hlinks : wrapped = true ∨ lhs.isSum = false → ∀ link ∈ links, link.1 = .multiply) :
    ∀ link ∈ links, ¬ op.Tighter link.1 := by
  rintro link hlink ⟨rfl, hlink'⟩
  have hclosed : wrapped = true ∨ lhs.isSum = false := by
    cases hsum : lhs.isSum with
    | true => exact Or.inl (hneeds hsum)
    | false => exact Or.inr rfl
  exact hlink' (hlinks hclosed link hlink)

/-- Everything right of an operator binds tighter. -/
theorem Operator.tighter_of_needsRight (hneeds : op.needsRight rhs = true → wrapped = true)
    (hnone : wrapped = true ∨ rhs.isBinary = false → links = [])
    (hlinks : wrapped = true ∨ rhs.isSum = false → ∀ link ∈ links, link.1 = .multiply) :
    ∀ link ∈ links, link.1.Tighter op := by
  intro link hlink
  by_cases hop : op = .multiply
  · subst hop
    have hclosed : wrapped = true ∨ rhs.isBinary = false := by
      cases hbinary : rhs.isBinary with
      | true => exact Or.inl (hneeds hbinary)
      | false => exact Or.inr rfl
    rw [hnone hclosed] at hlink
    cases hlink
  · have hclosed : wrapped = true ∨ rhs.isSum = false := by
      cases hsum : rhs.isSum with
      | true =>
        refine Or.inl (hneeds ?_)
        cases op with
        | multiply => exact absurd rfl hop
        | add | subtract => exact hsum
      | false => exact Or.inr rfl
    exact ⟨hlinks hclosed link hlink, hop⟩

end Operands

/-- An operand that is closed is a chain without operators. -/
theorem Writing.Derived.closed {wrapped : Bool} {tree : Tree} {kinds : List Token.Kind}
    (h : Derives (.primary tree) kinds) : Writing.Derived (.expression wrapped tree) kinds :=
  ⟨tree, [], kinds, [], by simp, h, .noLinks, .operand tree, fun _ => rfl, by simp⟩

theorem Writing.Derived.expression {wrapped : Bool} {tree : Tree} {kinds : List Token.Kind}
    (h : Writing.Derived (.expression wrapped tree) kinds) : Derives (.expression tree) kinds := by
  obtain ⟨first, links, kinds₁, kinds₂, rfl, hfirst, hlinks, hgroups, -⟩ := h
  exact .expression hfirst hlinks hgroups

/-- What is written derives from the grammar with the tree that is written. -/
theorem Written.derived {writing : Writing} {kinds : List Token.Kind} (h : Written writing kinds) :
    writing.Derived kinds := by
  induction h with
  | number hvalue => exact .closed (.number hvalue)
  | @name name hname => exact .closed (.name name)
  | @call name args kinds hname hargs ih => exact .closed (.call name ih)
  | parentheses hinner ih => exact .closed (.parentheses ih.expression)
  | noArguments => exact Derives.noArguments
  | lastArgument harg ih => exact Derives.lastArgument ih.expression
  | argument harg hargs ih₁ ih₂ => exact Derives.argument ih₁.expression ih₂
  | @binary op lhs rhs left right kinds kinds' hlhs hrhs hleft hright ih₁ ih₂ =>
    obtain ⟨first, links, kinds₁, kinds₂, rfl, hfirst, hlinks, hgroups, -, hopen⟩ := ih₁
    obtain ⟨second, links', kinds₃, kinds₄, rfl, hsecond, hlinks', hgroups', hnone, hopen'⟩ := ih₂
    have hbefore := Operator.not_tighter_of_needsLeft hleft hopen
    have hbehind := Operator.tighter_of_needsRight hright hnone hopen'
    refine ⟨first, links ++ (op, second) :: links', kinds₁,
      kinds₂ ++ mark op.symbol :: (kinds₃ ++ kinds₄), by simp, hfirst,
      hlinks.links_append (.link op hsecond hlinks'), .root hgroups hgroups' hbefore hbehind,
      by simp [Tree.isBinary], ?_⟩
    intro hsum
    have hop : op = .multiply := by
      cases op with
      | multiply => rfl
      | add | subtract => simp [Tree.isSum] at hsum
    subst hop
    intro link hlink
    rcases List.mem_append.mp hlink with hmem | hmem
    · exact of_not_not fun hne => hbefore link hmem ⟨rfl, hne⟩
    · rcases List.mem_cons.mp hmem with rfl | hmem
      · rfl
      · exact (hbehind link hmem).1

namespace WrittenTop

variable {tree : Tree} {kinds : List Token.Kind}

theorem derives (h : WrittenTop tree kinds) : Derives (.top tree) kinds := by
  cases h with
  | expression hwritten => exact .top hwritten.derived.expression
  | @function name params body kinds hname hparams hbody =>
    exact .definition (.prototype name params) hbody.derived.expression
  | @prototype name params hname hparams => exact .declaration (.prototype name params)

/-- A construct ends with a parenthesis. -/
theorem getLast?_eq (h : WrittenTop tree kinds) : kinds.getLast? = some (mark ')') := by
  have hwrapped : ∀ {tree kinds}, Written (.expression true tree) kinds →
      kinds.getLast? = some (mark ')') := by
    intro tree kinds hwritten
    cases hwritten with
    | parentheses => rw [← List.cons_append, List.getLast?_concat]
  cases h with
  | expression hwritten => exact hwrapped hwritten
  | function hname hparams hbody =>
    rw [← List.cons_append, List.getLast?_append, hwrapped hbody, Option.some_or]
  | prototype =>
    rw [← List.cons_append, ← List.cons_append, ← List.cons_append, List.getLast?_concat]

/-- No construct goes on with the one in front of it. -/
theorem divided {trees : List Tree} {pieces : List (List Token.Kind)}
    (h : List.Forall₂ WrittenTop trees pieces) : Divided trees pieces.flatten := by
  induction h with
  | nil => exact .nil
  | @cons tree piece trees pieces hpiece hpieces ih =>
    refine .cons hpiece.derives (fun kind hkind => ?_) ih
    constructor
    · cases hpieces with
      | nil => simp at hkind
      | @cons _ next _ pieces hnext =>
        obtain ⟨first, tail, rfl, hnone⟩ := hnext.derives.top_begins
        obtain rfl : first = kind := by simpa using hkind
        exact hnone
    · intro _ name hname
      rw [hpiece.getLast?_eq] at hname
      simp [mark] at hname

end WrittenTop

section Legality

theorem Token.Kind.isLegal_number {digits : String} {value : Binary64}
    (h : Binary64.ofDigits? digits = some value) : (number digits).IsLegal := by
  unfold Binary64.ofDigits? at h
  split at h
  · next hdigits => exact .number hdigits.1 (List.all_eq_true.mp hdigits.2)
  · cases h

theorem Operator.isLegal_symbol (op : Operator) : (mark op.symbol).IsLegal := by
  apply Token.Kind.IsLegal.mark
  cases op <;> decide

/-- Only legal tokens are written. -/
theorem Written.isLegal {writing : Writing} {kinds : List Token.Kind} (h : Written writing kinds) :
    ∀ kind ∈ kinds, kind.IsLegal := by
  have hopen : (mark '(').IsLegal := .mark (by decide)
  have hclose : (mark ')').IsLegal := .mark (by decide)
  have hcomma : (mark ',').IsLegal := .mark (by decide)
  induction h with
  | number hvalue => simpa using Token.Kind.isLegal_number hvalue
  | name hname => simpa using Token.Kind.IsLegal.identifier hname
  | call hname hargs ih =>
    have hcallee := Token.Kind.IsLegal.identifier hname
    simpa [or_imp, forall_and, hopen, hclose, hcallee] using ih
  | @binary op lhs rhs left right kinds kinds' hlhs hrhs hleft hright ih₁ ih₂ =>
    have hop := op.isLegal_symbol
    simp only [List.mem_append, List.mem_cons, or_imp, forall_and, forall_eq]
    exact ⟨ih₁, hop, ih₂⟩
  | parentheses hinner ih => simpa [or_imp, forall_and, hopen, hclose] using ih
  | noArguments => simp
  | lastArgument harg ih => exact ih
  | argument harg hargs ih₁ ih₂ =>
    simp only [List.mem_append, List.mem_cons, or_imp, forall_and, forall_eq]
    exact ⟨ih₁, hcomma, ih₂⟩

theorem WrittenTop.isLegal {tree : Tree} {kinds : List Token.Kind} (h : WrittenTop tree kinds) :
    ∀ kind ∈ kinds, kind.IsLegal := by
  have hopen : (mark '(').IsLegal := .mark (by decide)
  have hclose : (mark ')').IsLegal := .mark (by decide)
  have hproto : ∀ {name : String} {params : List String}, IsName name →
      (∀ param ∈ params, IsName param) → ∀ kind ∈ Token.Kind.identifier name :: mark '(' ::
        (params.map Token.Kind.identifier ++ [mark ')']), kind.IsLegal := by
    intro name params hname hparams kind hkind
    simp only [List.mem_cons, List.mem_append, List.mem_map, List.not_mem_nil, or_false] at hkind
    rcases hkind with rfl | rfl | ⟨param, hparam, rfl⟩ | rfl
    · exact .identifier hname
    · exact hopen
    · exact .identifier (hparams param hparam)
    · exact hclose
  cases h with
  | expression hwritten => exact hwritten.isLegal
  | function hname hparams hbody =>
    have hhead := hproto hname hparams
    exact List.forall_mem_cons.mpr ⟨.define, List.forall_mem_append.mpr ⟨hhead, hbody.isLegal⟩⟩
  | prototype hname hparams => exact List.forall_mem_cons.mpr ⟨.declare, hproto hname hparams⟩

theorem WrittenTop.isLegal_flatten {trees : List Tree} {pieces : List (List Token.Kind)}
    (h : List.Forall₂ WrittenTop trees pieces) : ∀ kind ∈ pieces.flatten, kind.IsLegal := by
  induction h with
  | nil => simp
  | cons hpiece hpieces ih =>
    rw [List.flatten_cons]
    exact List.forall_mem_append.mpr ⟨hpiece.isLegal, ih⟩

end Legality

/-- Reading undoes writing. However trees are written one after another, with more
parentheses than needed or not, and however the tokens are laid out, reading the
text gives nodes with just these trees in order and reports nothing. -/
theorem parse_written (source : String) (file : Option String) (trees : List Tree)
    (pieces : List (List Token.Kind)) (hwritten : List.Forall₂ WrittenTop trees pieces)
    (hlayout : LaidOut none pieces.flatten source.toList) :
    ∃ nodes, (parse source file).outcome = .ok nodes ∧ nodes.map Node.tree = trees ∧
      (parse source file).parser.diagnostics = #[] := by
  have hlegal := WrittenTop.isLegal_flatten hwritten
  obtain ⟨tokens, final, htokens, hkinds⟩ := hlayout.exists_tokenize hlegal file
  apply parse_of_divided htokens
  rw [hkinds]
  exact WrittenTop.divided hwritten

/-- The case of a product with a sum as its right operand. -/
theorem parse_written_of_product :
    List.Forall₂ WrittenTop [.binary .multiply (.var "a") (.binary .add (.var "b") (.var "c"))]
      [[mark '(', .identifier "a", mark '*', mark '(', .identifier "b", mark '+', .identifier "c",
        mark ')', mark ')']] ∧
    LaidOut none [mark '(', .identifier "a", mark '*', mark '(', .identifier "b", mark '+',
      .identifier "c", mark ')', mark ')'] "(a*(b+c))".toList ∧
    ∃ nodes, (parse "(a*(b+c))" none).outcome = .ok nodes ∧
      nodes.map Node.tree = [.binary .multiply (.var "a") (.binary .add (.var "b") (.var "c"))] ∧
      (parse "(a*(b+c))" none).parser.diagnostics = #[] := by
  have ha : IsName "a" := ⟨⟨'a', [], by decide, by decide, by simp⟩, by decide⟩
  have hb : IsName "b" := ⟨⟨'b', [], by decide, by decide, by simp⟩, by decide⟩
  have hc : IsName "c" := ⟨⟨'c', [], by decide, by decide, by simp⟩, by decide⟩
  have hsum : Written (.expression true (.binary .add (.var "b") (.var "c")))
      [mark '(', .identifier "b", mark '+', .identifier "c", mark ')'] :=
    .parentheses (.binary (.name hb) (.name hc) (by decide) (by decide))
  have hproduct : WrittenTop (.binary .multiply (.var "a") (.binary .add (.var "b") (.var "c")))
      [mark '(', .identifier "a", mark '*', mark '(', .identifier "b", mark '+', .identifier "c",
        mark ')', mark ')'] :=
    .expression (.parentheses (.binary (.name ha) hsum (by decide) (by decide)))
  have hend : LaidOut (some (mark ')')) [] [] := .finish (by simp)
  have hlayout : LaidOut none [mark '(', .identifier "a", mark '*', mark '(', .identifier "b",
      mark '+', .identifier "c", mark ')', mark ')'] "(a*(b+c))".toList :=
    .touch (by simp) (.touch (by decide) (.touch (by decide) (.touch (by decide) (.touch (by decide)
      (.touch (by decide) (.touch (by decide) (.touch (by decide) (.touch (by decide) hend))))))))
  exact ⟨.cons hproduct .nil, hlayout, parse_written _ none _ _ (.cons hproduct .nil) hlayout⟩

end ExprLang
