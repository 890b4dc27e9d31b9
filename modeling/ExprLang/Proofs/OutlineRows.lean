import ExprLang.Outline
import ExprLang.Proofs.NumberText
import ExprLang.Proofs.Tiling
import ExprLang.Proofs.Tree
import Mathlib.Data.Fintype.Basic

/-!
The outline of a tree determines the tree. An outline is a list of rows, each with a level, a
label and what stands behind the label. The rows are read off the text, whatever the
indentation consists of, because no label can be taken for another one with indentation in
front of it. The tree is read off the rows, because all rows of a node but the first one are
deeper than the node.
-/
namespace ExprLang

inductive Label where
  | number
  | var
  | binary
  | lhs
  | rhs
  | call
  | arg
  | prototype
  | param
  | function
  | body
deriving DecidableEq

namespace Label

instance : Fintype Label :=
  .ofList [number, var, binary, lhs, rhs, call, arg, prototype, param, function, body]
    fun label => by cases label <;> decide

def text : Label → String
  | number => "number="
  | var => "variable="
  | binary => "bin op="
  | lhs => "lhs="
  | rhs => "rhs="
  | call => "fn call="
  | arg => "arg["
  | prototype => "prototype="
  | param => "param="
  | function => "fn"
  | body => "body="

/-- How a row with the label begins behind its indentation. Nothing stands behind the label of
a function, so its row ends there. -/
def opening : Label → List Char
  | function => ['f', 'n', '\n']
  | label => label.text.toList

theorem eq_of_prefix_opening {a b : Label} (h : a.opening <+: b.opening) : a = b := by
  revert a b
  decide +kernel

/-- No label is another one behind a character of indentation. -/
theorem tail_opening_incomparable (a b : Label) :
    ¬ a.opening.tail <+: b.opening ∧ ¬ b.opening <+: a.opening.tail := by
  revert a b
  decide +kernel

/-- No label begins with two characters of indentation. -/
theorem opening_eq_cons_cons (a : Label) :
    ∃ first second rest, a.opening = first :: second :: rest ∧ first ≠ second := by
  cases a <;> exact ⟨_, _, _, rfl, by decide⟩

/-- What two texts begin with is comparable if the texts are the same. -/
theorem comparable_of_append {a b text text' : List Char} (h : a ++ text = b ++ text') :
    a <+: b ∨ b <+: a :=
  List.prefix_or_prefix_of_prefix ⟨text, h⟩ (List.prefix_append _ _)

/-- Indentation ends at one place in front of labels, and the labels are the same. A character
of a label may be taken for indentation, but then what is left is no label. -/
theorem indentation_inj_of_le {a b : Label} {c : Char} {n n' : Nat} {text text' : List Char}
    (hle : n ≤ n')
    (h : List.replicate n c ++ (a.opening ++ text) =
      List.replicate n' c ++ (b.opening ++ text')) : n = n' ∧ a = b := by
  obtain ⟨excess, rfl⟩ := Nat.exists_eq_add_of_le hle
  rw [List.replicate_add, List.append_assoc, List.append_cancel_left_eq] at h
  obtain ⟨first, second, rest, hopening, hne⟩ := a.opening_eq_cons_cons
  -- At most one character of a label can be taken for indentation.
  match excess with
  | 0 =>
    refine ⟨rfl, ?_⟩
    have htexts : a.opening ++ text = b.opening ++ text' := h
    rcases comparable_of_append htexts with hprefix | hprefix
    · exact eq_of_prefix_opening hprefix
    · exact (eq_of_prefix_opening hprefix).symm
  | 1 =>
    obtain ⟨htail, htail'⟩ := tail_opening_incomparable a b
    rw [hopening] at h htail htail'
    have htexts : (second :: rest) ++ text = b.opening ++ text' := (List.cons.inj h).2
    exact ((comparable_of_append htexts).elim htail htail').elim
  | excess + 2 =>
    rw [hopening] at h
    obtain ⟨hfirst, htexts⟩ := List.cons.inj h
    exact absurd (hfirst.trans (List.cons.inj htexts).1.symm) hne

theorem indentation_inj {a b : Label} {c : Char} {n n' : Nat} {text text' : List Char}
    (h : List.replicate n c ++ (a.opening ++ text) =
      List.replicate n' c ++ (b.opening ++ text')) : n = n' ∧ a = b := by
  rcases Nat.le_total n n' with hle | hle
  · exact indentation_inj_of_le hle h
  · obtain ⟨hn, hlabel⟩ := indentation_inj_of_le hle h.symm
    exact ⟨hn.symm, hlabel.symm⟩

end Label

structure Row where
  level : Nat
  label : Label
  content : String

namespace Row

variable {indent : Indent} {row row' : Row} {rows rows' : List Row} {text text' : List Char}

def line (indent : Indent) (row : Row) : List Char :=
  List.replicate (row.level * indent.size) indent.char ++
    (row.label.text.toList ++ row.content.toList ++ ['\n'])

/-- Rows that are one line each: nothing stands behind the label of a function. -/
structure IsPlain (row : Row) : Prop where
  feed : '\n' ∉ row.content.toList
  bare : row.label = .function → row.content = ""

theorem isPlain_bare (level : Nat) (label : Label) : IsPlain ⟨level, label, ""⟩ :=
  ⟨by simp, fun _ => rfl⟩

/-- A plain row begins with its indentation and its opening. -/
theorem IsPlain.line_eq (h : row.IsPlain) (indent : Indent) : ∃ rest, row.line indent =
    List.replicate (row.level * indent.size) indent.char ++ (row.label.opening ++ rest) := by
  obtain ⟨level, label, content⟩ := row
  by_cases hlabel : label = .function
  · obtain rfl : content = "" := h.bare hlabel
    subst hlabel
    exact ⟨[], by simp [line, Label.text, Label.opening]⟩
  · refine ⟨content.toList ++ ['\n'], ?_⟩
    have hopening : label.opening = label.text.toList := by
      unfold Label.opening
      split
      · exact absurd rfl hlabel
      · rfl
    rw [line, hopening, List.append_assoc]

/-- A plain row can be read off the text that begins with it. -/
theorem IsPlain.line_inj (hrow : row.IsPlain) (hrow' : row'.IsPlain) (hsize : 1 ≤ indent.size)
    (h : row.line indent ++ text = row'.line indent ++ text') : row = row' ∧ text = text' := by
  obtain ⟨hlevel, hlabel⟩ : row.level = row'.level ∧ row.label = row'.label := by
    obtain ⟨rest, hline⟩ := hrow.line_eq indent
    obtain ⟨rest', hline'⟩ := hrow'.line_eq indent
    rw [hline, hline'] at h
    simp only [List.append_assoc] at h
    obtain ⟨hwidth, hlabel⟩ := Label.indentation_inj h
    exact ⟨Nat.eq_of_mul_eq_mul_right hsize hwidth, hlabel⟩
  simp only [line, hlevel, hlabel, List.append_assoc, List.append_cancel_left_eq] at h
  have hplain : ∀ r : Row, r.IsPlain → ∀ c ∈ r.content.toList, (c != '\n') = true := by
    intro r hr c hc
    rw [bne_iff_ne]
    rintro rfl
    exact hr.feed hc
  obtain ⟨hcontent, htext⟩ := run_inj (hplain row hrow) (hplain row' hrow')
    (by simp) (by simp) h
  obtain ⟨level, label, content⟩ := row
  obtain ⟨level', label', content'⟩ := row'
  obtain rfl : level = level' := hlevel
  obtain rfl : label = label' := hlabel
  obtain rfl : content = content' := String.toList_inj.mp hcontent
  exact ⟨rfl, (List.cons.inj htext).2⟩

theorem line_ne_nil (indent : Indent) (row : Row) : row.line indent ≠ [] := by
  simp [line]

/-- Plain rows can be read off their text. -/
theorem eq_of_lines (hsize : 1 ≤ indent.size) (hrows : ∀ row ∈ rows, row.IsPlain)
    (hrows' : ∀ row ∈ rows', row.IsPlain)
    (h : rows.flatMap (line indent) = rows'.flatMap (line indent)) : rows = rows' := by
  induction rows generalizing rows' with
  | nil =>
    cases rows' with
    | nil => rfl
    | cons row' rows' =>
      rw [List.flatMap_cons] at h
      exact absurd (List.append_eq_nil_iff.mp h.symm).1 (line_ne_nil indent row')
  | cons row rows ih =>
    cases rows' with
    | nil =>
      rw [List.flatMap_cons] at h
      exact absurd (List.append_eq_nil_iff.mp h).1 (line_ne_nil indent row)
    | cons row' rows' =>
      rw [List.forall_mem_cons] at hrows hrows'
      rw [List.flatMap_cons, List.flatMap_cons] at h
      obtain ⟨rfl, hrest⟩ := hrows.1.line_inj hrows'.1 hsize h
      rw [ih hrows.2 hrows'.2 hrest]

end Row

namespace Tree

def prototypeRows (level : Nat) (name : String) (params : List String) : List Row :=
  ⟨level, .prototype, name⟩ :: params.map (⟨level + 1, .param, ·⟩)

mutual

def rows (level : Nat) : Tree → List Row
  | .number value => [⟨level, .number, value.text⟩]
  | .var name => [⟨level, .var, name⟩]
  | .binary op lhs rhs =>
    ⟨level, .binary, op.symbol.toString⟩ :: ⟨level + 1, .lhs, ""⟩ ::
      (rows (level + 2) lhs ++ ⟨level + 1, .rhs, ""⟩ :: rows (level + 2) rhs)
  | .call callee args => ⟨level, .call, callee⟩ :: argRows level 0 args
  | .prototype name params => prototypeRows level name params
  | .function name params body =>
    ⟨level, .function, ""⟩ ::
      (prototypeRows (level + 1) name params ++ ⟨level + 1, .body, ""⟩ :: rows (level + 2) body)

def argRows (level index : Nat) : List Tree → List Row
  | [] => []
  | arg :: args =>
    ⟨level + 1, .arg, index.repr ++ "]="⟩ ::
      (rows (level + 2) arg ++ argRows level (index + 1) args)

end

end Tree

section Writing

variable (indent : Indent)

theorem Indent.toList_writeLine (level : Nat) (text out : String) :
    (indent.writeLine level text out).toList =
      out.toList ++ List.replicate (level * indent.size) indent.char ++ text.toList ++ ['\n'] := by
  rw [writeLine, String.toList_push, String.toList_append, toList_pushn]

theorem Prototype.toList_writeOutline (level : Nat) (proto : Prototype) (out : String) :
    (proto.writeOutline indent level out).toList =
      out.toList ++
        (Tree.prototypeRows level proto.name proto.params).flatMap (Row.line indent) := by
  have hparams : ∀ (params : List String) (out : String),
      (params.foldl (fun out param => indent.writeLine (level + 1) ("param=" ++ param) out)
        out).toList =
      out.toList ++ (params.map (Row.mk (level + 1) .param)).flatMap (Row.line indent) := by
    intro params
    induction params with
    | nil => simp
    | cons param params ih =>
      intro out
      rw [List.foldl_cons, ih, indent.toList_writeLine]
      simp [Row.line, Label.text]
  rw [writeOutline, hparams, indent.toList_writeLine]
  simp [Tree.prototypeRows, Row.line, Label.text]

namespace Node

mutual

/-- What is written for a node are its rows, behind what is already there. -/
theorem toList_writeOutline (level : Nat) (node : Node) (out : String) :
    (node.writeOutline indent level out).toList =
      out.toList ++ (node.tree.rows level).flatMap (Row.line indent) := by
  cases node with
  | number value span | var name span =>
    simp [writeOutline, tree, Tree.rows, Row.line, Label.text, indent.toList_writeLine]
  | binary op lhs rhs span =>
    simp [writeOutline, tree, Tree.rows, Row.line, Label.text, indent.toList_writeLine,
      toList_writeOutline _ lhs, toList_writeOutline _ rhs]
  | call callee args span =>
    simp [writeOutline, tree, Tree.rows, Row.line, Label.text, indent.toList_writeLine,
      toList_writeArgs _ _ args]
  | prototype proto => exact proto.toList_writeOutline indent level out
  | function proto body span =>
    simp [writeOutline, tree, Tree.rows, Row.line, Label.text, indent.toList_writeLine,
      proto.toList_writeOutline, toList_writeOutline _ body]

theorem toList_writeArgs (level index : Nat) (args : List Node) (out : String) :
    (writeArgs indent level index args out).toList =
      out.toList ++ (Tree.argRows level index (trees args)).flatMap (Row.line indent) := by
  cases args with
  | nil => simp [writeArgs, trees, Tree.argRows]
  | cons arg args =>
    simp [writeArgs, trees, Tree.argRows, Row.line, Label.text, indent.toList_writeLine,
      toList_writeOutline _ arg, toList_writeArgs _ _ args]

end

end Node

end Writing

namespace Tree

variable {level index : Nat} {rest rest' : List Row}

abbrev FitsRows : Tree → Prop := Only (fun value => value.isNaN = false) ('\n' ∉ ·.toList)

abbrev AllFitRows : List Tree → Prop :=
  AllOnly (fun value => value.isNaN = false) ('\n' ∉ ·.toList)

section Plain

theorem isPlain_prototypeRows {name : String} {params : List String} (hname : '\n' ∉ name.toList)
    (hparams : ∀ param ∈ params, '\n' ∉ param.toList) :
    ∀ row ∈ prototypeRows level name params, row.IsPlain := by
  refine List.forall_mem_cons.mpr ⟨⟨hname, nofun⟩, ?_⟩
  rw [List.forall_mem_map]
  exact fun param hparam => ⟨hparams param hparam, nofun⟩

theorem feed_not_mem_index (index : Nat) : '\n' ∉ (index.repr ++ "]=").toList := by
  rw [String.toList_append, Nat.toList_repr, List.mem_append, not_or]
  exact ⟨fun h => absurd (Nat.isDigit_of_mem_toDigits (by decide) (by decide) h) (by decide),
    by decide⟩

mutual

/-- The rows of a tree whose fields fit into rows are one line each. -/
theorem FitsRows.isPlain (level : Nat) (tree : Tree) (h : tree.FitsRows) :
    ∀ row ∈ tree.rows level, row.IsPlain := by
  cases tree with
  | number value =>
    rw [rows, List.forall_mem_singleton]
    exact ⟨Binary64.feed_not_mem_text h, nofun⟩
  | var name =>
    rw [rows, List.forall_mem_singleton]
    exact ⟨h, nofun⟩
  | binary op lhs rhs =>
    have hop : '\n' ∉ op.symbol.toString.toList := by cases op <;> decide
    simp only [rows, List.forall_mem_cons, List.forall_mem_append]
    exact ⟨⟨hop, nofun⟩, Row.isPlain_bare _ _, FitsRows.isPlain _ lhs h.1, Row.isPlain_bare _ _,
      FitsRows.isPlain _ rhs h.2⟩
  | call callee args =>
    rw [rows, List.forall_mem_cons]
    exact ⟨⟨h.1, nofun⟩, AllFitRows.isPlain _ _ args h.2⟩
  | prototype name params => exact isPlain_prototypeRows h.1 h.2
  | function name params body =>
    simp only [rows, List.forall_mem_cons, List.forall_mem_append]
    exact ⟨Row.isPlain_bare _ _, isPlain_prototypeRows h.1.1 h.1.2, Row.isPlain_bare _ _,
      FitsRows.isPlain _ body h.2⟩

theorem AllFitRows.isPlain (level index : Nat) (args : List Tree) (h : AllFitRows args) :
    ∀ row ∈ argRows level index args, row.IsPlain := by
  cases args with
  | nil => exact fun row hrow => absurd hrow List.not_mem_nil
  | cons arg args =>
    simp only [argRows, List.forall_mem_cons, List.forall_mem_append]
    exact ⟨⟨feed_not_mem_index index, nofun⟩, FitsRows.isPlain _ arg h.1,
      AllFitRows.isPlain _ _ args h.2⟩

end

end Plain

/-- The first row, if there is one, is no deeper than the level. -/
def Ends (level : Nat) (rows : List Row) : Prop := ∀ row ∈ rows.head?, row.level ≤ level

section Reading

theorem Ends.mono {deeper : Nat} (h : Ends level rest) (hle : level ≤ deeper) :
    Ends deeper rest := fun row hrow => (h row hrow).trans hle

theorem ends_cons_iff {row : Row} : Ends level (row :: rest) ↔ row.level ≤ level := by
  simp [Ends]

/-- Rows of parameters end where the rows are no deeper any more. -/
theorem params_inj {params params' : List String} (hrest : Ends level rest)
    (hrest' : Ends level rest')
    (h : params.map (Row.mk (level + 1) .param) ++ rest =
      params'.map (Row.mk (level + 1) .param) ++ rest') : params = params' ∧ rest = rest' := by
  induction params generalizing params' with
  | nil =>
    cases params' with
    | nil => exact ⟨rfl, h⟩
    | cons param' params' =>
      rw [List.map_nil, List.nil_append] at h
      exact absurd (ends_cons_iff.mp (h ▸ hrest)) (Nat.not_succ_le_self level)
  | cons param params ih =>
    cases params' with
    | nil =>
      rw [List.map_nil, List.nil_append] at h
      exact absurd (ends_cons_iff.mp (h ▸ hrest')) (Nat.not_succ_le_self level)
    | cons param' params' =>
      obtain ⟨hparam, h⟩ := List.cons.inj h
      obtain ⟨rfl, hrest⟩ := ih h
      exact ⟨by rw [(Row.mk.inj hparam).2.2], hrest⟩

theorem prototypeRows_inj {name name' : String} {params params' : List String}
    (hrest : Ends level rest) (hrest' : Ends level rest')
    (h : prototypeRows level name params ++ rest = prototypeRows level name' params' ++ rest') :
    name = name' ∧ params = params' ∧ rest = rest' := by
  obtain ⟨hname, h⟩ := List.cons.inj h
  exact ⟨(Row.mk.inj hname).2.2, params_inj hrest hrest' h⟩

theorem ends_argRows {args : List Tree} (hrest : Ends level rest) :
    Ends (level + 1) (argRows level index args ++ rest) := by
  cases args with
  | nil => exact hrest.mono (Nat.le_succ level)
  | cons arg args => exact ends_cons_iff.mpr le_rfl

mutual

/-- A tree can be read off the rows that begin with it, up to rows that are no deeper. Where its
arguments or parameters end can be told from the level of the next row only. -/
theorem rows_inj {rest rest' : List Row} (level : Nat) (first second : Tree)
    (hfirst : first.FitsRows) (hsecond : second.FitsRows) (hrest : Ends level rest)
    (hrest' : Ends level rest') (h : first.rows level ++ rest = second.rows level ++ rest') :
    first = second ∧ rest = rest' := by
  cases first with
  | number value =>
    cases second with
    | number value' =>
      obtain ⟨hrow, hrest⟩ := List.cons.inj h
      have htext : value.text = value'.text := (Row.mk.inj hrow).2.2
      exact ⟨by rw [Binary64.eq_of_text hfirst hsecond htext], hrest⟩
    | _ => simp [rows, prototypeRows] at h
  | var name =>
    cases second with
    | var name' =>
      obtain ⟨hrow, hrest⟩ := List.cons.inj h
      exact ⟨by rw [(Row.mk.inj hrow).2.2], hrest⟩
    | _ => simp [rows, prototypeRows] at h
  | binary op lhs rhs =>
    cases second with
    | binary op' lhs' rhs' =>
      simp only [rows, List.cons_append, List.append_assoc, List.cons.injEq, Row.mk.injEq,
        true_and] at h
      have hends : ∀ rows, Ends (level + 2) (⟨level + 1, .rhs, ""⟩ :: rows) :=
        fun rows => ends_cons_iff.mpr (Nat.le_succ _)
      obtain ⟨rfl, hright⟩ := rows_inj _ lhs lhs' hfirst.1 hsecond.1 (hends _) (hends _) h.2
      obtain ⟨rfl, hrests⟩ := rows_inj _ rhs rhs' hfirst.2 hsecond.2 (hrest.mono (by omega))
        (hrest'.mono (by omega)) (List.cons.inj hright).2
      have hop : op = op' := Operator.symbol_inj (by simpa using h.1)
      exact ⟨by rw [hop], hrests⟩
    | _ => simp [rows, prototypeRows] at h
  | call callee args =>
    cases second with
    | call callee' args' =>
      obtain ⟨hrow, h⟩ := List.cons.inj h
      obtain ⟨rfl, hrests⟩ := argRows_inj level 0 args args' hfirst.2 hsecond.2 hrest hrest' h
      exact ⟨by rw [(Row.mk.inj hrow).2.2], hrests⟩
    | _ => simp [rows, prototypeRows] at h
  | prototype name params =>
    cases second with
    | prototype name' params' =>
      obtain ⟨rfl, rfl, hrests⟩ := prototypeRows_inj hrest hrest' h
      exact ⟨rfl, hrests⟩
    | _ => simp [rows, prototypeRows] at h
  | function name params body =>
    cases second with
    | function name' params' body' =>
      simp only [rows, List.cons_append, List.append_assoc, List.cons.injEq, true_and] at h
      have hends : ∀ rows, Ends (level + 1) (⟨level + 1, .body, ""⟩ :: rows) :=
        fun rows => ends_cons_iff.mpr le_rfl
      obtain ⟨rfl, rfl, hbody⟩ := prototypeRows_inj (hends _) (hends _) h
      obtain ⟨rfl, hrests⟩ := rows_inj _ body body' hfirst.2 hsecond.2 (hrest.mono (by omega))
        (hrest'.mono (by omega)) (List.cons.inj hbody).2
      exact ⟨rfl, hrests⟩
    | _ => simp [rows, prototypeRows] at h

theorem argRows_inj {rest rest' : List Row} (level index : Nat) (args args' : List Tree)
    (hargs : AllFitRows args) (hargs' : AllFitRows args') (hrest : Ends level rest)
    (hrest' : Ends level rest')
    (h : argRows level index args ++ rest = argRows level index args' ++ rest') :
    args = args' ∧ rest = rest' := by
  cases args with
  | nil =>
    cases args' with
    | nil => exact ⟨rfl, h⟩
    | cons arg' args' =>
      have hdeeper : Ends level (argRows level index (arg' :: args') ++ rest') := h ▸ hrest
      exact absurd (ends_cons_iff.mp hdeeper) (Nat.not_succ_le_self level)
  | cons arg args =>
    cases args' with
    | nil =>
      have hdeeper : Ends level (argRows level index (arg :: args) ++ rest) := h ▸ hrest'
      exact absurd (ends_cons_iff.mp hdeeper) (Nat.not_succ_le_self level)
    | cons arg' args' =>
      simp only [argRows, List.cons_append, List.append_assoc, List.cons.injEq, true_and] at h
      obtain ⟨rfl, hothers⟩ := rows_inj _ arg arg' hargs.1 hargs'.1
        ((ends_argRows hrest).mono (Nat.le_succ _)) ((ends_argRows hrest').mono (Nat.le_succ _)) h
      obtain ⟨rfl, hrests⟩ := argRows_inj level (index + 1) args args' hargs.2 hargs'.2 hrest
        hrest' hothers
      exact ⟨rfl, hrests⟩

end

end Reading

end Tree

namespace Node

/-- An outline is written behind what is already there and does not depend on it. With
indentation of at least one character, whatever character that is, the outline determines the
tree, if no field of it goes over several lines and every number in it is one. -/
theorem outline_determines_tree (indent : Indent) (level : Nat) :
    (∀ node : Node, ∃ text, ∀ out, node.writeOutline indent level out = out ++ text) ∧
    (1 ≤ indent.size → ∀ first second : Node, first.tree.FitsRows → second.tree.FitsRows →
      ∀ out out' text, first.writeOutline indent level out = out ++ text →
        second.writeOutline indent level out' = out' ++ text → first.tree = second.tree) := by
  have hrows : ∀ {node : Node} {out text : String},
      node.writeOutline indent level out = out ++ text →
      text.toList = (node.tree.rows level).flatMap (Row.line indent) := by
    intro node out text h
    have hlists := congrArg String.toList h
    rw [toList_writeOutline, String.toList_append, List.append_cancel_left_eq] at hlists
    exact hlists.symm
  constructor
  · intro node
    refine ⟨String.ofList ((node.tree.rows level).flatMap (Row.line indent)), fun out => ?_⟩
    rw [← String.toList_inj, toList_writeOutline, String.toList_append, String.toList_ofList]
  · intro hsize first second hfirst hsecond out out' text h h'
    have hlines := Row.eq_of_lines hsize (hfirst.isPlain level) (hsecond.isPlain level)
      ((hrows h).symm.trans (hrows h'))
    have hnone : Tree.Ends level [] := nofun
    exact (Tree.rows_inj level _ _ hfirst hsecond hnone hnone (by rw [hlines])).1

/-- A call with the first letter of its rows as indentation, written behind two texts. -/
theorem outline_determines_tree_of_letters :
    (call "n" [number ⟨0x4000000000000000⟩ ⟨⟨2, "a"⟩, ⟨3, "a"⟩⟩]
      ⟨⟨0, "a"⟩, ⟨4, "a"⟩⟩).writeOutline ⟨'n', 1⟩ 1 "" =
        "" ++ "nfn call=n\nnnarg[0]=\nnnnnumber=2\n" ∧
    (call "n" [number ⟨0x4000000000000000⟩ ⟨⟨3, "b"⟩, ⟨4, "b"⟩⟩]
      ⟨⟨0, "b"⟩, ⟨6, "b"⟩⟩).writeOutline ⟨'n', 1⟩ 1 "number=" =
        "number=" ++ "nfn call=n\nnnarg[0]=\nnnnnumber=2\n" ∧
    (call "n" [number ⟨0x4000000000000000⟩ ⟨⟨2, "a"⟩, ⟨3, "a"⟩⟩] ⟨⟨0, "a"⟩, ⟨4, "a"⟩⟩).tree =
      (call "n" [number ⟨0x4000000000000000⟩ ⟨⟨3, "b"⟩, ⟨4, "b"⟩⟩] ⟨⟨0, "b"⟩, ⟨6, "b"⟩⟩).tree := by
  have hname : '\n' ∉ "n".toList := by decide
  have hnumber : Binary64.isNaN ⟨0x4000000000000000⟩ = false := by decide
  refine ⟨?first, ?second, (outline_determines_tree ⟨'n', 1⟩ 1).2 le_rfl _ _
    ⟨hname, hnumber, trivial⟩ ⟨hname, hnumber, trivial⟩ _ _ _ ?first ?second⟩
  case first => decide +kernel
  case second => decide +kernel

-- Without indentation it is open which call the second argument belongs to.
example (span : Span) :
    (call "f" [call "g" [var "x" span] span, var "y" span] span).writeOutline ⟨' ', 0⟩ 0 "" =
      (call "f" [call "g" [var "x" span, var "y" span] span] span).writeOutline ⟨' ', 0⟩ 0 "" :=
  rfl

end Node

end ExprLang
