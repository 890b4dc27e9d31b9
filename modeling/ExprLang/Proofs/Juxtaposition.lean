import ExprLang.Proofs.Recognition

/-!
Constructs one after another. The grammar is ambiguous where one construct ends
with a name and the next one begins with a parenthesis: the two together derive
as one construct too, in which the name is called. So whatever way there is to
divide a program into constructs, there is one whose first construct is not gone
on with by what stands behind it.
-/
namespace ExprLang

open Token.Kind (mark)

theorem Token.Kind.StartsOperand.operator?_eq_none {kind : Token.Kind} (h : kind.StartsOperand) :
    kind.operator? = none := by
  rcases h with ⟨name, rfl⟩ | ⟨digits, rfl⟩ | rfl
  · rfl
  · rfl
  · exact operator?_of_mark rfl (by decide)

namespace Derives

variable {tree arg : Tree} {chain chain' : List (Operator × Tree)} {name : String}
  {kinds kinds' inner : List Token.Kind}

/-- No operator begins a construct. -/
theorem top_begins (h : Derives (.top tree) kinds) :
    ∃ kind tail, kinds = kind :: tail ∧ kind.operator? = none := by
  cases h with
  | definition | declaration => exact ⟨_, _, rfl, rfl⟩
  | top hexpression =>
    obtain ⟨kind, tail, rfl, hstart⟩ := hexpression.begins
    exact ⟨kind, tail, rfl, hstart.operator?_eq_none⟩

/-- An operand that ends with a name is this name. -/
theorem name_of_primary (h : Derives (.primary tree) kinds)
    (hlast : kinds.getLast? = some (.identifier name)) : kinds = [.identifier name] := by
  cases h with
  | name => simpa using hlast
  | number => simp at hlast
  | call _ hargs =>
    rw [← List.cons_append, ← List.cons_append, List.getLast?_concat] at hlast
    simp [mark] at hlast
  | parentheses hinner =>
    rw [← List.cons_append, List.getLast?_concat] at hlast
    simp [mark] at hlast

/-- A name at the end of a chain becomes a call, and the chain goes on behind it. -/
theorem links_called (h : Derives (.links chain) kinds)
    (hlast : kinds.getLast? = some (.identifier name)) (harg : Derives (.expression arg) inner)
    (hlinks : Derives (.links chain') kinds') :
    ∃ chain, Derives (.links chain) (kinds ++ mark '(' :: (inner ++ mark ')' :: kinds')) := by
  induction chain generalizing kinds with
  | nil =>
    cases h
    simp at hlast
  | cons link chain ih =>
    cases h with
    | @link tree kinds₁ chain kinds₂ op hoperand hrest =>
      rw [← List.cons_append, List.getLast?_append] at hlast
      rcases kinds₂.eq_nil_or_concat with rfl | ⟨before, kind, rfl⟩
      · obtain ⟨first, tail, rfl, -⟩ := hoperand.begins
        have hname : (first :: tail).getLast? = some (.identifier name) := by simpa using hlast
        rw [hoperand.name_of_primary hname]
        exact ⟨_, by simpa using Derives.link op (.call name (.lastArgument harg)) hlinks⟩
      · obtain ⟨chain'', hchain⟩ := ih hrest (by simpa using hlast)
        exact ⟨_, by simpa using Derives.link op hoperand hchain⟩

theorem expression_called (h : Derives (.expression tree) kinds)
    (hlast : kinds.getLast? = some (.identifier name)) (harg : Derives (.expression arg) inner)
    (hlinks : Derives (.links chain') kinds') :
    ∃ tree, Derives (.expression tree) (kinds ++ mark '(' :: (inner ++ mark ')' :: kinds')) := by
  cases h with
  | @expression first kinds₁ chain kinds₂ _ hfirst hchain hgroups =>
    rw [List.getLast?_append] at hlast
    rcases kinds₂.eq_nil_or_concat with rfl | ⟨before, kind, rfl⟩
    · rw [hfirst.name_of_primary (by simpa using hlast)]
      obtain ⟨tree, htree⟩ := Groups.total (.call name [arg]) chain'
      exact ⟨tree, by simpa using Derives.expression (.call name (.lastArgument harg)) hlinks htree⟩
    · obtain ⟨chain'', hcalled⟩ := hchain.links_called (by simpa using hlast) harg hlinks
      obtain ⟨tree, htree⟩ := Groups.total first chain''
      exact ⟨tree, by simpa using Derives.expression hfirst hcalled htree⟩

/-- A construct that begins with a parenthesis is an expression whose first operand
is in parentheses. -/
theorem exists_parentheses (h : Derives (.top tree) (mark '(' :: kinds)) :
    ∃ inner arg chain kinds', kinds = inner ++ mark ')' :: kinds' ∧
      Derives (.expression arg) inner ∧ Derives (.links chain) kinds' := by
  generalize hkinds : mark '(' :: kinds = whole at h
  cases h with
  | definition | declaration => simp [mark] at hkinds
  | top hexpression =>
    cases hexpression with
    | expression hfirst hchain =>
      cases hfirst with
      | name | call | number => simp [mark] at hkinds
      | parentheses hinner =>
        obtain ⟨-, rfl⟩ := List.cons.inj hkinds
        exact ⟨_, _, _, _, by simp, hinner, hchain⟩

/-- Two constructs with a name in front of a parenthesis between them are one. -/
theorem merge {tree' : Tree} (h : Derives (.top tree) kinds)
    (hlast : kinds.getLast? = some (.identifier name))
    (h' : Derives (.top tree') (mark '(' :: kinds')) :
    ∃ tree, Derives (.top tree) (kinds ++ mark '(' :: kinds') := by
  obtain ⟨inner, arg, chain, kinds', rfl, harg, hchain⟩ := h'.exists_parentheses
  cases h with
  | @definition fname params kinds₁ body kinds₂ hproto hbody =>
    obtain ⟨kind, tail, rfl, -⟩ := hbody.begins
    rw [← List.cons_append, List.getLast?_append] at hlast
    obtain ⟨body', hbody'⟩ := hbody.expression_called (by simpa using hlast) harg hchain
    exact ⟨_, by simpa using Derives.definition hproto hbody'⟩
  | declaration hproto =>
    cases hproto with
    | prototype =>
      rw [← List.cons_append, ← List.cons_append, ← List.cons_append, List.getLast?_concat] at hlast
      simp [mark] at hlast
  | top hexpression =>
    obtain ⟨tree, htree⟩ := hexpression.expression_called hlast harg hchain
    exact ⟨tree, .top htree⟩

/-- Of some constructs in a row the first ones make up one that what stands behind it
does not go on with. -/
theorem exists_first {constructs : List (List Token.Kind)} (h : Derives (.top tree) kinds)
    (hconstructs : ∀ construct ∈ constructs, ∃ tree, Derives (.top tree) construct) :
    ∃ tree first rest, kinds ++ constructs.flatten = first ++ rest ∧ Derives (.top tree) first ∧
      IsProgram rest ∧ ∀ kind, rest.head? = some kind → kind.operator? = none ∧ Apart first kind := by
  induction constructs generalizing kinds tree with
  | nil => exact ⟨tree, kinds, [], rfl, h, ⟨[], rfl, by simp⟩, by simp⟩
  | cons construct constructs ih =>
    obtain ⟨tree', hconstruct⟩ := hconstructs construct (List.mem_cons_self ..)
    have hothers : ∀ other ∈ constructs, ∃ tree, Derives (.top tree) other :=
      fun other hmem => hconstructs other (List.mem_cons_of_mem _ hmem)
    obtain ⟨kind, tail, rfl, hkind⟩ := hconstruct.top_begins
    by_cases happart : Apart kinds kind
    · refine ⟨tree, kinds, (kind :: tail) ++ constructs.flatten, rfl, h,
        ⟨(kind :: tail) :: constructs, rfl, hconstructs⟩, fun next hnext => ?_⟩
      obtain rfl : kind = next := by simpa using hnext
      exact ⟨hkind, happart⟩
    · simp only [Apart, Classical.not_imp, not_forall, not_not] at happart
      obtain ⟨rfl, name, hlast⟩ := happart
      obtain ⟨merged, hmerged⟩ := h.merge hlast hconstruct
      obtain ⟨tree, first, rest, heq, hfirst⟩ := ih hmerged hothers
      exact ⟨tree, first, rest, by simpa using heq, hfirst⟩

end Derives

/-- A program begins with a construct that the rest does not go on with, and the
rest is a program. -/
theorem IsProgram.exists_first {kinds : List Token.Kind} (h : IsProgram kinds) (hne : kinds ≠ []) :
    ∃ tree first rest, kinds = first ++ rest ∧ Derives (.top tree) first ∧ IsProgram rest ∧
      ∀ kind, rest.head? = some kind → kind.operator? = none ∧ Apart first kind := by
  obtain ⟨constructs, rfl, hconstructs⟩ := h
  cases constructs with
  | nil => simp at hne
  | cons construct constructs =>
    obtain ⟨tree, hconstruct⟩ := hconstructs construct (List.mem_cons_self ..)
    exact hconstruct.exists_first fun other hmem => hconstructs other (List.mem_cons_of_mem _ hmem)

/-- The tokens are divided into constructs with these trees, none of which is gone on
with by what stands behind it. -/
inductive Divided : List Tree → List Token.Kind → Prop
  | nil : Divided [] []
  | cons {tree trees first rest} (hfirst : Derives (.top tree) first)
      (hbehind : ∀ kind, rest.head? = some kind → kind.operator? = none ∧ Apart first kind)
      (hrest : Divided trees rest) : Divided (tree :: trees) (first ++ rest)

theorem IsProgram.exists_divided {kinds : List Token.Kind} (h : IsProgram kinds) :
    ∃ trees, Divided trees kinds := by
  induction hlength : kinds.length using Nat.strong_induction_on generalizing kinds with
  | h length ih =>
    by_cases hnil : kinds = []
    · subst hnil
      exact ⟨[], .nil⟩
    · obtain ⟨tree, first, rest, rfl, hfirst, hprogram, hbehind⟩ := h.exists_first hnil
      obtain ⟨kind, tail, hbegins, -⟩ := hfirst.top_begins
      have hless : rest.length < length := by
        rw [← hlength, hbegins, List.length_append, List.length_cons]
        omega
      obtain ⟨trees, hrest⟩ := ih rest.length hless hprogram rfl
      exact ⟨tree :: trees, .cons hfirst hbehind hrest⟩

end ExprLang
