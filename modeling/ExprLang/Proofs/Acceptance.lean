import ExprLang.Proofs.Juxtaposition
import ExprLang.Proofs.Run
import ExprLang.Proofs.Tiling

/-!
What a whole source is accepted as. A source that can be split into tokens is
read without a diagnostic if and only if its tokens are constructs one after
another, in whatever way the grammar derives them. The nodes then have the trees
that the grammar assigns to consecutive parts of the tokens.
-/
namespace ExprLang

open Lexer (Stream)
open Token.Kind (mark)

variable {last : Except LexicalError Token} {tokens rest : List Token}

theorem ReadsPrototype.derived {proto : Prototype} (h : ReadsPrototype tokens proto rest) :
    ∃ taken, tokens = taken ++ rest ∧
      Derives (.prototype proto.name proto.params) (taken.map Token.kind) := by
  cases h with
  | @intro token opener closer params _ name names hkind hopen hparams hclose =>
    refine ⟨token :: opener :: (params ++ [closer]), by simp, ?_⟩
    simp only [List.map_cons, List.map_append, List.map_nil, hkind, hopen, hparams, hclose]
    exact .prototype name names

/-- What is read at the top level derives from the grammar, with the tree of the
node. -/
theorem ReadsTop.derived {node : Node} (h : ReadsTop last tokens node rest) :
    ∃ taken, tokens = taken ++ rest ∧ Derives (.top node.tree) (taken.map Token.kind) := by
  cases h with
  | @definition keyword _ tokens₁ _ proto body hkind hproto hbody =>
    obtain ⟨taken₁, rfl, hderives₁⟩ := hproto.derived
    obtain ⟨taken₂, rfl, hderives₂⟩ := hbody.derived
    refine ⟨keyword :: (taken₁ ++ taken₂), by simp, ?_⟩
    simp only [List.map_cons, List.map_append, hkind]
    exact .definition hderives₁ hderives₂
  | @declaration keyword _ _ proto hkind hproto =>
    obtain ⟨taken, rfl, hderives⟩ := hproto.derived
    refine ⟨keyword :: taken, rfl, ?_⟩
    simp only [List.map_cons, hkind]
    exact .declaration hderives
  | expression hread =>
    obtain ⟨taken, rfl, hderives⟩ := hread.derived
    exact ⟨taken, rfl, .top hderives⟩

theorem Derives.readsPrototype {name : String} {params : List String} {kinds : List Token.Kind}
    {taken : List Token} (h : Derives (.prototype name params) kinds)
    (htaken : taken.map Token.kind = kinds) (rest : List Token) :
    ∃ proto, ReadsPrototype (taken ++ rest) proto rest ∧ proto.name = name ∧
      proto.params = params := by
  cases h with
  | prototype =>
    obtain ⟨token, taken', rfl, htoken, htaken'⟩ := List.map_eq_cons_iff.mp htaken
    obtain ⟨opener, taken₂, rfl, hopen, htaken₂⟩ := List.map_eq_cons_iff.mp htaken'
    obtain ⟨inner, closers, rfl, hinner, hclosers⟩ := List.map_eq_append_iff.mp htaken₂
    obtain ⟨closer, others, rfl, hclose, hothers⟩ := List.map_eq_cons_iff.mp hclosers
    obtain rfl := List.map_eq_nil_iff.mp hothers
    refine ⟨⟨name, params, token.span.through closer.span⟩, ?_, rfl, rfl⟩
    simpa using ReadsPrototype.intro htoken hopen hinner hclose

/-- A construct is read in front of a token that does not go on with it. -/
theorem Derives.readsTop {tree : Tree} {kinds : List Token.Kind} {taken : List Token}
    {follower : Token} (h : Derives (.top tree) kinds) (htaken : taken.map Token.kind = kinds)
    (hhead : Stream.head ⟨rest, last⟩ = .ok follower) (hnone : follower.kind.operator? = none)
    (hapart : Apart kinds follower.kind) :
    ∃ node, ReadsTop last (taken ++ rest) node rest ∧ node.tree = tree := by
  cases h with
  | definition hproto hbody =>
    obtain ⟨keyword, taken', rfl, hkind, htaken'⟩ := List.map_eq_cons_iff.mp htaken
    obtain ⟨taken₁, taken₂, rfl, htaken₁, htaken₂⟩ := List.map_eq_append_iff.mp htaken'
    obtain ⟨proto, hreadProto, rfl, rfl⟩ := hproto.readsPrototype htaken₁ (taken₂ ++ rest)
    rw [← List.cons_append] at hapart
    obtain ⟨body, hreadBody, rfl⟩ :=
      hbody.readable taken₂ rest follower htaken₂ hhead hnone hapart.right
    refine ⟨.function proto body (keyword.span.through body.span), ?_, rfl⟩
    rw [List.cons_append, List.append_assoc]
    exact .definition hkind hreadProto hreadBody
  | declaration hproto =>
    obtain ⟨keyword, taken', rfl, hkind, htaken'⟩ := List.map_eq_cons_iff.mp htaken
    obtain ⟨proto, hreadProto, rfl, rfl⟩ := hproto.readsPrototype htaken' rest
    exact ⟨.prototype { proto with span := keyword.span.through proto.span },
      .declaration hkind hreadProto, rfl⟩
  | top hexpression =>
    obtain ⟨node, hread, htree⟩ :=
      hexpression.readable taken rest follower htaken hhead hnone hapart
    exact ⟨node, .expression hread, htree⟩

/-- Of divided tokens the first construct is read, in front of the end of the input. -/
theorem Divided.exists_reads {tree : Tree} {trees : List Tree} {final : Token}
    (hfinal : final.kind = .endOfInput) (h : Divided (tree :: trees) (tokens.map Token.kind)) :
    ∃ node rest, ReadsTop (.ok final) tokens node rest ∧ node.tree = tree ∧
      Divided trees (rest.map Token.kind) := by
  generalize hkinds : tokens.map Token.kind = kinds at h
  cases h with
  | @cons _ _ first others hfirst hbehind hothers =>
    obtain ⟨taken, rest, rfl, htaken, rfl⟩ := List.map_eq_append_iff.mp hkinds
    cases rest with
    | nil =>
      have hnone : final.kind.operator? = none := by
        rw [hfinal]
        rfl
      have hapart : Apart first final.kind := by
        apply Apart.of_ne
        rw [hfinal]
        simp [mark]
      have hhead : Stream.head ⟨[], .ok final⟩ = .ok final := rfl
      obtain ⟨node, hread, htree⟩ := hfirst.readsTop htaken hhead hnone hapart
      exact ⟨node, [], hread, htree, hothers⟩
    | cons follower rest =>
      obtain ⟨hnone, hapart⟩ := hbehind follower.kind rfl
      have hhead : Stream.head ⟨follower :: rest, .ok final⟩ = .ok follower := rfl
      obtain ⟨node, hread, htree⟩ := hfirst.readsTop htaken hhead hnone hapart
      exact ⟨node, follower :: rest, hread, htree, hothers⟩

/-- A run over divided tokens gives their trees and reports nothing. -/
theorem Parser.Run.of_divided {p final : Parser} {calls : List Call} {trees : List Tree}
    {outcome : Except LexicalError Unit} {token : Token} (h : Run p calls outcome final)
    (htoken : token.kind = .endOfInput) (hp : p.ahead = ⟨tokens, .ok token⟩)
    (hdivided : Divided trees (tokens.map Token.kind)) :
    outcome = .ok () ∧ final.diagnostics = p.diagnostics ∧
      (calls.filterMap Call.node?).map Node.tree = trees := by
  induction h generalizing tokens trees with
  | finished htokens =>
    obtain rfl := nil_of_hasTokens hp htokens
    obtain ⟨rfl, -⟩ := exists_of_hasTokens htokens
    refine ⟨rfl, diagnostics_look _, ?_⟩
    generalize hkinds : ([] : List Token).map Token.kind = kinds at hdivided
    cases hdivided with
    | nil => rfl
    | cons hfirst =>
      obtain ⟨kind, tail, rfl, -⟩ := hfirst.top_begins
      simp at hkinds
  | blocked htokens =>
    obtain ⟨-, hhead⟩ := error_of_hasTokens htokens
    rw [hp] at hhead
    cases Stream.last_of_head_error hhead
  | failed htokens hnext =>
    obtain ⟨first, tail, rfl, hkind, hahead⟩ := exists_ahead_of_hasTokens hp htokens
    cases trees with
    | nil => cases hdivided
    | cons tree trees =>
      obtain ⟨node, rest, hread, -⟩ := hdivided.exists_reads htoken
      obtain ⟨q, -, hrun⟩ := next_reads hread hahead
      rw [hnext] at hrun
      cases hrun
  | call htokens hnext hrest ih =>
    obtain ⟨rfl, -⟩ := exists_of_hasTokens htokens
    obtain ⟨first, tail, rfl, hkind, hahead⟩ := exists_ahead_of_hasTokens hp htokens
    cases trees with
    | nil => cases hdivided
    | cons tree trees =>
      obtain ⟨node, rest, hread, htree, hdivided'⟩ := hdivided.exists_reads htoken
      obtain ⟨q, hleads, hrun⟩ := next_reads hread hahead
      rw [hnext] at hrun
      obtain ⟨rfl, rfl⟩ := EStateM.Result.ok.inj hrun
      obtain ⟨houtcome, hkept, htrees⟩ := ih (hleads.ahead_eq hahead) hdivided'
      refine ⟨houtcome, ?_, ?_⟩
      · rw [hkept]
        exact hleads.diagnostics_eq.trans (diagnostics_look _)
      · simp [htree, htrees]

/-- A source whose tokens are divided into constructs is read as these. -/
theorem parse_of_divided {source : String} {file : Option String} {final : Token}
    {trees : List Tree} (htokens : tokenize source file = .ok (tokens ++ [final]))
    (hdivided : Divided trees (tokens.map Token.kind)) :
    ∃ nodes, (parse source file).outcome = .ok nodes ∧ nodes.map Node.tree = trees ∧
      (parse source file).parser.diagnostics = #[] := by
  have hahead := ahead_of_tokenize htokens
  have hfinal := (Lexer.stream_kinds _ _ _ hahead).2 final rfl
  obtain ⟨calls, outcome, hrun, hnodes⟩ := parse_run source file
  obtain ⟨rfl, hsilent, htrees⟩ := hrun.of_divided hfinal hahead hdivided
  exact ⟨_, hnodes, htrees, hsilent⟩

/-- Calls that report nothing read one construct each. -/
theorem Covers.derived {calls : List Call} {segments : List (List Token)} {left : List Token}
    (h : Covers last left calls segments) (hreports : calls.flatMap Call.reports = []) :
    List.Forall₂ (fun node segment => segment ≠ [] ∧
      Derives (.top (Node.tree node)) (segment.map Token.kind))
      (calls.filterMap Call.node?) segments := by
  induction h with
  | nil => exact .nil
  | @cons call calls segment segments hne hbefore hafter htakes hrest ih =>
    obtain ⟨hcall, hcalls⟩ := List.append_eq_nil_iff.mp hreports
    generalize segments.flatten ++ left = behind at htakes
    cases htakes with
    | construct hread hkept =>
      obtain ⟨taken, htaken, hderives⟩ := hread.derived
      rw [← List.append_cancel_right htaken] at hderives
      exact .cons ⟨hne, hderives⟩ (ih hcalls)
    | recovery _ hreport | recoveryAtEnd _ hreport => simp [Call.reports, hreport] at hcall

/-- Segments that derive from the grammar make up a program. -/
theorem IsProgram.of_derived {nodes : List Node} {segments : List (List Token)}
    (h : List.Forall₂ (fun node segment => segment ≠ [] ∧
      Derives (.top (Node.tree node)) (segment.map Token.kind)) nodes segments) :
    IsProgram (segments.flatten.map Token.kind) := by
  refine ⟨segments.map (List.map Token.kind), List.map_flatten, ?_⟩
  induction h with
  | nil => simp
  | cons hnode hrest ih => exact List.forall_mem_cons.mpr ⟨⟨_, hnode.2⟩, ih⟩

/-- A source that can be split into tokens is read without a diagnostic if and only
if its tokens without the end of the input are constructs one after another. Its
nodes are then the constructs of consecutive parts of the tokens, with the trees
of their derivations. Every digit run among the tokens stands for a number, so
the rule for numbers holds for each of them. -/
theorem parse_accepts_iff (source : String) (file : Option String) (tokens : List Token)
    (htokens : tokenize source file = .ok tokens) :
    ((parse source file).parser.diagnostics = #[] ↔ IsProgram (tokens.dropLast.map Token.kind)) ∧
    ((parse source file).parser.diagnostics = #[] →
      ∃ nodes segments, (parse source file).outcome = .ok nodes ∧
        segments.flatten = tokens.dropLast ∧
        List.Forall₂ (fun node segment => segment ≠ [] ∧
          Derives (.top (Node.tree node)) (segment.map Token.kind)) nodes segments) ∧
    ∀ token ∈ tokens, ∀ digits, token.kind = .number digits →
      ∃ value, Binary64.ofDigits? digits = some value := by
  obtain ⟨ordinary, final, rfl, hahead, hfinal⟩ := exists_of_tokenize htokens
  obtain ⟨calls, outcome, hrun, hnodes⟩ := parse_run source file
  obtain ⟨segments, left, hsegments, hcovers, hleft, herror, hreports⟩ := hrun.covers hahead
  rw [List.dropLast_concat]
  have hread : (parse source file).parser.diagnostics = #[] →
      ∃ nodes segments, (parse source file).outcome = .ok nodes ∧ segments.flatten = ordinary ∧
        List.Forall₂ (fun node segment => segment ≠ [] ∧
          Derives (.top (Node.tree node)) (segment.map Token.kind)) nodes segments := by
    intro hnone
    have hsilent : calls.flatMap Call.reports = [] := by
      rw [hnone] at hreports
      exact (List.append_eq_nil_iff.mp hreports.symm).2
    cases outcome with
    | error error => cases herror error rfl
    | ok _ =>
      obtain rfl := hleft rfl
      exact ⟨_, segments, hnodes, by simp [hsegments], hcovers.derived hsilent⟩
  refine ⟨⟨fun hnone => ?_, fun hprogram => ?_⟩, hread, ?_⟩
  · obtain ⟨nodes, segments, -, rfl, hderived⟩ := hread hnone
    exact IsProgram.of_derived hderived
  · obtain ⟨trees, hdivided⟩ := hprogram.exists_divided
    exact (hrun.of_divided hfinal hahead hdivided).2.1
  · intro token htoken digits hdigits
    have hstream : (Lexer.ofSource source file).stream = ⟨ordinary, .ok final⟩ := hahead
    have htiles := Lexer.tiles (Lexer.ofSource source file) rfl
    rw [hstream] at htiles
    rcases List.mem_append.mp htoken with hmem | hmem
    · obtain ⟨text, rest, hmunch⟩ := htiles.exists_munch? token hmem
      rw [hdigits] at hmunch
      exact Token.Kind.exists_ofDigits? hmunch
    · rw [List.mem_singleton.mp hmem, hfinal] at hdigits
      cases hdigits

/-- The case of a name in front of a parenthesis. -/
theorem parse_accepts_iff_of_call :
    tokenize "f (x)" none = .ok [.placed "shell" 0 (.identifier "f"), .placed "shell" 2 (mark '('),
      .placed "shell" 3 (.identifier "x"), .placed "shell" 4 (mark ')'),
      .placed "shell" 5 .endOfInput] ∧
    ((parse "f (x)" none).parser.diagnostics = #[] ↔
      IsProgram [.identifier "f", mark '(', .identifier "x", mark ')']) := by
  have htokens : tokenize "f (x)" none = .ok [.placed "shell" 0 (.identifier "f"),
      .placed "shell" 2 (mark '('), .placed "shell" 3 (.identifier "x"),
      .placed "shell" 4 (mark ')'), .placed "shell" 5 .endOfInput] := by
    decide +kernel
  exact ⟨htokens, (parse_accepts_iff "f (x)" none _ htokens).1⟩

end ExprLang
