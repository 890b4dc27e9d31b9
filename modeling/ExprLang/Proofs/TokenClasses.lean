import ExprLang.Proofs.Correspondence

/-!
Names, numbers and layout are carried through and never inspected. Two sources whose
tokens agree place by place, up to the texts of names and numbers, are read alike: as
many nodes of the same shapes, and as many diagnostics of the same kinds, about the
tokens at the same places.
-/
namespace ExprLang

def AtOnePlace (all all' : List Token) (token token' : Token) : Prop :=
  ∃ place : Nat, all[place]? = some token ∧ all'[place]? = some token'

/-- Lists of one length pair the tokens at their places. -/
theorem forall₂_atOnePlace {all all' : List Token} (h : all.length = all'.length) :
    List.Forall₂ (AtOnePlace all all') all all' := by
  refine List.forall₂_iff_get.mpr ⟨h, fun place hplace hplace' => ⟨place, ?_, ?_⟩⟩
  · exact List.getElem?_eq_getElem hplace
  · exact List.getElem?_eq_getElem hplace'

/-- The digits of a token of a source stand for a number. -/
theorem exists_ofDigits?_of_mem {source : String} {file : Option String} {all : List Token}
    (h : tokenize source file = .ok all) {token : Token} (htoken : token ∈ all) {digits : String}
    (hkind : token.kind = .number digits) : ∃ value, Binary64.ofDigits? digits = some value := by
  obtain ⟨tokens, final, rfl, hahead, hfinal⟩ := exists_of_tokenize h
  have htiles := Lexer.tiles_of_stream hahead
  rcases List.mem_append.mp htoken with hmem | hlast
  · obtain ⟨text, rest, hmunch⟩ := htiles.exists_munch? token hmem
    rw [hkind] at hmunch
    exact Token.Kind.exists_ofDigits? hmunch
  · obtain rfl := List.mem_singleton.mp hlast
    rw [hfinal] at hkind
    cases hkind

/-- Tokens at one place are alike where the two lists agree up to names and numbers. -/
theorem AtOnePlace.alike {source source' : String} {file file' : Option String}
    {all all' : List Token} (h : tokenize source file = .ok all)
    (h' : tokenize source' file' = .ok all')
    (hclass : all.map (fun token => token.kind.bare) = all'.map fun token => token.kind.bare)
    {token token' : Token} (hplace : AtOnePlace all all' token token') :
    token.kind.Alike token'.kind := by
  obtain ⟨place, hget, hget'⟩ := hplace
  have hbare : token.kind.bare = token'.kind.bare := by
    have hmap := congrArg (fun kinds : List Token.Kind => kinds[place]?) hclass
    simpa [List.getElem?_map, hget, hget'] using hmap
  exact .of_bare hbare
    (fun _ hkind => exists_ofDigits?_of_mem h (List.mem_of_getElem? hget) hkind)
    (fun _ hkind => exists_ofDigits?_of_mem h' (List.mem_of_getElem? hget') hkind)

/-- Two sources with the same tokens up to names and numbers are read alike. Their nodes
have the same shapes, with names, numbers and spans from the tokens at the same places,
and their diagnostics are of the same kinds, with the same demands, about the tokens at
the same places. -/
theorem parse_of_bare_eq (source source' : String) (file file' : Option String)
    (all all' : List Token) (h : tokenize source file = .ok all)
    (h' : tokenize source' file' = .ok all')
    (hclass : all.map (fun token => token.kind.bare) = all'.map fun token => token.kind.bare) :
    ∃ nodes nodes', (parse source file).outcome = .ok nodes ∧
      (parse source' file').outcome = .ok nodes' ∧
      List.Forall₂ (Node.Corresponds (AtOnePlace all all')) nodes nodes' ∧
      List.Forall₂ (Diagnostic.Corresponds (AtOnePlace all all'))
        (parse source file).parser.diagnostics.toList
        (parse source' file').parser.diagnostics.toList := by
  have hR : ∀ token token', AtOnePlace all all' token token' → token.kind.Alike token'.kind :=
    fun _ _ => AtOnePlace.alike h h' hclass
  have hlength : all.length = all'.length := by simpa using congrArg List.length hclass
  have hplaces := forall₂_atOnePlace hlength
  obtain ⟨tokens, final, hall, hahead, -⟩ := exists_of_tokenize h
  obtain ⟨tokens', final', hall', hahead', -⟩ := exists_of_tokenize h'
  generalize AtOnePlace all all' = R at hR hplaces ⊢
  rw [hall, hall'] at hplaces
  obtain ⟨front, behind, hsplit, htokens, hends⟩ := exists_append_of_forall₂ hplaces
  obtain ⟨rfl, rfl⟩ := List.append_inj' hsplit hends.length_eq
  have hlast : Lexer.Stream.EndsCorrespond R (.ok final) (.ok final') :=
    .ok (List.forall₂_cons.mp hends).1
  obtain ⟨nodes, hread, houtcome⟩ := parse_readsAll hahead
  obtain ⟨nodes', diagnostics', hread', hnodes, hdiagnostics⟩ :=
    hread.corresponds hR hlast htokens
  obtain ⟨houtcome', hreports'⟩ := parse_of_readsAll hahead' hread'
  refine ⟨nodes, nodes', houtcome, houtcome', hnodes, ?_⟩
  rwa [hreports']

/-- The case of a name and a stray parenthesis, written in two ways. -/
theorem parse_of_bare_eq_of_renaming : ∃ all all' : List Token,
    tokenize "x )" none = .ok all ∧ tokenize "\tabc\n)" (some "tall") = .ok all' ∧
      (all.map fun token => token.kind.bare) = (all'.map fun token => token.kind.bare) ∧
      ∃ nodes nodes', (parse "x )" none).outcome = .ok nodes ∧
        (parse "\tabc\n)" (some "tall")).outcome = .ok nodes' ∧
        List.Forall₂ (Node.Corresponds (AtOnePlace all all')) nodes nodes' ∧
        List.Forall₂ (Diagnostic.Corresponds (AtOnePlace all all'))
          (parse "x )" none).parser.diagnostics.toList
          (parse "\tabc\n)" (some "tall")).parser.diagnostics.toList := by
  let all := [Token.placed "shell" 0 (.identifier "x"), .placed "shell" 2 (.symbol ")"),
    .placed "shell" 3 .endOfInput]
  let all' := [Token.placed "tall" 1 (.identifier "abc"), .placed "tall" 5 (.symbol ")"),
    .placed "tall" 6 .endOfInput]
  have htokens : tokenize "x )" none = .ok all := by decide +kernel
  have htokens' : tokenize "\tabc\n)" (some "tall") = .ok all' := by decide +kernel
  have hclass : (all.map fun token => token.kind.bare) = all'.map fun token => token.kind.bare :=
    rfl
  exact ⟨all, all', htokens, htokens', hclass,
    parse_of_bare_eq "x )" "\tabc\n)" none (some "tall") all all' htokens htokens' hclass⟩

end ExprLang
