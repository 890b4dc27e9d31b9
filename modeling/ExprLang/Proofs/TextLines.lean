import ExprLang.Session
import ExprLang.Proofs.Alphabet

/-!
The lines of a stream of bytes against the lines of a text. No character but the line
feed has the byte of the line feed in its encoded form. So cutting the bytes of a text
into lines, and reading each of them, is cutting the text at every line feed and at
every carriage return with a line feed behind it.
-/
namespace ExprLang

/-- The lines of a text, each of them without the line feed, or the carriage return and the
line feed, that ends it. What stands behind the last line feed is a line if it is not
empty. -/
def linesOf : List Char → List (List Char)
  | [] => []
  | '\r' :: '\n' :: cs => [] :: linesOf cs
  | '\n' :: cs => [] :: linesOf cs
  | c :: cs => match linesOf cs with
    | [] => [[c]]
    | line :: lines => (c :: line) :: lines

def textLines (text : String) : List String := (linesOf text.toList).map String.ofList

example : textLines "a\r\nb\r\n\nc\r" = ["a", "b", "", "c\r"] := by decide

def IsComplete (text : String) : Prop := text = "" ∨ text.toList.getLast? = some '\n'

def rawLines : List Char → List (List Char)
  | [] => []
  | c :: cs =>
    if c = '\n' then [c] :: rawLines cs
    else match rawLines cs with
      | [] => [[c]]
      | line :: lines => (c :: line) :: lines

def dropEnd (line : List Char) : List Char :=
  match line.reverse with
  | '\n' :: '\r' :: cs => cs.reverse
  | '\n' :: cs => cs.reverse
  | _ => line

section Characters

theorem flatten_rawLines (cs : List Char) : (rawLines cs).flatten = cs := by
  induction cs with
  | nil => rfl
  | cons c cs ih =>
    unfold rawLines
    split
    · simp [ih]
    · split
      · next h =>
        rw [h] at ih
        simpa using ih
      · next line lines h =>
        rw [h] at ih
        simpa using ih

/-- What stands in front of a line other than its end is not dropped. -/
theorem dropEnd_cons {c : Char} {line : List Char} (hc : c ≠ '\n')
    (hreturn : ¬ (c = '\r' ∧ line = ['\n'])) : dropEnd (c :: line) = c :: dropEnd line := by
  obtain ⟨cs, rfl⟩ : ∃ cs : List Char, line = cs.reverse := ⟨line.reverse, by simp⟩
  simp only [dropEnd, List.reverse_cons, List.reverse_reverse]
  cases cs with
  | nil => simp [hc]
  | cons d cs =>
    by_cases hd : d = '\n'
    · subst hd
      cases cs with
      | nil =>
        have hplain : c ≠ '\r' := by simpa using hreturn
        simp [hplain]
      | cons e cs => by_cases he : e = '\r' <;> simp [he]
    · simp [hd]

/-- The lines of a text are its pieces up to each line feed without their ends. -/
theorem map_dropEnd_rawLines (cs : List Char) : (rawLines cs).map dropEnd = linesOf cs := by
  fun_induction linesOf cs with
  | case1 => rfl
  | case2 cs ih => simpa [rawLines, dropEnd] using ih
  | case3 cs ih => simpa [rawLines, dropEnd] using ih
  | case4 c cs hreturn hfeed hnone ih =>
    rw [hnone] at ih
    have hc : c ≠ '\n' := fun heq => hfeed heq
    simp [rawLines, hc, List.map_eq_nil_iff.mp ih, dropEnd]
  | case5 c cs hreturn hfeed line lines hsome ih =>
    rw [hsome] at ih
    have hc : c ≠ '\n' := fun heq => hfeed heq
    obtain ⟨raw, raws, hraws, rfl, rfl⟩ := List.map_eq_cons_iff.mp ih
    have hplain : ¬ (c = '\r' ∧ raw = ['\n']) := by
      rintro ⟨rfl, rfl⟩
      have hflat := flatten_rawLines cs
      rw [hraws, List.flatten_cons] at hflat
      exact hreturn raws.flatten rfl hflat.symm
    simp [rawLines, hc, hraws, dropEnd_cons hc hplain]

/-- No line has a line feed in it. -/
theorem not_mem_of_mem_linesOf {cs line : List Char} (h : line ∈ linesOf cs) : '\n' ∉ line := by
  fun_induction linesOf cs generalizing line with
  | case1 => cases h
  | case2 cs ih | case3 cs ih =>
    rcases List.mem_cons.mp h with rfl | hmem
    · exact List.not_mem_nil
    · exact ih hmem
  | case4 c cs hreturn hfeed hnone ih =>
    obtain rfl := List.mem_singleton.mp h
    simpa using fun heq => hfeed heq.symm
  | case5 c cs hreturn hfeed first lines hsome ih =>
    rcases List.mem_cons.mp h with rfl | hmem
    · simp only [List.mem_cons, not_or]
      exact ⟨fun heq => hfeed heq.symm, ih (by rw [hsome]; exact List.mem_cons_self ..)⟩
    · exact ih (by rw [hsome]; exact List.mem_cons_of_mem _ hmem)

theorem not_mem_of_mem_textLines {text line : String} (h : line ∈ textLines text) :
    '\n' ∉ line.toList := by
  obtain ⟨cs, hcs, rfl⟩ := List.mem_map.mp h
  rw [String.toList_ofList]
  exact not_mem_of_mem_linesOf hcs

/-- A text without a line feed is one line. -/
theorem linesOf_of_not_mem {cs : List Char} (hne : cs ≠ []) (hfeed : '\n' ∉ cs) :
    linesOf cs = [cs] := by
  fun_induction linesOf cs with
  | case1 => exact absurd rfl hne
  | case2 cs => simp at hfeed
  | case3 cs => simp at hfeed
  | case4 c cs _ _ hlines ih =>
    by_cases hcs : cs = []
    · rw [hcs]
    · rw [ih hcs (List.not_mem_of_not_mem_cons hfeed)] at hlines
      cases hlines
  | case5 c cs _ _ line lines hlines ih =>
    by_cases hcs : cs = []
    · subst hcs
      cases hlines
    · rw [ih hcs (List.not_mem_of_not_mem_cons hfeed)] at hlines
      obtain ⟨rfl, rfl⟩ := List.cons.inj hlines
      rfl

end Characters

section Bytes

theorem length_bytes_eq_byteLength (text : String) :
    (bytes text).length = byteLength text.toList := by
  rw [bytes_eq_flatMap]
  induction text.toList with
  | nil => rfl
  | cons c cs ih => simpa [byteLength, String.length_utf8EncodeChar] using ih

/-- No character but the line feed is encoded with the byte of the line feed. -/
theorem not_mem_utf8EncodeChar {c : Char} (h : c ≠ '\n') : 0x0A ∉ String.utf8EncodeChar c := by
  by_cases hc : c.toNat < 128
  · rw [utf8EncodeChar_of_lt hc, List.mem_singleton]
    intro heq
    have hback := ofUInt8_toUInt8 hc
    rw [← heq] at hback
    exact h hback.symm
  · have hlarge : ¬ c.val.toNat ≤ 127 := fun hle => hc (Nat.lt_succ_of_le hle)
    have hne : ∀ n : Nat, 128 ≤ n % 256 → 0x0A ≠ UInt8.ofNat n := by
      intro n hn heq
      have hmod := congrArg UInt8.toNat heq
      rw [UInt8.toNat_ofNat'] at hmod
      have hten : (0x0A : UInt8).toNat = 10 := rfl
      omega
    simp only [String.utf8EncodeChar, hlarge, if_false]
    split
    · simp only [List.mem_cons, List.not_mem_nil, or_false, not_or]
      exact ⟨hne _ (by omega), hne _ (by omega)⟩
    · split
      · simp only [List.mem_cons, List.not_mem_nil, or_false, not_or]
        exact ⟨hne _ (by omega), hne _ (by omega), hne _ (by omega)⟩
      · simp only [List.mem_cons, List.not_mem_nil, or_false, not_or]
        exact ⟨hne _ (by omega), hne _ (by omega), hne _ (by omega), hne _ (by omega)⟩

/-- Bytes without a line feed come in front of the first line. -/
theorem byteLines_append_of_not_mem {chunk : List UInt8} (hne : chunk ≠ [])
    (hfeed : 0x0A ∉ chunk) (rest : List UInt8) :
    byteLines (chunk ++ rest) = (chunk ++ (byteLines rest).headD []) :: (byteLines rest).tail := by
  induction chunk with
  | nil => exact absurd rfl hne
  | cons byte chunk ih =>
    obtain ⟨hbyte, hchunk⟩ := List.ne_and_not_mem_of_not_mem_cons hfeed
    rw [List.cons_append, byteLines, if_neg (Ne.symm hbyte)]
    by_cases hnil : chunk = []
    · subst hnil
      rw [List.nil_append]
      cases byteLines rest <;> rfl
    · rw [ih hnil hchunk]
      rfl

theorem byteLines_feed (rest : List UInt8) :
    byteLines (0x0A :: rest) = [0x0A] :: byteLines rest := by
  rw [byteLines, if_pos rfl]

/-- A line with its line feed is cut off. -/
theorem byteLines_line {chunk : List UInt8} (hfeed : 0x0A ∉ chunk) (rest : List UInt8) :
    byteLines (chunk ++ 0x0A :: rest) = (chunk ++ [0x0A]) :: byteLines rest := by
  by_cases hne : chunk = []
  · subst hne
    exact byteLines_feed rest
  · rw [byteLines_append_of_not_mem hne hfeed, byteLines_feed]
    rfl

/-- What stands behind a line feed does not change the lines in front of it. -/
theorem byteLines_append {front : List UInt8} (h : front = [] ∨ front.getLast? = some 0x0A)
    (rest : List UInt8) : byteLines (front ++ rest) = byteLines front ++ byteLines rest := by
  induction front with
  | nil => rfl
  | cons byte front ih =>
    have hlast : (byte :: front).getLast? = some 0x0A :=
      h.resolve_left (List.cons_ne_nil byte front)
    by_cases hfront : front = []
    · subst hfront
      obtain rfl : byte = 0x0A := by simpa using hlast
      exact byteLines_feed rest
    · have hstep := ih (.inr (by rwa [List.getLast?_cons_of_ne_nil hfront] at hlast))
      by_cases hbyte : byte = 0x0A
      · subst hbyte
        rw [List.cons_append, byteLines_feed, byteLines_feed, hstep, List.cons_append]
      · have hne : byteLines front ≠ [] := by
          intro hnil
          exact hfront (by rw [← flatten_byteLines front, hnil, List.flatten_nil])
        obtain ⟨line, lines, hlines⟩ := List.exists_cons_of_ne_nil hne
        rw [List.cons_append, byteLines, byteLines, if_neg hbyte, if_neg hbyte, hstep, hlines]
        rfl

/-- The lines of an encoded text are the encoded pieces of the text. -/
theorem byteLines_flatMap (cs : List Char) :
    byteLines (cs.flatMap String.utf8EncodeChar) =
      (rawLines cs).map (·.flatMap String.utf8EncodeChar) := by
  induction cs with
  | nil => rfl
  | cons c cs ih =>
    rw [List.flatMap_cons, rawLines]
    split
    · next hc =>
      subst hc
      have hencode : String.utf8EncodeChar '\n' = [0x0A] := by decide
      rw [hencode, List.singleton_append, byteLines_feed, ih]
      simp [hencode]
    · next hc =>
      rw [byteLines_append_of_not_mem String.utf8EncodeChar_ne_nil (not_mem_utf8EncodeChar hc), ih]
      cases rawLines cs <;> simp

/-- The text of an encoded line is the line without its end. -/
theorem lineText?_flatMap (line : List Char) :
    lineText? (line.flatMap String.utf8EncodeChar) = some (String.ofList (dropEnd line)) := by
  have htext : String.fromUTF8? ⟨(line.flatMap String.utf8EncodeChar).toArray⟩ =
      some (String.ofList line) := by
    have hbytes := bytes_eq_flatMap (String.ofList line)
    rw [String.toList_ofList] at hbytes
    rw [← hbytes]
    exact fromUTF8?_eq_some_iff.mpr (by simp [bytes])
  rw [lineText?, htext, Option.map_some, String.toList_ofList, dropEnd]
  split <;> simp_all

/-- The texts of the lines of an encoded text are its lines. -/
theorem map_lineText?_byteLines (text : String) :
    (byteLines (bytes text)).map lineText? = (textLines text).map some := by
  rw [bytes_eq_flatMap, byteLines_flatMap, textLines, ← map_dropEnd_rawLines]
  simp only [List.map_map]
  exact List.map_congr_left fun line _ => lineText?_flatMap line

/-- The bytes of whole lines end with a line feed. -/
theorem IsComplete.getLast?_bytes {text : String} (h : IsComplete text) :
    bytes text = [] ∨ (bytes text).getLast? = some 0x0A := by
  rcases h with rfl | hlast
  · exact .inl rfl
  · obtain ⟨front, hfront⟩ := List.getLast?_eq_some_iff.mp hlast
    refine .inr ?_
    rw [bytes_eq_flatMap, hfront, List.flatMap_append]
    have hencode : String.utf8EncodeChar '\n' = [0x0A] := by decide
    simp [hencode]

end Bytes

end ExprLang
