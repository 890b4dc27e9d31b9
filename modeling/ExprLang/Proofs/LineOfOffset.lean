import ExprLang.Proofs.TextLines
import Mathlib.Data.List.DropRight
import Mathlib.Data.Prod.Lex

/-!
The line of an offset. A text is cut behind each line feed, and the lookup goes along the
pieces until one reaches past the offset. What it finds can be said of the bytes of the text
alone: the line feeds in front of the offset number the line, the bytes behind the last of
them are the column, and the line goes on from there up to the next line feed. So every
offset up to the length of the text is on one line, at its end too.
-/
namespace ExprLang

def throughFeed (whole : List UInt8) : List UInt8 := whole.take (whole.idxOf 0x0A + 1)

/-- What the line of an offset into some bytes is. The bytes in front of the offset end with
as many bytes as the column says, which come behind the last line feed or the start. -/
structure Line.IsAt (whole : List UInt8) (offset : Nat) (line : Line) : Prop where
  le : offset ≤ whole.length
  number_eq : line.number = (whole.take offset).count 0x0A + 1
  column_eq : ∃ front start, whole.take offset = front ++ start ∧ start.length = line.column ∧
    0x0A ∉ start ∧ (front = [] ∨ front.getLast? = some 0x0A)
  text_eq : bytes (String.ofList line.text) = throughFeed (whole.drop (offset - line.column))

section Feeds

variable {front start rest : List UInt8}

theorem throughFeed_feed (h : 0x0A ∉ front) (rest : List UInt8) :
    throughFeed (front ++ 0x0A :: rest) = front ++ [0x0A] := by
  rw [throughFeed, List.idxOf_append_of_notMem h, List.idxOf_cons_self, Nat.add_zero,
    List.append_cons, List.take_left' (by simp)]

theorem throughFeed_of_not_mem (h : 0x0A ∉ front) : throughFeed front = front := by
  rw [throughFeed, List.idxOf_of_notMem h, List.take_of_length_le (Nat.le_succ _)]

/-- The last line feed is at one place. -/
theorem rtakeWhile_of_lastFeed (hstart : 0x0A ∉ start)
    (hfront : front = [] ∨ front.getLast? = some 0x0A) :
    (front ++ start).rtakeWhile (· != 0x0A) = start := by
  induction start using List.reverseRecOn with
  | nil =>
    rcases hfront with rfl | hlast
    · simp
    · obtain ⟨init, rfl⟩ := List.getLast?_eq_some_iff.mp hlast
      simp
  | append_singleton start byte ih =>
    simp only [List.mem_append, List.mem_singleton, not_or] at hstart
    rw [← List.append_assoc, List.rtakeWhile_concat_pos _ _ _ (by simpa using Ne.symm hstart.2),
      ih hstart.1]

end Feeds

namespace Line

section Pieces

variable {cs piece : List Char} {lines before after : List (List Char)} {line : Line}
  {number offset : Nat}

def IsClosed (piece : List Char) : Prop := ∃ front, piece = front ++ ['\n'] ∧ '\n' ∉ front

/-- A text is cut into closed pieces and a last one without a line feed. -/
theorem exists_split (cs : List Char) : ∃ closed last, split cs = closed ++ [last] ∧
    (∀ piece ∈ closed, IsClosed piece) ∧ '\n' ∉ last := by
  induction cs with
  | nil => exact ⟨[], [], rfl, by simp, List.not_mem_nil⟩
  | cons c cs ih =>
    obtain ⟨closed, last, hsplit, hclosed, hlast⟩ := ih
    by_cases hc : c = '\n'
    · subst hc
      refine ⟨['\n'] :: closed, last, ?_, ?_, hlast⟩
      · rw [split, if_pos rfl, hsplit, List.cons_append]
      exact List.forall_mem_cons.mpr ⟨⟨[], rfl, List.not_mem_nil⟩, hclosed⟩
    · cases closed with
      | nil =>
        refine ⟨[], c :: last, by rw [split, if_neg hc, hsplit]; rfl, by simp, ?_⟩
        exact List.not_mem_cons_of_ne_of_not_mem (Ne.symm hc) hlast
      | cons first closed =>
        refine ⟨(c :: first) :: closed, last, by rw [split, if_neg hc, hsplit]; rfl, ?_, hlast⟩
        obtain ⟨⟨front, rfl, hfront⟩, hrest⟩ := List.forall_mem_cons.mp hclosed
        refine List.forall_mem_cons.mpr ⟨⟨c :: front, rfl, ?_⟩, hrest⟩
        exact List.not_mem_cons_of_ne_of_not_mem (Ne.symm hc) hfront

/-- All pieces but the last one are closed. -/
theorem isClosed_of_split (h : split cs = before ++ piece :: after) :
    (∀ piece ∈ before, IsClosed piece) ∧
      (IsClosed piece ∧ after ≠ [] ∨ '\n' ∉ piece ∧ after = []) := by
  obtain ⟨closed, last, hsplit, hclosed, hlast⟩ := exists_split cs
  rw [h] at hsplit
  rcases List.eq_nil_or_concat' after with rfl | ⟨after, final, rfl⟩
  · obtain ⟨rfl, hpiece⟩ := List.append_inj' hsplit rfl
    exact ⟨hclosed, .inr ⟨(List.cons.inj hpiece).1 ▸ hlast, rfl⟩⟩
  · rw [← List.cons_append, ← List.append_assoc] at hsplit
    obtain ⟨rfl, -⟩ := List.append_inj' hsplit rfl
    simp only [List.mem_append, List.mem_cons] at hclosed
    exact ⟨fun piece hpiece => hclosed piece (.inl hpiece),
      .inl ⟨hclosed piece (.inr (.inl rfl)), by simp⟩⟩

theorem byteLength_flatten_cons (first : List Char) (lines : List (List Char)) :
    byteLength (first :: lines).flatten = byteLength first + byteLength lines.flatten := by
  rw [List.flatten_cons, byteLength_append]

/-- The line that is found stands behind the others by the offset less the column. -/
theorem exists_of_locateIn (h : locateIn number lines offset = some line) :
    ∃ before after, lines = before ++ line.text :: after ∧ line.number = number + before.length ∧
      offset = byteLength before.flatten + line.column ∧ line.column ≤ byteLength line.text ∧
      (after ≠ [] → line.column < byteLength line.text) := by
  fun_induction locateIn number lines offset with
  | case1 => cases h
  | case2 number piece offset hle =>
    obtain rfl := Option.some.inj h
    exact ⟨[], [], rfl, rfl, by simp [byteLength], hle, by simp⟩
  | case3 => cases h
  | case4 number piece next lines offset hlt =>
    obtain rfl := Option.some.inj h
    exact ⟨[], next :: lines, rfl, rfl, by simp [byteLength], hlt.le, fun _ => hlt⟩
  | case5 number piece next lines offset hlt ih =>
    obtain ⟨before, after, hlines, hnumber, hoffset, hle, hinside⟩ := ih h
    refine ⟨piece :: before, after, by rw [hlines, List.cons_append], ?_, ?_, hle, hinside⟩
    · rw [hnumber, List.length_cons]
      omega
    · rw [byteLength_flatten_cons]
      omega

/-- Up to the end of the last line there is something to be found. -/
theorem exists_locateIn (hne : lines ≠ []) (hoffset : offset ≤ byteLength lines.flatten) :
    ∃ line, locateIn number lines offset = some line := by
  fun_induction locateIn number lines offset with
  | case1 => exact absurd rfl hne
  | case2 | case4 => exact ⟨_, rfl⟩
  | case3 number piece offset hlt => exact absurd (by simpa using hoffset) hlt
  | case5 number piece next lines offset hlt ih =>
    rw [byteLength_flatten_cons] at hoffset
    exact ih (by simp) (by omega)

end Pieces

section Bytes

variable {piece : List Char} {pieces : List (List Char)} {text : String} {offset : Nat}
  {line other : Line}

def encoded (cs : List Char) : List UInt8 := cs.flatMap String.utf8EncodeChar

@[simp] theorem encoded_nil : encoded [] = [] := rfl

theorem encoded_append (cs cs' : List Char) : encoded (cs ++ cs') = encoded cs ++ encoded cs' :=
  List.flatMap_append

theorem bytes_ofList (cs : List Char) : bytes (String.ofList cs) = encoded cs := by
  rw [bytes_eq_flatMap, String.toList_ofList, encoded]

theorem length_encoded (cs : List Char) : (encoded cs).length = byteLength cs := by
  rw [← bytes_ofList, length_bytes_eq_byteLength, String.toList_ofList]

theorem not_mem_encoded {cs : List Char} (h : '\n' ∉ cs) : 0x0A ∉ encoded cs := by
  intro hmem
  obtain ⟨c, hc, hbyte⟩ := List.mem_flatMap.mp hmem
  refine not_mem_utf8EncodeChar ?_ hbyte
  rintro rfl
  exact h hc

/-- A closed piece has its line feed as its last byte. -/
theorem IsClosed.exists_encoded (h : IsClosed piece) :
    ∃ front, encoded piece = front ++ [0x0A] ∧ 0x0A ∉ front := by
  obtain ⟨front, rfl, hfront⟩ := h
  exact ⟨encoded front, encoded_append front ['\n'], not_mem_encoded hfront⟩

/-- There are as many line feeds as closed pieces. -/
theorem count_encoded (h : ∀ piece ∈ pieces, IsClosed piece) :
    (encoded pieces.flatten).count 0x0A = pieces.length := by
  induction pieces with
  | nil => rfl
  | cons piece pieces ih =>
    obtain ⟨hfirst, hrest⟩ := List.forall_mem_cons.mp h
    obtain ⟨front, hfront, hnone⟩ := hfirst.exists_encoded
    rw [List.flatten_cons, encoded_append, List.count_append, ih hrest, hfront,
      List.count_append, List.count_eq_zero_of_not_mem hnone, List.count_singleton_self,
      List.length_cons]
    omega

theorem getLast?_encoded (h : ∀ piece ∈ pieces, IsClosed piece) :
    encoded pieces.flatten = [] ∨ (encoded pieces.flatten).getLast? = some 0x0A := by
  rcases List.eq_nil_or_concat' pieces with rfl | ⟨init, last, rfl⟩
  · exact .inl rfl
  · obtain ⟨front, hfront, -⟩ := (h last (by simp)).exists_encoded
    refine .inr ?_
    rw [List.flatten_concat, encoded_append, hfront, ← List.append_assoc]
    exact List.getLast?_concat

/-- The line that is found, among the lines of the text. -/
theorem exists_of_locate (h : locate text offset = some line) :
    ∃ before after, split text.toList = before ++ line.text :: after ∧
      line.number = before.length + 1 ∧ offset = byteLength before.flatten + line.column ∧
      line.column ≤ byteLength line.text ∧ (after ≠ [] → line.column < byteLength line.text) := by
  obtain ⟨before, after, hsplit, hnumber, hplace⟩ := exists_of_locateIn h
  exact ⟨before, after, hsplit, by rw [hnumber, Nat.add_comm], hplace⟩

/-- What is found is the line of the offset. -/
theorem isAt_of_locate (h : locate text offset = some line) : line.IsAt (bytes text) offset := by
  obtain ⟨before, after, hsplit, hnumber, hoffset, hle, hinside⟩ := exists_of_locate h
  obtain ⟨hbefore, hpiece⟩ := isClosed_of_split hsplit
  have hbytes : bytes text =
      encoded before.flatten ++ (encoded line.text ++ encoded after.flatten) := by
    rw [← String.ofList_toList (s := text), bytes_ofList, ← flatten_split text.toList, hsplit,
      List.flatten_append, List.flatten_cons, encoded_append, encoded_append]
  have hlength := length_encoded before.flatten
  have hcolumn := length_encoded line.text
  have htake : (bytes text).take offset =
      encoded before.flatten ++ (encoded line.text).take line.column := by
    rw [hbytes, hoffset, ← hlength, List.take_length_add_append,
      List.take_append_of_le_length (by omega)]
  -- Up to the column there is no line feed: one may only be the last byte of the line.
  have hstart : 0x0A ∉ (encoded line.text).take line.column := by
    rcases hpiece with ⟨hclosed, hafter⟩ | ⟨hopen, -⟩
    · obtain ⟨front, hfront, hnone⟩ := hclosed.exists_encoded
      have hlast := hinside hafter
      rw [hfront, List.length_append, List.length_singleton] at hcolumn
      rw [hfront, List.take_append_of_le_length (by omega)]
      exact fun hmem => hnone (List.mem_of_mem_take hmem)
    · exact fun hmem => not_mem_encoded hopen (List.mem_of_mem_take hmem)
  refine ⟨?_, ?_, ⟨_, _, htake, ?_, hstart, getLast?_encoded hbefore⟩, ?_⟩
  · rw [hbytes, List.length_append, List.length_append]
    omega
  · rw [htake, List.count_append, count_encoded hbefore, List.count_eq_zero_of_not_mem hstart,
      hnumber, Nat.add_zero]
  · rw [List.length_take]
    omega
  · have hdrop : (bytes text).drop (offset - line.column) =
        encoded line.text ++ encoded after.flatten := by
      rw [hbytes, hoffset, Nat.add_sub_cancel, ← hlength, List.drop_left]
    rw [hdrop, bytes_ofList]
    rcases hpiece with ⟨hclosed, -⟩ | ⟨hopen, rfl⟩
    · obtain ⟨front, hfront, hnone⟩ := hclosed.exists_encoded
      rw [hfront, List.append_assoc, List.singleton_append, throughFeed_feed hnone]
    · rw [List.flatten_nil, encoded_nil, List.append_nil,
        throughFeed_of_not_mem (not_mem_encoded hopen)]

/-- Only up to the end of the text something is found. -/
theorem locate_eq_none_iff : locate text offset = none ↔ (bytes text).length < offset := by
  constructor
  · intro h
    by_contra hle
    have htotal : offset ≤ byteLength (split text.toList).flatten := by
      rw [flatten_split, ← length_bytes_eq_byteLength]
      omega
    obtain ⟨line, hline⟩ : ∃ line, locateIn 1 (split text.toList) offset = some line :=
      exists_locateIn (split_ne_nil text.toList) htotal
    exact Option.some_ne_none line (hline.symm.trans h)
  · intro hlt
    cases h : locate text offset with
    | none => rfl
    | some line =>
      have hle := (isAt_of_locate h).le
      omega

theorem exists_locate (hoffset : offset ≤ (bytes text).length) :
    ∃ line, locate text offset = some line :=
  Option.ne_none_iff_exists'.mp fun hnone =>
    Nat.not_lt.mpr hoffset (locate_eq_none_iff.mp hnone)

/-- There is one line that an offset is on. -/
theorem IsAt.unique {whole : List UInt8} (h : line.IsAt whole offset)
    (h' : other.IsAt whole offset) : line = other := by
  have hnumber : line.number = other.number := h.number_eq.trans h'.number_eq.symm
  have hcolumn : line.column = other.column := by
    obtain ⟨front, start, htake, hlength, hstart, hfront⟩ := h.column_eq
    obtain ⟨front', start', htake', hlength', hstart', hfront'⟩ := h'.column_eq
    rw [← hlength, ← hlength', ← rtakeWhile_of_lastFeed hstart hfront, ← htake, htake',
      rtakeWhile_of_lastFeed hstart' hfront']
  have htext : line.text = other.text := by
    have hbytes := h.text_eq
    rw [hcolumn, ← h'.text_eq] at hbytes
    have hsame : String.ofList line.text = String.ofList other.text :=
      String.toByteArray_inj.mp (ByteArray.ext (Array.toList_inj.mp hbytes))
    simpa using congrArg String.toList hsame
  obtain ⟨number, text, column⟩ := line
  obtain ⟨number', text', column'⟩ := other
  simp only at hnumber hcolumn htext
  rw [hnumber, hcolumn, htext]

end Bytes

section Places

variable {whole : List UInt8} {offset offset' : Nat} {line other : Line} {text : String}

/-- The bytes of the line from the offset on end the bytes of the line. -/
theorem IsAt.exists_bytes (h : line.IsAt whole offset) : ∃ front start,
    whole = front ++ (start ++ whole.drop offset) ∧ start.length = line.column ∧ 0x0A ∉ start ∧
      (front = [] ∨ front.getLast? = some 0x0A) ∧
      encoded line.text = throughFeed (start ++ whole.drop offset) := by
  obtain ⟨front, start, htake, hlength, hstart, hfront⟩ := h.column_eq
  have hwhole : whole = front ++ (start ++ whole.drop offset) := by
    rw [← List.append_assoc, ← htake, List.take_append_drop]
  have hoffset : offset - line.column = front.length := by
    have htaken := congrArg List.length htake
    rw [List.length_take, List.length_append, Nat.min_eq_left h.le] at htaken
    omega
  refine ⟨front, start, hwhole, hlength, hstart, hfront, ?_⟩
  rw [← bytes_ofList, h.text_eq, hoffset]
  conv => lhs; rw [hwhole]
  rw [List.drop_left]

/-- A line feed is on the line that it ends. -/
theorem IsAt.ends_line (h : line.IsAt whole offset) (hfeed : whole[offset]? = some 0x0A) :
    ∃ start, encoded line.text = start ++ [0x0A] ∧ start.length = line.column := by
  obtain ⟨front, start, -, hlength, hstart, -, htext⟩ := h.exists_bytes
  obtain ⟨rest, hrest⟩ : ∃ rest, whole.drop offset = 0x0A :: rest := by
    obtain ⟨hlt, hbyte⟩ := List.getElem?_eq_some_iff.mp hfeed
    exact ⟨whole.drop (offset + 1), by rw [List.drop_eq_getElem_cons hlt, hbyte]⟩
  exact ⟨start, by rw [htext, hrest, throughFeed_feed hstart], hlength⟩

/-- Behind the last line feed stands an empty line. -/
theorem IsAt.eq_empty (h : line.IsAt whole whole.length)
    (hend : whole = [] ∨ whole.getLast? = some 0x0A) :
    line = ⟨whole.count 0x0A + 1, [], 0⟩ := by
  refine h.unique ⟨le_rfl, by rw [List.take_length],
    ⟨whole, [], ?_, rfl, List.not_mem_nil, hend⟩, ?_⟩
  · rw [List.take_length, List.append_nil]
  · rw [Nat.sub_zero, List.drop_length, bytes_ofList]
    rfl

/-- Further on in the text comes a later line, or a later column of the same one. -/
theorem IsAt.lt (h : line.IsAt whole offset) (h' : other.IsAt whole offset')
    (hlt : offset < offset') :
    toLex (line.number, line.column) < toLex (other.number, other.column) := by
  obtain ⟨between, hbetween⟩ : ∃ between, whole.take offset' = whole.take offset ++ between :=
    ⟨(whole.drop offset).take (offset' - offset), by
      rw [← List.take_add, Nat.add_sub_cancel' hlt.le]⟩
  have hlength : between.length = offset' - offset := by
    have htaken := congrArg List.length hbetween
    rw [List.length_append, List.length_take, List.length_take, Nat.min_eq_left h.le,
      Nat.min_eq_left h'.le] at htaken
    omega
  have hnumber : other.number = line.number + between.count 0x0A := by
    rw [h'.number_eq, h.number_eq, hbetween, List.count_append]
    omega
  rw [Prod.Lex.toLex_lt_toLex]
  by_cases hfeed : 0x0A ∈ between
  · have hpositive := List.count_pos_iff.mpr hfeed
    exact .inl (by simp only [hnumber]; omega)
  · -- No line ends in between, so the column grows by what is in between.
    refine .inr ⟨by simp only [hnumber, List.count_eq_zero_of_not_mem hfeed, Nat.add_zero], ?_⟩
    obtain ⟨front, start, htake, hstartLength, hstart, hfront⟩ := h.column_eq
    obtain ⟨front', start', htake', hstartLength', hstart', hfront'⟩ := h'.column_eq
    rw [htake, List.append_assoc] at hbetween
    have hsame : start' = start ++ between := by
      rw [← rtakeWhile_of_lastFeed hstart' hfront', ← htake', hbetween]
      exact rtakeWhile_of_lastFeed (by simpa using ⟨hstart, hfeed⟩) hfront
    have hgrown := congrArg List.length hsame
    rw [List.length_append] at hgrown
    simp only
    omega

theorem locate_eq_some_iff : locate text offset = some line ↔ line.IsAt (bytes text) offset := by
  refine ⟨isAt_of_locate, fun h => ?_⟩
  cases hfound : locate text offset with
  | none =>
    have hlt := locate_eq_none_iff.mp hfound
    exact absurd h.le (by omega)
  | some found => rw [(isAt_of_locate hfound).unique h]

/-- Looking up a line is exact at every offset. Nothing is found past the end of the text and
nowhere else. What is found is the line of the offset, with the number of line feeds in front
of it and the bytes behind the last of them. In particular a line feed is on the line that it
ends, the end of a text behind a line feed is the start of an empty line, and the line and the
column only go up with the offset. -/
theorem locate_exact (text : String) :
    (∀ offset, locate text offset = none ↔ text.utf8ByteSize < offset) ∧
      (∀ offset line, locate text offset = some line ↔ line.IsAt (bytes text) offset) ∧
      (∀ offset, (bytes text)[offset]? = some 0x0A → ∃ line start,
        locate text offset = some line ∧ bytes (String.ofList line.text) = start ++ [0x0A] ∧
        start.length = line.column) ∧
      (bytes text = [] ∨ (bytes text).getLast? = some 0x0A →
        locate text text.utf8ByteSize = some ⟨(bytes text).count 0x0A + 1, [], 0⟩) ∧
      ∀ offset offset' line line', offset < offset' → locate text offset = some line →
        locate text offset' = some line' →
        toLex (line.number, line.column) < toLex (line'.number, line'.column) := by
  have hnone : ∀ offset, locate text offset = none ↔ text.utf8ByteSize < offset := fun offset => by
    rw [← length_bytes, locate_eq_none_iff]
  have hsome : ∀ offset ≤ text.utf8ByteSize, ∃ line, locate text offset = some line := by
    intro offset hle
    exact Option.ne_none_iff_exists'.mp fun h => Nat.not_lt.mpr hle ((hnone offset).mp h)
  refine ⟨hnone, fun _ _ => locate_eq_some_iff, ?_, ?_, ?_⟩
  · intro offset hfeed
    have hlt := (List.getElem?_eq_some_iff.mp hfeed).1
    obtain ⟨line, hline⟩ := hsome offset (by rw [← length_bytes]; exact hlt.le)
    obtain ⟨start, htext, hlength⟩ := (isAt_of_locate hline).ends_line hfeed
    exact ⟨line, start, hline, by rw [bytes_ofList, htext], hlength⟩
  · intro hend
    obtain ⟨line, hline⟩ := hsome text.utf8ByteSize le_rfl
    have hat := isAt_of_locate hline
    rw [← length_bytes] at hat
    rw [hline, hat.eq_empty hend]
  · intro offset offset' line line' hlt hline hline'
    exact (isAt_of_locate hline).lt (isAt_of_locate hline') hlt

/-- The case of an accent, an empty line and the end of the text behind it. -/
theorem locate_exact_of_accent : (bytes "é\n\n").getLast? = some 0x0A ∧
    locate "é\n\n" 4 = some ⟨3, [], 0⟩ ∧ Line.IsAt (bytes "é\n\n") 1 ⟨1, "é\n".toList, 1⟩ ∧
    locate "é\n\n" 5 = none := by
  have hlast : (bytes "é\n\n").getLast? = some 0x0A := by decide +kernel
  obtain ⟨hnone, hsome, -, hend, -⟩ := locate_exact "é\n\n"
  have hcount : (bytes "é\n\n").count 0x0A = 2 := by decide +kernel
  have hempty := hend (.inr hlast)
  rw [hcount] at hempty
  exact ⟨hlast, hempty, (hsome 1 _).mp (by decide +kernel), (hnone 5).mpr (by decide +kernel)⟩

end Places

end Line

end ExprLang
