import ExprLang.Proofs.Layout

/-!
The alphabet. Tokens and the blanks between them are made of ASCII characters, so in
front of the first character outside the alphabet bytes and characters are the
same, and the first byte outside the alphabet is the first byte of a character.
-/
namespace ExprLang

def bytes (text : String) : List UInt8 := text.toByteArray.data.toList

def isLegalChar (c : Char) : Bool := c.isAlphanum || symbolChars.contains c || isBlank c

def isLegalByte (byte : UInt8) : Bool := isLegalChar (Char.ofUInt8 byte)

theorem length_bytes (text : String) : (bytes text).length = text.utf8ByteSize := by
  simp [bytes]

/-- Bytes are the text that they encode. -/
theorem fromUTF8?_eq_some_iff {content : ByteArray} {text : String} :
    String.fromUTF8? content = some text ↔ content = text.toByteArray := by
  constructor
  · intro h
    rw [String.fromUTF8?] at h
    split at h
    · rw [← Option.some.inj h]
      rfl
    · cases h
  · rintro rfl
    rw [String.fromUTF8?, dif_pos text.isValidUTF8]
    rfl

theorem bytes_eq_flatMap (text : String) :
    bytes text = text.toList.flatMap String.utf8EncodeChar := by
  rw [bytes, ← String.utf8Encode_toList]
  simp [List.utf8Encode]

section Characters

/-- Letters and digits are ASCII. -/
theorem toNat_lt_of_isAlphanum {c : Char} (h : c.isAlphanum = true) : c.toNat < 128 := by
  have hcases : ((decide ('A'.val ≤ c.val ∧ c.val ≤ 'Z'.val) ||
      (decide ('a'.val ≤ c.val) && decide (c.val ≤ 'z'.val))) || c.isDigit) = true := h
  simp only [Bool.or_eq_true, Bool.and_eq_true, decide_eq_true_eq] at hcases
  have hle : ∀ d : Char, c.val ≤ d.val → c.toNat ≤ d.toNat := fun d => UInt32.le_iff_toNat_le.mp
  rcases hcases with (⟨-, hz⟩ | ⟨-, hz⟩) | hdigit
  · exact lt_of_le_of_lt (hle 'Z' hz) (by decide)
  · exact lt_of_le_of_lt (hle 'z' hz) (by decide)
  · exact lt_of_le_of_lt (Char.isDigit_iff_toNat.mp hdigit).2 (by decide)

theorem toNat_lt_of_isLegalChar {c : Char} (h : isLegalChar c = true) : c.toNat < 128 := by
  simp only [isLegalChar, Bool.or_eq_true] at h
  rcases h with (halphanum | hsymbol) | hblank
  · exact toNat_lt_of_isAlphanum halphanum
  · have hmem := List.contains_iff_mem.mp hsymbol
    simp only [symbolChars, List.mem_cons, List.not_mem_nil, or_false] at hmem
    rcases hmem with rfl | rfl | rfl | rfl | rfl | rfl | rfl <;> decide
  · simp only [isBlank_iff, List.mem_cons, List.not_mem_nil, or_false] at hblank
    rcases hblank with rfl | rfl | rfl | rfl <;> decide

/-- ASCII characters take one byte, which is their code. -/
theorem utf8EncodeChar_of_lt {c : Char} (h : c.toNat < 128) :
    String.utf8EncodeChar c = [c.toUInt8] := by
  have hsize : c.utf8Size = 1 := by
    rw [Char.utf8Size_eq_one_iff, UInt32.le_iff_toNat_le]
    exact Nat.le_of_lt_succ h
  exact String.utf8EncodeChar_eq_singleton hsize

theorem ofUInt8_toUInt8 {c : Char} (h : c.toNat < 128) : Char.ofUInt8 c.toUInt8 = c := by
  apply Char.ext
  apply UInt32.toNat_inj.mp
  have hsmall : c.val.toNat < 256 := lt_trans h (by decide)
  show c.val.toUInt8.toUInt32.toNat = c.val.toNat
  rw [UInt8.toNat_toUInt32, UInt32.toNat_toUInt8, Nat.mod_eq_of_lt hsmall]

/-- The codes of ASCII characters give the characters back. -/
theorem map_ofUInt8_toUInt8 {cs : List Char} (h : ∀ c ∈ cs, c.toNat < 128) :
    (cs.map Char.toUInt8).map Char.ofUInt8 = cs := by
  rw [List.map_map]
  exact (List.map_congr_left fun c hc => ofUInt8_toUInt8 (h c hc)).trans (List.map_id cs)

theorem flatMap_utf8EncodeChar {cs : List Char} (h : ∀ c ∈ cs, c.toNat < 128) :
    cs.flatMap String.utf8EncodeChar = cs.map Char.toUInt8 := by
  induction cs with
  | nil => rfl
  | cons c cs ih =>
    obtain ⟨hc, hcs⟩ := List.forall_mem_cons.mp h
    rw [List.flatMap_cons, utf8EncodeChar_of_lt hc, ih hcs]
    rfl

/-- A text of the alphabet has a byte for each character, which is its code. -/
theorem bytes_of_isLegalChar {text : String} (h : ∀ c ∈ text.toList, isLegalChar c = true) :
    bytes text = text.toList.map Char.toUInt8 := by
  rw [bytes_eq_flatMap]
  exact flatMap_utf8EncodeChar fun c hc => toNat_lt_of_isLegalChar (h c hc)

theorem utf8ByteSize_of_isLegalChar {text : String}
    (h : ∀ c ∈ text.toList, isLegalChar c = true) : text.utf8ByteSize = text.toList.length := by
  rw [← length_bytes, bytes_of_isLegalChar h, List.length_map]

theorem exists_leadByte (c : Char) : ∃ tail, String.utf8EncodeChar c = leadByte c :: tail := by
  obtain ⟨byte, tail, hbytes⟩ := List.exists_cons_of_ne_nil (String.utf8EncodeChar_ne_nil (c := c))
  exact ⟨tail, by rw [leadByte, hbytes]; rfl⟩

theorem isUTF8FirstByte_leadByte (c : Char) : (leadByte c).IsUTF8FirstByte := by
  obtain ⟨tail, htail⟩ := exists_leadByte c
  have hfirst := UInt8.isUTF8FirstByte_getElem_zero_utf8EncodeChar (c := c)
  simpa [htail] using hfirst

/-- Characters outside ASCII begin with a byte outside ASCII. -/
theorem le_leadByte {c : Char} (h : 128 ≤ c.toNat) : 128 ≤ (leadByte c).toNat := by
  have hlarge : ¬ c.val.toNat ≤ 127 := by
    have heq : c.val.toNat = c.toNat := rfl
    omega
  simp only [leadByte, String.utf8EncodeChar, hlarge, if_false]
  split
  · simp only [List.headD_cons, UInt8.toNat_ofNat']
    omega
  · split
    · simp only [List.headD_cons, UInt8.toNat_ofNat']
      omega
    · simp only [List.headD_cons, UInt8.toNat_ofNat']
      omega

/-- A character is in the alphabet if and only if its first byte is. -/
theorem isLegalByte_leadByte (c : Char) : isLegalByte (leadByte c) = isLegalChar c := by
  by_cases hc : c.toNat < 128
  · have hlead : leadByte c = c.toUInt8 := by rw [leadByte, utf8EncodeChar_of_lt hc]; rfl
    rw [isLegalByte, hlead, ofUInt8_toUInt8 hc]
  · have hlead := le_leadByte (Nat.le_of_not_lt hc)
    have hbyte : isLegalByte (leadByte c) = false := by
      apply Bool.eq_false_iff.mpr
      intro hlegal
      have hsmall : (leadByte c).toUInt32.toNat < 128 := toNat_lt_of_isLegalChar hlegal
      rw [UInt8.toNat_toUInt32] at hsmall
      omega
    have hchar : isLegalChar c = false :=
      Bool.eq_false_iff.mpr fun hlegal => hc (toNat_lt_of_isLegalChar hlegal)
    rw [hbyte, hchar]

/-- A text has only bytes of the alphabet if and only if it has only characters of it. -/
theorem isLegalByte_bytes_iff {text : String} :
    (∀ byte ∈ bytes text, isLegalByte byte = true) ↔
      ∀ c ∈ text.toList, isLegalChar c = true := by
  constructor
  · intro h c hc
    obtain ⟨tail, htail⟩ := exists_leadByte c
    rw [← isLegalByte_leadByte]
    apply h
    rw [bytes_eq_flatMap, List.mem_flatMap]
    exact ⟨c, hc, by rw [htail]; exact List.mem_cons_self ..⟩
  · intro h
    rw [bytes_of_isLegalChar h, List.forall_mem_map]
    intro c hc
    rw [isLegalByte, ofUInt8_toUInt8 (toNat_lt_of_isLegalChar (h c hc))]
    exact h c hc

/-- The bytes up to a character, when all characters before it are of the alphabet. -/
theorem exists_bytes_of_toList {text : String} {front behind : List Char} {c : Char}
    (h : text.toList = front ++ c :: behind) (hfront : ∀ d ∈ front, isLegalChar d = true) :
    ∃ tail, bytes text = front.map Char.toUInt8 ++ leadByte c :: tail := by
  obtain ⟨tail, htail⟩ := exists_leadByte c
  rw [bytes_eq_flatMap, h, List.flatMap_append, List.flatMap_cons, htail,
    flatMap_utf8EncodeChar fun d hd => toNat_lt_of_isLegalChar (hfront d hd)]
  exact ⟨_, rfl⟩

/-- A text can be cut behind characters of the alphabet, at the byte that they count up to. -/
theorem exists_front_of_toList {text : String} {front behind : List Char}
    (h : text.toList = front ++ behind) (hfront : ∀ c ∈ front, isLegalChar c = true) :
    ∃ front' behind' : String, text = front' ++ behind' ∧ front'.toList = front ∧
      behind'.toList = behind ∧ front'.utf8ByteSize = front.length := by
  have hchars : (String.ofList front).toList = front := String.toList_ofList
  refine ⟨String.ofList front, String.ofList behind, ?_, hchars, String.toList_ofList, ?_⟩
  · rw [← String.ofList_append, ← h, String.ofList_toList]
  · rw [utf8ByteSize_of_isLegalChar (by rwa [hchars]), hchars]

end Characters

namespace Token.Kind

variable {kind : Token.Kind} {text rest : List Char}

theorem IsLegal.isLegalChar_spelling (h : kind.IsLegal) :
    ∀ c ∈ kind.spelling.toList, isLegalChar c = true := by
  have halphanum : ∀ c : Char, c.isAlphanum = true → isLegalChar c = true :=
    fun c hc => by simp [isLegalChar, hc]
  cases h with
  | define | declare => exact List.all_eq_true.mp (by decide)
  | @identifier name hname =>
    obtain ⟨first, cs, hcs, hfirst, hall⟩ := hname.begins
    show ∀ c ∈ name.toList, isLegalChar c = true
    rw [hcs]
    refine List.forall_mem_cons.mpr ⟨halphanum _ (by simp [Char.isAlphanum, hfirst]), ?_⟩
    exact fun c hc => halphanum c (hall c hc)
  | number hne hdigits =>
    exact fun c hc => halphanum c (by simp [Char.isAlphanum, hdigits c hc])
  | @mark c hc => simp [Kind.mark, spelling, isLegalChar, hc]

theorem isLegalChar_of_munch? (h : munch? text = some (kind, rest)) :
    ∀ c ∈ kind.spelling.toList, isLegalChar c = true :=
  (isLegal_of_munch? h).1.isLegalChar_spelling

/-- A character that is no blank and begins no token is outside the alphabet. -/
theorem not_isLegalChar_of_munch? {c : Char} (hblank : isBlank c = false)
    (h : munch? (c :: text) = none) : isLegalChar c = false := by
  simp only [munch?] at h
  split at h
  · cases h
  · split at h
    · cases h
    · split at h
      · cases h
      · next halpha hdigit hsymbol =>
        rw [isSymbolChar_iff] at hsymbol
        simp [isLegalChar, Char.isAlphanum, halpha, hdigit, hsymbol, hblank]

end Token.Kind

namespace Tiles

variable {file : String} {offset : Nat} {text : List Char} {tokens : List Token}

theorem isLegalChar_of_blanks {blanks : List Char} (h : ∀ c ∈ blanks, isBlank c = true) :
    ∀ c ∈ blanks, isLegalChar c = true :=
  fun c hc => by simp [isLegalChar, h c hc]

/-- A text that is divided up to its end is made of the alphabet. -/
theorem isLegalChar_of_ok {final : Token} (h : Tiles file offset text tokens (.ok final)) :
    ∀ c ∈ text, isLegalChar c = true := by
  generalize hlast : Except.ok final = last at h
  induction h with
  | finish hblanks => exact isLegalChar_of_blanks hblanks
  | stuck => cases hlast
  | token hblanks hmunch hrest ih =>
    obtain ⟨rfl, -⟩ := Token.Kind.munch?_eq_some _ _ _ hmunch
    simp only [List.forall_mem_append]
    exact ⟨isLegalChar_of_blanks hblanks, Token.Kind.isLegalChar_of_munch? hmunch, ih hlast⟩

/-- The end of the input stands behind all characters. -/
theorem final_eq {final : Token} (h : Tiles file offset text tokens (.ok final)) :
    final = .placed file (offset + text.length) .endOfInput := by
  generalize hlast : Except.ok final = last at h
  induction h with
  | finish => exact Except.ok.inj hlast
  | stuck => cases hlast
  | token hblanks hmunch hrest ih =>
    obtain ⟨rfl, -⟩ := Token.Kind.munch?_eq_some _ _ _ hmunch
    rw [ih hlast]
    simp only [List.length_append, String.length_toList, Nat.add_assoc]

/-- The error is about the first character outside the alphabet. -/
theorem exists_of_error {error : LexicalError} (h : Tiles file offset text tokens (.error error)) :
    ∃ before c after, text = before ++ c :: after ∧ (∀ d ∈ before, isLegalChar d = true) ∧
      isLegalChar c = false ∧
      error = ⟨leadByte c, ⟨(offset + before.length).toUInt32, file⟩⟩ := by
  generalize hlast : Except.error error = last at h
  induction h with
  | finish => cases hlast
  | @stuck offset blanks c text hblanks hc hmunch =>
    obtain rfl := Except.error.inj hlast
    exact ⟨blanks, c, text, rfl, isLegalChar_of_blanks hblanks,
      Token.Kind.not_isLegalChar_of_munch? hc hmunch, rfl⟩
  | @token offset blanks text kind rest tokens last hblanks hmunch hrest ih =>
    obtain ⟨before, c, after, rfl, hbefore, hc, herror⟩ := ih hlast
    obtain ⟨rfl, -⟩ := Token.Kind.munch?_eq_some _ _ _ hmunch
    refine ⟨blanks ++ (kind.spelling.toList ++ before), c, after, by simp, ?_, hc, ?_⟩
    · simp only [List.forall_mem_append]
      exact ⟨isLegalChar_of_blanks hblanks, Token.Kind.isLegalChar_of_munch? hmunch, hbefore⟩
    · rw [herror]
      simp only [List.length_append, String.length_toList, Nat.add_assoc]

end Tiles

end ExprLang
