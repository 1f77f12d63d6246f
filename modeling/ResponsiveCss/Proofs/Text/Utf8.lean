import ResponsiveCss.Text.Character

/-!
# The bytes of a text

A text can be looked at byte by byte, each byte as the character of its number
(`Text.byteChars`). An ASCII character is one byte, the same character again; the bytes of any other
character are beyond ASCII. So a class that tells no two characters beyond ASCII apart takes the
bytes of the characters that it takes (`Text.takeWhile_byteChars`, `Text.dropWhile_byteChars`).
-/

namespace ResponsiveCss.Text

/-! ## One character -/

/-- The bytes of a character in UTF-8, each as the character of its number. -/
def encode (c : Char) : List Char := (String.utf8EncodeChar c).map Char.ofUInt8

theorem toNat_ofUInt8 (b : UInt8) : (Char.ofUInt8 b).toNat = b.toNat := rfl

theorem utf8EncodeChar_of_lt {c : Char} (h : c.toNat < 128) :
    String.utf8EncodeChar c = [UInt8.ofNat c.toNat] := if_pos (Nat.le_of_lt_succ h)

theorem ofUInt8_ofNat_toNat {c : Char} (h : c.toNat < 128) :
    Char.ofUInt8 (UInt8.ofNat c.toNat) = c := by
  apply Char.toNat_inj.mp
  rw [toNat_ofUInt8, UInt8.toNat_ofNat', Nat.mod_eq_of_lt (by omega)]

theorem encode_of_lt {c : Char} (h : c.toNat < 128) : encode c = [c] := by
  rw [encode, utf8EncodeChar_of_lt h, List.map_singleton, ofUInt8_ofNat_toNat h]

/-- How many bytes a character has whose first byte, not that of an ASCII character, is `lead`. -/
def leadLength (lead : UInt8) : Nat :=
  if lead.toNat < 0xe0 then 2 else if lead.toNat < 0xf0 then 3 else 4

/-- A character that is not ASCII has a first byte that tells how many they are, and none of its
bytes is that of an ASCII character. -/
theorem exists_utf8EncodeChar_eq_cons {c : Char} (h : 128 ≤ c.toNat) :
    ∃ lead tail, String.utf8EncodeChar c = lead :: tail ∧ leadLength lead = c.utf8Size ∧
      ∀ b ∈ lead :: tail, 128 ≤ b.toNat := by
  have hbyte (n : Nat) (hn : 128 ≤ n ∧ n < 256) : 128 ≤ (UInt8.ofNat n).toNat := by
    rw [UInt8.toNat_ofNat']
    omega
  have hlarge : ¬ c.val.toNat ≤ 0x7f := Nat.not_le_of_lt h
  have hlength := String.length_utf8EncodeChar c
  unfold String.utf8EncodeChar at hlength ⊢
  simp only [hlarge, if_false] at hlength ⊢
  by_cases htwo : c.val.toNat ≤ 0x7ff
  · rw [if_pos htwo] at hlength ⊢
    refine ⟨_, _, rfl, ?_, ?_⟩
    · rw [← hlength, leadLength, UInt8.toNat_ofNat', if_pos (by omega)]
      rfl
    · simp only [List.forall_mem_cons]
      exact ⟨hbyte _ (by omega), hbyte _ (by omega), List.forall_mem_nil _⟩
  rw [if_neg htwo] at hlength ⊢
  by_cases hthree : c.val.toNat ≤ 0xffff
  · rw [if_pos hthree] at hlength ⊢
    refine ⟨_, _, rfl, ?_, ?_⟩
    · rw [← hlength, leadLength, UInt8.toNat_ofNat', if_neg (by omega), if_pos (by omega)]
      rfl
    · simp only [List.forall_mem_cons]
      exact ⟨hbyte _ (by omega), hbyte _ (by omega), hbyte _ (by omega), List.forall_mem_nil _⟩
  · rw [if_neg hthree] at hlength ⊢
    refine ⟨_, _, rfl, ?_, ?_⟩
    · rw [← hlength, leadLength, UInt8.toNat_ofNat', if_neg (by omega), if_neg (by omega)]
      rfl
    · simp only [List.forall_mem_cons]
      exact ⟨hbyte _ (by omega), hbyte _ (by omega), hbyte _ (by omega), hbyte _ (by omega),
        List.forall_mem_nil _⟩

/-- No byte of a character beyond ASCII is that of an ASCII character. -/
theorem exists_encode_eq_cons {c : Char} (h : 128 ≤ c.toNat) :
    ∃ d tail, encode c = d :: tail ∧ ∀ e ∈ d :: tail, 128 ≤ e.toNat := by
  obtain ⟨lead, tail, hbytes, -, hlarge⟩ := exists_utf8EncodeChar_eq_cons h
  refine ⟨.ofUInt8 lead, tail.map .ofUInt8, by rw [encode, hbytes, List.map_cons], ?_⟩
  rw [← List.map_cons]
  exact List.forall_mem_map.mpr hlarge

/-! ## Texts -/

/-- The bytes of a text in UTF-8, each as the character of its number. -/
def byteChars (cs : List Char) : List Char := cs.flatMap encode

theorem byteChars_cons (c : Char) (cs : List Char) :
    byteChars (c :: cs) = encode c ++ byteChars cs := List.flatMap_cons

theorem byteChars_append (as bs : List Char) :
    byteChars (as ++ bs) = byteChars as ++ byteChars bs := List.flatMap_append

theorem byteChars_cons_of_lt {c : Char} (h : c.toNat < 128) (cs : List Char) :
    byteChars (c :: cs) = c :: byteChars cs := by
  rw [byteChars_cons, encode_of_lt h, List.singleton_append]

/-- An ASCII text is its bytes. -/
theorem byteChars_of_lt {cs : List Char} (h : ∀ c ∈ cs, c.toNat < 128) : byteChars cs = cs := by
  induction cs with
  | nil => rfl
  | cons c cs ih =>
    obtain ⟨hc, hcs⟩ := List.forall_mem_cons.mp h
    rw [byteChars_cons_of_lt hc, ih hcs]

theorem length_byteChars (cs : List Char) :
    (byteChars cs).length = (String.ofList cs).utf8ByteSize := by
  induction cs with
  | nil => rfl
  | cons c cs ih =>
    rw [byteChars_cons, List.length_append, ih, encode, List.length_map,
      String.length_utf8EncodeChar, String.ofList_cons, String.utf8ByteSize_append,
      String.utf8ByteSize_singleton]

/-! ## Classes -/

/-- The class tells no two characters beyond ASCII apart. -/
def IsNarrow (p : Char → Bool) : Prop := ∃ b, ∀ c : Char, 128 ≤ c.toNat → p c = b

theorem IsNarrow.of_lt {p : Char → Bool} (h : ∀ c, p c = true → c.toNat < 128) : IsNarrow p := by
  refine ⟨false, fun c hc => Bool.eq_false_iff.mpr fun hp => ?_⟩
  have := h c hp
  omega

theorem IsNarrow.ne {d : Char} (h : d.toNat < 128) : IsNarrow (· != d) := by
  refine ⟨true, fun c hc => bne_iff_ne.mpr ?_⟩
  rintro rfl
  omega

/-- All bytes of a character are in the class if it is, and otherwise none. -/
theorem IsNarrow.exists_encode_eq {p : Char → Bool} (hp : IsNarrow p) (c : Char) :
    ∃ d tail, encode c = d :: tail ∧ ∀ e ∈ d :: tail, p e = p c := by
  obtain ⟨b, hb⟩ := hp
  rcases Nat.lt_or_ge c.toNat 128 with hc | hc
  · refine ⟨c, [], encode_of_lt hc, fun e he => ?_⟩
    rw [List.mem_singleton.mp he]
  · obtain ⟨d, tail, hencode, hlarge⟩ := exists_encode_eq_cons hc
    exact ⟨d, tail, hencode, fun e he => by rw [hb e (hlarge e he), hb c hc]⟩

section Runs

variable {p : Char → Bool} (hp : IsNarrow p)
include hp

theorem any_head?_byteChars (cs : List Char) : (byteChars cs).head?.any p = cs.head?.any p := by
  cases cs with
  | nil => rfl
  | cons c cs =>
    obtain ⟨d, tail, hencode, hall⟩ := hp.exists_encode_eq c
    rw [byteChars_cons, hencode]
    exact hall d List.mem_cons_self

theorem takeWhile_byteChars (cs : List Char) :
    (byteChars cs).takeWhile p = byteChars (cs.takeWhile p) := by
  induction cs with
  | nil => rfl
  | cons c cs ih =>
    obtain ⟨d, tail, hencode, hall⟩ := hp.exists_encode_eq c
    rw [byteChars_cons, hencode]
    cases hc : p c with
    | true =>
      rw [List.takeWhile_append_of_pos fun e he => (hall e he).trans hc, ih,
        List.takeWhile_cons_of_pos hc, byteChars_cons, hencode]
    | false =>
      have hd : p d = false := (hall d List.mem_cons_self).trans hc
      rw [List.cons_append, List.takeWhile_cons_of_neg (by simp [hd]),
        List.takeWhile_cons_of_neg (by simp [hc])]
      rfl

theorem dropWhile_byteChars (cs : List Char) :
    (byteChars cs).dropWhile p = byteChars (cs.dropWhile p) := by
  induction cs with
  | nil => rfl
  | cons c cs ih =>
    obtain ⟨d, tail, hencode, hall⟩ := hp.exists_encode_eq c
    rw [byteChars_cons, hencode]
    cases hc : p c with
    | true =>
      rw [List.dropWhile_append_of_pos fun e he => (hall e he).trans hc, ih,
        List.dropWhile_cons_of_pos hc]
    | false =>
      have hd : p d = false := (hall d List.mem_cons_self).trans hc
      rw [List.cons_append, List.dropWhile_cons_of_neg (by simp [hd]),
        List.dropWhile_cons_of_neg (by simp [hc]), byteChars_cons, hencode, List.cons_append]

end Runs

/-! ## The classes of style values -/

theorem toNat_lt_of_isNameChar (c : Char) (h : isNameChar c = true) : c.toNat < 128 := by
  simp only [isNameChar, Char.isAlphanum, Bool.or_eq_true, beq_iff_eq] at h
  rcases h with ((halpha | hdigit) | rfl) | rfl
  · have := toNat_of_isAlpha halpha
    omega
  · have := toNat_of_isDigit hdigit
    omega
  · decide
  · decide

theorem toNat_lt_of_isSpace (c : Char) (h : isSpace c = true) : c.toNat < 128 := by
  simp only [isSpace, Bool.or_eq_true, beq_iff_eq] at h
  rcases h with (((rfl | rfl) | rfl) | rfl) | rfl <;> decide

theorem isNarrow_isSpace : IsNarrow isSpace := .of_lt toNat_lt_of_isSpace

theorem isNarrow_isNameChar : IsNarrow isNameChar := .of_lt toNat_lt_of_isNameChar

theorem isNarrow_isNameStart : IsNarrow isNameStart :=
  .of_lt fun c h => toNat_lt_of_isNameChar c (isNameChar_of_isNameStart h)

theorem isNarrow_isDigit : IsNarrow Char.isDigit := by
  refine .of_lt fun c h => ?_
  have := toNat_of_isDigit h
  omega

theorem isNarrow_isUnitChar : IsNarrow isUnitChar := by
  refine .of_lt fun c h => ?_
  simp only [isUnitChar, Bool.or_eq_true, beq_iff_eq] at h
  rcases h with halpha | rfl
  · have := toNat_of_isAlpha halpha
    omega
  · decide

theorem isNarrow_color : IsNarrow fun c => isNameChar c || c == '.' := by
  refine .of_lt fun c h => ?_
  simp only [Bool.or_eq_true, beq_iff_eq] at h
  rcases h with hname | rfl
  · exact toNat_lt_of_isNameChar c hname
  · decide

end ResponsiveCss.Text
