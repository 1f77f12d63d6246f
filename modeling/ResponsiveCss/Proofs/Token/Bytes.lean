import ResponsiveCss.Proofs.Text.Utf8
import ResponsiveCss.Proofs.Token.Reader

/-!
# Reading tokens byte by byte

A token that starts with an ASCII character can be read off the bytes of the text: no reader tells
two characters beyond ASCII apart, so it takes the bytes of what it takes of the characters
(`Lexeme.read_byteChars`). Any other token is one character long, and its first byte tells how many
they are (`Lexeme.read_of_ge`). **Main result**: going from byte to byte, without ever looking for
the end of a character, finds the places of the tokens (`Token.byteRanges_flatMap`).
-/

namespace ResponsiveCss

open Text

/-- The bytes of a text, as a text. -/
def Text.byteText (s : String) : String := .ofList (byteChars s.toList)

theorem Text.byteText_ofList (cs : List Char) : byteText (.ofList cs) = .ofList (byteChars cs) := by
  rw [byteText, String.toList_ofList]

/-- A text and its bytes both begin with the ASCII character, or none does. -/
theorem Text.byteChars_mark_cases (mark : Char) (hmark : mark.toNat < 128) (cs : List Char) :
    (∃ rest, cs = mark :: rest ∧ byteChars cs = mark :: byteChars rest) ∨
      cs.head? ≠ some mark ∧ (byteChars cs).head? ≠ some mark := by
  cases cs with
  | nil => exact .inr ⟨by simp, by simp [byteChars]⟩
  | cons c cs =>
    by_cases hc : c = mark
    · subst hc
      exact .inl ⟨cs, rfl, byteChars_cons_of_lt hmark cs⟩
    · obtain ⟨d, tail, hencode, hall⟩ := (IsNarrow.ne hmark).exists_encode_eq c
      have hd : d ≠ mark := by
        rw [← bne_iff_ne, hall d List.mem_cons_self, bne_iff_ne]
        exact hc
      rw [byteChars_cons, hencode]
      exact .inr ⟨fun h => hc (Option.some.inj h), fun h => hd (Option.some.inj h)⟩

/-- The kind with the bytes of its texts. -/
def TokenKind.inBytes : TokenKind → TokenKind
  | .number value unit => .number (byteText value) (byteText unit)
  | .word name => .word (byteText name)
  | .color raw => .color (byteText raw)
  | .property name => .property (byteText name)
  | .quoted raw => .quoted (byteText raw)
  | .url raw => .url (byteText raw)
  | .function name => .function (byteText name)
  | .opening => .opening
  | .closing => .closing
  | .comma => .comma
  | .operator op => .operator op
  | .other raw => .other (byteText raw)

@[simp] theorem TokenKind.admitsSign_inBytes (kind : TokenKind) :
    kind.inBytes.admitsSign = kind.admitsSign := by cases kind <;> rfl

namespace Lexeme

/-- The token and what follows it in bytes. -/
def inBytes (lexeme : Lexeme) : Lexeme :=
  ⟨lexeme.kind.inBytes, byteChars lexeme.source, byteChars lexeme.rest⟩

/-! ## What is looked at before a token is read -/

theorem nameFollows_byteChars (cs : List Char) : nameFollows (byteChars cs) = nameFollows cs := by
  rw [nameFollows_eq_any, nameFollows_eq_any, any_head?_byteChars isNarrow_isNameChar]

theorem nameStarts_byteChars (cs : List Char) : nameStarts (byteChars cs) = nameStarts cs := by
  rw [nameStarts_eq_any, nameStarts_eq_any, any_head?_byteChars isNarrow_isNameStart]

theorem dashNameFollows_byteChars (cs : List Char) :
    dashNameFollows (byteChars cs) = dashNameFollows cs := by
  rcases byteChars_mark_cases '-' (by decide) cs with ⟨rest, rfl, hbytes⟩ | ⟨hne, hne'⟩
  · rw [hbytes]
    exact nameFollows_byteChars rest
  · rw [dashNameFollows_of_head?_ne hne, dashNameFollows_of_head?_ne hne']

theorem startsNumber_byteChars (cs : List Char) :
    startsNumber (byteChars cs) = startsNumber cs := by
  rcases byteChars_mark_cases '.' (by decide) cs with ⟨rest, rfl, hbytes⟩ | ⟨hne, hne'⟩
  · rw [hbytes, startsNumber_point, startsNumber_point, any_head?_byteChars isNarrow_isDigit]
  · rw [startsNumber_of_head?_ne hne, startsNumber_of_head?_ne hne',
      any_head?_byteChars isNarrow_isDigit]

/-! ## The readers -/

theorem splitSign_byteChars (cs : List Char) :
    splitSign (byteChars cs) = (byteChars (splitSign cs).1, byteChars (splitSign cs).2) := by
  rcases byteChars_mark_cases '-' (by decide) cs with ⟨rest, rfl, hbytes⟩ | ⟨hne, hne'⟩
  · rw [hbytes]
    rfl
  · rw [splitSign_of_head?_ne hne, splitSign_of_head?_ne hne']
    rfl

theorem splitFraction_byteChars (cs : List Char) :
    splitFraction (byteChars cs)
      = (byteChars (splitFraction cs).1, byteChars (splitFraction cs).2) := by
  rcases byteChars_mark_cases '.' (by decide) cs with ⟨rest, rfl, hbytes⟩ | ⟨hne, hne'⟩
  · rw [hbytes, splitFraction_point, splitFraction_point, any_head?_byteChars isNarrow_isDigit,
      takeWhile_byteChars isNarrow_isDigit, dropWhile_byteChars isNarrow_isDigit]
    split
    · rw [byteChars_cons_of_lt (by decide)]
    · rw [hbytes]
      rfl
  · rw [splitFraction_of_head?_ne hne, splitFraction_of_head?_ne hne']
    rfl

theorem readNumber_byteChars (cs : List Char) :
    readNumber (byteChars cs) = (readNumber cs).inBytes := by
  unfold readNumber inBytes
  simp only [splitSign_byteChars, takeWhile_byteChars isNarrow_isDigit,
    dropWhile_byteChars isNarrow_isDigit, splitFraction_byteChars,
    takeWhile_byteChars isNarrow_isUnitChar, dropWhile_byteChars isNarrow_isUnitChar,
    TokenKind.inBytes, byteText_ofList, byteChars_append]

theorem readProperty_byteChars {mark : List Char} (hmark : byteChars mark = mark) (cs : List Char) :
    readProperty mark (byteChars cs) = (readProperty mark cs).inBytes := by
  unfold readProperty inBytes
  simp only [takeWhile_byteChars isNarrow_isNameChar, dropWhile_byteChars isNarrow_isNameChar,
    TokenKind.inBytes, byteText_ofList, byteChars_append, hmark]

theorem readColor_byteChars (cs : List Char) :
    readColor (byteChars cs) = (readColor cs).inBytes := by
  have hhash := byteChars_cons_of_lt (c := '#') (by decide)
  unfold readColor
  simp only [takeWhile_byteChars isNarrow_color, dropWhile_byteChars isNarrow_color]
  cases cs.takeWhile fun c => isNameChar c || c == '.' with
  | nil => rfl
  | cons c name =>
    obtain ⟨d, tail, hencode, -⟩ := isNarrow_color.exists_encode_eq c
    have hne : (byteChars (c :: name)).isEmpty = false := by
      rw [byteChars_cons, hencode]
      rfl
    rw [hne]
    simp only [inBytes, TokenKind.inBytes, byteText_ofList, hhash, List.isEmpty_cons,
      Bool.false_eq_true, if_false]

theorem readSymbol_byteChars {c : Char} (hc : c.toNat < 128) (cs : List Char) :
    readSymbol c (byteChars cs) = (readSymbol c cs).inBytes := by
  have hsource : byteChars [c] = [c] := byteChars_cons_of_lt hc []
  unfold readSymbol
  split
  · simp only [inBytes, TokenKind.inBytes, hsource]
  · simp only [inBytes, TokenKind.inBytes, byteText_ofList, hsource]

theorem readQuoted_byteChars {quote : Char} (h : quote.toNat < 128) (cs : List Char) :
    readQuoted quote (byteChars cs) = (readQuoted quote cs).inBytes := by
  have hquote := byteChars_cons_of_lt h
  have hhead := List.head?_dropWhile_not (· != quote) cs
  unfold readQuoted
  rw [takeWhile_byteChars (IsNarrow.ne h), dropWhile_byteChars (IsNarrow.ne h)]
  cases hdrop : cs.dropWhile (· != quote) with
  | nil =>
    simp only [byteChars, List.flatMap_nil, inBytes, TokenKind.inBytes, byteText_ofList,
      List.flatMap_cons, encode_of_lt h, List.singleton_append]
  | cons c after =>
    rw [hdrop] at hhead
    obtain rfl : c = quote := by simpa using hhead
    simp only [hquote, inBytes, TokenKind.inBytes, byteText_ofList, byteChars_append,
      List.cons_append]
    rfl

theorem nameOf_byteChars (cs : List Char) : nameOf (byteChars cs) = byteChars (nameOf cs) := by
  unfold nameOf
  rw [splitSign_byteChars, takeWhile_byteChars isNarrow_isNameChar, byteChars_append]

theorem behindName_byteChars (cs : List Char) :
    behindName (byteChars cs) = byteChars (behindName cs) := by
  unfold behindName
  rw [splitSign_byteChars, dropWhile_byteChars isNarrow_isNameChar]

/-- A name has no characters beyond ASCII. -/
theorem byteChars_nameOf (cs : List Char) : byteChars (nameOf cs) = nameOf cs :=
  byteChars_of_lt fun c hc => toNat_lt_of_isNameChar c (isNameChar_of_mem_name hc)

theorem readName_byteChars (cs : List Char) : readName (byteChars cs) = (readName cs).inBytes := by
  have hname := (nameOf_byteChars cs).trans (byteChars_nameOf cs)
  have hbehind := behindName_byteChars cs
  have hopening := byteChars_cons_of_lt (c := '(') (by decide)
  have hclosing := byteChars_cons_of_lt (c := ')') (by decide)
  rcases byteChars_mark_cases '(' (by decide) (behindName cs) with
    ⟨tail, htail, hbytes⟩ | ⟨hne, hne'⟩
  case inr =>
    rw [readName_word hne, readName_word (by rwa [hbehind]), hname, hbehind]
    simp only [inBytes, TokenKind.inBytes, byteText_ofList, byteChars_nameOf]
  case inl =>
    rw [hbytes] at hbehind
    by_cases hurl : lower (.ofList (nameOf cs)) = "url"
    case neg =>
      rw [readName_call htail hurl, readName_call hbehind (by rwa [hname]), hname]
      simp only [inBytes, TokenKind.inBytes, byteText_ofList, byteChars_append, byteChars_nameOf,
        hopening]
      rfl
    case pos =>
      have hnarrow : IsNarrow (· != ')') := .ne (by decide)
      have htake := takeWhile_byteChars hnarrow tail
      have hdrop := dropWhile_byteChars hnarrow tail
      rcases dropWhile_closing_cases tail with hopen | ⟨after, hafter⟩
      · rw [hopen] at hdrop
        rw [readName_url_open htail hurl hopen,
          readName_url_open hbehind (by rwa [hname]) hdrop, hname, htake]
        simp only [inBytes, TokenKind.inBytes, byteText_ofList, byteChars_append, byteChars_nameOf,
          hopening]
        rfl
      · rw [hafter, hclosing] at hdrop
        rw [readName_url htail hurl hafter,
          readName_url hbehind (by rwa [hname]) hdrop, hname, htake]
        simp only [inBytes, TokenKind.inBytes, byteText_ofList, byteChars_append, byteChars_nameOf,
          hopening, hclosing]
        rfl

theorem readDash_byteChars (signContext : Bool) (cs : List Char) :
    readDash signContext (byteChars cs) = (readDash signContext cs).inBytes := by
  have hdash := byteChars_cons_of_lt (c := '-') (by decide) cs
  have hnumber := readNumber_byteChars ('-' :: cs)
  have hname := readName_byteChars ('-' :: cs)
  rw [hdash] at hnumber hname
  unfold readDash
  rw [dashNameFollows_byteChars, startsNumber_byteChars, nameStarts_byteChars, hnumber, hname,
    readSymbol_byteChars (by decide)]
  split
  next hproperty =>
    obtain ⟨rest, rfl⟩ := exists_cons_of_dashNameFollows hproperty
    rw [byteChars_cons_of_lt (by decide)]
    exact readProperty_byteChars rfl rest
  simp only [apply_ite inBytes]

/-- **A token that starts with an ASCII character is read off the bytes as off the characters.** -/
theorem read_byteChars (signContext : Bool) {c : Char} (hc : c.toNat < 128) (cs : List Char) :
    read signContext c (byteChars cs) = (read signContext c cs).inBytes := by
  have hone : byteChars [c] = [c] := byteChars_cons_of_lt hc []
  have hcons := byteChars_cons_of_lt hc cs
  have hnumber := readNumber_byteChars (c :: cs)
  have hname := readName_byteChars (c :: cs)
  have hstarts := startsNumber_byteChars (c :: cs)
  rw [hcons] at hnumber hname hstarts
  unfold read
  rw [hstarts, hnumber, hname, nameFollows_byteChars, readSymbol_byteChars hc, readDash_byteChars,
    readColor_byteChars, readQuoted_byteChars hc, readProperty_byteChars rfl]
  simp only [apply_ite inBytes]
  simp only [inBytes, TokenKind.inBytes, hone]

/-- A character beyond ASCII is a token of its own. -/
theorem read_of_ge (signContext : Bool) {c : Char} (hc : 128 ≤ c.toNat) (cs : List Char) :
    read signContext c cs = ⟨.other (.ofList [c]), [c], cs⟩ := by
  have hne (d : Char) (hd : d.toNat < 128) : c ≠ d := by
    rintro rfl
    omega
  have hbeq (d : Char) (hd : d.toNat < 128) : (c == d) = false := beq_eq_false_iff_ne.mpr (hne d hd)
  have hlarge {p : Char → Bool} (hp : ∀ d, p d = true → d.toNat < 128) : p c = false := by
    refine Bool.eq_false_iff.mpr fun h => ?_
    have := hp c h
    omega
  have hstart : isNameStart c = false :=
    hlarge fun d hd => toNat_lt_of_isNameChar d (isNameChar_of_isNameStart hd)
  have hdigit : c.isDigit = false := by
    refine hlarge fun d hd => ?_
    have := toNat_of_isDigit hd
    omega
  have hop : Operator.ofChar? c = none := by
    unfold Operator.ofChar?
    split
    case h_5 => rfl
    all_goals exact absurd hc (by decide)
  unfold read
  rw [startsNumber_of_ne (hne _ (by decide)), hdigit, hstart, hbeq _ (by decide),
    hbeq _ (by decide), hbeq _ (by decide), hbeq _ (by decide), hbeq _ (by decide),
    hbeq _ (by decide), hbeq _ (by decide), hbeq _ (by decide)]
  simp only [Bool.or_self, Bool.false_and, Bool.false_eq_true, if_false, readSymbol, hop]

end Lexeme

/-! ## The scan -/

namespace Token

/-- How many bytes the token has that starts with the byte `b`, which is no white space, and may go
on in `bs`, and whether a dash right behind it can be a sign. -/
def readBytes (signContext : Bool) (b : UInt8) (bs : List UInt8) : Nat × Bool :=
  if b.toNat < 128 then
    let lexeme := Lexeme.read signContext (.ofUInt8 b) (bs.map .ofUInt8)
    (lexeme.source.length, lexeme.kind.admitsSign)
  else (leadLength b, false)

theorem readBytes_pos (signContext : Bool) (b : UInt8) (bs : List UInt8) :
    0 < (readBytes signContext b bs).1 := by
  unfold readBytes leadLength
  split
  · exact List.length_pos_iff.mpr (Lexeme.source_ne_nil _ _ _)
  · simp only
    split
    · decide
    split
    · decide
    · decide

/-- The bytes from which and up to which the tokens go, of the bytes that start at byte `start`. A
byte is looked at as the character of its number. -/
def byteRanges (start : Nat) (signContext : Bool) : List UInt8 → List (Nat × Nat)
  | [] => []
  | b :: bs =>
    if isSpace (.ofUInt8 b) then byteRanges (start + 1) true bs
    else
      let size := (readBytes signContext b bs).1
      (start, start + size) ::
        byteRanges (start + size) (readBytes signContext b bs).2 ((b :: bs).drop size)
termination_by bs => bs.length
decreasing_by
  · simp
  · have := readBytes_pos signContext b bs
    simp only [List.length_drop, List.length_cons]
    omega

theorem map_ofUInt8_flatMap (cs : List Char) :
    (cs.flatMap String.utf8EncodeChar).map .ofUInt8 = byteChars cs := List.map_flatMap

theorem length_flatMap_utf8EncodeChar (cs : List Char) :
    (cs.flatMap String.utf8EncodeChar).length = (String.ofList cs).utf8ByteSize := by
  rw [← length_byteChars, ← map_ofUInt8_flatMap, List.length_map]

/-- Reading a token off the bytes takes the bytes of the token. -/
theorem readBytes_flatMap (signContext : Bool) {c : Char} {cs : List Char} {b : UInt8}
    {bs : List UInt8} (h : (c :: cs).flatMap String.utf8EncodeChar = b :: bs) :
    readBytes signContext b bs
      = ((String.ofList (Lexeme.read signContext c cs).source).utf8ByteSize,
        (Lexeme.read signContext c cs).kind.admitsSign) := by
  rw [List.flatMap_cons] at h
  rcases Nat.lt_or_ge c.toNat 128 with hc | hc
  · rw [utf8EncodeChar_of_lt hc, List.singleton_append] at h
    obtain ⟨rfl, rfl⟩ := List.cons.inj h
    have hsmall : (UInt8.ofNat c.toNat).toNat = c.toNat := by
      rw [UInt8.toNat_ofNat', Nat.mod_eq_of_lt (by omega)]
    rw [readBytes, if_pos (by omega), ofUInt8_ofNat_toNat hc, map_ofUInt8_flatMap,
      Lexeme.read_byteChars _ hc]
    simp only [Lexeme.inBytes, length_byteChars, TokenKind.admitsSign_inBytes]
  · obtain ⟨lead, tail, hbytes, hlength, hlarge⟩ := exists_utf8EncodeChar_eq_cons hc
    rw [hbytes, List.cons_append] at h
    obtain ⟨rfl, -⟩ := List.cons.inj h
    have hlead := hlarge lead List.mem_cons_self
    rw [readBytes, if_neg (by omega), Lexeme.read_of_ge _ hc, hlength]
    simp only [TokenKind.admitsSign, ← String.singleton_eq_ofList, String.utf8ByteSize_singleton]

/-- **Going from byte to byte finds the places of the tokens.** -/
theorem byteRanges_flatMap (start : Nat) (signContext : Bool) (cs : List Char) :
    byteRanges start signContext (cs.flatMap String.utf8EncodeChar)
      = (scanFrom start signContext cs).map fun t => (t.start, t.stop) := by
  induction start, signContext, cs using scanFrom.induct with
  | case1 start signContext => rw [List.flatMap_nil, byteRanges, scanFrom, List.map_nil]
  | case2 start signContext c cs hspace ih =>
    have hc := toNat_lt_of_isSpace c hspace
    have hsize : c.utf8Size = 1 := by
      rw [← String.length_utf8EncodeChar, utf8EncodeChar_of_lt hc, List.length_singleton]
    rw [hsize] at ih
    rw [List.flatMap_cons, utf8EncodeChar_of_lt hc, List.singleton_append, byteRanges,
      ofUInt8_ofNat_toNat hc, if_pos hspace, scanFrom, if_pos hspace, hsize, ih]
  | case3 start signContext c cs hspace lexeme first ih =>
    obtain ⟨d, tail, hencode, hall⟩ := isNarrow_isSpace.exists_encode_eq c
    cases hbytes : (c :: cs).flatMap String.utf8EncodeChar with
    | nil =>
      have hchars := map_ofUInt8_flatMap (c :: cs)
      rw [hbytes, byteChars_cons, hencode] at hchars
      exact absurd hchars (by simp)
    | cons b bs =>
      have hread := readBytes_flatMap signContext hbytes
      have hfirst : isSpace (.ofUInt8 b) = false := by
        have hany := any_head?_byteChars isNarrow_isSpace (c :: cs)
        rw [← map_ofUInt8_flatMap, hbytes] at hany
        exact hany.trans (Bool.eq_false_iff.mpr hspace)
      -- what is dropped is the bytes of the token
      have hrest : (b :: bs).drop (String.ofList lexeme.source).utf8ByteSize
          = lexeme.rest.flatMap String.utf8EncodeChar := by
        rw [← hbytes, ← Lexeme.source_append_rest signContext c cs, List.flatMap_append]
        exact List.drop_left' (length_flatMap_utf8EncodeChar _)
      rw [byteRanges, if_neg (by simp [hfirst]), scanFrom, if_neg hspace, hread]
      exact congrArg (List.cons _) ((congrArg (byteRanges _ _) hrest).trans ih)

end Token
end ResponsiveCss
