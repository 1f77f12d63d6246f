import ResponsiveCss.Proofs.Token.Bytes
import ResponsiveCss.Proofs.Token.Spelling

/-!
# The tokens tile the text

**Main result**: `Token.tiles_scan`. A text is its tokens, one behind the other, with nothing but
white space before, between and behind them (`Token.Tiles`). So the reader ends, each token stands
later than the one before it, and the bytes of a token go from the beginning of a character to the
end of one. With `Token.byteRanges_flatMap`, going through the text byte by byte never cuts a
character.

What carries the proof is that reading a token splits the text and takes something
(`Lexeme.source_append_rest`, `Lexeme.source_ne_nil`); everything about bytes and places follows
from the tiling.
-/

namespace ResponsiveCss

open Text

namespace Text

/-- Nothing but white space. -/
def IsGap (gap : String) : Prop := ∀ c ∈ gap.toList, isSpace c = true

theorem isGap_empty : IsGap "" := fun c hc => absurd hc (by simp)

/-- The bytes from `start` up to `stop` are in range, begin and end between two characters, and are
those of `part`. -/
structure IsSlice (text : String) (start stop : Nat) (part : String) : Prop where
  start_le : start ≤ stop
  start_valid : String.Pos.Raw.IsValid text ⟨start⟩
  stop_valid : String.Pos.Raw.IsValid text ⟨stop⟩
  bytes_eq : text.toByteArray.extract start stop = part.toByteArray

theorem isSlice_append (before part after : String) :
    IsSlice (before ++ part ++ after) before.utf8ByteSize
      (before.utf8ByteSize + part.utf8ByteSize) part where
  start_le := Nat.le_add_right ..
  start_valid := String.Pos.Raw.isValid_iff_exists_append.mpr
    ⟨before, part ++ after, String.append_assoc .., rfl⟩
  stop_valid := by
    refine String.Pos.Raw.isValid_iff_exists_append.mpr ⟨before ++ part, after, rfl, ?_⟩
    rw [String.Pos.Raw.ext_iff, String.byteIdx_rawEndPos, String.utf8ByteSize_append]
  bytes_eq := by
    have hafter : (before.toByteArray ++ (part.toByteArray ++ after.toByteArray)).extract
        (before.utf8ByteSize + 0) (before.utf8ByteSize + part.utf8ByteSize)
        = (part.toByteArray ++ after.toByteArray).extract 0 part.utf8ByteSize :=
      ByteArray.extract_append_size_add' rfl
    rw [String.toByteArray_append, String.toByteArray_append, ByteArray.append_assoc]
    exact hafter.trans (ByteArray.extract_append_eq_left rfl)

/-- The bytes of a text are those of its characters. -/
theorem toList_data_toByteArray (text : String) :
    text.toByteArray.data.toList = text.toList.flatMap String.utf8EncodeChar := by
  obtain ⟨cs, rfl⟩ := text.exists_eq_ofList
  rw [String.toByteArray_ofList, String.toList_ofList, List.utf8Encode, List.data_toByteArray]

end Text

namespace Token

/-- The tokens tile the text that starts at byte `start`: each has white space before it, if
anything, and there is white space behind the last one, if anything. -/
inductive Tiles : Nat → String → List Token → Prop where
  /-- There are no more tokens. -/
  | last {start : Nat} {gap : String} (hgap : IsGap gap) : Tiles start gap []
  /-- A token, which is not empty, and the rest of the text. -/
  | token {start : Nat} {gap rest : String} {token : Token} {tokens : List Token}
      (hgap : IsGap gap) (hstart : token.start = start + gap.utf8ByteSize)
      (hsource : token.source ≠ "") (hrest : Tiles token.stop rest tokens) :
      Tiles start (gap ++ token.source ++ rest) (token :: tokens)

namespace Tiles

variable {start : Nat} {text : String} {tokens : List Token}

/-- White space in front of the text is before the first token. -/
theorem space_append {c : Char} (hspace : isSpace c = true)
    (h : Tiles (start + c.utf8Size) text tokens) :
    Tiles start (String.singleton c ++ text) tokens := by
  have hgap {gap : String} (h : IsGap gap) : IsGap (String.singleton c ++ gap) := by
    unfold IsGap
    rw [String.toList_append, String.toList_singleton, List.singleton_append]
    exact List.forall_mem_cons.mpr ⟨hspace, h⟩
  cases h with
  | last h => exact .last (hgap h)
  | token h hstart hsource hrest =>
    rw [← String.append_assoc, ← String.append_assoc]
    refine .token (hgap h) ?_ hsource hrest
    rw [hstart, String.utf8ByteSize_append, String.utf8ByteSize_singleton, Nat.add_assoc]

/-- The number of tokens is at most that of the characters. -/
theorem length_le (h : Tiles start text tokens) : tokens.length ≤ text.length := by
  induction h with
  | last => exact Nat.zero_le _
  | @token start gap rest token tokens hgap hstart hsource hrest ih =>
    have hpos : 0 < token.source.length := by
      rw [← String.length_toList]
      exact List.length_pos_iff.mpr (by simpa using hsource)
    rw [String.length_append, String.length_append, List.length_cons]
    omega

/-- A token of the tiling is a part of the text, and there is something of it. -/
theorem exists_eq_append (h : Tiles start text tokens) {token : Token} (htoken : token ∈ tokens) :
    token.source ≠ "" ∧ ∃ before after, text = before ++ token.source ++ after ∧
      token.start = start + before.utf8ByteSize := by
  induction h with
  | last => exact absurd htoken List.not_mem_nil
  | @token start gap rest first tokens hgap hstart hsource hrest ih =>
    rcases List.mem_cons.mp htoken with rfl | htoken
    · exact ⟨hsource, gap, rest, rfl, hstart⟩
    · obtain ⟨hne, before, after, rfl, htokenStart⟩ := ih htoken
      refine ⟨hne, gap ++ first.source ++ before, after, by simp only [String.append_assoc], ?_⟩
      rw [htokenStart, Token.stop, hstart, String.utf8ByteSize_append, String.utf8ByteSize_append]
      omega

/-- Each token begins where the ones before it have ended. -/
theorem pairwise_stop_le (h : Tiles start text tokens) :
    tokens.Pairwise fun t u => t.stop ≤ u.start := by
  induction h with
  | last => exact .nil
  | @token start gap rest first tokens hgap hstart hsource hrest ih =>
    refine .cons (fun token htoken => ?_) ih
    obtain ⟨-, before, after, -, htokenStart⟩ := hrest.exists_eq_append htoken
    omega

end Tiles

/-- **The tokens of a text tile it.** -/
theorem tiles_scanFrom (start : Nat) (signContext : Bool) (cs : List Char) :
    Tiles start (.ofList cs) (scanFrom start signContext cs) := by
  induction start, signContext, cs using scanFrom.induct with
  | case1 start signContext =>
    rw [scanFrom, String.ofList_nil]
    exact .last isGap_empty
  | case2 start signContext c cs hspace ih =>
    rw [scanFrom, if_pos hspace, String.ofList_cons]
    exact ih.space_append hspace
  | case3 start signContext c cs hspace lexeme first ih =>
    have hne : first.source ≠ "" := by
      intro hempty
      exact Lexeme.source_ne_nil signContext c cs (by simpa [first, lexeme] using hempty)
    have htiles : Tiles start ("" ++ first.source ++ .ofList lexeme.rest)
        (first :: scanFrom first.stop lexeme.kind.admitsSign lexeme.rest) :=
      .token isGap_empty rfl hne ih
    rw [String.empty_append] at htiles
    rw [scanFrom, if_neg hspace, ← Lexeme.source_append_rest signContext c cs, String.ofList_append]
    exact htiles

/-- **Every token is written as its kind says.** -/
theorem spells_of_mem_scanFrom {start : Nat} {signContext : Bool} {cs : List Char} {token : Token}
    (htoken : token ∈ scanFrom start signContext cs) : token.kind.Spells token.source.toList := by
  induction start, signContext, cs using scanFrom.induct with
  | case1 start signContext => rw [scanFrom] at htoken; exact absurd htoken (by simp)
  | case2 start signContext c cs hspace ih =>
    rw [scanFrom, if_pos hspace] at htoken
    exact ih htoken
  | case3 start signContext c cs hspace lexeme first ih =>
    rw [scanFrom, if_neg hspace] at htoken
    rcases List.mem_cons.mp htoken with rfl | htoken
    · rw [String.toList_ofList]
      exact Lexeme.spelled_read signContext c cs
    · exact ih htoken

/-- What can be taken out of the text for a token. -/
structure InRange (text : String) (token : Token) : Prop where
  /-- The token covers something. -/
  start_lt : token.start < token.stop
  /-- What it covers stands in the text from its beginning to its end. -/
  slice : IsSlice text token.start token.stop token.source
  /-- The texts that its kind holds are parts of what it covers. -/
  spells : token.kind.Spells token.source.toList
  /-- An operator is the one byte at which it begins. -/
  operator : ∀ op, token.kind = .operator op →
    IsSlice text token.start (token.start + 1) (.singleton op.symbol)
  /-- The first byte of a quoted string is its quote. -/
  quoted : ∀ raw, token.kind = .quoted raw →
    ∃ quote, isQuote quote = true ∧ IsSlice raw 0 1 (.singleton quote)

theorem inRange_of_mem_scan {text : String} {token : Token} (htoken : token ∈ scan text) :
    InRange text token := by
  have htiles := tiles_scanFrom 0 true text.toList
  rw [String.ofList_toList] at htiles
  obtain ⟨hne, before, after, htext, hstart⟩ := htiles.exists_eq_append htoken
  rw [Nat.zero_add] at hstart
  have hslice : IsSlice text token.start token.stop token.source := by
    rw [Token.stop, hstart, htext]
    exact isSlice_append before token.source after
  have hspells := spells_of_mem_scanFrom htoken
  refine ⟨?_, hslice, hspells, fun op hop => ?_, fun raw hraw => ?_⟩
  · have hpos : token.source.utf8ByteSize ≠ 0 := fun h => hne (String.utf8ByteSize_eq_zero_iff.mp h)
    rw [Token.stop]
    omega
  · rw [hop] at hspells
    have hsource : token.source = .singleton op.symbol := by
      rw [← String.toList_inj, String.toList_singleton]
      exact hspells
    have hsize : token.source.utf8ByteSize = 1 := by
      rw [hsource]
      cases op <;> rfl
    rw [Token.stop, hsize, hsource] at hslice
    exact hslice
  · have hcopied := copied_of_mem_scan htoken
    rw [hraw] at hcopied
    obtain ⟨quote, body, hquote, -, hbody⟩ := hcopied
    obtain ⟨rest, hrest⟩ : ∃ rest, raw = "" ++ .singleton quote ++ rest := by
      rcases hbody with hbody | hbody
      · exact ⟨.ofList body, by rw [← String.toList_inj]; simp [hbody]⟩
      · exact ⟨.ofList (body ++ [quote]), by rw [← String.toList_inj]; simp [hbody]⟩
    have hsize : (String.singleton quote).utf8ByteSize = 1 := by
      rcases Bool.or_eq_true _ _ ▸ hquote with h | h <;> (rw [beq_iff_eq.mp h]; rfl)
    have hfirst := isSlice_append "" (.singleton quote) rest
    rw [← hrest, hsize] at hfirst
    exact ⟨quote, hquote, hfirst⟩

/-- **Reading tokens tiles the text.** There are no more tokens than characters. They stand one
behind the other with white space between them, which together is the text; each is later than the
one before it, is not empty, and begins and ends between two characters, as do the parts that are
taken out of it. Going through the text byte by byte finds the same places. -/
theorem tiles_scan (text : String) :
    (scan text).length ≤ text.length ∧ Tiles 0 text (scan text) ∧
      (scan text).Pairwise (fun t u => t.start < u.start) ∧
      (∀ token ∈ scan text, InRange text token) ∧
      byteRanges 0 true text.toByteArray.data.toList
        = (scan text).map fun token => (token.start, token.stop) := by
  have htiles := tiles_scanFrom 0 true text.toList
  rw [String.ofList_toList] at htiles
  have hrange : ∀ token ∈ scan text, InRange text token := fun _ => inRange_of_mem_scan
  refine ⟨htiles.length_le, htiles, ?_, hrange, ?_⟩
  · exact htiles.pairwise_stop_le.imp_of_mem fun ht _ hstop =>
      Nat.lt_of_lt_of_le (hrange _ ht).start_lt hstop
  · rw [toList_data_toByteArray]
    exact byteRanges_flatMap 0 true text.toList

/-- Characters of two bytes, alone and in quotes. -/
theorem tiles_scan_wide :
    scan "é 'ü' *" = [⟨.other "é", 0, "é"⟩, ⟨.quoted "'ü'", 3, "'ü'"⟩, ⟨.operator .times, 8, "*"⟩] ∧
      byteRanges 0 true "é 'ü' *".toByteArray.data.toList = [(0, 2), (3, 7), (8, 9)] ∧
      IsSlice "é 'ü' *" 3 7 "'ü'" ∧ IsSlice "é 'ü' *" 8 9 "*" := by
  have hscan : scan "é 'ü' *"
      = [⟨.other "é", 0, "é"⟩, ⟨.quoted "'ü'", 3, "'ü'"⟩, ⟨.operator .times, 8, "*"⟩] := by
    decide +kernel
  have hplaces : (scan "é 'ü' *").map (fun token => (token.start, token.stop))
      = [(0, 2), (3, 7), (8, 9)] := by decide +kernel
  obtain ⟨-, -, -, hrange, hbytes⟩ := tiles_scan "é 'ü' *"
  have hquoted := (hrange ⟨.quoted "'ü'", 3, "'ü'"⟩ (by rw [hscan]; simp)).slice
  have hoperator := (hrange ⟨.operator .times, 8, "*"⟩ (by rw [hscan]; simp)).operator .times rfl
  have hstop : stop ⟨.quoted "'ü'", 3, "'ü'"⟩ = 7 := by decide +kernel
  rw [hstop] at hquoted
  exact ⟨hscan, hbytes.trans hplaces, hquoted, hoperator⟩

end Token
end ResponsiveCss
