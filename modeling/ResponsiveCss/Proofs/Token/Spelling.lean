import ResponsiveCss.Proofs.Token.Shape

/-!
# How tokens are spelled

The kind of a token holds its text but for the marks: the parenthesis of a call and the `@` or
`--` of a custom property. So the characters that a token covers can be written down from its
kind (`Lexeme.spells_read`), and what is known of names and numerals is known of them.
-/

namespace ResponsiveCss

open Text

/-- How a token of the kind is written. -/
def TokenKind.Spells (source : List Char) : TokenKind → Prop
  | .number value unit => source = value.toList ++ unit.toList
  | .word name => source = name.toList
  | .property name => source = '@' :: name.toList ∨ source = '-' :: '-' :: name.toList
  | .color raw | .quoted raw | .url raw | .other raw => source = raw.toList
  | .function name => source = name.toList ++ ['(']
  | .opening => source = ['(']
  | .closing => source = [')']
  | .comma => source = [',']
  | .operator op => source = [op.symbol]

theorem Operator.symbol_of_ofChar? {c : Char} {op : Operator} (h : ofChar? c = some op) :
    op.symbol = c := by
  unfold ofChar? at h
  split at h
  case h_5 => exact absurd h (by simp)
  all_goals
    obtain rfl := Option.some.inj h
    rfl

namespace Lexeme

/-- The token is written as its kind says. -/
def Spelled (lexeme : Lexeme) : Prop := lexeme.kind.Spells lexeme.source

theorem spelled_readNumber (cs : List Char) : (readNumber cs).Spelled := by
  unfold Spelled readNumber
  simp only [TokenKind.Spells, String.toList_ofList]

theorem spelled_readName (cs : List Char) : (readName cs).Spelled := by
  unfold readName
  simp only
  split
  · split
    · split
      · exact String.toList_ofList.symm
      · exact String.toList_ofList.symm
    · exact congrArg (· ++ ['(']) String.toList_ofList.symm
  · exact String.toList_ofList.symm

theorem spelled_readQuoted (quote : Char) (cs : List Char) : (readQuoted quote cs).Spelled := by
  unfold readQuoted
  split
  · exact String.toList_ofList.symm
  · exact String.toList_ofList.symm

theorem spelled_readColor (cs : List Char) : (readColor cs).Spelled := by
  unfold readColor
  simp only
  split
  · rfl
  · exact String.toList_ofList.symm

theorem spelled_readSymbol (c : Char) (cs : List Char) : (readSymbol c cs).Spelled := by
  unfold readSymbol
  split
  next op hop => exact congrArg (fun d => [d]) (Operator.symbol_of_ofChar? hop).symm
  · exact String.toList_ofList.symm

theorem spelled_readDash (signContext : Bool) (cs : List Char) :
    (readDash signContext cs).Spelled := by
  unfold readDash
  split
  · exact Or.inr (congrArg (['-', '-'] ++ ·) String.toList_ofList.symm)
  split
  · exact spelled_readNumber _
  split
  · exact spelled_readName _
  · exact spelled_readSymbol _ _

/-- **A token is written as its kind says.** -/
theorem spelled_read (signContext : Bool) (c : Char) (cs : List Char) :
    (read signContext c cs).Spelled := by
  unfold read
  split
  · exact spelled_readQuoted c cs
  split
  next hc => exact congrArg (fun d => [d]) (beq_iff_eq.mp hc)
  split
  next hc => exact congrArg (fun d => [d]) (beq_iff_eq.mp hc)
  split
  next hc => exact congrArg (fun d => [d]) (beq_iff_eq.mp hc)
  split
  · exact spelled_readColor cs
  split
  · exact Or.inl (congrArg (['@'] ++ ·) String.toList_ofList.symm)
  split
  · exact spelled_readDash signContext cs
  split
  · exact spelled_readNumber _
  split
  · exact spelled_readName _
  · exact spelled_readSymbol c cs

end Lexeme
end ResponsiveCss
