import ResponsiveCss.ParsedStyle
import ResponsiveCss.Proofs.Node.Kinds
import ResponsiveCss.Proofs.Text.Respaced
import ResponsiveCss.Proofs.Token.Reader

/-!
# The amount and kind of white space

No token but a quoted string and a call to `url` has white space in it, and what decides where a
token ends or what a dash means is whether there is any, not which. So where none of these two
occurs, a text with other white space has tokens of the same kinds, one by one
(`Token.map_kind_scanFrom_respaced`). **Main result**: it is parsed to the same style, or is refused
for the same fault (`ParsedStyle.parse_run`).
-/

namespace ResponsiveCss

open Text

/-- White space is in no class of characters that has none of its five characters. -/
theorem Text.apply_of_isSpace {p : Char → Bool}
    (hp : [' ', '\t', '\n', '\x0c', '\r'].all (fun c => p c == false) = true) (c : Char)
    (h : isSpace c = true) : p c = false := by
  refine forall_mem_of_all hp c ?_
  simp only [isSpace, Bool.or_eq_true, beq_iff_eq] at h
  rcases h with (((rfl | rfl) | rfl) | rfl) | rfl <;> decide

/-- The kinds of tokens that have no white space in them: all but quoted strings and calls to
`url`. -/
structure TokenKind.Solid (kind : TokenKind) : Prop where
  not_quoted : ∀ raw, kind ≠ .quoted raw
  not_url : ∀ raw, kind ≠ .url raw

namespace Lexeme

variable {cs cs' : List Char}

/-! ## What is looked at before a token is read -/

/-- For a class without white space, the texts begin alike. -/
theorem any_head?_respaced (h : Respaced cs cs') {p : Char → Bool}
    (hp : ∀ c, isSpace c = true → p c = false) : cs.head?.any p = cs'.head?.any p := by
  cases h with
  | nil => rfl
  | char => rfl
  | @run s s' _ _ _ _ hrun hrun' =>
    show p s = p s'
    rw [hp s (hrun s List.mem_cons_self), hp s' (hrun' s' List.mem_cons_self)]

theorem nameFollows_respaced (h : Respaced cs cs') : nameFollows cs = nameFollows cs' := by
  rw [nameFollows_eq_any, nameFollows_eq_any]
  exact any_head?_respaced h (apply_of_isSpace (by decide))

theorem nameStarts_respaced (h : Respaced cs cs') : nameStarts cs = nameStarts cs' := by
  rw [nameStarts_eq_any, nameStarts_eq_any]
  exact any_head?_respaced h (apply_of_isSpace (by decide))

theorem dashNameFollows_respaced (h : Respaced cs cs') :
    dashNameFollows cs = dashNameFollows cs' := by
  rcases h.mark_cases '-' rfl with ⟨rest, rest', rfl, rfl, hrest⟩ | ⟨hne, hne'⟩
  · exact nameFollows_respaced hrest
  · rw [dashNameFollows_of_head?_ne hne, dashNameFollows_of_head?_ne hne']

theorem startsNumber_respaced (h : Respaced cs cs') : startsNumber cs = startsNumber cs' := by
  have hdigit (c : Char) : isSpace c = true → c.isDigit = false := apply_of_isSpace (by decide) c
  rcases h.mark_cases '.' rfl with ⟨rest, rest', rfl, rfl, hrest⟩ | ⟨hne, hne'⟩
  · rw [startsNumber_point, startsNumber_point, any_head?_respaced hrest hdigit]
  · rw [startsNumber_of_head?_ne hne, startsNumber_of_head?_ne hne', any_head?_respaced h hdigit]

/-! ## The readers -/

/-- The tokens are of one kind, and what is left is the same but for white space. -/
structure Alike (lexeme lexeme' : Lexeme) : Prop where
  kind : lexeme.kind = lexeme'.kind
  rest : Respaced lexeme.rest lexeme'.rest

theorem splitSign_respaced (h : Respaced cs cs') :
    (splitSign cs).1 = (splitSign cs').1 ∧ Respaced (splitSign cs).2 (splitSign cs').2 := by
  rcases h.mark_cases '-' rfl with ⟨rest, rest', rfl, rfl, hrest⟩ | ⟨hne, hne'⟩
  · exact ⟨rfl, hrest⟩
  · rw [splitSign_of_head?_ne hne, splitSign_of_head?_ne hne']
    exact ⟨rfl, h⟩

theorem splitFraction_respaced (h : Respaced cs cs') :
    (splitFraction cs).1 = (splitFraction cs').1 ∧
      Respaced (splitFraction cs).2 (splitFraction cs').2 := by
  have hdigit (c : Char) : isSpace c = true → c.isDigit = false := apply_of_isSpace (by decide) c
  rcases h.mark_cases '.' rfl with ⟨rest, rest', rfl, rfl, hrest⟩ | ⟨hne, hne'⟩
  · rw [splitFraction_point, splitFraction_point, any_head?_respaced hrest hdigit,
      hrest.takeWhile_eq hdigit]
    split
    · exact ⟨rfl, hrest.dropWhile hdigit⟩
    · exact ⟨rfl, h⟩
  · rw [splitFraction_of_head?_ne hne, splitFraction_of_head?_ne hne']
    exact ⟨rfl, h⟩

theorem readNumber_respaced (h : Respaced cs cs') : (readNumber cs).Alike (readNumber cs') := by
  have hdigit (c : Char) : isSpace c = true → c.isDigit = false := apply_of_isSpace (by decide) c
  have hunit (c : Char) : isSpace c = true → isUnitChar c = false := apply_of_isSpace (by decide) c
  obtain ⟨hsign, hbody⟩ := splitSign_respaced h
  obtain ⟨hfraction, htail⟩ := splitFraction_respaced (hbody.dropWhile hdigit)
  have hkind : (readNumber cs).kind = (readNumber cs').kind := by
    simp only [readNumber, hsign, hbody.takeWhile_eq hdigit, hfraction, htail.takeWhile_eq hunit]
  exact ⟨hkind, htail.dropWhile hunit⟩

theorem readProperty_respaced (h : Respaced cs cs') (mark : List Char) :
    (readProperty mark cs).Alike (readProperty mark cs') := by
  have hname (c : Char) : isSpace c = true → isNameChar c = false := apply_of_isSpace (by decide) c
  refine ⟨?_, h.dropWhile hname⟩
  simp only [readProperty, h.takeWhile_eq hname]

theorem readColor_respaced (h : Respaced cs cs') : (readColor cs).Alike (readColor cs') := by
  have hname (c : Char) : isSpace c = true → (isNameChar c || c == '.') = false :=
    apply_of_isSpace (p := fun c => isNameChar c || c == '.') (by decide) c
  unfold readColor
  simp only [h.takeWhile_eq hname]
  split
  · exact ⟨rfl, h⟩
  · exact ⟨rfl, h.dropWhile hname⟩

theorem readSymbol_respaced (h : Respaced cs cs') (c : Char) :
    (readSymbol c cs).Alike (readSymbol c cs') := by
  unfold readSymbol
  split
  · exact ⟨rfl, h⟩
  · exact ⟨rfl, h⟩

/-- A name of `url` before a parenthesis begins a call to it. -/
theorem lower_nameOf_ne {tail : List Char} (h : behindName cs = '(' :: tail)
    (hsolid : (readName cs).kind.Solid) : lower (.ofList (nameOf cs)) ≠ "url" := by
  intro hlower
  have hurl := hsolid.not_url
  unfold behindName at h
  unfold nameOf at hlower
  unfold readName at hurl
  simp only [h, hlower, if_true] at hurl
  split at hurl
  · exact hurl _ rfl
  · exact hurl _ rfl

theorem readName_respaced (h : Respaced cs cs') (hsolid : (readName cs).kind.Solid) :
    (readName cs).Alike (readName cs') := by
  have hname (c : Char) : isSpace c = true → isNameChar c = false := apply_of_isSpace (by decide) c
  obtain ⟨hsign, hbody⟩ := splitSign_respaced h
  have hsame : nameOf cs = nameOf cs' := congrArg₂ (· ++ ·) hsign (hbody.takeWhile_eq hname)
  have hbehind : Respaced (behindName cs) (behindName cs') := hbody.dropWhile hname
  rcases hbehind.mark_cases '(' rfl with
    ⟨tail, tail', htail, htail', hrest⟩ | ⟨hne, hne'⟩
  · have hlower := lower_nameOf_ne htail hsolid
    rw [readName_call htail hlower, readName_call htail' (hsame ▸ hlower), hsame]
    exact ⟨rfl, hrest⟩
  · rw [readName_word hne, readName_word hne', hsame]
    exact ⟨rfl, hbehind⟩

/-- A choice is alike where both of its branches are. -/
theorem ite_alike {p : Prop} [Decidable p] {a b a' b' : Lexeme}
    (hsolid : (if p then a else b).kind.Solid) (ha : p → a.kind.Solid → a.Alike a')
    (hb : b.kind.Solid → b.Alike b') : (if p then a else b).Alike (if p then a' else b') := by
  split
  next h =>
    rw [if_pos h] at hsolid
    exact ha h hsolid
  next h =>
    rw [if_neg h] at hsolid
    exact hb hsolid

theorem readDash_respaced (h : Respaced cs cs') {signContext : Bool}
    (hsolid : (readDash signContext cs).kind.Solid) :
    (readDash signContext cs).Alike (readDash signContext cs') := by
  have hsigned : Respaced ('-' :: cs) ('-' :: cs') := .char '-' h
  unfold readDash at hsolid ⊢
  rw [← dashNameFollows_respaced h, ← startsNumber_respaced h, ← nameStarts_respaced h]
  refine ite_alike hsolid (fun hdash _ => ?_) fun hsolid => ?_
  · obtain ⟨rest, rfl⟩ := exists_cons_of_dashNameFollows hdash
    obtain ⟨rest', rfl, hrest⟩ := h.exists_cons (by decide)
    exact readProperty_respaced hrest _
  refine ite_alike hsolid (fun _ _ => readNumber_respaced hsigned) fun hsolid => ?_
  exact ite_alike hsolid (fun _ => readName_respaced hsigned) fun _ => readSymbol_respaced h '-'

/-- **A token without white space is read the same, whatever white space there is behind it.** -/
theorem read_respaced (h : Respaced cs cs') {signContext : Bool} {c : Char}
    (hsolid : (read signContext c cs).kind.Solid) :
    (read signContext c cs).Alike (read signContext c cs') := by
  have htext : Respaced (c :: cs) (c :: cs') := .char c h
  unfold read at hsolid ⊢
  rw [← nameFollows_respaced h, ← startsNumber_respaced htext]
  refine ite_alike hsolid (fun _ hsolid => ?_) fun hsolid => ?_
  · unfold readQuoted at hsolid
    split at hsolid
    · exact absurd rfl (hsolid.not_quoted _)
    · exact absurd rfl (hsolid.not_quoted _)
  -- parentheses and commas are tokens of one character
  refine ite_alike hsolid (fun _ _ => ⟨rfl, h⟩) fun hsolid => ?_
  refine ite_alike hsolid (fun _ _ => ⟨rfl, h⟩) fun hsolid => ?_
  refine ite_alike hsolid (fun _ _ => ⟨rfl, h⟩) fun hsolid => ?_
  refine ite_alike hsolid (fun _ _ => readColor_respaced h) fun hsolid => ?_
  refine ite_alike hsolid (fun _ _ => readProperty_respaced h _) fun hsolid => ?_
  refine ite_alike hsolid (fun _ => readDash_respaced h) fun hsolid => ?_
  refine ite_alike hsolid (fun _ _ => readNumber_respaced htext) fun hsolid => ?_
  exact ite_alike hsolid (fun _ => readName_respaced htext) fun _ => readSymbol_respaced h c

end Lexeme

namespace Token

/-- White space is passed over, and behind it a dash can be a sign. -/
theorem scanFrom_space_append {gap : List Char} (hgap : ∀ c ∈ gap, isSpace c = true) (start : Nat)
    (signContext : Bool) (cs : List Char) :
    scanFrom start signContext (gap ++ cs) = scanFrom (start + (String.ofList gap).utf8ByteSize)
      (signContext || !gap.isEmpty) cs := by
  induction gap generalizing start signContext with
  | nil => simp
  | cons c gap ih =>
    obtain ⟨hc, hrest⟩ := List.forall_mem_cons.mp hgap
    rw [List.cons_append, scanFrom, if_pos hc, ih hrest, String.ofList_cons,
      String.utf8ByteSize_append, String.utf8ByteSize_singleton, Nat.add_assoc]
    simp

/-- **Other white space leaves the kinds of the tokens.** -/
theorem map_kind_scanFrom_respaced {cs cs' : List Char} (h : Respaced cs cs') {start start' : Nat}
    {signContext : Bool} (hsolid : ∀ token ∈ scanFrom start signContext cs, token.kind.Solid) :
    (scanFrom start signContext cs).map Token.kind
      = (scanFrom start' signContext cs').map Token.kind := by
  induction hlength : cs.length using Nat.strong_induction_on
    generalizing cs cs' start start' signContext with
  | _ n ih =>
    subst hlength
    cases h with
    | nil => rw [scanFrom, scanFrom]
    | @char c cs cs' h =>
      rw [scanFrom, scanFrom]
      rw [scanFrom] at hsolid
      split
      next hspace =>
        rw [if_pos hspace] at hsolid
        exact ih _ (by simp) h hsolid rfl
      next hspace =>
        rw [if_neg hspace] at hsolid
        obtain ⟨hfirst, hrest⟩ := List.forall_mem_cons.mp hsolid
        obtain ⟨hkind, halike⟩ := Lexeme.read_respaced h hfirst
        simp only [List.map_cons, ← hkind]
        exact congrArg _ (ih _ (Lexeme.length_rest_lt signContext c cs) halike hrest rfl)
    | @run s s' run run' cs cs' hrun hrun' h =>
      rw [scanFrom_space_append hrun] at hsolid ⊢
      rw [scanFrom_space_append hrun']
      have hlength : cs.length < (s :: run ++ cs).length := by
        rw [List.cons_append, List.length_cons, List.length_append]
        omega
      exact ih _ hlength h hsolid rfl

end Token

namespace ParsedStyle

/-- A text with other white space has the same tree, and the same faults at other places. -/
theorem tree_of_respaced {raw raw' : String} (h : Respaced raw.toList raw'.toList)
    (hsolid : ∀ token ∈ Token.scan (trim raw), token.kind.Solid) :
    (tree raw).1 = (tree raw').1 ∧
      (tree raw).2.map Issue.fault = (tree raw').2.map Issue.fault :=
  Node.buildWithin_of_map_kind (Token.map_kind_scanFrom_respaced h.trim hsolid) _

/-- **The amount and kind of white space never matters.** Take a text without quotes and calls to
`url`, and put other white space for a run of it. Then it is parsed to the same style, and the
strict reader accepts both texts with the same result or refuses both for the same fault. -/
theorem parse_run {before gap gap' after : String}
    (hgap : gap ≠ "" ∧ ∀ c ∈ gap.toList, isSpace c = true)
    (hgap' : gap' ≠ "" ∧ ∀ c ∈ gap'.toList, isSpace c = true)
    (hquotes : '\'' ∉ (before ++ gap ++ after).toList ∧ '"' ∉ (before ++ gap ++ after).toList)
    (hurl : ∀ token ∈ Token.scan (trim (before ++ gap ++ after)), ∀ call, token.kind ≠ .url call)
    (units : UnitTable) (mode : Mode) :
    parse units mode (before ++ gap ++ after) = parse units mode (before ++ gap' ++ after) ∧
      (∀ parsed, tryParse units mode (before ++ gap ++ after) = .ok parsed ↔
        tryParse units mode (before ++ gap' ++ after) = .ok parsed) ∧
      (firstIssue? (before ++ gap ++ after)).map Issue.fault
        = (firstIssue? (before ++ gap' ++ after)).map Issue.fault := by
  have hrespaced : Respaced (before ++ gap ++ after).toList (before ++ gap' ++ after).toList := by
    simp only [String.toList_append]
    have hrun : Respaced gap.toList gap'.toList :=
      .of_run (by simpa using hgap.1) (by simpa using hgap'.1) hgap.2 hgap'.2
    exact ((Respaced.refl _).append hrun).append (.refl _)
  have hsolid : ∀ token ∈ Token.scan (trim (before ++ gap ++ after)), token.kind.Solid := by
    refine fun token htoken => ⟨fun text hquoted => ?_, hurl token htoken⟩
    rcases Token.quote_mem_of_quoted htoken hquoted with h | h
    · exact hquotes.1 (mem_of_mem_trim h)
    · exact hquotes.2 (mem_of_mem_trim h)
  obtain ⟨hnodes, hfaults⟩ := tree_of_respaced hrespaced hsolid
  have hparse : parse units mode (before ++ gap ++ after)
      = parse units mode (before ++ gap' ++ after) := by
    rw [parse, parse, hnodes]
  have hfirst : (firstIssue? (before ++ gap ++ after)).map Issue.fault
      = (firstIssue? (before ++ gap' ++ after)).map Issue.fault := by
    rw [firstIssue?, firstIssue?, ← List.head?_map, ← List.head?_map, hfaults]
  refine ⟨hparse, fun parsed => ?_, hfirst⟩
  unfold tryParse
  rw [hparse]
  cases hissue : firstIssue? (before ++ gap ++ after) with
  | none =>
    rw [hissue, Option.map_none, eq_comm, Option.map_eq_none_iff] at hfirst
    rw [hfirst]
  | some issue =>
    rw [hissue, Option.map_some, eq_comm, Option.map_eq_some_iff] at hfirst
    obtain ⟨issue', hissue', -⟩ := hfirst
    simp [hissue']

/-- White space before a dash makes it a sign, whichever it is. -/
theorem parse_run_sign :
    (" " ≠ "" ∧ ∀ c ∈ " ".toList, isSpace c = true) ∧
      ("\n\t" ≠ "" ∧ ∀ c ∈ "\n\t".toList, isSpace c = true) ∧
      (∀ token ∈ Token.scan (trim ("1px" ++ " " ++ "-2px")), ∀ call, token.kind ≠ .url call) ∧
      (parse .standard .default "1px -2px").values = ["1px", "-2px"] ∧
      parse .standard .default "1px -2px" = parse .standard .default "1px\n\t-2px" := by
  have hspace : " " ≠ "" ∧ ∀ c ∈ " ".toList, isSpace c = true :=
    ⟨by decide, List.all_eq_true.mp (by decide)⟩
  have hspace' : "\n\t" ≠ "" ∧ ∀ c ∈ "\n\t".toList, isSpace c = true :=
    ⟨by decide, List.all_eq_true.mp (by decide)⟩
  have hkinds : (Token.scan (trim ("1px" ++ " " ++ "-2px"))).map Token.kind
      = [.number "1" "px", .number "-2" "px"] := by decide +kernel
  have hurl : ∀ token ∈ Token.scan (trim ("1px" ++ " " ++ "-2px")), ∀ call,
      token.kind ≠ .url call := by
    intro token htoken call hkind
    have hmem := List.mem_map_of_mem (f := Token.kind) htoken
    rw [hkinds, hkind] at hmem
    exact absurd hmem (by simp)
  have hvalues : (parse .standard .default "1px -2px").values = ["1px", "-2px"] := by decide +kernel
  exact ⟨hspace, hspace', hurl, hvalues,
    (parse_run hspace hspace' (by decide) hurl .standard .default).1⟩

end ParsedStyle
end ResponsiveCss
