import ResponsiveCss.Proofs.Node.Twin
import ResponsiveCss.Proofs.Token.LetterCase

/-!
# Calls in another letter case

A text is another one with some calls in another letter case (`Recased`) if it has the same tokens
and white space, but for the letter case of the names of calls to functions that style values
know. **Main result**: its tokens are the twins of those of the other text
(`RecasedFrom.forall₂_scanFrom`). For that every token of the second text has to end where it
should, which follows from what is read of both in small letters (`Lexeme.read_map_toLower`).
-/

namespace ResponsiveCss

open Text List

/-- The functions that style values know by name. -/
def knownFunctions : List String :=
  ["calc", "min", "max", "clamp", "rgb", "rgba", "hsl", "hsla", "color", "url", "var"]

/-- The names are the same known name in two letter cases. A name of `kept` is there in both or in
none. -/
structure Recases (kept : List String) (name name' : String) : Prop where
  lower_eq : lower name = lower name'
  known : lower name ∈ knownFunctions
  kept : ∀ key ∈ kept, name = key ↔ name' = key

/-- The beginning of a call for that of the same call in another letter case. -/
def CallStart (kept : List String) (xs ys : List Char) : Prop :=
  ∃ name name', Recases kept name name' ∧ xs = name.toList ++ ['('] ∧ ys = name'.toList ++ ['(']

/-- The names are the same, maybe in two letter cases if it is a known one. -/
def SameFunction (kept : List String) (name name' : String) : Prop :=
  name = name' ∨ Recases kept name name'

open Lexeme in
/-- The second text is the first one with calls in another letter case. The tokens are those of the
first text; `signContext` says whether it may begin with a sign. -/
inductive RecasedFrom (kept : List String) : Bool → List Char → List Char → Prop where
  | nil {signContext : Bool} : RecasedFrom kept signContext [] []
  | space {signContext : Bool} {c : Char} {cs cs' : List Char} (hspace : isSpace c = true)
      (h : RecasedFrom kept true cs cs') : RecasedFrom kept signContext (c :: cs) (c :: cs')
  /-- A token that both have. -/
  | token {signContext : Bool} {c : Char} {cs cs' : List Char} (hspace : isSpace c = false)
      (h : RecasedFrom kept (read signContext c cs).kind.admitsSign (read signContext c cs).rest cs') :
      RecasedFrom kept signContext (c :: cs) ((read signContext c cs).source ++ cs')
  /-- The name of a call and its parenthesis. -/
  | call {signContext : Bool} {c : Char} {cs cs' : List Char} (hspace : isSpace c = false)
      {name name' : String} (hkind : (read signContext c cs).kind = .function name)
      (hname : Recases kept name name') (h : RecasedFrom kept true (read signContext c cs).rest cs') :
      RecasedFrom kept signContext (c :: cs) (name'.toList ++ ['('] ++ cs')
  /-- A whole call to `url`. -/
  | url {signContext : Bool} {c : Char} {cs cs' : List Char} (hspace : isSpace c = false)
      {name name' : String} {body : List Char}
      (hkind : (read signContext c cs).kind = .url (.ofList (name.toList ++ ['('] ++ body)))
      (hname : Recases kept name name') (h : RecasedFrom kept false (read signContext c cs).rest cs') :
      RecasedFrom kept signContext (c :: cs) (name'.toList ++ ['('] ++ body ++ cs')

/-- The style text `raw'` is `raw` with calls in another letter case. -/
def Recased (kept : List String) (raw raw' : String) : Prop :=
  RecasedFrom kept true (trim raw).toList (trim raw').toList

variable {kept : List String}

theorem Recases.toList_map_eq {name name' : String} (h : Recases kept name name') :
    name.toList.map Char.toLower = name'.toList.map Char.toLower := by
  rw [← toList_lower, h.lower_eq, toList_lower]

theorem Recases.length_eq {name name' : String} (h : Recases kept name name') :
    name.toList.length = name'.toList.length := by
  simpa using congrArg List.length h.toList_map_eq

/-- A token is told by its text and by its kind in small letters. -/
theorem TokenKind.eq_of_spells {kind kind' : TokenKind} {source : List Char}
    (h : kind.Spells source) (h' : kind'.Spells source) (hlower : kind.lowered = kind'.lowered) :
    kind = kind' := by
  have hof : ∀ {s s' : String}, source = s.toList → source = s'.toList → s = s' :=
    fun hs hs' => String.toList_inj.mp (hs.symm.trans hs')
  cases kind with
  | number value unit =>
    cases kind' with
    | number value' unit' =>
      obtain ⟨hvalue, -⟩ := TokenKind.number.inj hlower
      have hlength : value.toList.length = value'.toList.length := by
        simpa using congrArg (·.toList.length) hvalue
      obtain ⟨hvalue, hunit⟩ := append_inj (h.symm.trans h') hlength
      rw [String.toList_inj.mp hvalue, String.toList_inj.mp hunit]
    | _ => cases hlower
  | property name =>
    cases kind' with
    | property name' =>
      have hname : name.toList = name'.toList := by
        rcases h with rfl | rfl
        all_goals rcases h' with h' | h'
        all_goals simp_all
      rw [String.toList_inj.mp hname]
    | _ => cases hlower
  | function name =>
    cases kind' with
    | function name' =>
      rw [String.toList_inj.mp (append_inj_left' (h.symm.trans h') rfl)]
    | _ => cases hlower
  | word | color | quoted | url | other =>
    cases kind'
    all_goals first | cases hlower | exact congrArg _ (hof h h')
  | operator | opening | closing | comma =>
    cases kind'
    all_goals
      cases hlower
      try rfl

namespace Lexeme

theorem source_of_function {signContext : Bool} {c : Char} {cs : List Char} {name : String}
    (h : (read signContext c cs).kind = .function name) :
    (read signContext c cs).source = name.toList ++ ['('] := by
  have hspelled := spelled_read signContext c cs
  unfold Spelled at hspelled
  rwa [h] at hspelled

theorem source_of_url {signContext : Bool} {c : Char} {cs raw : List Char}
    (h : (read signContext c cs).kind = .url (.ofList raw)) :
    (read signContext c cs).source = raw := by
  have hspelled := spelled_read signContext c cs
  unfold Spelled at hspelled
  rw [h] at hspelled
  exact hspelled.trans String.toList_ofList

/-- **Where a text in other letters has a token of the same length, it is read as one** of the
same kind, up to letter case. -/
theorem read_of_map_toLower {signContext : Bool} {c d : Char} {cs ds source rest : List Char}
    (hlower : (c :: cs).map Char.toLower = (d :: ds).map Char.toLower)
    (htext : d :: ds = source ++ rest)
    (hlength : source.length = (read signContext c cs).source.length) :
    (read signContext d ds).source = source ∧ (read signContext d ds).rest = rest ∧
      (read signContext d ds).kind.Spells source ∧
      (read signContext d ds).kind.lowered = (read signContext c cs).kind.lowered := by
  have hread : (read signContext d ds).lowered = (read signContext c cs).lowered := by
    obtain ⟨hc, hcs⟩ := cons.inj hlower
    rw [← read_map_toLower, ← read_map_toLower, hc, hcs]
  have hsource : (read signContext d ds).source.length = source.length := by
    rw [hlength]
    simpa [lowered] using congrArg (·.source.length) hread
  obtain ⟨hsame, hrest⟩ :=
    append_inj ((source_append_rest signContext d ds).trans htext) hsource
  have hspelled := spelled_read signContext d ds
  unfold Spelled at hspelled
  rw [hsame] at hspelled
  exact ⟨hsame, hrest, hspelled, congrArg Lexeme.kind hread⟩

end Lexeme

namespace RecasedFrom

variable {signContext : Bool} {cs cs' : List Char}

/-- No call needs another letter case. -/
theorem refl (kept : List String) (signContext : Bool) (cs : List Char) :
    RecasedFrom kept signContext cs cs := by
  induction hlength : cs.length using Nat.strong_induction_on generalizing signContext cs with
  | _ n ih =>
    cases cs with
    | nil => exact .nil
    | cons c cs =>
      subst hlength
      cases hspace : isSpace c with
      | true => exact .space hspace (ih _ (by simp) true cs rfl)
      | false =>
        have hrest := ih _ (Lexeme.length_rest_lt signContext c cs)
          (Lexeme.read signContext c cs).kind.admitsSign _ rfl
        have hsame := token hspace hrest
        rwa [Lexeme.source_append_rest] at hsame

/-- The texts differ in letter case only. -/
theorem map_toLower_eq (h : RecasedFrom kept signContext cs cs') :
    cs.map Char.toLower = cs'.map Char.toLower := by
  induction h with
  | nil => rfl
  | space _ _ ih => rw [map_cons, map_cons, ih]
  | @token signContext c cs cs' _ _ ih =>
    rw [← Lexeme.source_append_rest signContext c cs, map_append, map_append, ih]
  | @call signContext c cs cs' _ name name' hkind hname _ ih =>
    rw [← Lexeme.source_append_rest signContext c cs, Lexeme.source_of_function hkind, map_append, map_append, map_append,
      map_append, hname.toList_map_eq, ih]
  | @url signContext c cs cs' _ name name' body hkind hname _ ih =>
    rw [← Lexeme.source_append_rest signContext c cs, Lexeme.source_of_url hkind]
    simp only [map_append, hname.toList_map_eq, ih]

/-- The texts are the same but for the beginnings of calls. -/
theorem swapped (h : RecasedFrom kept signContext cs cs') : Swapped (CallStart kept) cs cs' := by
  induction h with
  | nil => exact .nil
  | space _ _ ih => exact .char _ ih
  | @token signContext c cs cs' _ _ ih =>
    rw [← Lexeme.source_append_rest signContext c cs]
    exact (Swapped.refl _).append ih
  | @call signContext c cs cs' _ name name' hkind hname _ ih =>
    rw [← Lexeme.source_append_rest signContext c cs, Lexeme.source_of_function hkind]
    exact .piece ⟨name, name', hname, rfl, rfl⟩ ih
  | @url signContext c cs cs' _ name name' body hkind hname _ ih =>
    rw [← Lexeme.source_append_rest signContext c cs, Lexeme.source_of_url hkind, append_assoc,
      append_assoc (name'.toList ++ ['('])]
    exact .piece ⟨name, name', hname, rfl, rfl⟩ ((Swapped.refl body).append ih)

/-- What can be told of two tokens: they are twins. -/
abbrev TwinTokens (kept : List String) (token token' : Token) : Prop :=
  token.kind.Twin (CallStart kept) (SameFunction kept) token'.kind

open Token Lexeme in
/-- A token that the second text has under another name is a twin, and so are those behind it. -/
theorem forall₂_scanFrom_cons {c : Char} {cs source cs' : List Char} (hspace : isSpace c = false)
    (hlower : (c :: cs).map Char.toLower = (source ++ cs').map Char.toLower)
    (hlength : source.length = (read signContext c cs).source.length)
    (hkind : ∀ kind' : TokenKind, kind'.Spells source →
      kind'.lowered = (read signContext c cs).kind.lowered →
      (read signContext c cs).kind.Twin (CallStart kept) (SameFunction kept) kind' ∧
        kind'.admitsSign = (read signContext c cs).kind.admitsSign)
    (hrest : ∀ start start' : Nat, Forall₂ (TwinTokens kept)
      (scanFrom start (read signContext c cs).kind.admitsSign (read signContext c cs).rest)
      (scanFrom start' (read signContext c cs).kind.admitsSign cs')) (start start' : Nat) :
    Forall₂ (TwinTokens kept) (scanFrom start signContext (c :: cs))
      (scanFrom start' signContext (source ++ cs')) := by
  cases htext : source ++ cs' with
  | nil =>
    rw [htext] at hlower
    exact absurd hlower (by simp)
  | cons d ds =>
    rw [htext] at hlower
    obtain ⟨-, hrest', hspells, hlowered⟩ := read_of_map_toLower hlower htext.symm hlength
    have hspace' : isSpace d = false := by
      rw [← isSpace_toLower, ← (cons.inj hlower).1, isSpace_toLower]
      exact hspace
    obtain ⟨htwin, hsign⟩ := hkind _ hspells hlowered
    rw [scanFrom, scanFrom, if_neg (by rw [hspace]; decide), if_neg (by rw [hspace']; decide)]
    simp only [hrest', hsign]
    exact .cons htwin (hrest _ _)

/-- **The tokens of the texts are twins.** -/
theorem forall₂_scanFrom (h : RecasedFrom kept signContext cs cs') :
    ∀ start start' : Nat, Forall₂ (TwinTokens kept) (Token.scanFrom start signContext cs)
      (Token.scanFrom start' signContext cs') := by
  induction h with
  | nil =>
    intro start start'
    rw [Token.scanFrom, Token.scanFrom]
    exact .nil
  | space hspace _ ih =>
    intro start start'
    rw [Token.scanFrom, Token.scanFrom, if_pos hspace, if_pos hspace]
    exact ih _ _
  | @token signContext c cs cs' hspace h ih =>
    refine forall₂_scanFrom_cons hspace (token hspace h).map_toLower_eq rfl ?_ ih
    intro kind' hspells hlower
    rw [TokenKind.eq_of_spells hspells (Lexeme.spelled_read signContext c cs) hlower]
    exact ⟨.same _, rfl⟩
  | @call signContext c cs cs' hspace name name' hkind hname h ih =>
    refine forall₂_scanFrom_cons hspace (call hspace hkind hname h).map_toLower_eq ?_ ?_ ?_
    · rw [Lexeme.source_of_function hkind, length_append, length_append, hname.length_eq]
    · intro kind' hspells hlower
      rw [hkind] at hlower ⊢
      cases kind' with
      | function name'' =>
        obtain rfl := String.toList_inj.mp (append_inj_left' hspells rfl)
        exact ⟨.function (.inr hname), rfl⟩
      | _ => cases hlower
    · rw [hkind]
      exact ih
  | @url signContext c cs cs' hspace name name' body hkind hname h ih =>
    refine forall₂_scanFrom_cons hspace (url hspace hkind hname h).map_toLower_eq ?_ ?_ ?_
    · rw [Lexeme.source_of_url hkind]
      simp only [length_append, hname.length_eq]
    · intro kind' hspells hlower
      rw [hkind] at hlower ⊢
      cases kind' with
      | url raw =>
        refine ⟨.url ?_, rfl⟩
        have hraw : raw.toList = name'.toList ++ ['('] ++ body := hspells.symm
        unfold Text.Twin
        rw [hraw, String.toList_ofList]
        exact .piece ⟨name, name', hname, rfl, rfl⟩ (.refl body)
      | _ => cases hlower
    · rw [hkind]
      exact ih

end RecasedFrom

/-- The trees of the texts are twins. -/
theorem Recased.forall₂_tree {raw raw' : String} (h : Recased kept raw raw') :
    Forall₂ (Node.Twin (CallStart kept) (SameFunction kept)) (ParsedStyle.tree raw).1
      (ParsedStyle.tree raw').1 :=
  Node.twin_buildWithin (fun _ => .inl rfl) _ (h.forall₂_scanFrom 0 0)

end ResponsiveCss
