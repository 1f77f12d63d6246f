import ResponsiveCss.Proofs.Json.Number
import ResponsiveCss.Proofs.Value.Finite

/-!
# Different style maps have different JSON texts

**Main result.** Two style maps with finite numbers and the same JSON text are the same
style map (`StyleMap.eq_of_json_eq`).

The text of a value is not just different from that of another value: where it stands in a
longer text, the longer text determines the value and where its text ends (`ToldBy`). For
numbers that is so because no character of a number can follow one, for strings because of
the quotes, and for lists and maps by induction on the value, since neither the comma nor
the bracket that follows an element begins one.
-/

namespace ResponsiveCss

/-! ### Strings -/

/-- The value of a hexadecimal digit in lower case. -/
def hexValue (c : Char) : Nat := if c.toNat < 58 then c.toNat - 48 else c.toNat - 87

theorem hexValue_hexDigit {n : Nat} (h : n < 16) : hexValue (hexDigit n) = n := by
  have hall : ∀ n < 16, hexValue (hexDigit n) = n := by decide
  exact hall n h

/-- Splits off the first character of the inside of a JSON string. At the closing quote
there is none. -/
def unescape? : List Char → Option (Char × List Char)
  | '\\' :: '"' :: rest => some ('"', rest)
  | '\\' :: '\\' :: rest => some ('\\', rest)
  | '\\' :: 'b' :: rest => some ('\x08', rest)
  | '\\' :: 't' :: rest => some ('\t', rest)
  | '\\' :: 'n' :: rest => some ('\n', rest)
  | '\\' :: 'f' :: rest => some ('\x0c', rest)
  | '\\' :: 'r' :: rest => some ('\r', rest)
  | '\\' :: 'u' :: '0' :: '0' :: high :: low :: rest =>
    some (.ofNat (16 * hexValue high + hexValue low), rest)
  | '"' :: _ => none
  | c :: rest => some (c, rest)
  | [] => none

theorem unescape?_quote (rest : List Char) : unescape? ('"' :: rest) = none := rfl

theorem unescape?_plain {c : Char} (hslash : c ≠ '\\') (hquote : c ≠ '"') (rest : List Char) :
    unescape? (c :: rest) = some (c, rest) := by
  unfold unescape?
  split <;> simp_all

/-- What a character is escaped to is read as the character. -/
theorem unescape?_jsonEscape (c : Char) (rest : List Char) :
    unescape? (jsonEscape c ++ rest) = some (c, rest) := by
  unfold jsonEscape
  split
  · rfl
  · rfl
  · rfl
  · rfl
  · rfl
  · rfl
  · rfl
  · next hquote hslash _ _ _ _ _ =>
    split
    · show some (Char.ofNat (16 * hexValue (hexDigit (c.toNat / 16))
        + hexValue (hexDigit (c.toNat % 16))), rest) = some (c, rest)
      rw [hexValue_hexDigit (by omega), hexValue_hexDigit (by omega), Nat.div_add_mod,
        Char.ofNat_toNat]
    · exact unescape?_plain hslash hquote rest

/-- The inside of a string and its end are determined by what follows the opening quote. -/
theorem eq_of_escaped_eq {cs cs' rest rest' : List Char}
    (h : cs.flatMap jsonEscape ++ '"' :: rest = cs'.flatMap jsonEscape ++ '"' :: rest') :
    cs = cs' ∧ rest = rest' := by
  induction cs generalizing cs' with
  | nil =>
    cases cs' with
    | nil => exact ⟨rfl, (List.cons.inj h).2⟩
    | cons c' cs' =>
      rw [List.flatMap_cons, List.append_assoc] at h
      have hread := congrArg unescape? h
      rw [unescape?_jsonEscape] at hread
      exact absurd hread (by simp [unescape?_quote])
  | cons c cs ih =>
    rw [List.flatMap_cons, List.append_assoc] at h
    have hread := congrArg unescape? h
    rw [unescape?_jsonEscape] at hread
    cases cs' with
    | nil => exact absurd hread (by simp [unescape?_quote])
    | cons c' cs' =>
      rw [List.flatMap_cons, List.append_assoc, unescape?_jsonEscape] at hread
      obtain ⟨rfl, hrest⟩ := Prod.mk.inj (Option.some.inj hread)
      obtain ⟨rfl, hend⟩ := ih hrest
      exact ⟨rfl, hend⟩

theorem toList_jsonString (s : String) :
    (jsonString s).toList = '"' :: (s.toList.flatMap jsonEscape ++ ['"']) := by
  unfold jsonString
  rw [String.toList_append, String.toList_append, List.append_assoc]
  show '"' :: ((String.ofList (s.toList.flatMap jsonEscape)).toList ++ ['"']) = _
  rw [String.toList_ofList]

/-- A JSON string and its end are determined by the text that begins with it. -/
theorem eq_of_jsonString_append_eq {s s' : String} {rest rest' : List Char}
    (h : (jsonString s).toList ++ rest = (jsonString s').toList ++ rest') :
    s = s' ∧ rest = rest' := by
  rw [toList_jsonString, toList_jsonString, List.cons_append, List.cons_append,
    List.append_assoc, List.append_assoc] at h
  obtain ⟨hchars, hrest⟩ := eq_of_escaped_eq (List.cons.inj h).2
  exact ⟨String.toList_inj.1 hchars, hrest⟩

/-! ### Elements and members -/

/-- What may follow a value: a comma, a closing bracket or brace, or the end. -/
def Closes (rest : List Char) : Prop := ∀ c ∈ rest.head?, c = ',' ∨ c = ']' ∨ c = '\x7d'

theorem closes_cons {c : Char} (h : c = ',' ∨ c = ']' ∨ c = '\x7d') (rest : List Char) :
    Closes (c :: rest) := by
  intro d hd
  rw [← Option.mem_some.mp hd]
  exact h

theorem closes_nil : Closes [] := fun c hc => absurd hc (by simp)

section Elements

variable {α : Type} {text : α → List Char} {P : α → Prop}

/-- Of all values with the property, `a` alone has its text at the start of a longer text,
and its text ends in one place only. -/
def ToldBy (text : α → List Char) (P : α → Prop) (a : α) : Prop :=
  ∀ b, P b → ∀ rest rest', Closes rest → Closes rest' → text a ++ rest = text b ++ rest' →
    a = b ∧ rest = rest'

/-- Elements after the first and the bracket behind them are determined by their text. -/
theorem eq_of_following_eq {close : Char} (hclose : close = ']' ∨ close = '\x7d') {as bs : List α}
    (has : ∀ a ∈ as, ToldBy text P a) (hbs : ∀ b ∈ bs, P b) {rest rest' : List Char}
    (h : as.flatMap (fun a => ',' :: text a) ++ close :: rest
      = bs.flatMap (fun b => ',' :: text b) ++ close :: rest') : as = bs ∧ rest = rest' := by
  have hne : close ≠ ',' := by
    rcases hclose with rfl | rfl <;> decide
  have hfollow : ∀ (cs : List α) (tail : List Char),
      Closes (cs.flatMap (fun c => ',' :: text c) ++ close :: tail) := by
    intro cs tail
    cases cs with
    | nil => exact closes_cons (.inr hclose) tail
    | cons c cs => exact closes_cons (.inl rfl) _
  induction as generalizing bs with
  | nil =>
    cases bs with
    | nil => exact ⟨rfl, (List.cons.inj h).2⟩
    | cons b bs => exact absurd (List.cons.inj h).1 hne
  | cons a as ih =>
    cases bs with
    | nil => exact absurd (List.cons.inj h).1.symm hne
    | cons b bs =>
      rw [List.flatMap_cons, List.flatMap_cons, List.append_assoc, List.append_assoc] at h
      obtain ⟨rfl, hrest⟩ := has a List.mem_cons_self b (hbs b List.mem_cons_self) _ _
        (hfollow as rest) (hfollow bs rest') (List.cons.inj h).2
      obtain ⟨rfl, hend⟩ := ih (fun x hx => has x (List.mem_cons_of_mem _ hx))
        (fun x hx => hbs x (List.mem_cons_of_mem _ hx)) hrest
      exact ⟨rfl, hend⟩

theorem intercalate_map_cons (text : α → List Char) (a : α) (as : List α) :
    [','].intercalate ((a :: as).map text) = text a ++ as.flatMap fun b => ',' :: text b := by
  induction as generalizing a with
  | nil => rw [List.map_singleton, List.intercalate_singleton, List.flatMap_nil, List.append_nil]
  | cons b as ih =>
    rw [List.map_cons, List.map_cons, List.intercalate_cons_cons, ← List.map_cons, ih,
      List.flatMap_cons, List.append_assoc]
    rfl

/-- Elements and the bracket behind them are determined by their text, if no element begins
with a bracket that closes. -/
theorem eq_of_elements_eq {close : Char} (hclose : close = ']' ∨ close = '\x7d')
    (hopen : ∀ b, P b → ∃ c cs, text b = c :: cs ∧ c ≠ ']' ∧ c ≠ '\x7d') {as bs : List α}
    (has : ∀ a ∈ as, P a ∧ ToldBy text P a) (hbs : ∀ b ∈ bs, P b) {rest rest' : List Char}
    (h : [','].intercalate (as.map text) ++ close :: rest
      = [','].intercalate (bs.map text) ++ close :: rest') : as = bs ∧ rest = rest' := by
  have hnot : ∀ b, P b → ∀ tail more, text b ++ tail ≠ close :: more := by
    intro b hb tail more heq
    obtain ⟨c, cs, htext, hbracket, hbrace⟩ := hopen b hb
    rw [htext] at heq
    rcases hclose with rfl | rfl
    · exact hbracket (List.cons.inj heq).1
    · exact hbrace (List.cons.inj heq).1
  cases as with
  | nil =>
    cases bs with
    | nil => exact ⟨rfl, (List.cons.inj h).2⟩
    | cons b bs =>
      rw [intercalate_map_cons, List.append_assoc] at h
      exact absurd h.symm (hnot b (hbs b List.mem_cons_self) _ _)
  | cons a as =>
    cases bs with
    | nil =>
      rw [intercalate_map_cons, List.append_assoc] at h
      exact absurd h (hnot a (has a List.mem_cons_self).1 _ _)
    | cons b bs =>
      -- a comma before the first elements makes both lists lists of following elements
      refine eq_of_following_eq hclose (fun x hx => (has x hx).2) hbs ?_
      rw [intercalate_map_cons, intercalate_map_cons] at h
      rw [List.flatMap_cons, List.flatMap_cons, List.cons_append, List.cons_append,
        List.cons_append, List.cons_append, h]

end Elements

/-- The text of a member of a map. -/
def memberChars {α : Type} (text : α → List Char) (member : String × α) : List Char :=
  (jsonString member.1).toList ++ ':' :: text member.2

theorem ToldBy.member {α : Type} {text : α → List Char} {P : α → Prop} {key : String} {a : α}
    (h : ToldBy text P a) :
    ToldBy (memberChars text) (fun member : String × α => P member.2) (key, a) := by
  rintro ⟨key', b⟩ hb rest rest' hrest hrest' heq
  unfold memberChars at heq
  rw [List.append_assoc, List.append_assoc] at heq
  obtain ⟨hkey, htail⟩ := eq_of_jsonString_append_eq heq
  obtain ⟨hvalue, hend⟩ := h b hb rest rest' hrest hrest' (List.cons.inj htail).2
  exact ⟨Prod.ext hkey hvalue, hend⟩

theorem exists_cons_memberChars {α : Type} (text : α → List Char) (member : String × α) :
    ∃ c cs, memberChars text member = c :: cs ∧ c ≠ ']' ∧ c ≠ '\x7d' := by
  unfold memberChars
  rw [toList_jsonString, List.cons_append]
  exact ⟨'"', _, rfl, by decide, by decide⟩

theorem toList_jsonArray (elements : List String) :
    (jsonArray elements).toList
      = '[' :: ([','].intercalate (elements.map String.toList) ++ [']']) := by
  unfold jsonArray
  rw [String.toList_append, String.toList_append, String.toList_intercalate]
  rfl

theorem toList_jsonObject (members : List (String × String)) :
    (jsonObject members).toList
      = '\x7b' :: ([','].intercalate (members.map (memberChars String.toList)) ++ ['\x7d']) := by
  unfold jsonObject
  rw [String.toList_append, String.toList_append, String.toList_intercalate, List.map_map]
  have htext : (String.toList ∘ fun m : String × String => jsonString m.1 ++ ":" ++ m.2)
      = memberChars String.toList := by
    funext m
    show (jsonString m.1 ++ ":" ++ m.2).toList = _
    rw [String.toList_append, String.toList_append, List.append_assoc]
    rfl
  rw [htext]
  rfl

/-! ### Values -/

namespace StyleValue

/-- The characters of the JSON text of a value. -/
def jsonChars (v : StyleValue) : List Char := v.json.toList

theorem map_toList_jsonItems (items : List StyleValue) :
    (jsonItems items).map String.toList = items.map jsonChars := by
  induction items with
  | nil => rfl
  | cons item rest ih => rw [jsonItems, List.map_cons, List.map_cons, ih, jsonChars]

theorem map_memberChars_jsonBranches (branches : List (String × StyleValue)) :
    (jsonBranches branches).map (memberChars String.toList)
      = branches.map (memberChars jsonChars) := by
  induction branches with
  | nil => rfl
  | cons branch rest ih =>
    obtain ⟨key, value⟩ := branch
    rw [jsonBranches, List.map_cons, List.map_cons, ih]
    rfl

theorem jsonChars_responsive (items : List StyleValue) :
    (responsive items).jsonChars = '[' :: ([','].intercalate (items.map jsonChars) ++ [']']) := by
  rw [jsonChars, json, toList_jsonArray, map_toList_jsonItems]

theorem jsonChars_conditional (branches : List (String × StyleValue)) :
    (conditional branches).jsonChars
      = '\x7b' :: ([','].intercalate (branches.map (memberChars jsonChars)) ++ ['\x7d']) := by
  rw [jsonChars, json, toList_jsonObject, map_memberChars_jsonBranches]

/-- The kind of the values whose text begins with a character. -/
def kindOfOpening (c : Char) : String :=
  if c = 'n' then "null" else if c = 't' ∨ c = 'f' then "bool" else if c = '"' then "string"
  else if c = '[' then "responsive" else if c = '\x7b' then "conditional" else "number"

theorem kindOfOpening_of_number {c : Char} (h : c.isDigit = true ∨ c = '-') :
    kindOfOpening c = "number" ∧ c ≠ ']' ∧ c ≠ '\x7d' := by
  have hne : ∀ d : Char, d.isDigit = false → d ≠ '-' → c ≠ d := by
    rintro d hd hdash rfl
    rcases h with h | h
    · rw [hd] at h
      cases h
    · exact hdash h
  refine ⟨?_, hne _ (by decide) (by decide), hne _ (by decide) (by decide)⟩
  unfold kindOfOpening
  rw [if_neg (hne _ (by decide) (by decide)), if_neg, if_neg (hne _ (by decide) (by decide)),
    if_neg (hne _ (by decide) (by decide)), if_neg (hne _ (by decide) (by decide))]
  rintro (h | h)
  · exact hne 't' (by decide) (by decide) h
  · exact hne 'f' (by decide) (by decide) h

/-- The first character of a value's text tells its kind, and closes nothing. -/
theorem IsFinite.exists_opening {v : StyleValue} (h : v.IsFinite) :
    ∃ c cs, v.jsonChars = c :: cs ∧ kindOfOpening c = v.kind ∧ c ≠ ']' ∧ c ≠ '\x7d' := by
  cases h with
  | null => exact ⟨'n', _, rfl, rfl, by decide, by decide⟩
  | bool b =>
    cases b
    · exact ⟨'f', _, rfl, rfl, by decide, by decide⟩
    · exact ⟨'t', _, rfl, rfl, by decide, by decide⟩
  | number hx =>
    obtain ⟨⟨c, cs, heq, hc⟩, -⟩ := Binary64.json_chars hx
    refine ⟨c, cs, ?_, kindOfOpening_of_number hc⟩
    rw [jsonChars, json, heq]
  | text s =>
    rw [jsonChars, json, toList_jsonString]
    exact ⟨'"', _, rfl, rfl, by decide, by decide⟩
  | responsive hitems => exact ⟨'[', _, jsonChars_responsive _, rfl, by decide, by decide⟩
  | conditional hbranches =>
    exact ⟨'\x7b', _, jsonChars_conditional _, rfl, by decide, by decide⟩

/-- Values whose texts begin a text are of the same kind. -/
theorem kind_eq_of_append_eq {v w : StyleValue} (hv : v.IsFinite) (hw : w.IsFinite)
    {rest rest' : List Char} (h : v.jsonChars ++ rest = w.jsonChars ++ rest') :
    v.kind = w.kind := by
  obtain ⟨c, cs, heq, hkind, -⟩ := hv.exists_opening
  obtain ⟨c', cs', heq', hkind', -⟩ := hw.exists_opening
  rw [heq, heq'] at h
  rw [← hkind, ← hkind', (List.cons.inj h).1]

theorem stops_of_closes {rest : List Char} (h : Closes rest) : Stops isNumberChar rest := by
  intro c hc
  rcases h c hc with rfl | rfl | rfl <;> decide

/-- A finite value is told by its text. -/
theorem IsFinite.toldBy {v : StyleValue} (h : v.IsFinite) : ToldBy jsonChars IsFinite v := by
  -- a value of another kind begins otherwise, so each case compares values of one kind
  induction h with
  | null =>
    intro w hw rest rest' hrest hrest' heq
    have hkind := kind_eq_of_append_eq .null hw heq
    cases hw with
    | null => exact ⟨rfl, List.append_cancel_left heq⟩
    | _ => exact absurd hkind (by simp [kind])
  | bool b =>
    intro w hw rest rest' hrest hrest' heq
    have hkind := kind_eq_of_append_eq (.bool b) hw heq
    cases hw with
    | bool b' =>
      cases b <;> cases b'
      · exact ⟨rfl, List.append_cancel_left heq⟩
      · exact absurd (List.cons.inj heq).1 (by decide)
      · exact absurd (List.cons.inj heq).1 (by decide)
      · exact ⟨rfl, List.append_cancel_left heq⟩
    | _ => exact absurd hkind (by simp [kind])
  | number hx =>
    intro w hw rest rest' hrest hrest' heq
    have hkind := kind_eq_of_append_eq (.number hx) hw heq
    cases hw with
    | number hy =>
      -- both texts end where the first character comes that is not of a number
      obtain ⟨htext, hend⟩ := (stops_of_closes hrest).append_inj (stops_of_closes hrest')
        (Binary64.json_chars hx).2 (Binary64.json_chars hy).2 heq
      exact ⟨by rw [Binary64.eq_of_json_eq hx hy (String.toList_inj.1 htext)], hend⟩
    | _ => exact absurd hkind (by simp [kind])
  | text s =>
    intro w hw rest rest' hrest hrest' heq
    have hkind := kind_eq_of_append_eq (.text s) hw heq
    cases hw with
    | text s' =>
      obtain ⟨rfl, hend⟩ := eq_of_jsonString_append_eq heq
      exact ⟨rfl, hend⟩
    | _ => exact absurd hkind (by simp [kind])
  | responsive hitems ih =>
    intro w hw rest rest' hrest hrest' heq
    have hkind := kind_eq_of_append_eq (.responsive hitems) hw heq
    cases hw with
    | responsive hitems' =>
      rw [jsonChars_responsive, jsonChars_responsive, List.cons_append, List.cons_append,
        List.append_assoc, List.append_assoc] at heq
      obtain ⟨rfl, hend⟩ := eq_of_elements_eq (.inl rfl)
        (fun w hw => let ⟨c, cs, h, _, hbracket, hbrace⟩ := IsFinite.exists_opening hw
          ⟨c, cs, h, hbracket, hbrace⟩)
        (fun item hitem => ⟨hitems item hitem, ih item hitem⟩) hitems' (List.cons.inj heq).2
      exact ⟨rfl, hend⟩
    | _ => exact absurd hkind (by simp [kind])
  | conditional hbranches ih =>
    intro w hw rest rest' hrest hrest' heq
    have hkind := kind_eq_of_append_eq (.conditional hbranches) hw heq
    cases hw with
    | conditional hbranches' =>
      rw [jsonChars_conditional, jsonChars_conditional, List.cons_append, List.cons_append,
        List.append_assoc, List.append_assoc] at heq
      obtain ⟨rfl, hend⟩ := eq_of_elements_eq (.inr rfl)
        (fun member _ => exists_cons_memberChars jsonChars member)
        (fun branch hbranch => ⟨hbranches branch hbranch, (ih branch hbranch).member⟩) hbranches'
        (List.cons.inj heq).2
      exact ⟨rfl, hend⟩
    | _ => exact absurd hkind (by simp [kind])

end StyleValue

/-- The text of a style map is that of a map by selector with the same entries. -/
theorem StyleMap.toList_json (styles : StyleMap) :
    styles.json.toList = (StyleValue.conditional styles.entries).jsonChars := by
  rw [StyleValue.jsonChars, StyleValue.json]
  rfl

/-- A style map is told by its text. -/
theorem StyleMap.IsFinite.toldBy {styles : StyleMap} (h : styles.IsFinite) :
    ToldBy (fun styles : StyleMap => styles.json.toList) StyleMap.IsFinite styles := by
  intro other hother rest rest' hrest hrest' heq
  simp only [StyleMap.toList_json] at heq
  obtain ⟨hentries, hend⟩ := (StyleValue.IsFinite.conditional h).toldBy _ (.conditional hother)
    rest rest' hrest hrest' heq
  cases styles
  cases other
  cases hentries
  exact ⟨rfl, hend⟩

/-- **Different style maps with finite numbers have different JSON texts.** -/
theorem StyleMap.eq_of_json_eq {styles other : StyleMap} (h : styles.IsFinite)
    (hother : other.IsFinite) (heq : styles.json = other.json) : styles = other :=
  (h.toldBy other hother [] [] closes_nil closes_nil (by simp only [heq])).1

end ResponsiveCss
