import ResponsiveCss.Proofs.Json.Injective
import ResponsiveCss.Renderer

/-!
# Different renderings have different keys

**Main result.** The key of a rendering determines the style map, if its numbers are finite,
and the zones (`Renderer.eq_of_key_eq`). No zones and the one zone of every width have
different keys.
-/

namespace ResponsiveCss

theorem decimalText_injective {n n' : Nat} (h : decimalText n = decimalText n') : n = n' := by
  have hdigits : decimalDigits n = decimalDigits n' := by
    have hlist := congrArg String.toList h
    unfold decimalText at hlist
    rwa [String.toList_ofList, String.toList_ofList] at hlist
  rw [← natOfDigits_decimalDigits n, hdigits, natOfDigits_decimalDigits]

namespace Zone

/-- A bound is written without a comma. -/
theorem ne_comma_of_mem_boundJson (bound : Option UInt32) :
    ∀ c ∈ (boundJson bound).toList, (c != ',') = true := by
  cases bound with
  | none => exact List.all_eq_true.1 (by decide)
  | some n =>
    intro c hc
    unfold boundJson decimalText at hc
    rw [String.toList_ofList] at hc
    have hdigit := isDigit_of_mem_decimalDigits hc
    rw [bne_iff_ne]
    rintro rfl
    cases hdigit

theorem boundJson_ne_null (n : UInt32) : boundJson (some n) ≠ boundJson none := by
  intro h
  have hlist := congrArg String.toList h
  unfold boundJson decimalText at hlist
  rw [String.toList_ofList] at hlist
  have hdigit : Char.isDigit 'n' = true :=
    isDigit_of_mem_decimalDigits (hlist ▸ List.mem_cons_self : 'n' ∈ decimalDigits n.toNat)
  cases hdigit

theorem boundJson_injective {bound bound' : Option UInt32}
    (h : boundJson bound = boundJson bound') : bound = bound' := by
  cases bound with
  | none =>
    cases bound' with
    | none => rfl
    | some n' => exact absurd h.symm (boundJson_ne_null n')
  | some n =>
    cases bound' with
    | none => exact absurd h (boundJson_ne_null n)
    | some n' => rw [UInt32.toNat_inj.1 (decimalText_injective h)]

/-- A bound and what follows it are determined by their text, if a comma follows. -/
theorem eq_of_boundJson_append_eq {bound bound' : Option UInt32} {rest rest' : List Char}
    (h : (boundJson bound).toList ++ ',' :: rest = (boundJson bound').toList ++ ',' :: rest') :
    bound = bound' ∧ rest = rest' := by
  have hstops : ∀ tail : List Char, Stops (· != ',') (',' :: tail) := stops_cons rfl
  obtain ⟨htext, hrest⟩ := (hstops rest).append_inj (hstops rest')
    (ne_comma_of_mem_boundJson bound) (ne_comma_of_mem_boundJson bound') h
  exact ⟨boundJson_injective (String.toList_inj.1 htext), (List.cons.inj hrest).2⟩

/-- The JSON text of a zone, member by member. -/
theorem toList_json (zone : Zone) :
    zone.json.toList = '\x7b' :: ((jsonString "min").toList ++ ':' :: ((boundJson zone.min).toList
      ++ ',' :: ((jsonString "max").toList ++ ':' :: ((boundJson zone.max).toList
      ++ ',' :: ((jsonString "media_query").toList ++ ':' :: ((jsonString zone.mediaQuery).toList
      ++ ['\x7d'])))))) := by
  unfold json
  rw [toList_jsonObject, intercalate_map_cons]
  simp only [memberChars, List.flatMap_cons, List.flatMap_nil, List.append_nil, List.append_assoc,
    List.cons_append]

/-- A zone is told by its text. -/
theorem toldBy (zone : Zone) : ToldBy (fun zone : Zone => zone.json.toList) (fun _ => True) zone := by
  rintro other - rest rest' - - heq
  simp only [toList_json, List.cons_append, List.append_assoc] at heq
  obtain ⟨hmin, heq⟩ := eq_of_boundJson_append_eq
    (List.cons.inj (List.append_cancel_left (List.cons.inj heq).2)).2
  obtain ⟨hmax, heq⟩ := eq_of_boundJson_append_eq
    (List.cons.inj (List.append_cancel_left heq)).2
  obtain ⟨hquery, heq⟩ := eq_of_jsonString_append_eq
    (List.cons.inj (List.append_cancel_left heq)).2
  refine ⟨?_, (List.cons.inj heq).2⟩
  cases zone
  cases other
  cases hmin
  cases hmax
  cases hquery
  rfl

theorem exists_opening (zone : Zone) :
    ∃ c cs, zone.json.toList = c :: cs ∧ c ≠ ']' ∧ c ≠ '\x7d' :=
  ⟨'\x7b', _, toList_json zone, by decide, by decide⟩

end Zone

namespace Renderer

/-- The key of a rendering, member by member. -/
theorem toList_key (styles : StyleMap) (zones : List Zone) :
    (key styles zones).toList = '\x7b' :: ((jsonString "styles").toList
      ++ ':' :: (styles.json.toList ++ ',' :: ((jsonString "responsive").toList
      ++ ':' :: '[' :: ([','].intercalate (zones.map fun zone => zone.json.toList)
      ++ [']', '\x7d'])))) := by
  unfold key
  rw [toList_jsonObject, intercalate_map_cons]
  simp only [memberChars, List.flatMap_cons, List.flatMap_nil, List.append_nil, List.append_assoc,
    List.cons_append, toList_jsonArray, List.map_map]
  rfl

/-- **Different renderings have different keys**: a key determines the styles, if their
numbers are finite, and the zones. -/
theorem eq_of_key_eq {styles styles' : StyleMap} {zones zones' : List Zone}
    (h : styles.IsFinite) (h' : styles'.IsFinite) (heq : key styles zones = key styles' zones') :
    styles = styles' ∧ zones = zones' := by
  have hlist := congrArg String.toList heq
  rw [toList_key, toList_key] at hlist
  obtain ⟨hstyles, hrest⟩ := h.toldBy styles' h' _ _ (closes_cons (.inl rfl) _)
    (closes_cons (.inl rfl) _)
    (List.cons.inj (List.append_cancel_left (List.cons.inj hlist).2)).2
  have hzones := List.append_cancel_left (List.cons.inj hrest).2
  exact ⟨hstyles, (eq_of_elements_eq (.inl rfl) (fun zone _ => zone.exists_opening)
    (fun zone _ => ⟨trivial, zone.toldBy⟩) (fun _ _ => trivial)
    (List.cons.inj (List.cons.inj hzones).2).2).1⟩

end Renderer
end ResponsiveCss
