import ResponsiveCss.Handler.Cached
import ResponsiveCss.Proofs.Json.Injective
import ResponsiveCss.Proofs.Memo.Lookup

/-!
# What is remembered is what would be computed

**Main result.** A handler that remembers what it would answer now goes on to answer as if
it remembered nothing (`CachedHandler.Agrees.compute`).

Every memory only ever holds results that are right for their keys (`Memo.Holds`). Looking
one up, storing a right one, making room and clearing keep it so, whatever the capacity and
the policy are. For the parser the key is the mode and the text, which is all that the
result depends on besides the units; for a handler it is the JSON text of the input, which
determines the input.
-/

namespace ResponsiveCss

open Text

/-! ### Memories -/

namespace Memo

variable {κ α : Type} {P : κ → α → Prop} {m : Memo κ α}

/-- Every entry has the property. -/
def Holds (P : κ → α → Prop) (m : Memo κ α) : Prop := ∀ e ∈ m.entries, P e.1 e.2

theorem holds_create (P : κ → α → Prop) (capacity : Nat) (policy : Eviction) :
    (create capacity policy : Memo κ α).Holds P :=
  fun e he => absurd he (by simp [create])

theorem holds_clear (P : κ → α → Prop) (m : Memo κ α) : m.clear.Holds P :=
  fun e he => absurd he (by simp [clear])

variable [DecidableEq κ]

theorem Holds.of_find? (h : m.Holds P) {key : κ} {value : α} (hfind : m.find? key = some value) :
    P key value :=
  h _ (mem_entries_of_find? hfind)

theorem Holds.cons_others (h : m.Holds P) {key : κ} {value : α} (hvalue : P key value) :
    ∀ e ∈ (key, value) :: m.others key, P e.1 e.2 := by
  intro e he
  rcases List.mem_cons.1 he with rfl | he
  · exact hvalue
  · exact h e (List.mem_filter.1 he).1

theorem Holds.insert (h : m.Holds P) {key : κ} {value : α} (hvalue : P key value) :
    (m.insert key value).Holds P := by
  unfold Memo.insert
  split
  · exact fun e he => h.cons_others hvalue e (List.mem_of_mem_take he)
  · split
    · intro e he
      rw [List.mem_singleton.1 he]
      exact hvalue
    · exact h.cons_others hvalue

theorem Holds.touch (h : m.Holds P) {key : κ} {value : α} (hvalue : P key value) :
    (m.touch key value).Holds P := by
  unfold Memo.touch
  split
  · exact h.cons_others hvalue
  · exact h

/-- What a look-up finds is right, and the store stays right. -/
theorem Holds.get (h : m.Holds P) (key : κ) :
    (∀ value, (m.get key).1 = some value → P key value) ∧ (m.get key).2.Holds P := by
  unfold Memo.get
  split
  · next value hfind =>
    refine ⟨fun found hfound => ?_, h.touch (h.of_find? hfind)⟩
    rw [← Option.some.inj hfound]
    exact h.of_find? hfind
  · exact ⟨fun found hfound => absurd hfound (by simp), h⟩

theorem Holds.getOrCompute (h : m.Holds P) (key : κ) (compute : Unit → α)
    (hcompute : P key (compute ())) :
    P key (m.getOrCompute key compute).1 ∧ (m.getOrCompute key compute).2.Holds P := by
  obtain ⟨hfound, hholds⟩ := h.get key
  unfold Memo.getOrCompute
  split
  · next value memo heq =>
    rw [heq] at hfound hholds
    exact ⟨hfound value rfl, hholds⟩
  · next memo heq =>
    rw [heq] at hholds
    exact ⟨hcompute, hholds.insert hcompute⟩

end Memo

/-! ### The parser -/

namespace StyleParser

/-- The parser has the given units and remembers nothing else than what they give. -/
structure Agrees (units : UnitTable) (p : StyleParser) : Prop where
  units_eq : p.units = units
  memo : p.memo.Holds fun key parsed => parsed = .parse units key.1 key.2

variable {units : UnitTable} {p : StyleParser}

theorem agrees_create (units : UnitTable) (capacity : Nat) (policy : Eviction) :
    (create units capacity policy).Agrees units :=
  ⟨rfl, Memo.holds_create _ _ _⟩

theorem Agrees.clear (h : p.Agrees units) : p.clear.Agrees units :=
  ⟨h.units_eq, Memo.holds_clear _ _⟩

theorem Agrees.register (h : p.Agrees units) (suffix : String) (expansion : Expansion) :
    (p.register suffix expansion).Agrees (units.register suffix expansion) :=
  ⟨by rw [← h.units_eq]; rfl, Memo.holds_clear _ _⟩

theorem Agrees.parse (h : p.Agrees units) (mode : Mode) (raw : String) :
    (p.parse mode raw).1 = .parse units mode raw ∧ (p.parse mode raw).2.Agrees units := by
  obtain ⟨hparsed, hmemo⟩ := h.memo.getOrCompute (mode, raw) (fun _ => .parse p.units mode raw)
    (by rw [h.units_eq])
  exact ⟨hparsed, h.units_eq, hmemo⟩

theorem Agrees.tryParse (h : p.Agrees units) (mode : Mode) (raw : String) :
    (p.tryParse mode raw).1 = ParsedStyle.tryParse units mode raw
      ∧ (p.tryParse mode raw).2.Agrees units := by
  unfold StyleParser.tryParse ParsedStyle.tryParse
  cases ParsedStyle.firstIssue? raw with
  | some issue => exact ⟨rfl, h⟩
  | none =>
    obtain ⟨hparsed, hagrees⟩ := h.parse mode raw
    exact ⟨congrArg Except.ok hparsed, hagrees⟩

theorem Agrees.color? (h : p.Agrees units) (raw : String) :
    (p.color? raw).1 = ParsedColor.ofText? units raw ∧ (p.color? raw).2.Agrees units := by
  unfold StyleParser.color? ParsedColor.ofText?
  simp only
  by_cases hhash : startsWith "#" (trim raw) = true
  · simp only [if_pos hhash]
    exact ⟨trivial, h⟩
  · rw [if_neg hhash, if_neg hhash]
    by_cases hkeyword : isColorKeyword (trim raw) = true
    · simp only [if_pos hkeyword]
      exact ⟨trivial, h⟩
    · rw [if_neg hkeyword, if_neg hkeyword]
      have hparse := h.parse .default (trim raw)
      generalize p.parse .default (trim raw) = result at hparse ⊢
      exact ⟨by rw [hparse.1], hparse.2⟩

theorem Agrees.color (h : p.Agrees units) (raw : String) :
    (p.color raw).1 = (ParsedColor.ofText? units raw).getD .empty
      ∧ (p.color raw).2.Agrees units := by
  have hcolor := h.color? raw
  unfold StyleParser.color
  generalize p.color? raw = result at hcolor ⊢
  exact ⟨by rw [← hcolor.1], hcolor.2⟩

theorem Agrees.readColor (h : p.Agrees units) (raw : String) (ignoreError : Bool) :
    (p.readColor raw ignoreError).1 = .of (ParsedColor.ofText? units raw) ignoreError
      ∧ (p.readColor raw ignoreError).2.Agrees units := by
  have hcolor := h.color? raw
  unfold StyleParser.readColor
  generalize p.color? raw = result at hcolor ⊢
  exact ⟨by rw [← hcolor.1], hcolor.2⟩

end StyleParser

/-- Work that asks a parser that agrees ends as if every answer were computed anew. -/
theorem Consult.run_eq_answer {α : Type} {units : UnitTable} (work : Consult α)
    {p : StyleParser} (h : p.Agrees units) :
    (work.run p).1 = work.answer units ∧ (work.run p).2.Agrees units := by
  induction work generalizing p with
  | done result => exact ⟨rfl, h⟩
  | parse mode raw next ih =>
    have hanswer := h.parse mode raw
    unfold Consult.run Consult.answer
    generalize p.parse mode raw = result at hanswer ⊢
    rw [← hanswer.1]
    exact ih _ hanswer.2
  | tryParse mode raw next ih =>
    have hanswer := h.tryParse mode raw
    unfold Consult.run Consult.answer
    generalize p.tryParse mode raw = result at hanswer ⊢
    rw [← hanswer.1]
    exact ih _ hanswer.2
  | color raw next ih =>
    have hanswer := h.color raw
    unfold Consult.run Consult.answer
    generalize p.color raw = result at hanswer ⊢
    rw [← hanswer.1]
    exact ih _ hanswer.2
  | units next ih =>
    unfold Consult.run Consult.answer
    rw [h.units_eq]
    exact ih _ h

/-! ### Handlers -/

namespace CachedHandler

/-- What the handler remembers for an input is what it makes of it. -/
def Agrees (units : UnitTable) (h : CachedHandler) : Prop :=
  h.memo.Holds fun key output => ∀ styles : StyleMap, styles.IsFinite → styles.json = key →
    (h.handler.respond styles).answer units = .ok output

theorem agrees_create (units : UnitTable) (handler : Handler) (capacity : Nat)
    (policy : Eviction) : (create handler capacity policy).Agrees units :=
  Memo.holds_create _ _ _

theorem agrees_clear (units : UnitTable) (h : CachedHandler) : h.clear.Agrees units :=
  Memo.holds_clear _ _

/-- A handler that agrees answers as if it remembered nothing, and goes on to agree. -/
theorem Agrees.compute {units : UnitTable} {h : CachedHandler} (hagrees : h.Agrees units)
    {parser : StyleParser} (hparser : parser.Agrees units) {styles : StyleMap}
    (hfinite : styles.IsFinite) :
    (h.compute parser styles).1 = (h.handler.respond styles).answer units
      ∧ (h.compute parser styles).2.1.handler = h.handler
      ∧ (h.compute parser styles).2.1.Agrees units
      ∧ (h.compute parser styles).2.2.Agrees units := by
  obtain ⟨hfound, hmemo⟩ := Memo.Holds.get hagrees styles.json
  obtain ⟨hrun, hafter⟩ := (h.handler.respond styles).run_eq_answer hparser
  unfold CachedHandler.compute
  split
  · next output memo heq =>
    rw [heq] at hfound hmemo
    exact ⟨(hfound output rfl styles hfinite rfl).symm, rfl, hmemo, hparser⟩
  · next memo heq =>
    rw [heq] at hmemo
    split
    · next output after hresult =>
      rw [hresult] at hrun hafter
      refine ⟨hrun, rfl, Memo.Holds.insert hmemo ?_, hafter⟩
      -- an input with the same JSON text is the input that has just been answered
      intro other hother hjson
      rw [StyleMap.eq_of_json_eq hother hfinite hjson, ← hrun]
    · next failure after hresult =>
      rw [hresult] at hrun hafter
      exact ⟨hrun, rfl, hmemo, hafter⟩

end CachedHandler
end ResponsiveCss
