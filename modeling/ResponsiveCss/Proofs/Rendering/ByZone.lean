import ResponsiveCss.Proofs.Rendering.Generic
import ResponsiveCss.Proofs.Session.Rendering

/-!
# Rendering zone by zone

**Main result.** Without registered handlers, what a map with lists renders to means in each
zone what the map means in which every list gives way to its entry for the zone
(`Basis.exists_splitsByZone`): the CSS for every width followed by the body of the zone is the
CSS of that map, save that the styles that have lists come after the others. What is written for
a body is its block (`Zone.Block`).

Both renderings are put together style by style, and a style contributes the same CSS to both.
That holds of rendering from scratch. A renderer that remembers takes one number that is not
finite for another, also where both stand in one list (`Basis.not_splitsByZone_boundlessWidths`).
-/

namespace ResponsiveCss

open List

namespace StyleMap

/-- No list has a list as an item. -/
def IsShallow (styles : StyleMap) : Prop :=
  ∀ style items, (style, .responsive items) ∈ styles.entries →
    ∀ item ∈ items, item.isResponsive = false

/-- The styles where every list gives way to its entry for a zone. Where that is nothing, the
style goes. -/
def atZone (styles : StyleMap) (index : Nat) : StyleMap :=
  styles.filterMap fun _ value => value.atZone index

/-- Whether a style has a list. -/
def hasList (styles : StyleMap) (style : String) : Bool :=
  (styles.get? style).any (·.isResponsive)

variable {styles : StyleMap}

theorem hasList_of_mem {e : String × StyleValue} (he : e ∈ styles.entries) :
    styles.hasList e.1 = e.2.isResponsive := by
  rw [hasList, OrderedMap.get?_of_mem he, Option.any_some]

/-- A value for a zone is the value of the style or an item of its list. -/
theorem mem_atZone {index : Nat} {e : String × StyleValue}
    (he : e ∈ (styles.atZone index).entries) :
    (e ∈ styles.entries ∧ e.2.isResponsive = false)
      ∨ ∃ items, (e.1, .responsive items) ∈ styles.entries ∧ e.2 ∈ items := by
  obtain ⟨⟨style, value⟩, hmem, hvalue⟩ := List.mem_filterMap.1 he
  obtain ⟨current, hcurrent, rfl⟩ := Option.map_eq_some_iff.1 hvalue
  cases value with
  | responsive items =>
    simp only [StyleValue.atZone] at hcurrent
    split at hcurrent
    next => cases hcurrent
    next hsome =>
      obtain rfl := Option.some.inj hcurrent
      exact .inr ⟨items, hmem, StyleValue.entryAt_mem hsome⟩
  | null | bool | number | text | conditional =>
    obtain rfl := Option.some.inj hcurrent
    exact .inl ⟨hmem, rfl⟩

theorem IsShallow.atZone (h : styles.IsShallow) (index : Nat) :
    ∀ e ∈ (styles.atZone index).entries, e.2.isResponsive = false := by
  intro e he
  rcases mem_atZone he with ⟨-, hvalue⟩ | ⟨items, hmem, hitem⟩
  · exact hvalue
  · exact h e.1 items hmem e.2 hitem

theorem IsFinite.atZone (h : styles.IsFinite) (index : Nat) : (styles.atZone index).IsFinite := by
  intro e he
  rcases mem_atZone he with ⟨hmem, -⟩ | ⟨items, hmem, hitem⟩
  · exact h e hmem
  · cases h _ hmem with
    | responsive hitems => exact hitems e.2 hitem

theorem IsFinite.single {e : String × StyleValue} (h : e.2.IsFinite) :
    StyleMap.IsFinite (.single e.1 e.2) := by
  intro other hother
  rw [List.mem_singleton.1 hother]
  exact h

theorem entries_atZone (styles : StyleMap) (index : Nat) :
    (styles.atZone index).entries
      = styles.entries.filterMap fun e => (e.2.atZone index).map (e.1, ·) :=
  rfl

/-- The CSS of the styles without lists is that for every width. -/
theorem joinCss_atZone_flat (units : UnitTable) (styles : StyleMap) (index : Nat) :
    joinCss (genericCss units) ((styles.atZone index).entries.filter fun e => !styles.hasList e.1)
      = joinCss (flatCss units) styles.entries := by
  rw [entries_atZone, List.filter_filterMap, joinCss_filterMap]
  refine joinCss_congr fun e he => ?_
  rw [flatCss, ← hasList_of_mem he]
  cases hlist : styles.hasList e.1 with
  | true => cases e.2.atZone index <;> simp [Option.filter, hlist]
  | false =>
    have hvalue : e.2.atZone index = some e.2 := by
      rw [hasList_of_mem he] at hlist
      exact StyleValue.atZone_of_not_isResponsive hlist index
    simp [Option.filter, hvalue, hlist]

/-- The CSS of the entries of lists is that for the zone. -/
theorem joinCss_atZone_body (units : UnitTable) (styles : StyleMap) (index : Nat) :
    joinCss (genericCss units) ((styles.atZone index).entries.filter fun e => styles.hasList e.1)
      = joinCss (zoneCss units index) styles.entries := by
  rw [entries_atZone, List.filter_filterMap, joinCss_filterMap]
  refine joinCss_congr fun e he => ?_
  rw [zoneCss, ← hasList_of_mem he, genericCss?]
  cases hlist : styles.hasList e.1 with
  | true => cases e.2.atZone index <;> simp [Option.filter, hlist]
  | false => cases e.2.atZone index <;> simp [Option.filter, hlist]

end StyleMap

namespace Zone

/-- The text that is written for the body of a zone. -/
inductive Block (zone : Zone) : String → String → Prop where
  /-- Nothing is written for an empty body. -/
  | empty : Block zone "" ""
  /-- The body of a zone of every width is written by itself. -/
  | bare {body : String} (hbody : body ≠ "") (hquery : zone.mediaQuery = "") :
      Block zone body body
  /-- Any other body is written inside of the media query of its zone. -/
  | media {body : String} (hbody : body ≠ "") (hquery : zone.mediaQuery ≠ "") :
      Block zone body ("@media " ++ zone.mediaQuery ++ " \x7b\n" ++ body ++ "\x7d\n")

/-- The blocks of some zones with their bodies, one behind the other. -/
inductive Blocks : List Zone → List String → String → Prop where
  | nil : Blocks [] [] ""
  | cons {zone : Zone} {zones : List Zone} {body block rest : String} {bodies : List String}
      (hblock : zone.Block body block) (hrest : Blocks zones bodies rest) :
      Blocks (zone :: zones) (body :: bodies) (block ++ rest)

theorem block_zoneBlock (zone : Zone) (body : String) :
    zone.Block body (Sheet.zoneBlock zone body) := by
  unfold Sheet.zoneBlock
  split
  next hbody =>
    rw [hbody]
    exact .empty
  next hbody =>
    split
    next hquery => exact .bare hbody (of_decide_eq_true hquery)
    next hquery => exact .media hbody fun hempty => hquery (decide_eq_true hempty)

theorem Block.eq_zoneBlock {zone : Zone} {body block : String} (h : zone.Block body block) :
    block = Sheet.zoneBlock zone body := by
  cases h with
  | empty => rfl
  | bare hbody hquery =>
    have hunbounded : zone.isUnbounded = true := decide_eq_true hquery
    rw [Sheet.zoneBlock, if_neg hbody, if_pos hunbounded]
  | media hbody hquery =>
    have hbounded : ¬ zone.isUnbounded = true := fun h => hquery (of_decide_eq_true h)
    rw [Sheet.zoneBlock, if_neg hbody, if_neg hbounded]

theorem blocks_zipWith {zones : List Zone} {bodies : List String}
    (hlength : bodies.length = zones.length) :
    Blocks zones bodies (String.join (List.zipWith Sheet.zoneBlock zones bodies)) := by
  induction zones generalizing bodies with
  | nil =>
    obtain rfl := List.length_eq_zero_iff.1 hlength
    exact .nil
  | cons zone zones ih =>
    cases bodies with
    | nil => cases hlength
    | cons body bodies =>
      rw [List.zipWith_cons_cons, String.join_cons]
      exact .cons (block_zoneBlock zone body) (ih (Nat.succ.inj hlength))

theorem Blocks.eq_join {zones : List Zone} {bodies : List String} {text : String}
    (h : Blocks zones bodies text) :
    text = String.join (List.zipWith Sheet.zoneBlock zones bodies) := by
  induction h with
  | nil => rfl
  | cons hblock _ ih => rw [List.zipWith_cons_cons, String.join_cons, ← hblock.eq_zoneBlock, ← ih]

end Zone

/-- What `render` makes of a style map for some zones means in each zone what it makes of the
map's values there. `css` is the CSS of each entry by itself. -/
structure SplitsByZone (render : StyleMap → List Zone → Except Failure String)
    (styles : StyleMap) (zones : List Zone) (css : String × StyleValue → String)
    (placed : Placed) : Prop where
  length : placed.bodies.length = zones.length
  whole : ∃ blocks, Zone.Blocks zones placed.bodies blocks ∧
    render styles zones = .ok (preamble ++ placed.flat ++ blocks)
  alone : ∀ index < zones.length, ∀ e ∈ (styles.atZone index).entries,
    render (.single e.1 e.2) [] = .ok (preamble ++ css e)
  inZone : ∀ index < zones.length,
    render (styles.atZone index) [] = .ok (preamble ++ joinCss css (styles.atZone index).entries)
  flat : ∀ index < zones.length, placed.flat
    = joinCss css ((styles.atZone index).entries.filter fun e => !styles.hasList e.1)
  body : ∀ index < zones.length, placed.bodies[index]?
    = some (joinCss css ((styles.atZone index).entries.filter fun e => styles.hasList e.1))

variable {render other : StyleMap → List Zone → Except Failure String} {styles : StyleMap}

/-- Whether rendering splits by zone depends on what finite maps render to alone, if the map is
finite. -/
theorem SplitsByZone.of_forall_eq {zones : List Zone} {css : String × StyleValue → String}
    {placed : Placed} (h : SplitsByZone render styles zones css placed) (hfinite : styles.IsFinite)
    (hrender : ∀ map : StyleMap, map.IsFinite → ∀ zones, other map zones = render map zones) :
    SplitsByZone other styles zones css placed where
  length := h.length
  whole :=
    h.whole.imp fun _ hwhole => ⟨hwhole.1, (hrender styles hfinite zones).trans hwhole.2⟩
  alone index hindex e he :=
    (hrender _ (.single (hfinite.atZone index e he)) []).trans (h.alone index hindex e he)
  inZone index hindex := (hrender _ (hfinite.atZone index) []).trans (h.inZone index hindex)
  flat := h.flat
  body := h.body

/-- If all styles of a zone are from lists, its body is what the map of the zone renders to. -/
theorem SplitsByZone.body_eq {zones : List Zone} {css : String × StyleValue → String}
    {placed : Placed} (h : SplitsByZone render styles zones css placed) {index : Nat}
    (hindex : index < zones.length)
    (hlists : ∀ e ∈ (styles.atZone index).entries, styles.hasList e.1 = true) {text : String}
    (htext : render (styles.atZone index) [] = .ok (preamble ++ text)) :
    placed.bodies[index]? = some text := by
  have hrender := h.inZone index hindex
  rw [htext, Except.ok.injEq, String.append_right_inj] at hrender
  rw [h.body index hindex, List.filter_eq_self.2 hlists, hrender]

namespace Basis

theorem length_genericPlaced (b : Basis) (styles : StyleMap) (zones : Nat) :
    (b.genericPlaced styles zones).bodies.length = zones := by
  rw [genericPlaced, List.length_map, List.length_range]

/-- Without registered handlers, rendering from scratch splits by zone. -/
theorem splitsByZone {b : Basis} (hnone : b.handlers = []) (hshallow : styles.IsShallow)
    {zones : List Zone} (hzones : zones ≠ []) :
    SplitsByZone b.render styles zones (genericCss b.units)
      (b.genericPlaced styles zones.length) where
  length := length_genericPlaced b styles zones.length
  whole := ⟨_, Zone.blocks_zipWith (length_genericPlaced b styles zones.length),
    render_generic hnone styles hzones⟩
  alone index _ e he := by
    have hflat : ∀ e' ∈ (OrderedMap.single e.1 e.2).entries, e'.2.isResponsive = false := by
      intro e' he'
      rw [List.mem_singleton.1 he']
      exact hshallow.atZone index e he
    rw [render_generic_flat hnone hflat]
    exact congrArg (fun css => Except.ok (preamble ++ css)) (join_singleton _)
  inZone index _ := render_generic_flat hnone (hshallow.atZone index)
  flat index _ := (StyleMap.joinCss_atZone_flat b.units styles index).symm
  body index hindex := by
    rw [genericPlaced, List.getElem?_map, List.getElem?_range hindex, Option.map_some,
      StyleMap.joinCss_atZone_body]

/-- **Without registered handlers, a rendering means in each zone what the map means there.**
Rendering from scratch does so for all values. A renderer that remembers does so for finite
ones: JSON has one text for all numbers that are not, so memories cannot tell them apart. -/
theorem exists_splitsByZone {b : Basis} (hnone : b.handlers = []) (hshallow : styles.IsShallow)
    {zones : List Zone} (hzones : zones ≠ []) :
    ∃ css placed, SplitsByZone b.render styles zones css placed
      ∧ ∀ (r : Renderer) (w : Workshop), r.Agrees b → w.Agrees b → styles.IsFinite →
        SplitsByZone (fun map zones => (r.render w map zones).1) styles zones css placed := by
  have hsplits := splitsByZone hnone hshallow hzones
  refine ⟨_, _, hsplits, fun r w hr hw hfinite => hsplits.of_forall_eq hfinite ?_⟩
  exact fun map hmap zones => (hr.render hw hmap zones).1

/-- Renders with the standard units, no registered handlers and nothing remembered. -/
def renderAnew (styles : StyleMap) (zones : List Zone) : Except Failure String :=
  ((Renderer.create 1 .clearAll).render ⟨.create 1 .clearAll, .create .standard 1 .clearAll⟩
    styles zones).1

/-- A padding for each of three zones, the second one like the first, and a fill. -/
def paddedStyles : StyleMap :=
  .ofList [("padding", .responsive [.text "8x", .null, .text "4x"]), ("fill", .text "red")]

/-- The blocks of three zones, and the last zone by itself. -/
theorem exists_splitsByZone_paddedStyles :
    (∃ css placed, SplitsByZone renderAnew paddedStyles (Zone.ofPoints [980, 500]) css placed) ∧
      renderAnew paddedStyles (Zone.ofPoints [980, 500])
        = .ok ("outline: none;\nfill: red;\n"
          ++ "@media (min-width: 980px) \x7b\npadding: calc(8 * var(--gap));\n\x7d\n"
          ++ "@media (min-width: 500px) and (max-width: 979px) \x7b\n"
          ++ "padding: calc(8 * var(--gap));\n\x7d\n"
          ++ "@media (max-width: 499px) \x7b\npadding: calc(4 * var(--gap));\n\x7d\n") ∧
      renderAnew (paddedStyles.atZone 2) []
        = .ok "outline: none;\npadding: calc(4 * var(--gap));\nfill: red;\n" := by
  have hentries : paddedStyles.entries
      = [("padding", .responsive [.text "8x", .null, .text "4x"]), ("fill", .text "red")] := rfl
  have hshallow : paddedStyles.IsShallow := by
    intro style items hmem
    rw [hentries] at hmem
    simp only [List.mem_cons, Prod.mk.injEq, StyleValue.responsive.injEq, reduceCtorEq, and_false,
      List.not_mem_nil, or_false] at hmem
    rw [hmem.2]
    simp [StyleValue.isResponsive]
  have hfinite : paddedStyles.IsFinite := by
    intro e he
    rw [hentries] at he
    rcases List.mem_cons.1 he with rfl | he
    · refine .responsive fun item hitem => ?_
      rcases List.mem_cons.1 hitem with rfl | hitem
      · exact .text "8x"
      · rcases List.mem_cons.1 hitem with rfl | hitem
        · exact .null
        · rw [List.mem_singleton.1 hitem]
          exact .text "4x"
    · rw [List.mem_singleton.1 he]
      exact .text "red"
  obtain ⟨css, placed, -, hrunning⟩ := exists_splitsByZone (b := ⟨.standard, [], []⟩) rfl hshallow
    (List.cons_ne_nil _ _ : Zone.ofPoints [980, 500] ≠ [])
  have hsplits := hrunning (.create 1 .clearAll)
    ⟨.create 1 .clearAll, .create .standard 1 .clearAll⟩ (Renderer.agrees_create _ _ _)
    ⟨Registry.agrees_create _ _ _, StyleParser.agrees_create _ _ _⟩ hfinite
  exact ⟨⟨css, placed, hsplits⟩, by decide +kernel, by decide +kernel⟩

/-- A width for each of two zones, and none of them a finite number. -/
def boundlessWidths : StyleMap :=
  .ofList [("width", .responsive [.number .nan, .number (.infinite false)])]

/-- To JSON the two widths are the same. So the handler remembers the first one when it is asked
for the second, which it would have written as `inf`, and both zones have the first. -/
theorem not_splitsByZone_boundlessWidths :
    boundlessWidths.IsShallow ∧
      renderAnew boundlessWidths (Zone.ofPoints [980])
        = .ok ("outline: none;\n@media (min-width: 980px) \x7b\nwidth: NaN;\n\x7d\n"
          ++ "@media (max-width: 979px) \x7b\nwidth: NaN;\n\x7d\n") ∧
      renderAnew (boundlessWidths.atZone 1) [] = .ok "outline: none;\nwidth: inf;\n" ∧
      ¬ ∃ css placed,
        SplitsByZone renderAnew boundlessWidths (Zone.ofPoints [980]) css placed := by
  have hentries : boundlessWidths.entries
      = [("width", .responsive [.number .nan, .number (.infinite false)])] := rfl
  have hshallow : boundlessWidths.IsShallow := by
    intro style items hmem
    rw [hentries, List.mem_singleton, Prod.mk.injEq, StyleValue.responsive.injEq] at hmem
    rw [hmem.2]
    simp [StyleValue.isResponsive]
  have hwhole : renderAnew boundlessWidths (Zone.ofPoints [980])
      = .ok ("outline: none;\n@media (min-width: 980px) \x7b\nwidth: NaN;\n\x7d\n"
        ++ "@media (max-width: 979px) \x7b\nwidth: NaN;\n\x7d\n") := by
    decide +kernel
  have hfirst : renderAnew (boundlessWidths.atZone 0) [] = .ok (preamble ++ "width: NaN;\n") := by
    decide +kernel
  have hsecond : renderAnew (boundlessWidths.atZone 1) []
      = .ok (preamble ++ "width: inf;\n") := by
    decide +kernel
  refine ⟨hshallow, hwhole, hsecond, ?_⟩
  rintro ⟨css, placed, h⟩
  have hlists (index : Nat) : ∀ e ∈ (boundlessWidths.atZone index).entries,
      boundlessWidths.hasList e.1 = true := by
    intro e he
    rcases StyleMap.mem_atZone he with ⟨hmem, hvalue⟩ | ⟨items, hmem, -⟩
    · rw [hentries, List.mem_singleton] at hmem
      rw [hmem] at hvalue
      exact Bool.noConfusion hvalue
    · exact StyleMap.hasList_of_mem hmem
  have hflat : placed.flat = "" := h.flat 0 (by decide)
  have hbodies : placed.bodies = ["width: NaN;\n", "width: inf;\n"] := by
    have hlength : placed.bodies.length = 2 := h.length
    have hnan := h.body_eq (by decide) (hlists 0) hfirst
    have hinf := h.body_eq (by decide) (hlists 1) hsecond
    obtain ⟨first, second, hpair⟩ := List.length_eq_two.1 hlength
    rw [hpair] at hnan hinf ⊢
    rw [Option.some.inj hnan, Option.some.inj hinf]
  obtain ⟨blocks, hblocks, htext⟩ := h.whole
  rw [hwhole, hblocks.eq_join, hflat, hbodies] at htext
  exact absurd htext (by decide +kernel)

end Basis
end ResponsiveCss
