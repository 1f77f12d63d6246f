import ResponsiveCss.Proofs.Session.Rendering

/-!
# Memories are invisible

**Main result.** An engine answers every session as a reference does that remembers nothing
and knows only what has been registered, whatever the sizes of its memories and its policy
are (`Engine.answers_build_eq`). So two engines that differ in these alone answer every
session alike.

The invariant is that each of the three memories holds only what would be computed now
(`Engine.Agrees`). A request for an answer computes it or finds it, and what it stores is
right. A unit changes what values mean, so registering one empties all memories. A handler
changes what renderings mean and nothing else: handlers remember what they themselves make of
an input, so it is enough to forget the renderings.
-/

namespace ResponsiveCss
namespace Engine

/-- The engine has what the basis has, and its memories hold what the basis gives. -/
structure Agrees (b : Basis) (e : Engine) : Prop where
  parser : e.parser.Agrees b.units
  registry : e.registry.Agrees b.units b.handlers
  renderer : e.renderer.Agrees b
  zones : e.zones = b.zones

variable {b : Basis} {e : Engine}

/-- A new engine agrees with what it is built from. -/
theorem agrees_build (config : Config) (units : List (String × Expansion))
    (handlers : List Handler) :
    (build config units handlers).Agrees (.of config units handlers) where
  parser := StyleParser.agrees_create _ _ _
  registry := (Registry.agrees_create _ _ _).foldl_register handlers
  renderer := Renderer.agrees_create _ _ _
  zones := rfl

theorem Agrees.tryParse (h : e.Agrees b) (mode : Mode) (raw : String) :
    (e.tryParse mode raw).1 = b.tryParse mode raw ∧ (e.tryParse mode raw).2.Agrees b := by
  obtain ⟨hresult, hparser⟩ := h.parser.tryParse mode raw
  unfold Engine.tryParse Basis.tryParse
  rw [← hresult]
  generalize e.parser.tryParse mode raw = result at hparser ⊢
  obtain ⟨result, parser⟩ := result
  cases result with
  | error issue => exact ⟨rfl, hparser, h.registry, h.renderer, h.zones⟩
  | ok parsed => exact ⟨rfl, hparser, h.registry, h.renderer, h.zones⟩

theorem Agrees.readColor (h : e.Agrees b) (raw : String) (ignoreError : Bool) :
    (e.readColor raw ignoreError).1 = .of (ParsedColor.ofText? b.units raw) ignoreError
      ∧ (e.readColor raw ignoreError).2.Agrees b := by
  obtain ⟨hreading, hparser⟩ := h.parser.readColor raw ignoreError
  unfold Engine.readColor
  rw [← hreading]
  generalize e.parser.readColor raw ignoreError = result at hparser ⊢
  exact ⟨rfl, hparser, h.registry, h.renderer, h.zones⟩

theorem Agrees.renderFor (h : e.Agrees b) {styles : StyleMap} (hfinite : styles.IsFinite)
    (zones : List Zone) :
    (e.renderFor zones styles).1 = b.render styles zones
      ∧ (e.renderFor zones styles).2.Agrees b := by
  obtain ⟨hresult, hrenderer, hworkshop⟩ :=
    h.renderer.render (w := ⟨e.registry, e.parser⟩) ⟨h.registry, h.parser⟩ hfinite zones
  exact ⟨hresult, hworkshop.parser, hworkshop.registry, hrenderer, h.zones⟩

/-- **One request**: the answer is that of the reference, and the engine goes on to agree with
what the basis has become. -/
theorem Agrees.answer (h : e.Agrees b) {request : Request} (hfinite : request.IsFinite) :
    (e.answer request).1 = b.answer request ∧ (e.answer request).2.Agrees (b.after request) := by
  cases request with
  | parse mode raw =>
    obtain ⟨hparsed, hparser⟩ := h.parser.parse mode raw
    exact ⟨congrArg Answer.style hparsed, hparser, h.registry, h.renderer, h.zones⟩
  | tryParse mode raw =>
    obtain ⟨hresult, hagrees⟩ := h.tryParse mode raw
    simp only [Engine.answer, Basis.answer, Basis.after]
    rw [← hresult]
    exact ⟨rfl, hagrees⟩
  | color raw ignoreError =>
    obtain ⟨hreading, hagrees⟩ := h.readColor raw ignoreError
    simp only [Engine.answer, Basis.answer, Basis.after]
    rw [← hreading]
    exact ⟨rfl, hagrees⟩
  | render zones styles =>
    obtain ⟨hresult, hagrees⟩ := h.renderFor hfinite (zones.getD e.zones)
    simp only [Engine.answer, Basis.answer, Basis.after]
    rw [← h.zones, ← hresult]
    exact ⟨rfl, hagrees⟩
  | unit suffix expansion =>
    -- whatever was remembered may be wrong with the new unit, and all of it goes
    have hparser := h.parser.register suffix expansion
    refine ⟨?_, hparser, h.registry.serves.agrees_clear _, Renderer.agrees_clear _ _, h.zones⟩
    show Answer.units (e.parser.register suffix expansion).units.size = _
    rw [hparser.units_eq]
    rfl
  | handler handler =>
    -- a handler remembers what it makes of an input itself, which others do not change
    exact ⟨rfl, h.parser, h.registry.register handler, Renderer.agrees_clear _ _, h.zones⟩
  | clear =>
    exact ⟨rfl, h.parser.clear, h.registry.serves.agrees_clear _, Renderer.agrees_clear _ _,
      h.zones⟩

/-- **Some requests**: the answers are those of the reference. -/
theorem Agrees.answers (h : e.Agrees b) {requests : List Request}
    (hfinite : ∀ request ∈ requests, request.IsFinite) :
    (e.answers requests).1 = b.answers requests := by
  induction requests generalizing e b with
  | nil => rfl
  | cons request rest ih =>
    obtain ⟨hanswer, hagrees⟩ := h.answer (hfinite request List.mem_cons_self)
    have hrest := ih hagrees fun other hother => hfinite other (List.mem_cons_of_mem _ hother)
    unfold Engine.answers Basis.answers
    rw [← hanswer, ← hrest]

/-- **Memories are invisible.** Whatever its memories are, an engine answers a session as the
reference does that is made from the same units, handlers and breakpoints and remembers
nothing. In particular it answers as an engine does with any other memories. -/
theorem answers_build_eq (config : Config) (cache : CacheConfig)
    (units : List (String × Expansion)) (handlers : List Handler) (requests : List Request)
    (hfinite : ∀ request ∈ requests, request.IsFinite) :
    ((build { config with cache := cache } units handlers).answers requests).1
        = (Basis.of config units handlers).answers requests
      ∧ ∀ other : CacheConfig,
        ((build { config with cache := cache } units handlers).answers requests).1
          = ((build { config with cache := other } units handlers).answers requests).1 := by
  have hanswers : ∀ any : CacheConfig,
      ((build { config with cache := any } units handlers).answers requests).1
        = (Basis.of config units handlers).answers requests :=
    fun any => (agrees_build { config with cache := any } units handlers).answers hfinite
  exact ⟨hanswers cache, fun other => (hanswers cache).trans (hanswers other).symm⟩

/-- A style map with a number. -/
def zeroOpacity : StyleMap := OrderedMap.empty.insert "opacity" (.number (.finite false .zero))

/-- A session in which a handler takes the place of a generic one between two renderings of
the same styles. -/
def replacingSession : List Request :=
  [.render (some []) zeroOpacity,
    .handler ⟨"opacity", ["opacity"], fun _ => .done (.ok (some (.css "filter: none;")))⟩,
    .render (some []) zeroOpacity]

/-- The second rendering is by the new handler, though the first one was remembered. -/
theorem answers_replacingSession :
    (∀ request ∈ replacingSession, request.IsFinite)
      ∧ ((build { Config.standard with cache := ⟨1, 1, 1, .clearAll⟩ } [] []).answers
          replacingSession).1
        = [.css "outline: none;\nopacity: 0;\n", .done, .css "outline: none;\nfilter: none;\n"] := by
  have hstyles : zeroOpacity.IsFinite := by
    intro e he
    rw [List.mem_singleton.1 (he : e ∈ [("opacity", StyleValue.number (.finite false .zero))])]
    exact .number rfl
  have hfinite : ∀ request ∈ replacingSession, request.IsFinite := by
    intro request hrequest
    rcases List.mem_cons.1 hrequest with rfl | hrequest
    · exact hstyles
    · rcases List.mem_cons.1 hrequest with rfl | hrequest
      · trivial
      · rw [List.mem_singleton.1 hrequest]
        exact hstyles
  refine ⟨hfinite, ?_⟩
  rw [(answers_build_eq Config.standard ⟨1, 1, 1, .clearAll⟩ [] [] replacingSession hfinite).1]
  decide +kernel

end Engine
end ResponsiveCss
