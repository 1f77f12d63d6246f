import ResponsiveCss.Workshop

/-!
# Rendering with a memory

A `Renderer` remembers rendered texts by the JSON text of the styles and the
zones. A failure ends the rendering and is not remembered.
-/

namespace ResponsiveCss

/-- How many results a renderer remembers unless said otherwise. -/
def defaultRenderCapacity : Nat := 1000

/-- A memory of rendered texts. -/
structure Renderer where
  /-- Rendered texts by the JSON text of what was rendered. -/
  memo : Memo String String

namespace Renderer

/-- A renderer that has rendered nothing yet. -/
def create (capacity : Nat) (policy : Eviction) : Renderer := ⟨.create capacity policy⟩

/-- The text by which a rendering is remembered. -/
def key (styles : StyleMap) (zones : List Zone) : String :=
  jsonObject [("styles", styles.json), ("responsive", jsonArray (zones.map (·.json)))]

/-- Renders a style map, from memory if possible. No zones count as one that is
every width. -/
def render (r : Renderer) (w : Workshop) (styles : StyleMap) (zones : List Zone) :
    Except Failure String × Renderer × Workshop :=
  match r.memo.get (key styles zones) with
  | (some css, memo) => (.ok css, ⟨memo⟩, w)
  | (none, memo) =>
    -- no zones and one zone of every width have different keys, but render alike
    match w.render styles (if zones.isEmpty then [.unbounded] else zones) with
    | (.error failure, w) => (.error failure, ⟨memo⟩, w)
    | (.ok css, w) => (.ok css, ⟨memo.insert (key styles zones) css⟩, w)

/-- Forgets everything. -/
def clear (r : Renderer) : Renderer := ⟨r.memo.clear⟩

end Renderer
end ResponsiveCss
