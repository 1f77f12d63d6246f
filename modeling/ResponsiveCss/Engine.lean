import ResponsiveCss.Config
import ResponsiveCss.Renderer

/-!
# The style engine

An `Engine` holds everything that is needed to parse style values and to render
style maps, with all memories. A registered handler changes what style maps mean
and a registered unit changes what values mean as well, so each of them empties
the memories that it makes stale.
-/

namespace ResponsiveCss

/-- A style engine. -/
structure Engine where
  parser : StyleParser
  registry : Registry
  renderer : Renderer
  breakpoints : List UInt32
  zones : List Zone

/-- Counts about the memories of an engine. -/
structure EngineStats where
  tokens : MemoStats
  handlers : MemoStats
  renders : MemoStats
  deriving DecidableEq, Repr

namespace Engine

/-- The units of the theme, those of a configuration, and some more, later ones taking
the place of earlier ones. -/
def unitsOf (config : Config) (units : List (String × Expansion)) : UnitTable :=
  (UnitTable.standard.registerAll (config.units.entries.map fun e => (e.1, .template e.2))).registerAll
    units

/-- An engine with further units and with handlers. -/
def build (config : Config) (units : List (String × Expansion)) (handlers : List Handler) :
    Engine :=
  let points := config.descendingBreakpoints
  { parser := .create (unitsOf config units) config.cache.tokens config.cache.eviction
    registry := handlers.foldl .register (.create config.cache.handlers config.cache.eviction)
    renderer := .create config.cache.renders config.cache.eviction
    breakpoints := points
    zones := Zone.ofPoints points }

/-- The counts about all memories. -/
def stats (e : Engine) : EngineStats :=
  ⟨e.parser.memo.stats, e.registry.stats, e.renderer.memo.stats⟩

/-- Parses a style value, repairing what is wrong with it. -/
def parse (e : Engine) (mode : Mode) (raw : String) : ParsedStyle × Engine :=
  let (parsed, parser) := e.parser.parse mode raw
  (parsed, { e with parser := parser })

/-- Parses a style value, refusing one that needs a repair. -/
def tryParse (e : Engine) (mode : Mode) (raw : String) : Except Failure ParsedStyle × Engine :=
  match e.parser.tryParse mode raw with
  | (.ok parsed, parser) => (.ok parsed, { e with parser := parser })
  | (.error issue, parser) => (.error (.parse issue (Text.trim raw)), { e with parser := parser })

/-- Finds the colour in a text and warns if there is none. -/
def readColor (e : Engine) (raw : String) (ignoreError : Bool) : ColorReading × Engine :=
  let (reading, parser) := e.parser.readColor raw ignoreError
  (reading, { e with parser := parser })

/-- Renders a style map for some zones. -/
def renderFor (e : Engine) (zones : List Zone) (styles : StyleMap) :
    Except Failure String × Engine :=
  let (result, renderer, workshop) := e.renderer.render ⟨e.registry, e.parser⟩ styles zones
  (result, { e with parser := workshop.parser, registry := workshop.registry, renderer := renderer })

/-- Renders a style map for the zones of the engine. -/
def render (e : Engine) (styles : StyleMap) : Except Failure String × Engine :=
  e.renderFor e.zones styles

/-- Sets the expansion of a unit and empties all memories. -/
def registerUnit (e : Engine) (suffix : String) (expansion : Expansion) : Engine :=
  { e with
    parser := e.parser.register suffix expansion
    registry := e.registry.clear
    renderer := e.renderer.clear }

/-- Registers a handler and forgets rendered texts. -/
def registerHandler (e : Engine) (handler : Handler) : Engine :=
  { e with registry := e.registry.register handler, renderer := e.renderer.clear }

/-- Empties all memories. -/
def clear (e : Engine) : Engine :=
  { e with parser := e.parser.clear, registry := e.registry.clear, renderer := e.renderer.clear }

end Engine
end ResponsiveCss
