import ResponsiveCss.Handler
import ResponsiveCss.Value.Json

/-!
# Handlers that remember

A `CachedHandler` answers an input that it has seen before from memory. Inputs
are told apart by their JSON text. A failure is not remembered.
-/

namespace ResponsiveCss

/-- How many results a handler remembers unless said otherwise. -/
def defaultHandlerCapacity : Nat := 1000

/-- A handler and the output that it remembers, by the JSON text of the input. -/
structure CachedHandler where
  /-- The handler. -/
  handler : Handler
  /-- Output by the JSON text of the input. -/
  memo : Memo String (Option Output)

namespace CachedHandler

/-- The handler with nothing in its memory. -/
def create (handler : Handler) (capacity : Nat) (policy : Eviction) : CachedHandler :=
  ⟨handler, .create capacity policy⟩

/-- What the handler makes of a style map, from memory if possible. -/
def compute (h : CachedHandler) (parser : StyleParser) (styles : StyleMap) :
    Response × CachedHandler × StyleParser :=
  match h.memo.get styles.json with
  | (some output, memo) => (.ok output, { h with memo := memo }, parser)
  | (none, memo) =>
    match (h.handler.respond styles).run parser with
    | (.ok output, parser) =>
      (.ok output, { h with memo := memo.insert styles.json output }, parser)
    | (.error failure, parser) => (.error failure, { h with memo := memo }, parser)

/-- Forgets everything. -/
def clear (h : CachedHandler) : CachedHandler := { h with memo := h.memo.clear }

end CachedHandler
end ResponsiveCss
