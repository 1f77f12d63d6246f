import ResponsiveCss.Handler.Cached
import ResponsiveCss.Handler.Property

/-!
# The handlers in use

A `Registry` knows the registered handlers, in the order of their registration,
and for each style the handlers that look it up. A style that no registered
handler looks up has a generic handler, which is made when it is first asked for
and kept from then on, even while a registered handler takes its place.

Every handler gets an identity of its own when it comes in.
-/

namespace ResponsiveCss

/-- The identity of a handler. Identities, not names, tell handlers apart. -/
abbrev HandlerId := Nat

/-- A handler in a registry. -/
structure Slot where
  id : HandlerId
  cached : CachedHandler

namespace Slot

/-- The name of the handler. -/
def name (slot : Slot) : String := slot.cached.handler.name

/-- The styles that the handler looks up. -/
def lookup (slot : Slot) : List String := slot.cached.handler.lookup

/-- The counts about the handler's memory. -/
def stats (slot : Slot) : MemoStats := slot.cached.memo.stats

/-- The slot with an empty memory. -/
def clear (slot : Slot) : Slot := { slot with cached := slot.cached.clear }

end Slot

/-- Registered handlers and the generic handlers of other styles. -/
structure Registry where
  /-- How many results each handler remembers. -/
  capacity : Nat
  /-- What happens when a memory is full. -/
  policy : Eviction
  /-- The next identity. -/
  nextId : HandlerId
  /-- The registered handlers, the one registered last at the end. -/
  registered : List Slot
  /-- For each style that is looked up, the registered handlers that do. -/
  byStyle : OrderedMap (List HandlerId)
  /-- The generic handlers, by style. -/
  generics : OrderedMap Slot

namespace Registry

/-- A registry without handlers. -/
def create (capacity : Nat) (policy : Eviction) : Registry :=
  ⟨capacity, policy, 0, [], ∅, ∅⟩

/-- A registry without handlers and with the usual capacity. -/
def standard : Registry := create defaultHandlerCapacity .leastRecent

/-- Removes some handlers from every style, and the styles that have none left. -/
def withdraw (ids : List HandlerId) (byStyle : OrderedMap (List HandlerId)) :
    OrderedMap (List HandlerId) :=
  byStyle.filterMap fun _ handlers =>
    let kept := handlers.filter fun id => !ids.contains id
    if kept.isEmpty then none else some kept

/-- Enters a handler under each of some styles, behind those that are there. -/
def enlist (id : HandlerId) (styles : List String) (byStyle : OrderedMap (List HandlerId)) :
    OrderedMap (List HandlerId) :=
  styles.foldl (fun index style => index.insert style ((index.get? style).getD [] ++ [id])) byStyle

/-- The identities of the registered handlers of a name. -/
def idsOf (r : Registry) (name : String) : List HandlerId :=
  (r.registered.filter (·.name = name)).map (·.id)

/-- A handler that comes in, with the next identity. -/
def newSlot (r : Registry) (handler : Handler) : Slot :=
  ⟨r.nextId, .create handler r.capacity r.policy⟩

/-- Registers a handler. It takes the place of a registered handler of its name. -/
def register (r : Registry) (handler : Handler) : Registry :=
  { r with
    nextId := r.nextId + 1
    registered := r.registered.filter (·.name ≠ handler.name) ++ [r.newSlot handler]
    byStyle := enlist r.nextId handler.lookup (withdraw (r.idsOf handler.name) r.byStyle) }

/-- Whether a registered handler looks up a style. -/
def contains (r : Registry) (style : String) : Bool := r.byStyle.contains style

/-- Makes the generic handler of a style that has none. -/
def addGeneric (r : Registry) (style : String) : Registry :=
  { r with
    nextId := r.nextId + 1
    generics := r.generics.insert style (r.newSlot (.generic style)) }

/-- The generic handler of a style, made if there is none yet. -/
def generic (r : Registry) (style : String) : HandlerId × Registry :=
  match r.generics.get? style with
  | some slot => (slot.id, r)
  | none => (r.nextId, r.addGeneric style)

/-- The handlers of a style: the registered ones that look it up, or else its
generic handler. -/
def resolve (r : Registry) (style : String) : List HandlerId × Registry :=
  match r.byStyle.get? style with
  | some handlers => (handlers, r)
  | none =>
    let (id, r) := r.generic style
    ([id], r)

/-- The handlers of some styles, style by style. -/
def resolveAll (r : Registry) : List String → List HandlerId × Registry
  | [] => ([], r)
  | style :: rest =>
    let (ids, r) := r.resolve style
    let (more, r) := resolveAll r rest
    (ids ++ more, r)

/-- All handlers: the registered ones, then the generic ones. -/
def slots (r : Registry) : List Slot := r.registered ++ r.generics.values

/-- The handler of an identity. -/
def slot? (r : Registry) (id : HandlerId) : Option Slot := r.slots.find? (·.id = id)

/-- The styles that a handler looks up; an unknown identity looks up nothing. -/
def lookup (r : Registry) (id : HandlerId) : List String := (r.slot? id).elim [] (·.lookup)

/-- Changes every handler where it stands. -/
def mapSlots (f : Slot → Slot) (r : Registry) : Registry :=
  { r with registered := r.registered.map f, generics := r.generics.map f }

/-- Puts a handler with a changed memory in its place. -/
def store (r : Registry) (slot : Slot) : Registry :=
  r.mapSlots fun old => if old.id = slot.id then slot else old

/-- What a handler makes of a style map. An unknown identity has no output. -/
def compute (r : Registry) (parser : StyleParser) (id : HandlerId) (styles : StyleMap) :
    Response × Registry × StyleParser :=
  match r.slot? id with
  | none => (.ok none, r, parser)
  | some slot =>
    let (response, cached, parser) := slot.cached.compute parser styles
    (response, r.store { slot with cached := cached }, parser)

/-- The counts about the memories of all handlers together. -/
def stats (r : Registry) : MemoStats := .sum (r.slots.map (·.stats))

/-- Empties the memory of every handler. -/
def clear (r : Registry) : Registry := r.mapSlots Slot.clear

end Registry
end ResponsiveCss
