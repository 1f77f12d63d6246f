import ResponsiveCss.Config.Setting
import ResponsiveCss.Memo
import ResponsiveCss.OrderedMap
import ResponsiveCss.Text.Trim
import ResponsiveCss.Yaml.Document

/-!
# Configuration

What an engine can be told: the breakpoints, how much it remembers, and further
custom units. Every field has a default.
-/

namespace ResponsiveCss

/-- How much is remembered, and what happens when a memory is full. -/
structure CacheConfig where
  /-- Parsed values. -/
  tokens : Nat
  /-- Results of each handler. -/
  handlers : Nat
  /-- Rendered texts. -/
  renders : Nat
  /-- What happens when a memory is full. -/
  eviction : Eviction
  deriving DecidableEq, Repr

/-- The configuration of an engine. -/
structure Config where
  /-- Widths at which zones begin, in any order. -/
  breakpoints : List UInt32
  /-- How much is remembered. -/
  cache : CacheConfig
  /-- Custom units with their templates. -/
  units : OrderedMap String

/-- Memories as large as they are unless said otherwise. -/
def CacheConfig.standard : CacheConfig := ⟨10000, 1000, 1000, .leastRecent⟩

/-- Inserts a number into a strictly descending list, unless it is there. -/
def insertDescending (n : UInt32) : List UInt32 → List UInt32
  | [] => [n]
  | m :: rest => if m < n then n :: m :: rest else if m = n then m :: rest else m :: insertDescending n rest

namespace Config

/-- The configuration that says nothing. -/
def standard : Config := ⟨[980], .standard, ∅⟩

/-- The breakpoints, the widest first, without zeros and repetitions. -/
def descendingBreakpoints (config : Config) : List UInt32 :=
  (config.breakpoints.filter (0 < ·)).foldr insertDescending []

/-- A list of widths. -/
def widths? (setting : Setting) : Option (List UInt32) := do
  let items ← setting.list?
  items.mapM fun item => (item.natural? UInt32.size).map UInt32.ofNat

/-- A table of templates; of a repeated unit the last template counts. -/
def templates? (setting : Setting) : Option (OrderedMap String) := do
  let entries ← setting.table?
  let pairs ← entries.mapM fun e => do return (← e.1.text?, ← e.2.text?)
  return .ofList pairs

/-- A number of remembered results. -/
def capacity? (setting : Setting) : Option Nat := setting.natural? UInt64.size

/-- A policy. -/
def eviction? (format : SettingFormat) (setting : Setting) : Option Eviction :=
  (setting.choice? format).bind Eviction.ofName?

/-- A field that may be left out: the default, or what the setting is read as. -/
def field? {α : Type} (read : Setting → Option α) (default : α) : Option Setting → Option α
  | some setting => read setting
  | none => some default

/-- What a setting says about memories. -/
def cache? (format : SettingFormat) (setting : Setting) : Option CacheConfig := do
  match ← setting.fields? format ["tokens", "handlers", "renders", "eviction"] with
  | [tokens, handlers, renders, eviction] =>
    return {
      tokens := ← field? capacity? CacheConfig.standard.tokens tokens
      handlers := ← field? capacity? CacheConfig.standard.handlers handlers
      renders := ← field? capacity? CacheConfig.standard.renders renders
      eviction := ← field? (eviction? format) CacheConfig.standard.eviction eviction }
  | _ => none

/-- The configuration that a setting holds. -/
def ofSetting? (format : SettingFormat) (setting : Setting) : Option Config := do
  match ← setting.fields? format ["breakpoints", "cache", "units"] with
  | [breakpoints, cache, units] =>
    return {
      breakpoints := ← field? widths? standard.breakpoints breakpoints
      cache := ← field? (cache? format) standard.cache cache
      units := ← field? templates? standard.units units }
  | _ => none

/-- The configuration that a YAML text holds; a blank text says nothing. -/
def ofYaml? (text : String) : Option Config :=
  if Text.trim text = "" then some standard else Yaml.document? text >>= ofSetting? .yaml

end Config

/-- Why there is no configuration. -/
inductive ConfigFailure where
  | unreadable
  | malformed
  deriving DecidableEq, Repr

/-- The configuration in the contents of a file, if there is such a file. -/
def Config.ofFile (contents : Option ByteArray) : Except ConfigFailure Config :=
  match contents.bind String.fromUTF8? with
  | none => .error .unreadable
  | some text =>
    match ofYaml? text with
    | none => .error .malformed
    | some config => .ok config

end ResponsiveCss
