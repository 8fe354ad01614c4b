import PropCatalog.Config.Basic
import PropCatalog.Toml.Document

/-!
# Reading a configuration

A configuration file has a table for each group of keys. Keys that are missing have their default,
unknown keys are ignored, and a value of another type than its key asks for is an error. A group may
also be written as an array of its values in order.
-/

namespace PropCatalog.Config

open Toml (Value)

def text? : Value → Option Text
  | .string s => some s
  | _ => none

def flag? : Value → Option Bool
  | .boolean b => some b
  | _ => none

/-- A number of levels, at most the largest number of 64 bits. -/
def levels? : Value → Option Nat
  | .integer base digits =>
    (Value.integer? base digits).bind fun n =>
      if 0 ≤ n && n < Word64.limit then some n.toNat else none
  | _ => none

def texts? : Value → Option (List Text)
  | .array items => items.mapM text?
  | _ => none

mutual

/-- Whether a value that no key asks for can be read at all: its integers have at most 128 bits, and
its floats are not too large for a double precision number. -/
def isReadable : Value → Bool
  | .integer base digits =>
    (Value.integer? base digits).any fun n =>
      -170141183460469231731687303715884105728 ≤ n && n < 340282366920938463463374607431768211456
  | .float written =>
    written.any (fun c => c = 'n') || (Literal.decimal? (written.filter (· ≠ '_'))).isSome
  | .array items => areReadable items
  | .table entries => entriesReadable entries
  | _ => true

def areReadable : List Value → Bool
  | [] => true
  | v :: rest => isReadable v && areReadable rest

def entriesReadable : List (Text × Value) → Bool
  | [] => true
  | (_, v) :: rest => isReadable v && entriesReadable rest

end

/-- The entries under other keys than the given ones. -/
def unknown (keys : List String) (entries : List (Text × Value)) : List (Text × Value) :=
  entries.filter fun (key, _) => !keys.any fun k => k.toList = key

/-- The values of the given keys in a group. A group that is a date has no keys. -/
def group? (keys : List String) : Value → Option (List (Option Value))
  | .table entries =>
    if entriesReadable (unknown keys entries) then
      some (keys.map fun key => Toml.get? key.toList entries)
    else none
  | .array items => some ((List.range keys.length).map fun i => items[i]?)
  | .dateTime _ => some (keys.map fun _ => none)
  | _ => none

/-- The value of a key, or the default if the key is missing. -/
def valueOr? {α : Type} (read? : Value → Option α) (standard : α) : Option Value → Option α
  | none => some standard
  | some v => read? v

def source? (v : Value) : Option Source :=
  (group? ["dir", "extensions", "recursive", "props_suffix"] v).bind fun values =>
    match values with
    | [dir, extensions, recursive, suffix] => do
      let dir ← valueOr? text? Source.standard.dir dir
      let extensions ← valueOr? texts? Source.standard.extensions extensions
      let recursive ← valueOr? flag? Source.standard.recursive recursive
      let suffix ← valueOr? text? Source.standard.suffix suffix
      return { dir, extensions, recursive, suffix }
    | _ => none

def target? (v : Value) : Option Document.Target :=
  (group? ["file", "start_marker", "end_marker", "legacy_heading"] v).bind fun values =>
    match values with
    | [file, startMarker, endMarker, legacyHeading] => do
      let file ← valueOr? text? targetStandard.file file
      let startMarker ← valueOr? text? targetStandard.startMarker startMarker
      let endMarker ← valueOr? text? targetStandard.endMarker endMarker
      let legacyHeading ← valueOr? text? targetStandard.legacyHeading legacyHeading
      return { file, startMarker, endMarker, legacyHeading }
    | _ => none

def output? (v : Value) : Option Output :=
  (group? ["heading", "fence_lang", "include_descriptions"] v).bind fun values =>
    match values with
    | [heading, fenceLanguage, descriptions] => do
      let heading ← valueOr? text? Output.standard.heading heading
      let fenceLanguage ← valueOr? text? Output.standard.fenceLanguage fenceLanguage
      let descriptions ← valueOr? flag? Output.standard.descriptions descriptions
      return { heading, fenceLanguage, descriptions }
    | _ => none

/-- The group of the type resolution, which holds the depth cap. -/
def cap? (v : Value) : Option Nat :=
  (group? ["max_depth"] v).bind fun values =>
    match values with
    | [cap] => valueOr? levels? standard.cap cap
    | _ => none

def ofEntries? (entries : List (Text × Value)) : Option Config := do
  let source ← valueOr? source? .standard (Toml.get? "source".toList entries)
  let target ← valueOr? target? targetStandard (Toml.get? "target".toList entries)
  let output ← valueOr? output? .standard (Toml.get? "output".toList entries)
  let cap ← valueOr? cap? standard.cap (Toml.get? "resolver".toList entries)
  if entriesReadable (unknown ["source", "target", "output", "resolver"] entries) then
    return { source, target, output, cap }
  else none

/-- The configuration of a text; none if the text is no document or has a value of a wrong type. -/
def ofText? (s : Text) : Option Config :=
  (Toml.read? s).bind ofEntries?

end PropCatalog.Config
