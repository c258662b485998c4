import HeaderReflect.Config.Basic
import HeaderReflect.Json.Reader

/-!
Reading a configuration layer from JSON: an object of settings by name, or a list of their values
in order. A `null` leaves a setting open. An unknown or repeated name is a fault.
-/

namespace HeaderReflect.ConfigLayer

open Json (Fault Reader)

/-- Reads the value of a setting into a layer. -/
def readSetting (layer : ConfigLayer) (setting : Setting) : Reader ConfigLayer := fun input =>
  let text (put : Option String → ConfigLayer) : Except Fault (ConfigLayer × Bytes) :=
    (Json.readOptional Json.readText input).map fun (v, rest) => (put v, rest)
  let texts (put : Option (List String) → ConfigLayer) : Except Fault (ConfigLayer × Bytes) :=
    (Json.readOptional (Json.readList Json.readText) input).map fun (v, rest) => (put v, rest)
  match setting with
  | .parseDir => text fun v => { layer with parseDir := v }
  | .cacheDir => text fun v => { layer with cacheDir := v }
  | .reflOutputDir => text fun v => { layer with reflOutputDir := v }
  | .bindingOutputDir => text fun v => { layer with bindingOutputDir := v }
  | .includeDir => text fun v => { layer with includeDir := v }
  | .marker => text fun v => { layer with marker := v }
  | .headerExtensions => texts fun v => { layer with headerExtensions := v }
  | .clangArgs => texts fun v => { layer with clangArgs := v }
  | .memberPrefix => text fun v => { layer with memberPrefix := v }
  | .templateDir => text fun v => { layer with templateDir := v }

/-- Reads the fields of an object. `missing` holds the settings that have not been given yet; any
other name is a fault, so it bounds the number of fields. -/
def readFields (layer : ConfigLayer) (missing : List Setting) (first : Bool) :
    Reader ConfigLayer := fun input =>
  match Json.nextField first input with
  | .error fault => .error fault
  | .ok (false, rest) => .ok (layer, rest)
  | .ok (true, rest) =>
    match Json.readQuoted [] rest with
    | .error fault => .error fault
    | .ok (name, rest) =>
      match Setting.ofName? name with
      | none => .error .mistyped
      | some setting =>
        if _h : setting ∈ missing then
          match Json.readColon rest with
          | .error fault => .error fault
          | .ok rest =>
            match readSetting layer setting rest with
            | .error fault => .error fault
            | .ok (layer, rest) => readFields layer (missing.erase setting) false rest
        else .error .mistyped
termination_by missing.length
decreasing_by
  have := List.length_erase_of_mem _h
  have := List.length_pos_of_mem _h
  omega

/-- Reads the values of a list into the settings in order; the list may be shorter. -/
def readInOrder (layer : ConfigLayer) (first : Bool) : List Setting → Reader ConfigLayer
  | [], input => do return (layer, ← Json.readListEnd input)
  | setting :: rest, input => do
    let (more, input) ← Json.nextElement first input
    if more then
      let (layer, input) ← readSetting layer setting input
      readInOrder layer false rest input
    else return (layer, ← Json.readListEnd input)

/-- The layer that a JSON text describes. -/
def ofJson (text : Bytes) : Except Fault ConfigLayer := do
  let input := Json.dropBlanks text
  let (layer, rest) ←
    match input with
    | [] => .error .cutShort
    | b :: rest =>
      if b = Json.byte '[' then readInOrder {} true Setting.all rest
      else if b = Json.byte '\x7b' then readFields {} Setting.all true rest
      else .error (Json.unexpectedFault input)
  if (Json.dropBlanks rest).isEmpty then return layer else .error .malformed

end HeaderReflect.ConfigLayer
