import DataflowCost.Config.Setting
import DataflowCost.Json.Codec

/-! Configurations as JSON documents. Any codec for records may read and write them. The settings are the
fields, a document starts from the standard ones, and what comes out is validated. -/
namespace DataflowCost

/-- Puts a value into a configuration. -/
def Setting.put (codec : Codec) (s : Setting) (value : Json) (c : Config Float) :
    Option (Config Float) :=
  match s with
  | worldSize => do return { c with worldSize := ← codec.count? value }
  | memoryUnit => do
    return { c with memoryUnit := ← (codec.word? value).bind MemoryUnit.ofName? }
  | parallelism => do return { c with parallelism := ← (codec.word? value).bind Reducer.ofName? }
  | fuseEpsilon => do return { c with fuseEpsilon := ← codec.real? value }
  | profile => do return { c with profile := ← codec.flag? value }

def Setting.slot (codec : Codec) (s : Setting) : Slot (Config Float) := ⟨s.name, s.put codec⟩

namespace Config

def document (codec : Codec) (c : Config Float) : Json :=
  .record [
    (Setting.worldSize.name, .count c.worldSize),
    (Setting.memoryUnit.name, .text c.memoryUnit.name),
    (Setting.parallelism.name, .text c.parallelism.name),
    (Setting.fuseEpsilon.name, codec.real c.fuseEpsilon),
    (Setting.profile.name, .bool c.profile)]

def text (c : Config Float) (codec : Codec := .standard) : String := codec.encode (c.document codec)

def ofText (s : String) (codec : Codec := .standard) : Except ConfigError (Config Float) :=
  match codec.decode? (Setting.all.map (Setting.slot codec)) .standard s with
  | some c => c.validate
  | none => .error .malformed

end Config

end DataflowCost
