import Asm65.Pass

namespace Asm65

/-- Settings of an assembly. -/
structure Config where
  /-- The address assembly starts at, until the source sets another. -/
  origin : UInt16
  /-- Whether the log tells where each instruction went. -/
  trace : Bool
deriving DecidableEq, Repr

/-- The address that programs start at unless told otherwise. -/
def defaultOrigin : UInt16 := 0xC000

def Config.default : Config := { origin := defaultOrigin, trace := false }

/-- An assembled program. -/
structure Assembly where
  /-- The address of the first byte. -/
  origin : UInt16
  bytes : List UInt8
  labels : LabelTable
  entries : List Entry
deriving DecidableEq, Repr

namespace Assembly

/-- The assembly that a final pass amounts to. -/
def ofEntries (config : Config) (entries : List Entry) (labels : LabelTable) : Assembly where
  origin := (entries.head?.map Entry.address).getD config.origin
  bytes := entries.flatMap Entry.bytes
  labels
  entries

end Assembly

def Progress.start (config : Config) : Progress :=
  { pc := config.origin.toNat, labels := .empty }

/-- Assembles a source in two passes over its lines. -/
def assemble (config : Config) (source : Text) : Logged SourceError Assembly := do
  let lines := Line.ofSource source
  .tell (.passStarted 1)
  let (_, found) ← Pass.survey.run config.trace lines (.start config)
  .tell (.firstPassDone found.labels.size)
  .tell (.passStarted 2)
  let (entries, last) ← (Pass.final found.labels).run config.trace lines (.start config)
  let assembly := Assembly.ofEntries config entries last.labels
  .tell (.secondPassDone assembly.bytes.length)
  return assembly

end Asm65
