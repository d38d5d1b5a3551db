import Asm65.Assembly

namespace Asm65

/-! Repeated use of an assembler. Nothing passes from one assembly to the next but the settings
and the labels of the last one. -/

/-- An assembler in use: its settings, and the labels of its last assembly if that one succeeded. -/
structure Session where
  config : Config
  labels : LabelTable

namespace Session

def start (config : Config) : Session :=
  { config, labels := .empty }

/-- What can be asked of a session. -/
inductive Call where
  | setOrigin (origin : UInt16)
  | setTrace (trace : Bool)
  | config
  /-- Assembles a source for its image only. -/
  | image (source : Text)
  | assembly (source : Text)
  | labels
  | lookup (name : Text)

/-- What a session answers. -/
inductive Reply where
  | originSet (origin : UInt16)
  | traceSet (trace : Bool)
  | config (config : Config)
  | image (run : Logged SourceError (List UInt8))
  | assembly (run : Logged SourceError Assembly)
  | labels (labels : LabelTable)
  | address (found : Option UInt16)

/-- Assembles a source. The labels kept so far are dropped first, and a run that fails leaves none. -/
def make (session : Session) (source : Text) : Logged SourceError Assembly × Session :=
  let session := { session with labels := .empty }
  let run := assemble session.config source
  match run.outcome with
  | .error _ => (run, session)
  | .ok assembly => (run, { session with labels := assembly.labels })

def perform (session : Session) : Call → Reply × Session
  | .setOrigin origin =>
      (.originSet origin, { session with config := { session.config with origin } })
  | .setTrace trace =>
      (.traceSet trace, { session with config := { session.config with trace } })
  | .config => (.config session.config, session)
  | .image source =>
      let (run, session) := session.make source
      (.image (run >>= fun assembly => pure assembly.bytes), session)
  | .assembly source =>
      let (run, session) := session.make source
      (.assembly run, session)
  | .labels => (.labels session.labels, session)
  | .lookup name => (.address (session.labels.get? name), session)

/-- The replies to calls made one after the other. -/
def replies (session : Session) : List Call → List Reply
  | [] => []
  | call :: rest =>
      let (reply, next) := session.perform call
      reply :: replies next rest

end Session

/-- The image of a source that starts at the default origin. -/
def assembleImage (trace : Bool) (source : Text) : Logged SourceError (List UInt8) := do
  let assembly ← assemble { Config.default with trace } source
  return assembly.bytes

end Asm65
