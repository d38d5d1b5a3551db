import Asm65.Command.Host
import Asm65.Delivery

namespace Asm65.Command

/-! A file system held as data, with the streams of a command in it. -/

inductive Node where
  | file (content : List UInt8)
  /-- A file that may refuse to be read or to be replaced. -/
  | guarded (readable writable : Bool) (content : List UInt8)
  | directory
  /-- A directory where nothing can be created, and why. -/
  | closedDirectory (refusal : StorageError)
  /-- A stream keeps all it has taken: what is written comes after it. -/
  | stream (taken : List UInt8)
  /-- A file on a medium without room: it is empty and stays so. -/
  | full
  /-- A device with nothing behind it. -/
  | detached
deriving DecidableEq, Repr

def Node.isDirectory : Node → Bool
  | directory | closedDirectory _ => true
  | _ => false

/-- What a file holds. A file on a full medium is empty. -/
def Node.content? : Node → Option (List UInt8)
  | file content | guarded _ _ content => some content
  | full => some []
  | _ => none

/-- A place in a file system: the names on the way to it from the root. -/
abbrev Place := List Text

/-- A file system, with the places that stand for others and the directory that relative paths
start from. -/
structure FileSystem where
  nodes : List (Place × Node)
  links : List (Place × Place)
  workingDirectory : Place

namespace FileSystem

/-- What stands at a place. The working directory and all above it are directories. -/
def node? (system : FileSystem) (place : Place) : Option Node :=
  if place.isPrefixOf system.workingDirectory then some .directory
  else system.nodes.lookup place

/-- Puts a node at a place, in the stead of the one there. -/
def put (system : FileSystem) (place : Place) (node : Node) : FileSystem :=
  { system with nodes := (place, node) :: system.nodes.filter (·.1 != place) }

/-- The place that a place stands for: itself, unless it is a link. -/
def resolve (system : FileSystem) (place : Place) : Place :=
  (system.links.lookup place).getD place

/-- The names in a path, an empty one for each slash too many. -/
def names (path : Text) : List Text :=
  path.foldr (Text.pushChar '/') [[]]

def utf8Size (text : Text) : Nat :=
  (String.ofList text).utf8ByteSize

/-- How many bytes a file's name may have. -/
def nameLimit : Nat := 255

/-- How many bytes a path may have. -/
def pathLimit : Nat := 4095

/-- Whether a name is too long to look for in a directory. A closed directory sets no limit. -/
def tooLong (system : FileSystem) (here : Place) (name : Text) : Bool :=
  match system.node? here with
  | some (.closedDirectory _) => false
  | _ => nameLimit < utf8Size name

/-- The place that a name leads to from a directory. The root is the directory above itself. -/
def step (system : FileSystem) (here : Place) (name : Text) : Except StorageError Place :=
  if name = [] ∨ name = ['.'] then .ok here
  else if name = ['.', '.'] then .ok here.dropLast
  else if system.tooLong here name then .error .nameTooLong
  else .ok (system.resolve (here ++ [name]))

/-- Only a directory can be entered. -/
def enter (system : FileSystem) (place : Place) : Except StorageError Unit :=
  match system.node? place with
  | none => .error .notFound
  | some node => if node.isDirectory then .ok () else .error .notDirectory

/-- The directory that names lead to from another, through directories only. -/
def walk (system : FileSystem) (here : Place) : List Text → Except StorageError Place
  | [] => .ok here
  | name :: rest => do
      let place ← system.step here name
      system.enter place
      system.walk place rest

/-- The directory a path starts from: the root if it begins with a slash. -/
def start (system : FileSystem) (path : Text) : Place :=
  if path.head? = some '/' then [] else system.workingDirectory

/-- The place that a path leads to, which may be free. An empty path leads nowhere. -/
def locate (system : FileSystem) (path : Text) : Except StorageError Place :=
  if path = [] then .error .notFound
  else if pathLimit < utf8Size path then .error .nameTooLong
  else do
    let names := names path
    let directory ← system.walk (system.start path) names.dropLast
    system.step directory (names.getLastD [])

/-- Reads a file. On a stream that only takes bytes there is nothing to read. -/
def read (system : FileSystem) (path : Text) : Except StorageError (List UInt8) := do
  match system.node? (← system.locate path) with
  | none => .error .notFound
  | some (.file content) => .ok content
  | some (.guarded readable _ content) => if readable then .ok content else .error .notPermitted
  | some .directory | some (.closedDirectory _) => .error .isDirectory
  | some (.stream _) | some .full => .ok []
  | some .detached => .error .noDevice

/-- The place where a path would create a file. A path with a slash at its end can only mean a
directory, so its last name is not looked at. -/
def locateNew (system : FileSystem) (path : Text) : Except StorageError Place :=
  if pathLimit < utf8Size path then .error .nameTooLong
  else if path.getLast? = some '/' then do
    let names := ((names path).reverse.dropWhile (·.isEmpty)).reverse
    let _ ← system.walk (system.start path) names.dropLast
    .error .isDirectory
  else system.locate path

/-- What the stream at a place has taken. -/
def taken (system : FileSystem) (place : Place) : List UInt8 :=
  match system.node? place with
  | some (.stream taken) => taken
  | _ => []

/-- Sends bytes to the stream at a place. -/
def send (system : FileSystem) (place : Place) (bytes : List UInt8) : FileSystem :=
  system.put place (.stream (system.taken place ++ bytes))

/-- What stands at a place once bytes have been written there. A file is created at a free place, if
its directory lets anything be created, and holds the bytes in the stead of all it held. A stream
takes them after what it has. -/
def overwrite (system : FileSystem) (place : Place) (content : List UInt8) :
    Except StorageError Node :=
  match system.node? place with
  | none =>
      match system.node? place.dropLast with
      | some (.closedDirectory refusal) => .error refusal
      | _ => .ok (.file content)
  | some (.file _) => .ok (.file content)
  | some (.guarded readable writable _) =>
      if writable then .ok (.guarded readable writable content) else .error .notPermitted
  | some .directory | some (.closedDirectory _) => .error .isDirectory
  | some (.stream taken) => .ok (.stream (taken ++ content))
  | some .full => if content = [] then .ok .full else .error .noSpace
  | some .detached => .error .noDevice

def write (system : FileSystem) (path : Text) (content : List UInt8) :
    Except StorageError FileSystem := do
  let place ← system.locateNew path
  let node ← system.overwrite place content
  return system.put place node

/-- What the file at a place holds. -/
def content? (system : FileSystem) (place : Place) : Option (List UInt8) :=
  (system.node? place).bind Node.content?

/-- The files of the working directory itself. -/
def files (system : FileSystem) : List (Text × List UInt8) :=
  system.nodes.filterMap fun (place, node) =>
    match place.getLast?, node.content? with
    | some name, some content =>
        if place = system.workingDirectory ++ [name] then some (name, content) else none
    | _, _ => none

/-- The files of the working directory that are new in `after` or hold something else there. -/
def changes (before after : FileSystem) : List (Text × List UInt8) :=
  after.files.filter fun (name, content) =>
    before.content? (before.workingDirectory ++ [name]) != some content

/-- The place of names under the root. -/
def under (names : List String) : Place :=
  names.map String.toList

/-- Where the streams of a command stand, by their numbers. -/
def streamDirectory : Place := under ["proc", "self", "fd"]

def standardInput : Place := streamDirectory ++ [['0']]

def standardOutput : Place := streamDirectory ++ [['1']]

def standardError : Place := streamDirectory ++ [['2']]

/-- What a command finds in its streams when it starts. -/
def streams (input : List UInt8) : List (Place × Node) :=
  [(standardInput, .file input), (standardOutput, .stream []), (standardError, .stream [])]

/-- The directories that every system has. Those that the system itself fills are closed. -/
def systemDirectories : List (Place × Node) :=
  ["bin", "boot", "dev", "etc", "home", "lib", "lib64", "media", "mnt", "opt", "root", "run",
    "sbin", "srv", "tmp", "usr", "var"].map (fun name => (under [name], .directory)) ++
  [(under ["sys"], .closedDirectory .notPermitted),
    (under ["proc"], .closedDirectory .notFound),
    (under ["proc", "self"], .closedDirectory .notFound),
    (streamDirectory, .closedDirectory .notFound)]

/-- The devices that differ from files: one takes everything and gives nothing back, one is always
full, and one is the terminal, which a command may not have. -/
def devices : List (Place × Node) :=
  [(under ["dev", "null"], .stream []), (under ["dev", "full"], .full),
    (under ["dev", "tty"], .detached)]

/-- The names of the streams among the devices. -/
def streamLinks : List (Place × Place) :=
  [(under ["dev", "stdin"], standardInput), (under ["dev", "stdout"], standardOutput),
    (under ["dev", "stderr"], standardError), (under ["dev", "fd"], streamDirectory)]

/-- Where a command is started. The directory has no name, so no path leads to it by name. -/
def startDirectory : Place := under ["tmp", ""]

/-- A system with bytes on standard input and nothing in the working directory. -/
def ofInput (input : List UInt8) : FileSystem where
  nodes := systemDirectories ++ devices ++ streams input
  links := streamLinks
  workingDirectory := startDirectory

/-- Adds a node below the working directory, with the directories on the way to it. -/
def add (system : FileSystem) (path : Text) (node : Node) : FileSystem :=
  let names := names path
  let place (depth : Nat) : Place := system.workingDirectory ++ names.take depth
  let parents := ((List.range names.length).drop 1).foldl
    (fun system depth => system.put (place depth) .directory) system
  parents.put (place names.length) node

/-- The bytes on standard input. -/
def input (system : FileSystem) : List UInt8 :=
  match system.node? standardInput with
  | some (.file content) => content
  | _ => []

/-- What standard output has taken. -/
def output (system : FileSystem) : List UInt8 :=
  system.taken standardOutput

/-- What standard error has taken. -/
def errorOutput (system : FileSystem) : List UInt8 :=
  system.taken standardError

end FileSystem

instance : Host (StateM FileSystem) where
  readFile path := do return (← get).read path
  readInput := do return .ok (← get).input
  writeFile path content := do
    match (← get).write path content with
    | .error error => return .error error
    | .ok system =>
        set system
        return .ok ()
  print text := modify (·.send FileSystem.standardOutput (Text.toBytes text.toList))
  report text := modify (·.send FileSystem.standardError (Text.toBytes text.toList))

end Asm65.Command
