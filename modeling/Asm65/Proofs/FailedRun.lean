import Asm65.Command.Run
import Asm65.Proofs.FileSystem

namespace Asm65.Command

open Outcome

namespace FileSystem

variable {system : FileSystem} {bytes : List UInt8}

/-- A system on which a command can start: nothing has been printed. -/
structure Ready (system : FileSystem) : Prop where
  output : system.node? standardOutput = some (.stream [])
  error : system.node? standardError = some (.stream [])

/-- A system in the directory where a command is started. -/
structure Started (system : FileSystem) : Prop where
  ready : system.Ready
  home : system.workingDirectory = startDirectory

theorem started_ofInput (input : List UInt8) : (ofInput input).Started :=
  ⟨⟨rfl, rfl⟩, rfl⟩

theorem Started.put (started : system.Started) (names : List Text) (node : Node) :
    (system.put (startDirectory ++ names) node).Started := by
  have below : ∀ rest : List Text, under ["proc"] ++ rest ≠ startDirectory ++ names := by
    intro rest same
    cases (List.cons.inj same).1
  refine ⟨⟨?_, ?_⟩, started.home⟩
  · exact (node?_put_of_ne (below _)).trans started.ready.output
  · exact (node?_put_of_ne (below _)).trans started.ready.error

/-- Whatever the directory holds, a command can start there. -/
theorem Started.add (started : system.Started) (path : Text) (node : Node) :
    (system.add path node).Started := by
  unfold FileSystem.add
  simp only [started.home]
  refine Started.put ?_ _ node
  generalize (List.range (names path).length).drop 1 = depths
  induction depths generalizing system with
  | nil => exact started
  | cons depth depths ih => exact ih (started.put _ .directory)

def source (system : FileSystem) (input : Text) : Except StorageError Text :=
  (if input = ['-'] then .ok system.input else system.read input).bind Text.ofBytes

def reported (system : FileSystem) (text : String) : FileSystem :=
  system.send standardError (Text.toBytes text.toList)

theorem like_reported (streams : system.IsStream standardError) (text : String) :
    system.Like (system.reported text) where
  links := rfl
  workingDirectory := rfl
  node place := by
    by_cases apart : place = standardError
    · rw [apart, streams.node?_eq, reported, (receives_send streams).stream standardError streams]
      exact .stream _ _
    · rw [reported, send, node?_put_of_ne apart]
      exact .same _

end FileSystem

open FileSystem

section Steps

variable {system stored : FileSystem} {options : Options} {source : Text} {assembly : Assembly}
  {error : StorageError}

theorem run_readSource (input : Text) :
    (readSource input : StateM FileSystem (Except StorageError Text)).run system =
      (system.source input, system) := by
  unfold readSource FileSystem.source
  split <;> rfl

theorem run_fail (failure : Failure) :
    (fail options failure : StateM FileSystem UInt8).run system =
      (1, system.reported (joinLines (diagnosis options.input failure))) := rfl

theorem run_writeFile_of_error {path : Text} {content : List UInt8}
    (unwritten : system.write path content = .error error) :
    (Host.writeFile path content : StateM FileSystem (Except StorageError Unit)).run system =
      (.error error, system) := by
  simp only [Host.writeFile, StateT.run_bind, StateT.run_get, pure_bind, unwritten]
  rfl

theorem run_writeFile_of_ok {path : Text} {content : List UInt8}
    (written : system.write path content = .ok stored) :
    (Host.writeFile path content : StateM FileSystem (Except StorageError Unit)).run system =
      (.ok (), stored) := by
  simp only [Host.writeFile, StateT.run_bind, StateT.run_get, pure_bind, written]
  rfl

theorem run_store_of_output (unstored : system.write options.output assembly.bytes = .error error) :
    (store options assembly : StateM FileSystem UInt8).run system =
      (1, system.reported (joinLines (diagnosis options.input (.storage error)))) := by
  unfold store
  rw [StateT.run_bind, run_writeFile_of_error unstored]
  exact run_fail (.storage error)

theorem run_store_of_listing {path : Text} (stores : system.write options.output assembly.bytes = .ok stored)
    (wanted : options.listing = some path)
    (unlisted : stored.write path (Text.toBytes assembly.listing) = .error error) :
    (store options assembly : StateM FileSystem UInt8).run system =
      (1, stored.reported (joinLines (diagnosis options.input (.storage error)))) := by
  unfold store
  rw [StateT.run_bind, run_writeFile_of_ok stores, wanted]
  change StateT.run (Host.writeFile path (Text.toBytes assembly.listing) >>= _) stored = _
  rw [StateT.run_bind, run_writeFile_of_error unlisted]
  exact run_fail (.storage error)

theorem run_execute_of_unread (unread : system.source options.input = .error error) :
    (execute options : StateM FileSystem UInt8).run system =
      (1, system.reported (joinLines (diagnosis options.input (.storage error)))) := by
  unfold execute
  rw [StateT.run_bind, run_readSource, unread]
  exact run_fail (.storage error)

/-- The log as it is printed, as far as the chosen level shows it. -/
def Options.logBytes (options : Options) (events : List Event) : List UInt8 :=
  Text.toBytes (joinLines (options.logLines events)).toList

def Options.diagnosisBytes (options : Options) (failure : Failure) : List UInt8 :=
  Text.toBytes (joinLines (diagnosis options.input failure)).toList

def told (system : FileSystem) (options : Options) (source : Text) : FileSystem :=
  system.reported (joinLines (options.logLines (assemble options.config source).events))

theorem run_execute_of_error {refusal : SourceError} (read : system.source options.input = .ok source)
    (refused : (assemble options.config source).outcome = .error refusal) :
    (execute options : StateM FileSystem UInt8).run system =
      (1, (told system options source).reported (joinLines (diagnosis options.input (.source refusal)))) := by
  unfold execute
  rw [StateT.run_bind, run_readSource, read]
  change StateT.run _ (told system options source) = _
  rw [refused]
  exact run_fail (.source refusal)

theorem run_execute_of_ok (read : system.source options.input = .ok source)
    (assembled : (assemble options.config source).outcome = .ok assembly) :
    (execute options : StateM FileSystem UInt8).run system =
      (store options assembly : StateM FileSystem UInt8).run (told system options source) := by
  unfold execute
  rw [StateT.run_bind, run_readSource, read]
  change StateT.run _ (told system options source) = _
  rw [assembled]

end Steps

section Results

variable {system after : FileSystem} {options : Options} {arguments : List Text} {assembly : Assembly}
  {source : Text} {places : List Place} {pieces : List (Place × List UInt8)}

/-- Why a command has nothing to write. -/
inductive Unassembled (system : FileSystem) (options : Options) : Prop where
  | unread {error : StorageError} (unread : system.source options.input = .error error)
  | refused {source : Text} {error : SourceError} (read : system.source options.input = .ok source)
      (refused : (assemble options.config source).outcome = .error error)

/-- The command fails, prints nothing to standard output and leaves everything as it was, apart from
standard error. -/
structure FailsClean (system : FileSystem) (result : UInt8 × FileSystem) : Prop where
  code : result.1 = 1
  output : result.2.output = []
  kept : KeepsBut [standardError] system result.2

/-- The command fails after the image has gone to its place. A file there holds just the image. A stream has
taken it after the log, and standard error takes the diagnosis last. -/
structure FailsAfterImage (system : FileSystem) (options : Options) (source : Text) (assembly : Assembly)
    (error : StorageError) (place : Place) (result : UInt8 × FileSystem) : Prop where
  code : result.1 = 1
  file : ¬ system.IsStream place → result.2.output = [] ∧ result.2.content? place = some assembly.bytes
  stream : ∀ spot, system.IsStream spot → result.2.taken spot = system.taken spot ++
    (piecesAt [(standardError, options.logBytes (assemble options.config source).events),
      (place, assembly.bytes), (standardError, options.diagnosisBytes (.storage error))] spot).flatten
  kept : KeepsBut [standardError, place] system result.2

theorem standardOutput_ne_standardError : standardOutput ≠ standardError := by decide

theorem failsClean (ready : system.Ready) (received : Receives pieces system after)
    (within : ∀ piece ∈ pieces, piece.1 = standardError) : FailsClean system (1, after) := by
  have kept : KeepsBut [standardError] system after :=
    received.keepsBut fun piece member => List.mem_singleton.mpr (within piece member)
  refine ⟨rfl, ?_, kept⟩
  rw [output, taken, kept standardOutput (by simp [standardOutput_ne_standardError]), ready.output]

theorem runIn_of_parse (parsed : Options.parse arguments = .ok options) :
    runIn system arguments = (execute options : StateM FileSystem UInt8).run system := by
  unfold runIn run
  rw [parsed]

theorem receives_told (ready : system.Ready) :
    Receives [(standardError, options.logBytes (assemble options.config source).events)] system
      (told system options source) :=
  receives_send ⟨_, ready.error⟩

theorem failsClean_of_unassembled (ready : system.Ready) (unassembled : Unassembled system options) :
    FailsClean system ((execute options : StateM FileSystem UInt8).run system) := by
  cases unassembled with
  | unread unread =>
      rw [run_execute_of_unread unread]
      exact failsClean ready (receives_send ⟨_, ready.error⟩) (by simp)
  | refused read refused =>
      rw [run_execute_of_error read refused]
      exact failsClean ready ((receives_told ready).send ⟨_, ready.error⟩) (by simp)

theorem failsClean_of_output {error : StorageError} (ready : system.Ready)
    (read : system.source options.input = .ok source)
    (assembled : (assemble options.config source).outcome = .ok assembly)
    (unstored : system.write options.output assembly.bytes = .error error) :
    FailsClean system ((execute options : StateM FileSystem UInt8).run system) := by
  -- the log on standard error does not change what can be written
  have like : system.Like (told system options source) := like_reported ⟨_, ready.error⟩ _
  obtain ⟨again, unstoredToo, _⟩ := like.write.of_error unstored
  rw [run_execute_of_ok read assembled, run_store_of_output unstoredToo]
  exact failsClean ready ((receives_told ready).send ⟨_, ready.error⟩) (by simp)

theorem failsAfterImage {error : StorageError} {place : Place} (ready : system.Ready)
    (received : Receives [(standardError, options.logBytes (assemble options.config source).events),
      (place, assembly.bytes), (standardError, options.diagnosisBytes (.storage error))] system after) :
    FailsAfterImage system options source assembly error place (1, after) where
  code := rfl
  file files := by
    -- the streams stand elsewhere, so the image on its place outlasts the diagnosis
    have elsewhere : ∀ {stream : Place}, system.IsStream stream → stream ≠ place := by
      rintro stream streams rfl
      exact files streams
    have apartError : place ≠ standardError := (elsewhere ⟨_, ready.error⟩).symm
    have apartOutput : standardOutput ≠ place := elsewhere ⟨_, ready.output⟩
    constructor
    · rw [output, received.taken_eq ⟨_, ready.output⟩, taken, ready.output,
        piecesAt_cons_of_ne _ standardOutput_ne_standardError, piecesAt_cons_of_ne _ apartOutput,
        piecesAt_cons_of_ne _ standardOutput_ne_standardError]
      rfl
    · apply received.file place assembly.bytes files
      rw [piecesAt_cons_of_ne _ apartError, piecesAt_cons_self, piecesAt_cons_of_ne _ apartError]
      rfl
  stream _ streams := received.taken_eq streams
  kept := received.keepsBut (by simp)

theorem failsAfterImage_of_listing {stored : FileSystem} {path : Text} {error : StorageError}
    (ready : system.Ready) (read : system.source options.input = .ok source)
    (assembled : (assemble options.config source).outcome = .ok assembly)
    (stores : system.write options.output assembly.bytes = .ok stored) (wanted : options.listing = some path)
    (unlisted : stored.write path (Text.toBytes assembly.listing) = .error error) :
    ∃ place, system.locateNew options.output = .ok place ∧
      FailsAfterImage system options source assembly error place
        ((execute options : StateM FileSystem UInt8).run system) := by
  have like : system.Like (told system options source) := like_reported ⟨_, ready.error⟩ _
  obtain ⟨storedToo, storesToo, likeStored⟩ := like.write.of_ok stores
  obtain ⟨_, unlistedToo, rfl⟩ := likeStored.write.of_error unlisted
  obtain ⟨place, located, received, _⟩ := receives_write storesToo
  rw [run_execute_of_ok read assembled, run_store_of_listing storesToo wanted unlistedToo]
  exact ⟨place, like.sameWays.locateNew_eq_ok_iff.mp located,
    failsAfterImage ready (((receives_told ready).append received).send ⟨_, ready.error⟩)⟩

end Results

/-- A command that fails damages no file. Only a file that was to be replaced is, by the whole image. -/
theorem failed_run_keeps_files {system : FileSystem} {arguments : List Text} {options : Options}
    (ready : system.Ready) (parsed : Options.parse arguments = .ok options) :
    (Unassembled system options → FailsClean system (runIn system arguments)) ∧
      ∀ source assembly, system.source options.input = .ok source →
        (assemble options.config source).outcome = .ok assembly →
        (∀ error, system.write options.output assembly.bytes = .error error →
          FailsClean system (runIn system arguments)) ∧
        ∀ stored path error, system.write options.output assembly.bytes = .ok stored →
          options.listing = some path → stored.write path (Text.toBytes assembly.listing) = .error error →
          ∃ place, system.locateNew options.output = .ok place ∧
            FailsAfterImage system options source assembly error place (runIn system arguments) := by
  rw [runIn_of_parse parsed]
  refine ⟨failsClean_of_unassembled ready, fun source assembly read assembled => ⟨?_, ?_⟩⟩
  · intro error unstored
    exact failsClean_of_output ready read assembled unstored
  · intro stored path error stores wanted unlisted
    exact failsAfterImage_of_listing ready read assembled stores wanted unlisted

/-- A system with a file to replace, one that may not be replaced, one that may not be read, and a
directory. -/
def crowded : FileSystem :=
  ((((ofInput "loop: JMP loop".toUTF8.data.toList).add "a.bin".toList (.file [1, 2, 3])).add
    "rom".toList (.guarded true false [7, 8])).add "secret".toList (.guarded false true [9])).add
    "b".toList .directory

def crowdedArguments (input output : Text) : List Text :=
  ["-o".toList, output, "-l".toList, "b".toList, input]

def crowdedOptions (input output : Text) : Options where
  input := input
  output := output
  config := .default
  listing := some "b".toList
  logLevel := .info

/-- A source that may not be read leaves the output as it was. With a directory where the listing should be,
a file that cannot be replaced keeps what it held, another file holds the image, and standard output has
taken it. -/
theorem failed_run_keeps_files_crowded :
    crowded.Ready ∧
    FailsClean crowded (runIn crowded (crowdedArguments "secret".toList "a.bin".toList)) ∧
    (runIn crowded (crowdedArguments "secret".toList "a.bin".toList)).2.content?
      (startDirectory ++ ["a.bin".toList]) = some [1, 2, 3] ∧
    FailsClean crowded (runIn crowded (crowdedArguments "-".toList "rom".toList)) ∧
    (runIn crowded (crowdedArguments "-".toList "rom".toList)).2.content?
      (startDirectory ++ ["rom".toList]) = some [7, 8] ∧
    (runIn crowded (crowdedArguments "-".toList "a.bin".toList)).1 = 1 ∧
    (runIn crowded (crowdedArguments "-".toList "a.bin".toList)).2.output = [] ∧
    (runIn crowded (crowdedArguments "-".toList "a.bin".toList)).2.content?
      (startDirectory ++ ["a.bin".toList]) = some [0x4C, 0x00, 0xC0] ∧
    (runIn crowded (crowdedArguments "-".toList "/dev/stdout".toList)).1 = 1 ∧
    (runIn crowded (crowdedArguments "-".toList "/dev/stdout".toList)).2.output = [0x4C, 0x00, 0xC0] := by
  have ready : crowded.Ready := ((started_ofInput _).add _ _ |>.add _ _ |>.add _ _ |>.add _ _).ready
  have parsed : Options.parse (crowdedArguments "secret".toList "a.bin".toList) =
      .ok (crowdedOptions "secret".toList "a.bin".toList) := rfl
  have locked : crowded.source "secret".toList = .error .notPermitted := rfl
  have unread := (failed_run_keeps_files ready parsed).1 (.unread locked)
  have image : (assemble .default "loop: JMP loop".toList).outcome.map Assembly.bytes =
      .ok [0x4C, 0x00, 0xC0] := rfl
  obtain ⟨assembly, assembled, bytes⟩ := map_eq_ok_iff.mp image
  have results := fun output (parsed : Options.parse (crowdedArguments "-".toList output) =
      .ok (crowdedOptions "-".toList output)) =>
    (failed_run_keeps_files ready parsed).2 "loop: JMP loop".toList assembly rfl assembled
  have sealed := (results "rom".toList rfl).1 .notPermitted rfl
  obtain ⟨place, found, replaced⟩ := (results "a.bin".toList rfl).2 _ "b".toList .isDirectory rfl rfl rfl
  have located : crowded.locateNew "a.bin".toList = .ok (startDirectory ++ ["a.bin".toList]) := rfl
  cases located.symm.trans found
  obtain ⟨silent, holds⟩ := replaced.file (by rintro ⟨taken, streams⟩; cases streams)
  obtain ⟨stream, foundToo, sent⟩ :=
    (results "/dev/stdout".toList rfl).2 _ "b".toList .isDirectory rfl rfl rfl
  have locatedToo : crowded.locateNew "/dev/stdout".toList = .ok standardOutput := rfl
  cases locatedToo.symm.trans foundToo
  refine ⟨ready, unread, ?_, sealed, ?_, replaced.code, silent, holds.trans (congrArg some bytes), sent.code, ?_⟩
  · rw [content?, unread.kept _ (by decide)]
    rfl
  · rw [content?, sealed.kept _ (by decide)]
    rfl
  · rw [output, sent.stream standardOutput ⟨_, ready.output⟩, taken, ready.output, bytes]
    rfl

end Asm65.Command
