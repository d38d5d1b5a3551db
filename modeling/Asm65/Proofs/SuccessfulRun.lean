import Asm65.Proofs.FailedRun
import Asm65.Proofs.Literal

namespace Asm65.Command

open FileSystem

namespace FileSystem

def printed (system : FileSystem) (text : String) : FileSystem :=
  system.send standardOutput (Text.toBytes text.toList)

end FileSystem

section Steps

variable {system stored : FileSystem} {options : Options} {assembly : Assembly}

/-- The listing is written after the image, if one is wanted. -/
inductive Lists (options : Options) (assembly : Assembly) (stored : FileSystem) : FileSystem → Prop where
  | unwanted (silent : options.listing = none) : Lists options assembly stored stored
  | written {path : Text} {listed : FileSystem} (wanted : options.listing = some path)
      (lists : stored.write path (Text.toBytes assembly.listing) = .ok listed) :
      Lists options assembly stored (listed.reported (joinLines (options.logLines [.listingWritten path])))

theorem run_store_of_unwanted (stores : system.write options.output assembly.bytes = .ok stored)
    (silent : options.listing = none) :
    (store options assembly : StateM FileSystem UInt8).run system =
      (0, stored.printed (joinLines [options.successLine assembly])) := by
  unfold store
  rw [StateT.run_bind, run_writeFile_of_ok stores, silent]
  rfl

theorem run_store_of_listed {path : Text} {listed : FileSystem}
    (stores : system.write options.output assembly.bytes = .ok stored) (wanted : options.listing = some path)
    (lists : stored.write path (Text.toBytes assembly.listing) = .ok listed) :
    (store options assembly : StateM FileSystem UInt8).run system =
      (0, (listed.reported (joinLines (options.logLines [.listingWritten path]))).printed
        (joinLines [options.successLine assembly])) := by
  unfold store
  rw [StateT.run_bind, run_writeFile_of_ok stores, wanted]
  change StateT.run (Host.writeFile path (Text.toBytes assembly.listing) >>= _) stored = _
  rw [StateT.run_bind, run_writeFile_of_ok lists]
  rfl

theorem failure_ne_success : (1 : UInt8) ≠ 0 := by decide

theorem store_eq_zero (succeeded : ((store options assembly : StateM FileSystem UInt8).run system).1 = 0) :
    ∃ stored last, system.write options.output assembly.bytes = .ok stored ∧
      Lists options assembly stored last ∧
      ((store options assembly : StateM FileSystem UInt8).run system).2 =
        last.printed (joinLines [options.successLine assembly]) := by
  cases stores : system.write options.output assembly.bytes with
  | error error =>
      rw [run_store_of_output stores] at succeeded
      exact absurd succeeded failure_ne_success
  | ok stored =>
      cases wanted : options.listing with
      | none =>
          rw [run_store_of_unwanted stores wanted]
          exact ⟨stored, stored, rfl, .unwanted wanted, rfl⟩
      | some path =>
          cases lists : stored.write path (Text.toBytes assembly.listing) with
          | error error =>
              rw [run_store_of_listing stores wanted lists] at succeeded
              exact absurd succeeded failure_ne_success
          | ok listed =>
              rw [run_store_of_listed stores wanted lists]
              exact ⟨stored, _, rfl, .written wanted lists, rfl⟩

/-- A command exits with 0 only after it has read and assembled the source and written all it should. -/
theorem execute_eq_zero (succeeded : ((execute options : StateM FileSystem UInt8).run system).1 = 0) :
    ∃ source assembly stored last, system.source options.input = .ok source ∧
      (assemble options.config source).outcome = .ok assembly ∧
      (told system options source).write options.output assembly.bytes = .ok stored ∧
      Lists options assembly stored last ∧
      ((execute options : StateM FileSystem UInt8).run system).2 =
        last.printed (joinLines [options.successLine assembly]) := by
  cases read : system.source options.input with
  | error error =>
      rw [run_execute_of_unread read] at succeeded
      exact absurd succeeded failure_ne_success
  | ok source =>
      cases assembled : (assemble options.config source).outcome with
      | error refusal =>
          rw [run_execute_of_error read assembled] at succeeded
          exact absurd succeeded failure_ne_success
      | ok assembly =>
          rw [run_execute_of_ok read assembled] at succeeded ⊢
          obtain ⟨stored, last, stores, lists, result⟩ := store_eq_zero succeeded
          exact ⟨source, assembly, stored, last, rfl, assembled, stores, lists, result⟩

end Steps

section Results

variable {system stored last after : FileSystem} {options : Options} {assembly : Assembly}
  {source line : Text} {place : Place} {pieces : List (Place × List UInt8)}

/-- The line that tells a success: how many bytes the image has, where it starts and where it went. -/
inductive SuccessTold (options : Options) (assembly : Assembly) : Text → Prop where
  | line {count address : Text} (counted : count.DecimalNumeral assembly.bytes.length)
      (located : address.HexNumeral 4 assembly.origin.toNat) :
      SuccessTold options assembly ("\x1b[32m\x1b[1massembled\x1b[39m\x1b[22m ".toList ++ count ++
        " bytes at $".toList ++ address ++ " -> ".toList ++ options.output ++ "\n".toList)

theorem successTold (options : Options) (assembly : Assembly) :
    SuccessTold options assembly (joinLines [options.successLine assembly]).toList := by
  have told : (joinLines [options.successLine assembly]).toList =
      "\x1b[32m\x1b[1massembled\x1b[39m\x1b[22m ".toList ++ Nat.toDigits 10 assembly.bytes.length ++
        " bytes at $".toList ++ hexWord assembly.origin ++ " -> ".toList ++ options.output ++ "\n".toList := by
    have self : ∀ text : String, toString text = text := fun _ => rfl
    simp [joinLines, Options.successLine, Style.paint, Style.on, Style.off, dollarWord, self]
  rw [told]
  exact .line (toDigits_decimalNumeral _) (hexWord_hexNumeral _)

/-- What a successful command writes, in order: its log, the image, the listing with a note that it is
written, if one is wanted, and the line that tells the success. -/
inductive Sends (system : FileSystem) (options : Options) (source : Text) (assembly : Assembly) (place : Place)
    (line : Text) : List (Place × List UInt8) → Prop where
  | image (silent : options.listing = none) :
      Sends system options source assembly place line
        [(standardError, options.logBytes (assemble options.config source).events),
          (place, assembly.bytes), (standardOutput, Text.toBytes line)]
  | listing {path : Text} {spot : Place} (wanted : options.listing = some path)
      (located : system.locateNew path = .ok spot) :
      Sends system options source assembly place line
        [(standardError, options.logBytes (assemble options.config source).events),
          (place, assembly.bytes), (spot, Text.toBytes assembly.listing),
          (standardError, options.logBytes [.listingWritten path]), (standardOutput, Text.toBytes line)]

/-- The listing goes where the image was written to. -/
def Overlays (system : FileSystem) (options : Options) (place : Place) : Prop :=
  ∃ path, options.listing = some path ∧ system.locateNew path = .ok place

/-- A file holds the image, unless the listing went there too, and a file holds the listing. A stream has
taken what was sent to it after what it had, and everything else is as it was. -/
structure Delivers (system : FileSystem) (options : Options) (assembly : Assembly) (place : Place)
    (pieces : List (Place × List UInt8)) (after : FileSystem) : Prop where
  image : ¬ system.IsStream place → ¬ Overlays system options place →
    after.content? place = some assembly.bytes
  listing : ∀ path, options.listing = some path → ∃ spot, system.locateNew path = .ok spot ∧
    (¬ system.IsStream spot → after.content? spot = some (Text.toBytes assembly.listing))
  stream : ∀ spot, system.IsStream spot →
    after.taken spot = system.taken spot ++ (piecesAt pieces spot).flatten
  kept : ∀ spot, spot ∉ [standardOutput, standardError, place] →
    (∀ path, options.listing = some path → system.locateNew path ≠ .ok spot) →
    after.node? spot = system.node? spot

/-- The command has read and assembled the source, tells how long the image is, and has delivered it. -/
structure Succeeds (system : FileSystem) (options : Options) (source : Text) (assembly : Assembly)
    (place : Place) (line : Text) (pieces : List (Place × List UInt8)) (after : FileSystem) : Prop
    extends Delivers system options assembly place pieces after where
  read : system.source options.input = .ok source
  assembled : (assemble options.config source).outcome = .ok assembly
  located : system.locateNew options.output = .ok place
  told : SuccessTold options assembly line
  sends : Sends system options source assembly place line pieces

theorem Sends.image_last (sends : Sends system options source assembly place line pieces)
    (ready : system.Ready) (files : ¬ system.IsStream place) (apart : ¬ Overlays system options place) :
    (piecesAt pieces place).getLast? = some assembly.bytes := by
  have apartError : standardError ≠ place := fun same => files (same ▸ ⟨_, ready.error⟩)
  have apartOutput : standardOutput ≠ place := fun same => files (same ▸ ⟨_, ready.output⟩)
  cases sends with
  | image => simp [piecesAt, apartError, apartOutput]
  | listing wanted located =>
      have elsewhere : _ ≠ place := fun same => apart ⟨_, wanted, same ▸ located⟩
      simp [piecesAt, apartError, apartOutput, elsewhere]

theorem Sends.listing_last (sends : Sends system options source assembly place line pieces)
    (ready : system.Ready) {path : Text} (wanted : options.listing = some path) :
    ∃ spot, system.locateNew path = .ok spot ∧ (¬ system.IsStream spot →
      (piecesAt pieces spot).getLast? = some (Text.toBytes assembly.listing)) := by
  cases sends with
  | image silent => simp [silent] at wanted
  | @listing _ spot wantedToo located =>
      cases wantedToo.symm.trans wanted
      refine ⟨spot, located, fun files => ?_⟩
      have apartError : standardError ≠ spot := fun same => files (same ▸ ⟨_, ready.error⟩)
      have apartOutput : standardOutput ≠ spot := fun same => files (same ▸ ⟨_, ready.output⟩)
      by_cases overlaid : place = spot <;> simp [piecesAt, apartError, apartOutput, overlaid]

theorem Sends.piecesAt_eq_nil (sends : Sends system options source assembly place line pieces) {spot : Place}
    (outside : spot ∉ [standardOutput, standardError, place])
    (elsewhere : ∀ path, options.listing = some path → system.locateNew path ≠ .ok spot) :
    piecesAt pieces spot = [] := by
  simp only [List.mem_cons, List.not_mem_nil, or_false, not_or] at outside
  cases sends with
  | image => simp [piecesAt, outside, eq_comm]
  | @listing path place wanted located =>
      have apart : spot ≠ place := fun same => elsewhere path wanted (same ▸ located)
      simp [piecesAt, outside, apart, eq_comm]

theorem Sends.delivers (sends : Sends system options source assembly place line pieces)
    (ready : system.Ready) (received : Receives pieces system after) :
    Delivers system options assembly place pieces after where
  image files apart := received.file place _ files (sends.image_last ready files apart)
  listing path wanted := by
    obtain ⟨spot, located, last⟩ := sends.listing_last ready wanted
    exact ⟨spot, located, fun files => received.file spot _ files (last files)⟩
  stream _ streams := received.taken_eq streams
  kept spot outside elsewhere := received.kept spot (sends.piecesAt_eq_nil outside elsewhere)

theorem Lists.sends (lists : Lists options assembly stored last) (ready : system.Ready)
    (received : Receives [(standardError, options.logBytes (assemble options.config source).events),
      (place, assembly.bytes)] system stored)
    (ways : ∀ path spot, stored.locateNew path = .ok spot → system.locateNew path = .ok spot) (text : String) :
    ∃ pieces, Sends system options source assembly place text.toList pieces ∧
      Receives pieces system (last.printed text) := by
  cases lists with
  | unwanted silent => exact ⟨_, .image silent, received.send ⟨_, ready.output⟩⟩
  | written wanted lists =>
      obtain ⟨spot, found, listed, _⟩ := receives_write lists
      exact ⟨_, .listing wanted (ways _ spot found),
        ((received.append listed).send ⟨_, ready.error⟩).send ⟨_, ready.output⟩⟩

end Results

/-- A command that exits with 0 has read and assembled the source, has delivered the listing and the
image, and tells how long the image is. An image that the listing replaces is lost, and the success is
told all the same. -/
theorem successful_run_delivers {system : FileSystem} {arguments : List Text} {options : Options}
    (ready : system.Ready) (parsed : Options.parse arguments = .ok options)
    (succeeded : (runIn system arguments).1 = 0) :
    ∃ source assembly place line pieces,
      Succeeds system options source assembly place line pieces (runIn system arguments).2 := by
  rw [runIn_of_parse parsed] at succeeded ⊢
  obtain ⟨source, assembly, stored, last, read, assembled, stores, lists, result⟩ := execute_eq_zero succeeded
  obtain ⟨place, found, written, same⟩ := receives_write stores
  -- neither the log nor the image changes where a path leads
  have like : system.Like (told system options source) := like_reported ⟨_, ready.error⟩ _
  obtain ⟨pieces, sends, received⟩ := lists.sends ready ((receives_told ready).append written)
    (fun _ _ found => like.sameWays.locateNew_eq_ok_iff.mp (same.locateNew_eq_ok_iff.mp found))
    (joinLines [options.successLine assembly])
  rw [result]
  exact ⟨source, assembly, place, _, pieces, sends.delivers ready received, read, assembled,
    like.sameWays.locateNew_eq_ok_iff.mp found, successTold options assembly, sends⟩

def stocked : FileSystem :=
  (ofInput "here: JMP here".toUTF8.data.toList).add "kept".toList (.file [4, 5])

def stockedArguments : List Text :=
  ["-o".toList, "image".toList, "--listing".toList, "list".toList, "-".toList]

theorem successful_run_delivers_stocked :
    stocked.Ready ∧ (runIn stocked stockedArguments).1 = 0 ∧
      (runIn stocked stockedArguments).2.content? (startDirectory ++ ["image".toList]) =
        some [0x4C, 0x00, 0xC0] ∧
      (runIn stocked stockedArguments).2.node? (startDirectory ++ ["kept".toList]) = some (.file [4, 5]) ∧
      (runIn stocked stockedArguments).2.content? (startDirectory ++ ["list".toList]) =
        some ("Assembly Listing:\nAddress: Machine Code  Assembly\n".toUTF8.data.toList ++
          "--------------------------------------------------\n".toUTF8.data.toList ++
          "$C000:              here:\n$C000: $4C $00 $C0   JMP here\n".toUTF8.data.toList ++
          "--------------------------------------------------\n".toUTF8.data.toList ++
          "3 bytes at $C000, 1 labels\n  here             = $C000\n".toUTF8.data.toList) ∧
      (runIn stocked stockedArguments).2.output =
        "\x1b[32m\x1b[1massembled\x1b[39m\x1b[22m 3 bytes at $C000 -> image\n".toUTF8.data.toList := by
  have ready : stocked.Ready := ((started_ofInput _).add _ _).ready
  have parsed : Options.parse stockedArguments = .ok
      { input := "-".toList, output := "image".toList, config := .default, listing := some "list".toList,
        logLevel := .info } := rfl
  have succeeded : (runIn stocked stockedArguments).1 = 0 := by decide +kernel
  obtain ⟨source, assembly, place, line, pieces, success⟩ := successful_run_delivers ready parsed succeeded
  have given : stocked.source "-".toList = .ok "here: JMP here".toList := rfl
  cases given.symm.trans success.read
  have image : (assemble .default "here: JMP here".toList).outcome.map Assembly.bytes =
      .ok [0x4C, 0x00, 0xC0] := rfl
  have bytes : assembly.bytes = [0x4C, 0x00, 0xC0] :=
    Except.ok.inj ((congrArg _ success.assembled).symm.trans image)
  have located : stocked.locateNew "image".toList = .ok (startDirectory ++ ["image".toList]) := rfl
  cases located.symm.trans success.located
  have elsewhere : stocked.locateNew "list".toList = .ok (startDirectory ++ ["list".toList]) := rfl
  have apart : ∀ name : Text, name ≠ "list".toList → ∀ path, some "list".toList = some path →
      stocked.locateNew path ≠ .ok (startDirectory ++ [name]) := by
    intro name other path wanted found
    cases wanted
    have same := Except.ok.inj (elsewhere.symm.trans found)
    exact other (List.cons.inj (List.append_cancel_left same)).1.symm
  refine ⟨ready, succeeded, ?_, ?_, by decide +kernel, by decide +kernel⟩
  · rw [← bytes]
    refine success.image ?_ ?_
    · rintro ⟨taken, streams⟩
      cases streams
    · rintro ⟨path, wanted, found⟩
      exact apart "image".toList (by decide) path wanted found
  · exact success.kept _ (by decide) (apart "kept".toList (by decide))

def overlaid : FileSystem := ofInput "PHA".toUTF8.data.toList

def overlaidArguments : List Text :=
  ["-o".toList, "x".toList, "-l".toList, "x".toList, "-".toList]

def streamedArguments : List Text :=
  ["-o".toList, "/dev/stdout".toList, "-".toList]

/-- Commands that tell a success without a file that holds the image. The first has replaced it by the
listing. The second has sent it to standard output, before the line that tells so. -/
theorem overlaid_image_lost :
    overlaid.Ready ∧ overlaid.source "-".toList = .ok "PHA".toList ∧
    ∃ assembly, (assemble .default "PHA".toList).outcome = .ok assembly ∧ assembly.bytes = [0x48] ∧
      Options.parse overlaidArguments = .ok
        { input := "-".toList, output := "x".toList, config := .default, listing := some "x".toList,
          logLevel := .info } ∧
      overlaid.locateNew "x".toList = .ok (startDirectory ++ ["x".toList]) ∧
      (runIn overlaid overlaidArguments).1 = 0 ∧
      (runIn overlaid overlaidArguments).2.content? (startDirectory ++ ["x".toList]) =
        some (Text.toBytes assembly.listing) ∧
      Text.toBytes assembly.listing ≠ [0x48] ∧
      Options.parse streamedArguments = .ok
        { input := "-".toList, output := "/dev/stdout".toList, config := .default, listing := none,
          logLevel := .info } ∧
      overlaid.locateNew "/dev/stdout".toList = .ok standardOutput ∧
      (runIn overlaid streamedArguments).1 = 0 ∧
      (runIn overlaid streamedArguments).2.content? standardOutput = none ∧
      (runIn overlaid streamedArguments).2.output = 0x48 ::
        "\x1b[32m\x1b[1massembled\x1b[39m\x1b[22m 1 bytes at $C000 -> /dev/stdout\n".toUTF8.data.toList := by
  refine ⟨(started_ofInput _).ready, rfl, _, rfl, rfl, rfl, rfl, ?_, ?_, ?_, rfl, rfl, ?_, ?_, ?_⟩ <;>
    decide +kernel

end Asm65.Command
