import Asm65.Proofs.Lines
import Asm65.Proofs.Restyling

namespace Asm65

open Outcome

namespace Line

def hasCode (line : Line) : Bool :=
  !(codeOf line.text).isEmpty

/-- The lines with more on them than blanks and a comment. -/
def coded (source : Text) : List Line :=
  (ofSource source).filter hasCode

variable {line other : Line}

theorem hasCode_eq_true_iff : line.hasCode = true ↔ codeOf line.text ≠ [] := by
  simp [hasCode]

theorem hasCode_eq_false_iff : line.hasCode = false ↔ codeOf line.text = [] := by
  simp [hasCode]

def SameText (line other : Line) : Prop :=
  SameCode (codeOf line.text) (codeOf other.text)

theorem reads_of_sameText (same : line.SameText other) (filled : line.hasCode = true)
    (filledToo : other.hasCode = true) : restyling.Reads line other := by
  have alike := Statement.parse_alike same (hasCode_eq_true_iff.mp filled) (hasCode_eq_true_iff.mp filledToo)
  cases first : Statement.parse line.text with
  | error fault =>
      obtain ⟨again, second, _⟩ := alike.of_error first
      exact .unread first second
  | ok statement =>
      obtain ⟨_, second, said, again, rfl, rfl, stated⟩ := alike.of_ok first
      exact .stated first second stated

end Line

/-- Sources whose lines with code differ only in formatting, one by one. -/
def Reformatted (source other : Text) : Prop :=
  List.Forall₂ Line.SameText (Line.coded source) (Line.coded other)

/-- The lines of a source with indentation, comments and empty lines added. -/
inductive Decorates : List Text → List Text → Prop where
  | nil : Decorates [] []
  | empty {texts others : List Text} {remark : Text} (remarked : remark.IsRemark)
      (rest : Decorates texts others) : Decorates texts (remark :: others)
  | line {texts others : List Text} {indent text remark : Text} (blank : indent.IsGap)
      (remarked : remark.IsRemark) (rest : Decorates texts others) :
      Decorates (text :: texts) ((indent ++ (text ++ remark)) :: others)

/-- The text with a carriage return before each line feed. -/
def Text.crlf (text : Text) : Text :=
  text.flatMap fun c => if c = '\n' then ['\r', '\n'] else [c]

/-- The same fault. One that quotes the source quotes each as it is written. -/
inductive Fault.Restyled : Fault → Fault → Prop where
  | same (fault : Fault) : Restyled fault fault
  | unknownMnemonic {text other : Text} (same : text.SameLetters other) :
      Restyled (.unknownMnemonic text) (.unknownMnemonic other)
  | unreadableLine (text other : Text) : Restyled (.unreadableLine text) (.unreadableLine other)

structure Assembly.SameImage (assembly other : Assembly) : Prop where
  origin : other.origin = assembly.origin
  bytes : other.bytes = assembly.bytes
  labels : other.labels = assembly.labels
  entries : List.Forall₂
    (fun entry again => again.address = entry.address ∧ again.label = entry.label ∧ again.bytes = entry.bytes)
    assembly.entries other.entries

/-- Errors at corresponding lines of two sources. -/
def SourceError.SamePlace (source again : Text) (error other : SourceError) : Prop :=
  ∃ pair ∈ (Line.coded source).zip (Line.coded again),
    error.line = pair.1.number ∧ other.line = pair.2.number ∧ error.fault.Restyled other.fault

def AssemblesAlike (config : Config) (source other : Text) : Prop :=
  Alike (SourceError.SamePlace source other) Assembly.SameImage (assemble config source).outcome
    (assemble config other).outcome

section Blank

variable {pass : Pass} {trace : Bool} {progress : Progress} {lines : List Line} {config : Config}

theorem Pass.run_filter_hasCode :
    (pass.run trace (lines.filter Line.hasCode) progress).outcome =
      (pass.run trace lines progress).outcome := by
  induction lines generalizing progress with
  | nil => rfl
  | cons line rest ih =>
      cases filled : line.hasCode with
      | true =>
          rw [List.filter_cons_of_pos filled]
          simp only [run, Logged.outcome_bind, Logged.outcome_map, Logged.outcome_mapError, ih]
      | false =>
          have blank := Statement.parse_eq_ok_none_iff.mpr (Line.hasCode_eq_false_iff.mp filled)
          have stepped : (pass.step trace progress line).outcome = .ok (none, progress) :=
            step_eq_ok_iff.mpr ⟨none, blank, .blank⟩
          rw [List.filter_cons_of_neg (by simp [filled]), ih]
          cases finished : (pass.run trace rest progress).outcome with
          | ok done => exact (run_cons_eq_ok_iff.mpr ⟨none, progress, done.1, stepped, finished, rfl⟩).symm
          | error error => exact (run_cons_eq_error_iff.mpr (.inr ⟨none, progress, stepped, finished⟩)).symm

theorem assembleLines_filter_hasCode :
    assembleLines config (lines.filter Line.hasCode) = assembleLines config lines := by
  simp only [assembleLines, Pass.run_filter_hasCode]

theorem assemble_eq_coded (source : Text) :
    (assemble config source).outcome = assembleLines config (Line.coded source) := by
  rw [assemble_eq_assembleLines, Line.coded, assembleLines_filter_hasCode]

end Blank

section Result

variable {source other : Text} {config : Config}

theorem restyled_of_faultAt {line : Line} {fault cause : Fault} (same : restyling.FaultAt line fault cause) :
    fault.Restyled cause := by
  cases same with
  | unread _ text other => exact .unreadableLine text other
  | origin _ fault => exact .same fault
  | named _ same =>
      cases same with
      | unknownMnemonic letters => exact .unknownMnemonic letters
      | unsupportedMode | unresolvedOperand | valueOutOfRange | duplicateLabel | branchOutOfRange
      | labelMoved => exact .same _

theorem table_restyling (labels : LabelTable) : restyling.table labels = labels := by
  apply LabelTable.eq_of_entries
  simp [Rewording.table, restyling]

theorem sameImage_of_sameAssembly {pairs : List (Line × Line)} {assembly again : Assembly}
    (same : restyling.SameAssembly pairs assembly again) : assembly.SameImage again where
  origin := same.origin
  bytes := same.bytes
  labels := by rw [same.labels, table_restyling]
  entries := by
    refine same.entries.imp fun entry made alike => ?_
    obtain ⟨_, _, alike⟩ := alike
    exact ⟨alike.address, by rw [alike.label]; exact Option.map_id', alike.bytes⟩

theorem assemblesAlike_of_reformatted (reformatted : Reformatted source other) :
    AssemblesAlike config source other := by
  have read : List.Forall₂ restyling.Reads (Line.coded source) (Line.coded other) := by
    obtain ⟨length, each⟩ := List.forall₂_iff_zip.mp reformatted
    refine List.forall₂_iff_zip.mpr ⟨length, fun {line again} member => ?_⟩
    obtain ⟨first, second⟩ := List.of_mem_zip member
    exact Line.reads_of_sameText (each member) (List.mem_filter.mp first).2 (List.mem_filter.mp second).2
  unfold AssemblesAlike
  rw [assemble_eq_coded, assemble_eq_coded]
  refine (Rewording.assembleLines_alike read).imp ?_ ?_
  · rintro error again ⟨pair, member, fault, cause, same, rfl, rfl⟩
    exact ⟨pair, member, rfl, rfl, restyled_of_faultAt same⟩
  · exact fun assembly again same => sameImage_of_sameAssembly same

end Result

section Decoration

variable {source other : Text} {texts others : List Text} {number more : Nat}

theorem Respelt.refl (text : Text) : Respelt text text := by
  induction text with
  | nil => exact .nil
  | cons c text ih => exact .char c ih

theorem Decorates.sameText (decorates : Decorates texts others) :
    List.Forall₂ Line.SameText ((Line.numbered number texts).filter Line.hasCode)
      ((Line.numbered more others).filter Line.hasCode) := by
  induction decorates generalizing number more with
  | nil => exact .nil
  | @empty texts others remark remarked _ ih =>
      have dropped : ¬ Line.hasCode ⟨more, remark⟩ = true := by
        simp [Line.hasCode, codeOf_remark remarked]
      rw [Line.numbered, List.filter_cons_of_neg dropped]
      exact ih
  | @line texts others indent text remark blank remarked _ ih =>
      have code : codeOf (indent ++ (text ++ remark)) = codeOf text := by
        rw [codeOf_gap_append blank, codeOf_append_remark remarked]
      rw [Line.numbered, Line.numbered, List.filter_cons, List.filter_cons]
      have kept : Line.hasCode ⟨more, indent ++ (text ++ remark)⟩ = Line.hasCode ⟨number, text⟩ := by
        simp only [Line.hasCode, code]
      rw [kept]
      split
      · refine .cons ?_ ih
        unfold Line.SameText
        rw [code]
        exact .respelt (.refl _)
      · exact ih

theorem reformatted_of_decorates (decorates : Decorates (Text.lines source) (Text.lines other)) :
    Reformatted source other := by
  unfold Reformatted Line.coded
  rw [Line.ofSource_eq_numbered, Line.ofSource_eq_numbered]
  exact decorates.sameText

theorem lines_crlf (source : Text) :
    List.Forall₂ (fun line again => again = line ∨ again = line ++ ['\r']) (Text.lines source)
      (Text.lines source.crlf) := by
  induction source with
  | nil => exact .nil
  | cons c source ih =>
      change List.Forall₂ _ (Text.pushChar '\n' c (Text.lines source)) _
      by_cases feed : c = '\n'
      · subst feed
        exact .cons (.inr rfl) ih
      · have grown : Text.lines (Text.crlf (c :: source)) =
            Text.pushChar '\n' c (Text.lines (Text.crlf source)) := by
          simp [Text.crlf, feed, Text.lines]
        rw [grown]
        -- the character goes in front of the first line, and the carriage return stays at its end
        simp only [Text.pushChar, if_neg feed]
        generalize Text.lines source = texts at ih ⊢
        generalize Text.lines (Text.crlf source) = others at ih ⊢
        cases ih with
        | nil => exact .cons (.inl rfl) .nil
        | cons first rest =>
            refine .cons ?_ rest
            rcases first with rfl | rfl
            · exact .inl rfl
            · exact .inr rfl

theorem decorates_crlf (source : Text) : Decorates (Text.lines source) (Text.lines source.crlf) := by
  have returned := lines_crlf source
  generalize Text.lines source = texts at returned ⊢
  generalize Text.lines source.crlf = others at returned ⊢
  induction returned with
  | nil => exact .nil
  | @cons text again texts others first _ ih =>
      have nothing : Text.IsGap [] := List.forall_mem_nil _
      rcases first with rfl | rfl
      · have added := @Decorates.line texts others [] again [] nothing ⟨[], nothing, .inl rfl⟩ ih
        rwa [List.nil_append, List.append_nil] at added
      · exact .line nothing ⟨['\r'], by simp [Text.IsGap, isBlank, blankRanges], .inl rfl⟩ ih

end Decoration

/-- Only what a source says counts, never how it is laid out. -/
theorem assembly_reformatted (config : Config) (source other : Text) :
    (Reformatted source other → AssemblesAlike config source other) ∧
      (Decorates (Text.lines source) (Text.lines other) → AssemblesAlike config source other) ∧
      AssemblesAlike config source source.crlf := by
  refine ⟨assemblesAlike_of_reformatted, fun decorates => ?_, ?_⟩
  · exact assemblesAlike_of_reformatted (reformatted_of_decorates decorates)
  · exact assemblesAlike_of_reformatted (reformatted_of_decorates (decorates_crlf source))

def shifting : Text :=
  "loop:  LDA\t($fF),Y ; low\n\n\tasl A\nBNE loop".toList

def shiftingRestyled : Text :=
  "; high\n  loop: lda ($Ff),y\nASL  a;twice\n\n  BNE loop\n".toList

theorem assembly_reformatted_shifting :
    Reformatted shifting shiftingRestyled ∧
      ∃ assembly again, (assemble .default shifting).outcome = .ok assembly ∧
        (assemble .default shiftingRestyled).outcome = .ok again ∧ assembly.SameImage again ∧
        again.bytes = [0xB1, 0xFF, 0x00, 0x0A, 0xD0, 0xFA] := by
  have load : SameCode "loop:  LDA\t($fF),Y".toList "loop: lda ($Ff),y".toList := by
    refine @SameCode.labelled "loop".toList [' ', ' '] [' '] _ _ (by decide) (.inr ⟨by decide, by decide⟩) ?_
    refine @SameInstruction.intro "LDA".toList "lda".toList _ _ (by decide) (by decide) rfl ?_ ?_ nofun
      nofun ?_
    · rintro _ ⟨⟩
      rfl
    · rintro _ ⟨⟩
      rfl
    refine .respelt (@Respelt.blanks ['\t'] [' '] _ _ (by decide) (by decide) (.char '(' ?_))
    refine @Respelt.digits "fF".toList "Ff".toList _ _ (by decide) (by decide) rfl (.char ')' ?_)
    exact @Respelt.register [] [] [] [] .y 'Y' 'y' (.inl ⟨rfl, rfl⟩) (by decide) (by decide) nofun nofun .nil
  have shift : SameCode "asl A".toList "ASL  a".toList := by
    refine .instruction ?_
    refine @SameInstruction.intro "asl".toList "ASL".toList _ _ (by decide) (by decide) rfl ?_ ?_ nofun
      nofun ?_
    · rintro _ ⟨⟩
      rfl
    · rintro _ ⟨⟩
      rfl
    exact @RespeltOperand.accumulator [' '] [' ', ' '] 'A' 'a' (by decide) (by decide) (by decide) (by decide)
  have reformatted : Reformatted shifting shiftingRestyled :=
    .cons load (.cons shift (.cons (.respelt (.refl "BNE loop".toList)) .nil))
  refine ⟨reformatted, ?_⟩
  have alike := (assembly_reformatted .default shifting shiftingRestyled).1 reformatted
  have image : (assemble .default shifting).outcome.map Assembly.bytes =
      .ok [0xB1, 0xFF, 0x00, 0x0A, 0xD0, 0xFA] := by
    decide +kernel
  obtain ⟨assembly, assembled, bytes⟩ := map_eq_ok_iff.mp image
  obtain ⟨again, assembledToo, same⟩ := alike.of_ok assembled
  exact ⟨assembly, again, assembled, assembledToo, same, same.bytes.trans bytes⟩

end Asm65
