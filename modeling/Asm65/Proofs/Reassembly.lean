import Asm65.Proofs.Backward
import Asm65.Proofs.Placement

namespace Asm65

namespace Assembly

/-- A line of source that stands at the given address. -/
def placedLines (address : UInt16) (text : Text) : List Text :=
  ["* = ".toList ++ dollarWord address, text]

def sourceLines (assembly : Assembly) : List Text :=
  (assembly.labels.entries.flatMap fun (name, address) => placedLines address (name ++ [':'])) ++
    assembly.entries.flatMap fun entry => placedLines entry.address entry.text

/-- The assembly as source text: the labels and then the entries, each at its address. -/
def source (assembly : Assembly) : Text :=
  assembly.sourceLines.flatMap (· ++ ['\n'])

end Assembly

/-- What an entry puts where, apart from the line and the label it had in the source. -/
def Entry.content (entry : Entry) : UInt16 × Text × List UInt8 :=
  (entry.address, entry.text, entry.bytes)

namespace Text

variable {line text rest : Text} {texts : List Text} {c : Char}

theorem lines_append (single : '\n' ∉ line) : lines (line ++ '\n' :: rest) = line :: lines rest := by
  induction line with
  | nil => rfl
  | cons c line ih =>
      obtain ⟨differs, single⟩ := not_or.mp (mt List.mem_cons.mpr single)
      change pushChar '\n' c (lines (line ++ '\n' :: rest)) = _
      simp [ih single, pushChar, Ne.symm differs]

theorem lines_of_terminated (single : ∀ line ∈ texts, '\n' ∉ line) :
    lines (texts.flatMap (· ++ ['\n'])) = texts := by
  induction texts with
  | nil => rfl
  | cons line texts ih =>
      obtain ⟨first, later⟩ := List.forall_mem_cons.mp single
      rw [List.flatMap_cons, List.append_assoc, List.singleton_append, lines_append first, ih later]

theorem newline_not_mem_of_mem_lines (member : line ∈ lines text) : '\n' ∉ line := by
  induction text generalizing line with
  | nil => simp [lines] at member
  | cons c text ih =>
      change line ∈ pushChar '\n' c (lines text) at member
      unfold pushChar at member
      split at member
      next =>
          rcases List.mem_cons.mp member with rfl | later
          · exact List.not_mem_nil
          · exact ih later
      next differs =>
          split at member
          next =>
              cases List.mem_singleton.mp member
              simpa using Ne.symm differs
          next piece rest pieces =>
              rcases List.mem_cons.mp member with rfl | later
              · have whole := ih (pieces ▸ List.mem_cons_self)
                exact mt List.mem_cons.mp (not_or.mpr ⟨Ne.symm differs, whole⟩)
              · exact ih (pieces ▸ List.mem_cons_of_mem _ later)

end Text

theorem Text.IsRun.not_mem {belongs : Char → Bool} {text : Text} {c : Char}
    (run : text.IsRun belongs) (foreign : belongs c = false) : c ∉ text := by
  intro member
  simp [run.2 c member] at foreign

theorem newline_not_mem_dollarWord (word : UInt16) : '\n' ∉ dollarWord word := by
  have digits := (hexWord_isRun word).not_mem (by decide : isHexDigit '\n' = false)
  simpa [dollarWord] using digits

namespace Statement

theorem parse_directive {value : Text} (numeral : value.IsDollarNumeral ∨ value.IsRun isHexDigit) :
    parse ("* = ".toList ++ value) = .ok (some (.origin value)) := by
  have filled : value ≠ [] := by
    rcases numeral with ⟨digits, rfl, _⟩ | run
    · exact List.cons_ne_nil _ _
    · exact run.1
  have solid : ∀ c ∈ value, c ≠ ';' ∧ isBlank c = false := by
    have named : ∀ c, isHexDigit c = true → c ≠ ';' ∧ isBlank c = false := fun c digit =>
      ⟨by rintro rfl; contradiction, isBlank_eq_false_of_isNameChar (isNameChar_of_isHexDigit digit)⟩
    rcases numeral with ⟨digits, rfl, run⟩ | run
    · exact List.forall_mem_cons.mpr ⟨by decide, fun c member => named c (run.2 c member)⟩
    · exact fun c member => named c (run.2 c member)
  have written : (origin value).Written ("* = ".toList ++ value) := by
    have blank : Text.IsGap [' '] := by
      rintro c ⟨⟩
      · decide
      · contradiction
    exact .origin blank blank numeral
  have code : codeOf ("* = ".toList ++ value) = "* = ".toList ++ value := by
    refine codeOf_eq_self ?_ (fun c first => ?_) (fun c last => ?_)
    · have plain : ';' ∉ value := fun member => (solid ';' member).1 rfl
      simpa using plain
    · cases first
      decide
    · have ended := List.getLast?_eq_some_getLast filled
      rw [List.getLast?_append, ended, Option.some_or] at last
      cases last
      exact (solid _ (List.getLast_mem filled)).2
  exact parse_of_written (code.symm ▸ written)

theorem parse_labelLine {name : Text} (word : name.IsRun isNameChar) :
    parse (name ++ [':']) = .ok (some (.label name)) := by
  have code : codeOf (name ++ [':']) = name ++ [':'] := by
    refine codeOf_eq_self ?_ (fun c first => ?_) (fun c last => ?_)
    · have plain := word.not_mem (by decide : isNameChar ';' = false)
      simpa using plain
    · obtain ⟨d, rest, rfl, named, _⟩ := word.exists_cons
      cases first
      exact isBlank_eq_false_of_isNameChar named
    · simp only [List.getLast?_append, List.getLast?_singleton, Option.some_or,
        Option.some.injEq] at last
      subst last
      decide
  exact parse_of_written (code.symm ▸ .label word)

/-- The text of an instruction, without the label and the comment on its line, is read as before. -/
theorem parse_instructionText {line : Text} {label : Option Text} {body : Instruction}
    (read : parse line = .ok (some (.instruction label body))) :
    parse body.text = .ok (some (.instruction none body)) := by
  obtain ⟨written, ends⟩ := (written_of_parse read).of_instruction
  obtain ⟨c, rest, text, named⟩ := written.head
  have code : codeOf body.text = body.text := by
    refine codeOf_eq_self (fun comment => ?_) (fun d first => ?_) (fun d last => ?_)
    · exact (mem_of_mem_codeOf (ends.mem comment)).2 rfl
    · rw [text] at first
      cases first
      exact isBlank_eq_false_of_isNameChar named
    · obtain ⟨before, split⟩ := ends
      have lastCode : (codeOf line).getLast? = some d := by
        rw [← split, List.getLast?_append, last, Option.some_or]
      exact codeOf_last lastCode
  exact parse_of_written (code.symm ▸ .instruction written)

end Statement

/-- An entry that its text, put at its address, makes again. -/
structure Entry.Repeats (known : LabelTable) (entry : Entry) (body : Instruction) : Prop where
  text : body.text = entry.text
  read : Statement.parse entry.text = .ok (some (.instruction none body))
  encoded : body.encode (.complete known) entry.address = .ok entry.bytes
  room : entry.address.toNat + entry.bytes.length ≤ 0x10000

variable {config : Config} {source : Text} {assembly : Assembly} {known : LabelTable} {pass : Pass}
  {progress last : Progress} {trace : Bool} {lines : List Line} {entries : List Entry}

/-- With all labels bound, the survey encodes what the final pass encodes. -/
theorem Instruction.encode_growing_of_complete {body : Instruction} {here : UInt16}
    {bytes : List UInt8} (encoded : body.encode (.complete known) here = .ok bytes) :
    body.encode (.growing known) here = .ok bytes := by
  rw [← encode_complete_eq_growing (.refl known) fun text takes named => ?_, encoded]
  obtain ⟨value, _, valued⟩ := encode_length encoded
  have means := (Operand.means_of_valueOf (valued text takes)).1
  simp only [LabelTable.meaning?, named, Option.map_eq_some_iff] at means
  obtain ⟨address, bound, _⟩ := means
  exact LabelTable.mem_names_iff.mpr ⟨address, bound⟩

namespace Pass

theorem step_directive {line : Line} {value : Text} {address : UInt16}
    (numeral : value.IsDollarNumeral ∨ value.IsRun isHexDigit)
    (valued : valueOf value .word (.complete .empty) 0 = .ok address)
    (anchor : line.text = "* = ".toList ++ value) :
    (pass.step trace progress line).outcome = .ok (none, { progress with pc := address.toNat }) := by
  refine step_eq_ok_iff.mpr ⟨some (.origin value), ?_, .origin valued⟩
  rw [anchor, Statement.parse_directive numeral]

theorem step_originLine {line : Line} {address : UInt16}
    (anchor : line.text = "* = ".toList ++ dollarWord address) :
    (pass.step trace progress line).outcome = .ok (none, { progress with pc := address.toNat }) := by
  have valued : valueOf (dollarWord address) .word (.complete .empty) 0 = .ok address := by
    rw [valueOf_literal (literalValue?_dollarWord address), Width.word_fit_toNat]
  exact step_directive (.inl ⟨_, rfl, hexWord_isRun address⟩) valued anchor

/-- A line that makes its entry at the address set on the line before. -/
theorem run_placed {first second : Line} {address : UInt16} {statement : Statement}
    {entry : Option Entry} {next : Progress} {made : List Entry}
    (anchor : first.text = "* = ".toList ++ dollarWord address)
    (read : Statement.parse second.text = .ok (some statement))
    (advances : pass.Advances second.number { progress with pc := address.toNat } (some statement)
      entry next)
    (remaining : (pass.run trace lines next).outcome = .ok (made, last)) :
    (pass.run trace (first :: second :: lines) progress).outcome =
      .ok (entry.toList ++ made, last) :=
  run_cons_eq_ok_iff.mpr ⟨none, _, _, step_originLine anchor,
    run_cons_eq_ok_iff.mpr ⟨entry, next, made, step_eq_ok_iff.mpr ⟨_, read, advances⟩, remaining, rfl⟩,
    rfl⟩

theorem run_labels {bindings : List (Text × UInt16)} (settled : ∀ other, pass = .final other → other = known)
    (words : ∀ name ∈ known.names, name.IsRun isNameChar)
    (remain : progress.labels.entries ++ bindings = known.entries)
    (texts : lines.map Line.text =
      bindings.flatMap fun (name, address) => Assembly.placedLines address (name ++ [':'])) :
    ∃ pc, (pass.run trace lines progress).outcome = .ok ([], { pc, labels := known }) := by
  induction bindings generalizing lines progress with
  | nil =>
      obtain rfl := List.map_eq_nil_iff.mp texts
      rw [List.append_nil] at remain
      cases LabelTable.eq_of_entries remain
      exact ⟨progress.pc, run_nil_eq_ok_iff.mpr ⟨rfl, rfl⟩⟩
  | cons binding bindings ih =>
      obtain ⟨name, address⟩ := binding
      obtain ⟨first, lines, rfl, anchor, texts⟩ := List.map_eq_cons_iff.mp texts
      obtain ⟨second, lines, rfl, label, texts⟩ := List.map_eq_cons_iff.mp texts
      have listed : (name, address) ∈ known.entries := by simp [← remain]
      -- the labels bound so far are the known ones up to this binding, so the name is new
      have distinct : (progress.labels.names ++ name :: bindings.map Prod.fst).Nodup := by
        have := known.nodup
        rw [← remain, List.map_append] at this
        exact this
      obtain ⟨_, tail, apart⟩ := List.nodup_append.mp distinct
      have fresh : name ∉ progress.labels.names :=
        fun member => apart name member name List.mem_cons_self rfl
      obtain ⟨labels, binds, grown⟩ := @bindLabel?_of_fresh pass address progress.labels (some name) (by
        rintro _ ⟨⟩
        refine ⟨fresh, confirm_eq_ok_iff.mpr fun other final found bound => ?_⟩
        rw [settled other final, LabelTable.get?_eq_some_iff.mpr listed] at bound
        exact (Option.some.inj bound).symm)
      have word := words name (List.mem_map_of_mem listed)
      have read : Statement.parse second.text = .ok (some (.label name)) := by
        rw [label, Statement.parse_labelLine word]
      obtain ⟨pc, remaining⟩ := @ih { pc := address.toNat, labels } lines
        (by rw [grown, List.append_assoc, ← remain]; rfl) texts
      exact ⟨pc, run_placed anchor read (.label rfl binds) remaining⟩

theorem run_entries (settled : ∀ other, pass = .final other → other = known)
    (repeats : ∀ entry ∈ entries, ∃ body, entry.Repeats known body) (pc : Nat)
    (texts : lines.map Line.text =
      entries.flatMap fun entry => Assembly.placedLines entry.address entry.text) :
    ∃ made last, (pass.run trace lines { pc, labels := known }).outcome = .ok (made, last) ∧
      last.labels = known ∧ made.map Entry.content = entries.map Entry.content := by
  induction entries generalizing lines pc with
  | nil =>
      obtain rfl := List.map_eq_nil_iff.mp texts
      exact ⟨[], _, run_nil_eq_ok_iff.mpr ⟨rfl, rfl⟩, rfl, rfl⟩
  | cons entry entries ih =>
      obtain ⟨first, lines, rfl, anchor, texts⟩ := List.map_eq_cons_iff.mp texts
      obtain ⟨second, lines, rfl, text, texts⟩ := List.map_eq_cons_iff.mp texts
      obtain ⟨⟨body, again⟩, repeats⟩ := List.forall_mem_cons.mp repeats
      have encoded : body.encode (pass.view known) entry.address = .ok entry.bytes := by
        cases pass with
        | survey => exact Instruction.encode_growing_of_complete again.encoded
        | final other => exact settled other rfl ▸ again.encoded
      obtain ⟨made, last, remaining, labels, same⟩ :=
        ih repeats (entry.address.toNat + entry.bytes.length) texts
      refine ⟨_, last, run_placed anchor (text ▸ again.read) (.instruction rfl rfl encoded again.room)
        remaining, labels, ?_⟩
      simp [same, Entry.content, again.text]

theorem repeats_of_mem_entries {made : Entry}
    (finished : ((Pass.final known).run trace lines progress).outcome = .ok (entries, last))
    (member : made ∈ entries) : ∃ body, made.Repeats known body := by
  obtain ⟨visit, _, _, _, read, advances⟩ := visit_of_mem_entries finished member
  cases advances with
  | instruction placed binds encoded room =>
      exact ⟨_, rfl, Statement.parse_instructionText read, encoded, placed ▸ room⟩

theorem newline_not_mem_entry_text {made : Entry}
    (finished : (pass.walk config source).outcome = .ok (entries, last)) (member : made ∈ entries) :
    '\n' ∉ made.text := by
  obtain ⟨visit, reached, _, _, read, advances⟩ := visit_of_mem_entries finished member
  cases advances with
  | instruction placed binds encoded room =>
      intro newline
      obtain ⟨_, ends⟩ := (Statement.written_of_parse read).of_instruction
      have inLine := (mem_of_mem_codeOf (ends.mem newline)).1
      have among : visit.line.text ∈ Text.lines source := by
        rw [← Line.ofSource_texts]
        exact List.mem_map_of_mem (line_of_mem_trail reached)
      exact Text.newline_not_mem_of_mem_lines among inLine

end Pass

theorem Line.isRun_of_label? {line : Line} {name : Text} (named : line.label? = some name) :
    name.IsRun isNameChar := by
  obtain ⟨statement, stated, named⟩ := Option.bind_eq_some_iff.mp named
  have written := Statement.written_of_parse (parse_of_statement? stated)
  generalize codeOf line.text = text at written
  cases written with
  | origin => cases named
  | label word =>
      cases named
      exact word
  | instruction => cases named
  | labelled word =>
      cases named
      exact word

theorem Assembly.lines_source (words : ∀ name ∈ assembly.labels.names, name.IsRun isNameChar)
    (single : ∀ entry ∈ assembly.entries, '\n' ∉ entry.text) :
    Text.lines assembly.source = assembly.sourceLines := by
  have placed : ∀ {address text line}, '\n' ∉ text → line ∈ placedLines address text → '\n' ∉ line := by
    intro address text line single member
    rcases List.mem_cons.mp member with rfl | member
    · simp [newline_not_mem_dollarWord]
    · cases List.mem_singleton.mp member
      exact single
  refine Text.lines_of_terminated fun line member => ?_
  rcases List.mem_append.mp member with label | entry
  · obtain ⟨⟨name, address⟩, listed, among⟩ := List.mem_flatMap.mp label
    refine placed ?_ among
    have word := (words name (List.mem_map_of_mem listed)).not_mem (by decide : isNameChar '\n' = false)
    simpa using word
  · obtain ⟨entry, listed, among⟩ := List.mem_flatMap.mp entry
    exact placed (single entry listed) among

/-- The labels and entries of an assembly, written as source text, assemble to the same image: the same
bytes at the same addresses, with the same labels and the same entries. -/
theorem assembly_reassembles (assembled : (assemble config source).outcome = .ok assembly) :
    ∃ again, (assemble config assembly.source).outcome = .ok again ∧
      again.bytes = assembly.bytes ∧ again.origin = assembly.origin ∧
      again.labels = assembly.labels ∧
      again.entries.map Entry.content = assembly.entries.map Entry.content := by
  obtain ⟨_, _, _, passes⟩ := passes_of_assemble assembled
  have words : ∀ name ∈ assembly.labels.names, name.IsRun isNameChar := by
    intro name listed
    rw [← passes.lastLabels, Pass.walk_names passes.final] at listed
    obtain ⟨line, _, named⟩ := List.mem_filterMap.mp listed
    exact Line.isRun_of_label? named
  have texts : (Line.ofSource assembly.source).map Line.text = assembly.sourceLines := by
    rw [Line.ofSource_texts]
    exact assembly.lines_source words fun entry member =>
      Pass.newline_not_mem_entry_text passes.final member
  -- either pass binds all labels first and then makes the entries
  have walks : ∀ pass : Pass, (∀ other, pass = .final other → other = assembly.labels) →
      ∃ entries last, (pass.walk config assembly.source).outcome = .ok (entries, last) ∧
        last.labels = assembly.labels ∧
        entries.map Entry.content = assembly.entries.map Entry.content := by
    intro pass settled
    obtain ⟨labelLines, entryLines, split, labels, entries⟩ := List.map_eq_append_iff.mp texts
    obtain ⟨pc, bound⟩ := @Pass.run_labels _ pass (.start config) config.trace labelLines _ settled words
      rfl labels
    obtain ⟨made, last, finished, kept, same⟩ := Pass.run_entries settled
      (fun entry member => Pass.repeats_of_mem_entries passes.final member) pc entries
    refine ⟨made, last, ?_, kept, same⟩
    rw [Pass.walk, split]
    exact Pass.run_append bound finished
  obtain ⟨surveyed, found, first, foundLabels, _⟩ := walks .survey (by
    intro other final
    cases final)
  obtain ⟨entries, last, finished, lastLabels, contents⟩ := walks (.final found.labels) (by
    rintro _ ⟨⟩
    exact foundLabels)
  refine ⟨_, assemble_eq_ok_iff.mpr ⟨surveyed, found, entries, last, first, finished, rfl⟩, ?_, ?_,
    lastLabels, contents⟩
  · have bytes := congrArg (List.flatMap fun content => content.2.2) contents
    rw [passes.bytes]
    simpa [List.flatMap_map, Entry.content, Assembly.ofEntries] using bytes
  · have heads := congrArg (fun contents => (contents.head?.map Prod.fst).getD config.origin) contents
    rw [passes.origin]
    simpa [Function.comp_def, Entry.content, Assembly.ofEntries] using heads

theorem assembly_reassembles_drifting :
    (assemble .default drifting).outcome = .ok driftingAssembly ∧
    driftingAssembly.source =
      ("* = $0080\nstart:\n* = $C00B\nend:\n* = $C00B\ndata:\n" ++
        "* = $0080\nLDA data\n* = $0083\nBNE start\n* = $C000\nLDX #$0A\n* = $C002\nSTA start,X\n" ++
        "* = $C004\nLDA (start), y\n* = $C007\nASL a\n* = $C008\nJMP end\n* = $C00B\nRTS\n").toList ∧
    ∃ again, (assemble .default driftingAssembly.source).outcome = .ok again ∧
      again.bytes = driftingAssembly.bytes ∧ again.origin = 0x80 ∧
      again.labels = driftingAssembly.labels ∧
      again.entries.map Entry.content = driftingAssembly.entries.map Entry.content :=
  ⟨assemble_drifting, by decide +kernel, assembly_reassembles assemble_drifting⟩

end Asm65
