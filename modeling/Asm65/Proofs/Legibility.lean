import Asm65.Listing
import Asm65.Proofs.Reassembly
import Mathlib.Data.List.Forall2

namespace Asm65

/-! A listing tells everything about an assembly but the numbers of the source lines. Its rows can be told
apart by how they begin, and each row by its columns: addresses and bytes have a fixed width, names hold no
space, and the text of an instruction comes last. -/

section Columns

variable {text other : Text} {width : Nat}

theorem Text.takeWhile_padRight (solid : ' ' ∉ text) :
    (Text.padRight width text).takeWhile (· != ' ') = text := by
  have kept : ∀ c ∈ text, (c != ' ') = true := by
    intro c member
    rw [bne_iff_ne]
    rintro rfl
    exact solid member
  rw [Text.padRight, List.takeWhile_append_of_pos kept]
  cases width - text.length with
  | zero => exact List.append_nil text
  | succ count => exact List.append_nil text

theorem Text.padRight_injective (solid : ' ' ∉ text) (solidToo : ' ' ∉ other)
    (same : Text.padRight width text = Text.padRight width other) : text = other := by
  rw [← Text.takeWhile_padRight solid, same, Text.takeWhile_padRight solidToo]

theorem Text.length_padRight (fits : text.length ≤ width) : (Text.padRight width text).length = width := by
  simp only [Text.padRight, List.length_append, List.length_replicate]
  omega

theorem hexByte_injective {byte again : UInt8} (same : hexByte byte = hexByte again) : byte = again := by
  rw [← UInt8.toNat_inj, ← (hexByte_hexNumeral byte).value, same, (hexByte_hexNumeral again).value]

theorem dollarWord_injective {word again : UInt16} (same : dollarWord word = dollarWord again) :
    word = again := by
  have value := literalValue?_dollarWord word
  rw [same, literalValue?_dollarWord, Option.some.injEq] at value
  exact UInt16.toNat_inj.mp value.symm

end Columns

/-- An entry whose row can be read back. -/
structure Entry.Legible (entry : Entry) : Prop where
  filled : entry.bytes ≠ []
  short : entry.bytes.length ≤ 3
  single : '\n' ∉ entry.text
  named : ∀ name, entry.label = some name → name.IsRun isNameChar

/-- Entries that differ in the number of their source line at most. -/
structure Entry.SameRow (entry other : Entry) : Prop where
  address : entry.address = other.address
  label : entry.label = other.label
  text : entry.text = other.text
  bytes : entry.bytes = other.bytes

structure Assembly.Legible (assembly : Assembly) : Prop where
  entries : ∀ entry ∈ assembly.entries, entry.Legible
  names : ∀ name ∈ assembly.labels.names, name.IsRun isNameChar
  bytes : assembly.bytes = assembly.entries.flatMap Entry.bytes

namespace Listing

variable {bytes others : List UInt8} {entry other : Entry} {name again : Text} {address place : UInt16}
  {rest later : List Text}

def nextByte (byte : UInt8) : Text :=
  ' ' :: '$' :: hexByte byte

def labelRow (address : UInt16) (name : Text) : Text :=
  dollarWord address ++ [':'] ++ List.replicate 14 ' ' ++ name ++ [':']

def row (entry : Entry) : Text :=
  dollarWord entry.address ++ ": ".toList ++ Text.padRight 12 (byteColumn entry.bytes) ++
    "  ".toList ++ entry.text

theorem entryLines_of_none (unnamed : entry.label = none) : entryLines entry = [row entry] := by
  simp only [entryLines, unnamed, Option.toList_none, List.map_nil, List.nil_append, row]

theorem entryLines_of_some (named : entry.label = some name) :
    entryLines entry = [labelRow entry.address name, row entry] := by
  simp only [entryLines, named, Option.toList_some, List.map_singleton, List.singleton_append, labelRow, row]

theorem byteColumn_cons (byte : UInt8) (bytes : List UInt8) :
    byteColumn (byte :: bytes) = '$' :: hexByte byte ++ bytes.flatMap nextByte := by
  induction bytes generalizing byte with
  | nil => rfl
  | cons next bytes ih =>
      have step : byteColumn (byte :: next :: bytes) =
          '$' :: hexByte byte ++ [' '] ++ byteColumn (next :: bytes) := List.intercalate_cons_cons
      rw [step, ih, List.flatMap_cons, List.append_assoc]
      rfl

theorem length_flatMap_nextByte (bytes : List UInt8) :
    (bytes.flatMap nextByte).length = 4 * bytes.length := by
  induction bytes with
  | nil => rfl
  | cons byte bytes ih =>
      rw [List.flatMap_cons, List.length_append, ih, List.length_cons, Nat.mul_succ, Nat.add_comm]
      rfl

/-- No instruction has more bytes than its column has room for. -/
theorem length_byteColumn_le (short : bytes.length ≤ 3) : (byteColumn bytes).length ≤ 12 := by
  cases bytes with
  | nil => exact Nat.zero_le 12
  | cons byte bytes =>
      rw [List.length_cons] at short
      rw [byteColumn_cons, List.length_append, length_flatMap_nextByte]
      change 3 + 4 * bytes.length ≤ 12
      omega

/-- A dollar sign stands before each byte and in none of the spaces that fill the column. -/
theorem bytes_of_column {count more : Nat}
    (same : bytes.flatMap nextByte ++ List.replicate count ' ' =
      others.flatMap nextByte ++ List.replicate more ' ') : bytes = others := by
  have spaces : ∀ {count : Nat} {byte : UInt8} {tail : Text},
      List.replicate count ' ' ≠ nextByte byte ++ tail := by
    intro count byte tail filled
    have dollar : '$' ∈ List.replicate count ' ' := filled ▸ by simp [nextByte]
    simp at dollar
  induction bytes generalizing others with
  | nil =>
      cases others with
      | nil => rfl
      | cons byte others =>
          rw [List.flatMap_cons, List.append_assoc] at same
          exact absurd same spaces
  | cons byte bytes ih =>
      cases others with
      | nil =>
          rw [List.flatMap_cons, List.append_assoc] at same
          exact absurd same.symm spaces
      | cons next others =>
          rw [List.flatMap_cons, List.flatMap_cons, List.append_assoc, List.append_assoc] at same
          obtain ⟨first, remaining⟩ := List.append_inj same rfl
          simp only [nextByte, List.cons.injEq, true_and] at first
          rw [hexByte_injective first, ih remaining]

theorem byteColumn_injective (filled : bytes ≠ []) (filledToo : others ≠ [])
    (same : Text.padRight 12 (byteColumn bytes) = Text.padRight 12 (byteColumn others)) :
    bytes = others := by
  obtain ⟨byte, bytes, rfl⟩ := List.exists_cons_of_ne_nil filled
  obtain ⟨next, others, rfl⟩ := List.exists_cons_of_ne_nil filledToo
  rw [Text.padRight, Text.padRight, byteColumn_cons, byteColumn_cons, List.append_assoc,
    List.append_assoc] at same
  obtain ⟨first, remaining⟩ := List.append_inj same rfl
  simp only [List.cons.injEq, true_and] at first
  rw [hexByte_injective first, bytes_of_column remaining]

/-- Every column before the text has its width whatever stands in it, and so the text is what is left. -/
theorem row_injective (legible : entry.Legible) (legibleToo : other.Legible) (same : row entry = row other) :
    entry.address = other.address ∧ entry.bytes = other.bytes ∧ entry.text = other.text := by
  have width : ∀ {entry : Entry}, entry.Legible →
      (Text.padRight 12 (byteColumn entry.bytes)).length = 12 := fun legible =>
    Text.length_padRight (length_byteColumn_le legible.short)
  simp only [row, List.append_assoc] at same
  obtain ⟨address, same⟩ := List.append_inj same rfl
  obtain ⟨bytes, same⟩ := List.append_inj (List.append_cancel_left same)
    ((width legible).trans (width legibleToo).symm)
  exact ⟨dollarWord_injective address, byteColumn_injective legible.filled legibleToo.filled bytes,
    List.append_cancel_left same⟩

theorem labelRow_injective (same : labelRow address name = labelRow place again) : name = again := by
  simp only [labelRow, List.append_assoc] at same
  obtain ⟨_, same⟩ := List.append_inj same rfl
  exact List.append_cancel_right (List.append_cancel_left (List.append_cancel_left same))

/-- After the address a label is indented further than the first byte of an entry. -/
theorem labelRow_ne_row (filled : entry.bytes ≠ []) : labelRow address name ≠ row entry := by
  obtain ⟨byte, bytes, made⟩ := List.exists_cons_of_ne_nil filled
  intro same
  simp only [labelRow, row, made, Text.padRight, byteColumn_cons, List.append_assoc] at same
  obtain ⟨_, same⟩ := List.append_inj same rfl
  simp [List.replicate_succ] at same

/-- Every row begins with the dollar sign of an address. -/
theorem dollar_cons_ne_rule (tail : Text) : '$' :: tail ≠ rule := by
  intro same
  have first : '$' = '-' := (List.cons.inj same).1
  exact absurd first (by decide)

theorem sameRow_of_entryLines (legible : entry.Legible) (legibleToo : other.Legible)
    (same : entryLines entry ++ rest = entryLines other ++ later) :
    entry.SameRow other ∧ rest = later := by
  cases named : entry.label with
  | none =>
      rw [entryLines_of_none named] at same
      cases namedToo : other.label with
      | none =>
          rw [entryLines_of_none namedToo] at same
          obtain ⟨entryRow, rest⟩ := List.cons.inj same
          obtain ⟨address, bytes, text⟩ := row_injective legible legibleToo entryRow
          exact ⟨⟨address, named.trans namedToo.symm, text, bytes⟩, rest⟩
      | some again =>
          rw [entryLines_of_some namedToo] at same
          exact absurd (List.cons.inj same).1.symm (labelRow_ne_row legible.filled)
  | some name =>
      rw [entryLines_of_some named] at same
      cases namedToo : other.label with
      | none =>
          rw [entryLines_of_none namedToo] at same
          exact absurd (List.cons.inj same).1 (labelRow_ne_row legibleToo.filled)
      | some again =>
          rw [entryLines_of_some namedToo] at same
          obtain ⟨labels, same⟩ := List.cons.inj same
          obtain ⟨entryRow, rest⟩ := List.cons.inj same
          obtain ⟨address, bytes, text⟩ := row_injective legible legibleToo entryRow
          have label : entry.label = other.label := by
            rw [named, namedToo, labelRow_injective labels]
          exact ⟨⟨address, label, text, bytes⟩, rest⟩

theorem head?_entryLines_ne_rule (entry : Entry) (rest : List Text) :
    (entryLines entry ++ rest).head? ≠ some rule := by
  intro first
  cases named : entry.label with
  | none =>
      rw [entryLines_of_none named] at first
      exact dollar_cons_ne_rule _ (Option.some.inj first)
  | some name =>
      rw [entryLines_of_some named] at first
      exact dollar_cons_ne_rule _ (Option.some.inj first)

/-- All entries are read back from a listing; the rule marks where they end. -/
theorem sameRows_of_lines {entries others : List Entry} (legible : ∀ entry ∈ entries, entry.Legible)
    (legibleToo : ∀ other ∈ others, other.Legible)
    (same : entries.flatMap entryLines ++ rule :: rest = others.flatMap entryLines ++ rule :: later) :
    List.Forall₂ Entry.SameRow entries others ∧ rest = later := by
  induction entries generalizing others with
  | nil =>
      cases others with
      | nil => exact ⟨.nil, (List.cons.inj same).2⟩
      | cons other others =>
          rw [List.flatMap_cons, List.append_assoc] at same
          exact absurd (congrArg List.head? same).symm (head?_entryLines_ne_rule _ _)
  | cons entry entries ih =>
      cases others with
      | nil =>
          rw [List.flatMap_cons, List.append_assoc] at same
          exact absurd (congrArg List.head? same) (head?_entryLines_ne_rule _ _)
      | cons other others =>
          obtain ⟨first, legible⟩ := List.forall_mem_cons.mp legible
          obtain ⟨firstToo, legibleToo⟩ := List.forall_mem_cons.mp legibleToo
          rw [List.flatMap_cons, List.flatMap_cons, List.append_assoc, List.append_assoc] at same
          obtain ⟨row, same⟩ := sameRow_of_entryLines first firstToo same
          obtain ⟨rows, same⟩ := ih legible legibleToo same
          exact ⟨.cons row rows, same⟩

/-- The name of a label may be wider than its column, but it holds no space. -/
theorem labelLine_injective {binding another : Text × UInt16} (word : binding.1.IsRun isNameChar)
    (wordToo : another.1.IsRun isNameChar) (same : labelLine binding = labelLine another) :
    binding = another := by
  obtain ⟨same, address⟩ := List.append_inj' same rfl
  simp only [List.append_assoc] at same
  have name := Text.padRight_injective (word.not_mem (by decide)) (wordToo.not_mem (by decide))
    (List.append_cancel_right (List.append_cancel_left same))
  exact Prod.ext name (dollarWord_injective address)

theorem bindings_of_lines {bindings others : List (Text × UInt16)}
    (words : ∀ name ∈ bindings.map Prod.fst, name.IsRun isNameChar)
    (wordsToo : ∀ name ∈ others.map Prod.fst, name.IsRun isNameChar)
    (same : bindings.map labelLine = others.map labelLine) : bindings = others := by
  induction bindings generalizing others with
  | nil => exact (List.map_eq_nil_iff.mp same.symm).symm
  | cons binding bindings ih =>
      obtain ⟨another, others, rfl, line, same⟩ := List.map_eq_cons_iff.mp same.symm
      obtain ⟨word, words⟩ := List.forall_mem_cons.mp words
      obtain ⟨wordToo, wordsToo⟩ := List.forall_mem_cons.mp wordsToo
      rw [labelLine_injective word wordToo line.symm, ih words wordsToo same.symm]

theorem newline_not_mem_toDigits (count : Nat) : '\n' ∉ Nat.toDigits 10 count := by
  intro member
  have digit := Nat.isDigit_of_mem_toDigits (by decide) (Nat.le_refl 10) member
  exact absurd digit (by decide)

theorem newline_not_mem_byteColumn (bytes : List UInt8) : '\n' ∉ byteColumn bytes := by
  have digits : ∀ byte : UInt8, '\n' ∉ hexByte byte := by
    intro byte
    have run : (hexByte byte).IsRun isHexDigit := by simp [Text.IsRun, hexByte, isHexDigit_hexDigit]
    exact run.not_mem (by decide)
  cases bytes with
  | nil => exact List.not_mem_nil
  | cons byte bytes =>
      rw [byteColumn_cons]
      simp [nextByte, digits]

theorem newline_not_mem_row (single : '\n' ∉ entry.text) : '\n' ∉ row entry := by
  simp [row, Text.padRight, newline_not_mem_dollarWord, newline_not_mem_byteColumn, single]

theorem newline_not_mem_labelRow (word : name.IsRun isNameChar) : '\n' ∉ labelRow address name := by
  have single : '\n' ∉ name := word.not_mem (by decide)
  simp [labelRow, newline_not_mem_dollarWord, single]

theorem newline_not_mem_entryLines (legible : entry.Legible) :
    ∀ line ∈ entryLines entry, '\n' ∉ line := by
  have entryRow := newline_not_mem_row legible.single
  cases named : entry.label with
  | none =>
      rw [entryLines_of_none named]
      exact List.forall_mem_singleton.mpr entryRow
  | some name =>
      rw [entryLines_of_some named]
      exact List.forall_mem_cons.mpr
        ⟨newline_not_mem_labelRow (legible.named name named), List.forall_mem_singleton.mpr entryRow⟩

theorem newline_not_mem_labelLine {binding : Text × UInt16} (word : binding.1.IsRun isNameChar) :
    '\n' ∉ labelLine binding := by
  have single : '\n' ∉ binding.1 := word.not_mem (by decide)
  simp [labelLine, Text.padRight, newline_not_mem_dollarWord, single]

theorem newline_not_mem_summary (assembly : Assembly) : '\n' ∉ summary assembly := by
  simp [summary, newline_not_mem_dollarWord, newline_not_mem_toDigits]

theorem newline_not_mem_lines {assembly : Assembly} (legible : assembly.Legible) :
    ∀ line ∈ lines assembly, '\n' ∉ line := by
  intro line member
  simp only [lines, List.mem_append, List.mem_cons, List.not_mem_nil, or_false] at member
  rcases member with (((rfl | rfl | rfl) | among) | (rfl | rfl)) | among
  · decide
  · decide
  · decide
  · obtain ⟨entry, listed, among⟩ := List.mem_flatMap.mp among
    exact newline_not_mem_entryLines (legible.entries entry listed) line among
  · decide
  · exact newline_not_mem_summary assembly
  · obtain ⟨binding, listed, rfl⟩ := List.mem_map.mp among
    exact newline_not_mem_labelLine (legible.names binding.1 (List.mem_map_of_mem listed))

theorem origin_of_summary {assembly again : Assembly} (bytes : assembly.bytes = again.bytes)
    (labels : assembly.labels = again.labels) (same : summary assembly = summary again) :
    assembly.origin = again.origin := by
  simp only [summary, bytes, labels, List.append_assoc] at same
  have rest := List.append_cancel_left (List.append_cancel_left same)
  exact dollarWord_injective (List.append_cancel_right rest)

theorem entryLines_of_sameRow (same : entry.SameRow other) : entryLines entry = entryLines other := by
  simp only [entryLines, same.address, same.label, same.text, same.bytes]

end Listing

theorem Entry.flatMap_of_sameRows {α : Type} {entries others : List Entry} {view : Entry → List α}
    (rows : List.Forall₂ Entry.SameRow entries others)
    (same : ∀ {entry other : Entry}, entry.SameRow other → view entry = view other) :
    entries.flatMap view = others.flatMap view := by
  induction rows with
  | nil => rfl
  | cons row _ ih => rw [List.flatMap_cons, List.flatMap_cons, same row, ih]

theorem legible_of_assemble {config : Config} {source : Text} {assembly : Assembly}
    (assembled : (assemble config source).outcome = .ok assembly) : assembly.Legible := by
  obtain ⟨_, _, _, passes⟩ := passes_of_assemble assembled
  refine ⟨fun entry member => ?_, fun name listed => ?_, passes.bytes⟩
  · obtain ⟨⟨filled, short⟩, _⟩ := Pass.placed_of_mem_entries passes.final member
    refine ⟨List.length_pos_iff.mp filled, short, Pass.newline_not_mem_entry_text passes.final member, ?_⟩
    intro name named
    obtain ⟨visit, _, _, _, read, advances⟩ := Pass.visit_of_mem_entries passes.final member
    cases advances with
    | instruction =>
        cases named
        have stated : visit.line.label? = some name := by
          rw [Line.label?, Line.statement?_of_parse read]
          rfl
        exact Line.isRun_of_label? stated
  · rw [← passes.lastLabels, Pass.walk_names passes.final] at listed
    obtain ⟨line, _, named⟩ := List.mem_filterMap.mp listed
    exact Line.isRun_of_label? named

/-- A listing loses nothing but line numbers: two assemblies have the same listing exactly when they have
the same origin, bytes and labels, and entries that agree one by one in all but their line. -/
theorem listing_eq_iff_sameRows {config other : Config} {source again : Text} {assembly twin : Assembly}
    (assembled : (assemble config source).outcome = .ok assembly)
    (assembledToo : (assemble other again).outcome = .ok twin) :
    assembly.listing = twin.listing ↔
      assembly.origin = twin.origin ∧ assembly.bytes = twin.bytes ∧ assembly.labels = twin.labels ∧
        List.Forall₂ Entry.SameRow assembly.entries twin.entries := by
  have legible := legible_of_assemble assembled
  have legibleToo := legible_of_assemble assembledToo
  constructor
  · intro same
    have lines : Listing.lines assembly = Listing.lines twin := by
      rw [← Text.lines_of_terminated (Listing.newline_not_mem_lines legible),
        ← Text.lines_of_terminated (Listing.newline_not_mem_lines legibleToo)]
      exact congrArg Text.lines same
    simp only [Listing.lines, List.append_assoc] at lines
    -- the bytes and labels are known before the summary is read, and so its counts drop out
    obtain ⟨rows, rest⟩ := Listing.sameRows_of_lines legible.entries legibleToo.entries
      (List.append_cancel_left lines)
    obtain ⟨summaries, bindings⟩ := List.cons.inj rest
    have labels : assembly.labels = twin.labels :=
      LabelTable.eq_of_entries (Listing.bindings_of_lines legible.names legibleToo.names bindings)
    have bytes : assembly.bytes = twin.bytes := by
      rw [legible.bytes, legibleToo.bytes]
      exact Entry.flatMap_of_sameRows rows Entry.SameRow.bytes
    exact ⟨Listing.origin_of_summary bytes labels summaries, bytes, labels, rows⟩
  · rintro ⟨origin, bytes, labels, rows⟩
    have entries := Entry.flatMap_of_sameRows rows Listing.entryLines_of_sameRow
    simp only [Assembly.listing, Listing.lines, Listing.summary, origin, bytes, labels, entries]

/-- The assembly of `drifting` with a line in front of it. -/
def lowered : Assembly :=
  { driftingAssembly with
    entries := driftingAssembly.entries.map fun entry => { entry with line := entry.line + 1 } }

theorem listing_eq_iff_sameRows_lowered :
    (assemble .default drifting).outcome = .ok driftingAssembly ∧
    (assemble .default ("; pages\n".toList ++ drifting)).outcome = .ok lowered ∧
    driftingAssembly.listing = lowered.listing ∧
    List.Forall₂ Entry.SameRow driftingAssembly.entries lowered.entries := by
  have assembled : (assemble .default ("; pages\n".toList ++ drifting)).outcome = .ok lowered := by
    decide +kernel
  have same : driftingAssembly.listing = lowered.listing := by
    decide +kernel
  obtain ⟨_, _, _, rows⟩ := (listing_eq_iff_sameRows assemble_drifting assembled).mp same
  exact ⟨assemble_drifting, assembled, same, rows⟩

end Asm65
