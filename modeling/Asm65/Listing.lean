import Asm65.Assembly

namespace Asm65

/-! The listing of an assembly: every entry with its address and bytes, then the labels. -/

namespace Listing

/-- Bytes with dollar signs, separated by spaces. -/
def byteColumn (bytes : List UInt8) : Text :=
  List.intercalate [' '] (bytes.map fun byte => '$' :: hexByte byte)

def rule : Text := List.replicate 50 '-'

/-- The label of an entry, if any, on a line of its own, and then the entry. -/
def entryLines (entry : Entry) : List Text :=
  let label := entry.label.toList.map fun name =>
    dollarWord entry.address ++ [':'] ++ List.replicate 14 ' ' ++ name ++ [':']
  label ++ [dollarWord entry.address ++ ": ".toList ++ Text.padRight 12 (byteColumn entry.bytes) ++
    "  ".toList ++ entry.text]

def labelLine (label : Text × UInt16) : Text :=
  "  ".toList ++ Text.padRight 16 label.1 ++ " = ".toList ++ dollarWord label.2

def summary (assembly : Assembly) : Text :=
  (toString assembly.bytes.length).toList ++ " bytes at ".toList ++ dollarWord assembly.origin ++
    ", ".toList ++ (toString assembly.labels.size).toList ++ " labels".toList

/-- The lines of a listing: heading, entries, summary and labels. -/
def lines (assembly : Assembly) : List Text :=
  ["Assembly Listing:".toList, "Address: Machine Code  Assembly".toList, rule] ++
    assembly.entries.flatMap entryLines ++ [rule, summary assembly] ++
    assembly.labels.entries.map labelLine

end Listing

/-- The listing of an assembly. Every line ends with a line feed. -/
def Assembly.listing (assembly : Assembly) : Text :=
  (Listing.lines assembly).flatMap (· ++ ['\n'])

end Asm65
