import Asm65.Fault

namespace Asm65

/-- Labels with their addresses, in the order of their definition. A name is bound once. -/
structure LabelTable where
  entries : List (Text × UInt16)
  nodup : (entries.map Prod.fst).Nodup
deriving DecidableEq, Repr

namespace LabelTable

def empty : LabelTable := ⟨[], List.nodup_nil⟩

instance : Inhabited LabelTable := ⟨empty⟩

def names (table : LabelTable) : List Text :=
  table.entries.map Prod.fst

def size (table : LabelTable) : Nat :=
  table.entries.length

def isEmpty (table : LabelTable) : Bool :=
  table.entries.isEmpty

def get? (table : LabelTable) (name : Text) : Option UInt16 :=
  table.entries.lookup name

/-- Binds a name that has no address yet. -/
def insert (table : LabelTable) (name : Text) (address : UInt16) : Except Fault LabelTable :=
  if bound : name ∈ table.names then .error (.duplicateLabel name)
  else .ok {
    entries := table.entries ++ [(name, address)]
    nodup := by
      rw [List.map_append]
      exact List.nodup_append.mpr ⟨table.nodup, by simp, by
        intro old member new fresh
        simp only [List.map_cons, List.map_nil, List.mem_singleton] at fresh
        rintro rfl
        exact bound (fresh ▸ member)⟩ }

end LabelTable

end Asm65
