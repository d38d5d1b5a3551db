import Asm65.LabelTable

namespace Asm65

/-- Where no key occurs twice, looking one up finds the only row there is. -/
theorem lookup_eq_some_iff_mem {α β : Type} [BEq α] [LawfulBEq α] {rows : List (α × β)} {key : α}
    {value : β} (distinct : (rows.map Prod.fst).Nodup) :
    rows.lookup key = some value ↔ (key, value) ∈ rows := by
  constructor
  · intro found
    obtain ⟨before, after, split, _⟩ := List.lookup_eq_some_iff.mp found
    simp [split]
  · intro member
    obtain ⟨before, after, split⟩ := List.append_of_mem member
    refine List.lookup_eq_some_iff.mpr ⟨before, after, split, fun row earlier => ?_⟩
    rw [split, List.map_append, List.map_cons, List.nodup_append] at distinct
    have differs := distinct.2.2 row.1 (List.mem_map_of_mem earlier) key (by simp)
    simpa using differs.symm

namespace LabelTable

variable {table later : LabelTable} {name other : Text} {address : UInt16}

/-- A table lies before another when the other was made from it by binding more names. -/
def Before (table later : LabelTable) : Prop :=
  table.entries <+: later.entries

theorem Before.refl (table : LabelTable) : table.Before table :=
  List.prefix_rfl

theorem Before.trans {last : LabelTable} (first : table.Before later) (second : later.Before last) :
    table.Before last :=
  List.IsPrefix.trans first second

theorem eq_of_entries (same : table.entries = later.entries) : table = later := by
  cases table
  cases later
  cases same
  rfl

@[simp] theorem names_empty : empty.names = [] := rfl

@[simp] theorem get?_empty : empty.get? name = none := rfl

theorem get?_eq_none_iff : table.get? name = none ↔ name ∉ table.names := by
  simp only [get?, names, List.lookup_eq_none_iff, List.mem_map, not_exists, not_and, bne_iff_ne]
  exact ⟨fun fresh entry member same => fresh entry member same.symm,
    fun fresh entry member same => fresh entry member same.symm⟩

theorem mem_names_iff : name ∈ table.names ↔ ∃ address, table.get? name = some address := by
  rw [← Option.ne_none_iff_exists', ne_eq, get?_eq_none_iff, Classical.not_not]

theorem get?_eq_some_iff : table.get? name = some address ↔ (name, address) ∈ table.entries :=
  lookup_eq_some_iff_mem table.nodup

theorem Before.get? (before : table.Before later) (found : table.get? name = some address) :
    later.get? name = some address :=
  List.IsPrefix.lookup_eq_some before found

theorem insert_eq_ok_iff :
    table.insert name address = .ok later ↔
      name ∉ table.names ∧ later.entries = table.entries ++ [(name, address)] := by
  unfold insert
  split
  next bound => simp [bound]
  next free =>
      simp only [Except.ok.injEq, free, not_false_eq_true, true_and]
      constructor
      · intro made
        subst made
        rfl
      · intro same
        exact eq_of_entries same.symm

theorem insert_eq_error_iff {fault : Fault} :
    table.insert name address = .error fault ↔
      name ∈ table.names ∧ fault = .duplicateLabel name := by
  unfold insert
  split
  next bound => simp [bound, eq_comm]
  next free => simp [free]

def places (table : LabelTable) : List (Text × Nat) :=
  table.entries.map fun (name, address) => (name, address.toNat)

@[simp] theorem places_empty : empty.places = [] := rfl

theorem mem_places_iff {number : Nat} :
    (name, number) ∈ table.places ↔
      ∃ address, table.get? name = some address ∧ address.toNat = number := by
  simp only [places, List.mem_map, Prod.mk.injEq, Prod.exists, get?_eq_some_iff]
  constructor
  · intro listed
    obtain ⟨_, address, member, rfl, same⟩ := listed
    exact ⟨address, member, same⟩
  · intro found
    obtain ⟨address, member, same⟩ := found
    exact ⟨name, address, member, rfl, same⟩

theorem names_eq_places : table.names = table.places.map Prod.fst := by
  simp [names, places, Function.comp_def]

theorem eq_of_names (same : table.names = later.names)
    (agree : ∀ name first second, table.get? name = some first → later.get? name = some second →
      first = second) : table = later := by
  apply eq_of_entries
  have length : table.entries.length = later.entries.length := by
    simpa [names] using congrArg List.length same
  refine List.ext_getElem length fun index left right => ?_
  have name : table.entries[index].1 = later.entries[index].1 := by
    have selected := congrArg (fun names => names[index]?) same
    simpa [names, left, right] using selected
  refine Prod.ext name (agree later.entries[index].1 _ _ ?_ ?_)
  · rw [get?_eq_some_iff, ← name]
    exact List.getElem_mem left
  · rw [get?_eq_some_iff]
    exact List.getElem_mem right

end LabelTable

end Asm65
