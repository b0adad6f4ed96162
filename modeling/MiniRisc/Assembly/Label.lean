import MiniRisc.Word

/-!
# Labels

A label names the address of an instruction. The table keeps the labels in the order of their
definitions; a name is defined at most once. For display the table is sorted by name.
-/

namespace MiniRisc

/-- The labels of a source with their addresses, in the order of their definitions. -/
abbrev LabelTable := List (String × Word)

namespace LabelTable

/-- The address of a label. -/
def address? (labels : LabelTable) (name : String) : Option Word :=
  List.lookup name labels

/-- The table with one more label, unless the name is taken. -/
def define? (labels : LabelTable) (name : String) (address : Word) : Option LabelTable :=
  match labels.address? name with
  | some _ => none
  | none => some (labels ++ [(name, address)])

/-- The labels sorted by name, character by character. -/
def sorted (labels : LabelTable) : LabelTable :=
  List.mergeSort labels fun first second => !decide (second.1 < first.1)

/-- A name that a table does not define is looked up in what is added to the table. -/
theorem address?_append {labels : LabelTable} {name : String} (h : labels.address? name = none)
    (more : LabelTable) : LabelTable.address? (labels ++ more) name = more.address? name := by
  rw [address?, List.lookup_append, ← address?, h, Option.none_or, address?]

/-- A name that a table defines keeps its address when more is added to the table. -/
theorem address?_append_of_some {labels : LabelTable} {name : String} {address : Word}
    (h : labels.address? name = some address) (more : LabelTable) :
    LabelTable.address? (labels ++ more) name = some address := by
  rw [address?, List.lookup_append, ← address?, h, Option.some_or]

/-- The address of a label is in the table. -/
theorem mem_of_address? {labels : LabelTable} {name : String} {address : Word}
    (h : labels.address? name = some address) : (name, address) ∈ labels := by
  obtain ⟨front, back, rfl, -⟩ := List.lookup_eq_some_iff.1 h
  exact List.mem_append_right front List.mem_cons_self

end LabelTable

end MiniRisc
