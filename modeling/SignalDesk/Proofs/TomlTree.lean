import SignalDesk.Proofs.TreeForm
import SignalDesk.Toml.Printer

namespace SignalDesk.Toml

def Node.isLeaf : Node → Bool
  | .leaf _ => true
  | _ => false

/-- The values of a table come before the tables in it. -/
def valuesFirst (table : Table) : Table :=
  (table.filter fun field => field.2.isLeaf) ++ table.filter fun field => !field.2.isLeaf

mutual

/-- What a value is read as where it stands in tables. A table without values of its own is met only on
the way of longer headers. -/
def nodeOf : Document → Node
  | .map fields => .table (if hasHeader fields then .header else .way) (valuesFirst (fieldNodes fields))
  | .list items =>
    if standsInTables (.list items) then .tables (elementsOf items) else .leaf (.list (settledItems items))
  | document => .leaf document

def fieldNodes : List (String × Document) → Table
  | [] => []
  | (name, value) :: rest => (name, nodeOf value) :: fieldNodes rest

def elementsOf : List Document → List Table
  | [] => []
  | .map fields :: rest => valuesFirst (fieldNodes fields) :: elementsOf rest
  | _ :: rest => elementsOf rest

def settledItems : List Document → List Document
  | [] => []
  | item :: rest => (nodeOf item).toDocument :: settledItems rest

end

/-- The tree that comes back from a TOML text. -/
def settled (document : Document) : Document := (nodeOf document).toDocument

theorem fieldNodes_eq_map (fields : List (String × Document)) :
    fieldNodes fields = fields.map fun field => (field.1, nodeOf field.2) := by
  induction fields with
  | nil => rfl
  | cons field rest ih => rw [fieldNodes, ih, List.map_cons]

theorem settledItems_eq_map (items : List Document) : settledItems items = items.map settled := by
  induction items with
  | nil => rfl
  | cons item rest ih => rw [settledItems, ih, List.map_cons, settled]

theorem tableFields_eq_map (table : Table) :
    tableFields table = table.map fun field => (field.1, field.2.toDocument) := by
  induction table with
  | nil => rfl
  | cons field rest ih => rw [tableFields, ih, List.map_cons]

theorem isLeaf_nodeOf (value : Document) : (nodeOf value).isLeaf = !standsInTables value := by
  cases value with
  | list items =>
    rw [nodeOf]
    cases standsInTables (.list items) <;> rfl
  | _ => rfl

theorem valuesFirst_perm (table : Table) : (valuesFirst table).Perm table :=
  List.filter_append_perm _ table

/-- The elements of an array of tables are all of its items. -/
theorem tableElements_elementsOf {items : List Document} (maps : items.all isMap = true) :
    tableElements (elementsOf items) = items.map settled := by
  induction items with
  | nil => rfl
  | cons item rest ih =>
    obtain ⟨first, later⟩ := Bool.and_eq_true_iff.mp maps
    cases item with
    | map fields =>
      rw [elementsOf, tableElements, ih later]
      rfl
    | _ => cases first

theorem settled_list (items : List Document) : settled (.list items) = .list (items.map settled) := by
  rw [settled, nodeOf]
  cases inTables : standsInTables (.list items) with
  | false =>
    rw [if_neg Bool.false_ne_true, settledItems_eq_map]
    rfl
  | true =>
    rw [if_pos rfl, Node.toDocument, tableElements_elementsOf (Bool.and_eq_true_iff.mp inTables).2]

theorem treeForm_settled : TreeForm settled where
  bool _ := rfl
  int _ := rfl
  text _ := rfl
  float _ := rfl
  list := settled_list
  map {fields} _ := by
    refine ⟨tableFields (valuesFirst (fieldNodes fields)), rfl, ?_⟩
    rw [tableFields_eq_map]
    refine ((valuesFirst_perm _).map _).trans (.of_eq ?_)
    rw [fieldNodes_eq_map, List.map_map]
    rfl

end SignalDesk.Toml
