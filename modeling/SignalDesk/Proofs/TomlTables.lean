import SignalDesk.Proofs.TomlLines
import SignalDesk.Proofs.TomlTree

namespace SignalDesk.Toml

theorem put_absent {table : Table} {name : String} (absent : table.lookup name = none) (node : Node) :
    table.put name node = table ++ [(name, node)] := by
  rw [Table.put, absent, if_neg (by simp)]

theorem lookup_concat {table : Table} {name : String} (absent : table.lookup name = none) (node : Node) :
    (table ++ [(name, node)] : Table).lookup name = some node := by
  rw [List.lookup_append, absent, Option.none_or, List.lookup_cons_self]

theorem put_concat {table : Table} {name : String} (absent : table.lookup name = none) (node other : Node) :
    Table.put (table ++ [(name, node)]) name other = table ++ [(name, other)] := by
  rw [Table.put, lookup_concat absent, if_pos (by rfl), List.map_append]
  congr 1
  · refine map_eq_self fun field member => if_neg ?_
    rw [List.lookup_eq_none_iff] at absent
    exact fun same => bne_iff_ne.mp (absent field member) (eq_of_beq same).symm
  · simp

/-- A node takes no name but its own. -/
theorem lookup_concat_ne {found : Table} {name other : String} (different : other ≠ name) (node : Node) :
    (found ++ [(name, node)] : Table).lookup other = found.lookup other := by
  rw [List.lookup_append, List.lookup_cons, beq_eq_false_iff_ne.mpr different, List.lookup_nil, Option.or_none]

theorem ne_of_fresh {name : String} {rest : List (String × Document)} (fresh : name ∉ rest.map Prod.fst)
    {field : String × Document} (member : field ∈ rest) : field.1 ≠ name := by
  rintro rfl
  exact fresh (List.mem_map_of_mem member)

/-- Below a path a tree of tables is what stands there, and whoever changes that rebuilds the tree around it. -/
structure Leads (path : List String) (rebuild : Table → Table) (tree table : Table) : Prop where
  opened (array : Bool) (name : String) (rest : List String) :
    tree.opened array (path ++ name :: rest) = table.opened array (name :: rest)
  close (array : Bool) (content : Table) (name : String) (rest : List String) :
    Table.close array content (path ++ name :: rest) tree =
      (Table.close array content (name :: rest) table).map rebuild

/-- A place in a tree that can be filled with any table. -/
def Place (path : List String) (rebuild : Table → Table) : Prop :=
  ∀ table, Leads path rebuild (rebuild table) table

theorem place_root : Place [] id := fun _ => ⟨fun _ _ _ => rfl, fun _ _ _ _ => Option.map_id'.symm⟩

section

variable {path : List String} {rebuild : Table → Table} {tree found : Table} {name : String}

theorem Leads.way (leads : Leads path rebuild tree found) (absent : found.lookup name = none) :
    Leads (path ++ [name]) (fun inner => rebuild (found ++ [(name, .table .way inner)])) tree [] where
  opened array inner rest := by
    rw [List.append_assoc, List.singleton_append, leads.opened]
    simp only [Table.opened, absent]
    cases rest <;> simp [Table.opened]
  close array content inner rest := by
    rw [List.append_assoc, List.singleton_append, leads.close]
    simp only [Table.close, absent]
    cases Table.close array content (inner :: rest) [] with
    | none => rfl
    | some made => simp [put_absent absent]

/-- A table that has been put behind the others is a place again. -/
theorem Place.table (place : Place path rebuild) (absent : found.lookup name = none) (origin : Origin) :
    Place (path ++ [name]) fun inner => rebuild (found ++ [(name, .table origin inner)]) := by
  intro given
  have leads := place (found ++ [(name, .table origin given)])
  refine ⟨fun array inner rest => ?_, fun array content inner rest => ?_⟩
  · rw [List.append_assoc, List.singleton_append, leads.opened]
    simp only [Table.opened, lookup_concat absent]
  · rw [List.append_assoc, List.singleton_append, leads.close]
    simp only [Table.close, lookup_concat absent]
    cases Table.close array content (inner :: rest) given with
    | none => rfl
    | some made => simp [put_concat absent]

/-- So is the last element of an array of tables. -/
theorem Place.element (place : Place path rebuild) (absent : found.lookup name = none) (others : List Table) :
    Place (path ++ [name]) fun inner => rebuild (found ++ [(name, .tables (others ++ [inner]))]) := by
  intro given
  have leads := place (found ++ [(name, .tables (others ++ [given]))])
  refine ⟨fun array inner rest => ?_, fun array content inner rest => ?_⟩
  · rw [List.append_assoc, List.singleton_append, leads.opened]
    simp [Table.opened, lookup_concat absent]
  · rw [List.append_assoc, List.singleton_append, leads.close]
    simp only [Table.close, lookup_concat absent, List.getLast?_concat, List.dropLast_concat,
      Option.bind_eq_bind, Option.bind_some]
    cases Table.close array content (inner :: rest) given with
    | none => rfl
    | some made => simp [put_concat absent]

end

theorem valueLines_cons (name : String) (value : Document) (rest : List (String × Document)) :
    valueLines ((name, value) :: rest) =
      if standsInTables value then valueLines rest
      else (inlineValue value).bind fun text =>
        (valueLines rest).map fun more => key name ++ " = " ++ text ++ "\n" ++ more := by
  rw [valueLines, valueLines, List.filter_cons]
  cases standsInTables value with
  | true => rfl
  | false =>
    simp only [Bool.not_false, if_true, List.mapM_cons]
    cases inlineValue value with
    | none => rfl
    | some text =>
      generalize (rest.filter fun field => !standsInTables field.2).mapM (fun field => (do
        some (key field.1 ++ " = " ++ (← inlineValue field.2) ++ "\n") : Option String)) = lines
      cases lines with
      | none => rfl
      | some lines => exact congrArg some String.join_cons

theorem nodeOf_simple {value : Document} (simple : IsSimple value) : nodeOf value = .leaf value := by
  cases value with
  | list items =>
    obtain rfl : items = [] := simple
    rfl
  | map fields => cases simple
  | _ => rfl

/-- The values of a table, one a line, are added to the table that is being filled. -/
theorem reads_valueLines {fields : List (String × Document)} (distinct : (fields.map Prod.fst).Nodup)
    (simple : ∀ field ∈ fields, standsInTables field.2 = false → IsSimple field.2) {p : Progress}
    (absent : ∀ field ∈ fields, p.current.lookup field.1 = none) :
    ∃ text, valueLines fields = some text ∧
      Reads text p { p with current := p.current ++ (fieldNodes fields).filter fun field => field.2.isLeaf } := by
  induction fields generalizing p with
  | nil => exact ⟨"", rfl, by simpa [fieldNodes] using Reads.refl p⟩
  | cons field rest ih =>
    obtain ⟨name, value⟩ := field
    obtain ⟨fresh, others⟩ := List.nodup_cons.mp distinct
    obtain ⟨valueSimple, restSimple⟩ := List.forall_mem_cons.mp simple
    obtain ⟨free, restFree⟩ := List.forall_mem_cons.mp absent
    rw [valueLines_cons, fieldNodes, List.filter_cons, isLeaf_nodeOf]
    cases stands : standsInTables value with
    | true => exact ih others restSimple restFree
    | false =>
      obtain ⟨text, written, -⟩ := readValue_inlineValue (valueSimple stands)
      have line := reads_value written (valueSimple stands) free
      obtain ⟨more, moreWritten, moreRead⟩ :=
        ih others restSimple (p := { p with current := p.current ++ [(name, .leaf value)] })
          fun field member => (lookup_concat_ne (ne_of_fresh fresh member) _).trans (restFree field member)
      refine ⟨_, by rw [written, moreWritten]; rfl, ?_⟩
      have all := line.trans moreRead
      rw [nodeOf_simple (valueSimple stands)]
      simpa using all

/-- The text of a value, under a name that is free at a place, puts the value there. -/
def ReadsAt (n : Nat) (value : Document) : Prop :=
  ∀ {path : List String} {rebuild : Table → Table} {tree found : Table} {name : String} {p : Progress},
    Place path rebuild → Leads path rebuild tree found → p.finish = some tree → found.lookup name = none →
    path.length + n ≤ maxDepth →
    ∃ text q, tableText (path ++ [name]) value = some text ∧ Reads text p q ∧
      q.finish = some (rebuild (found ++ [(name, nodeOf value)]))

/-- A value of a table stands on a line, or in tables that are nested at most so deep. -/
structure Fits (n : Nat) (value : Document) : Prop where
  simple : standsInTables value = false → IsSimple value
  tables : standsInTables value = true → ReadsAt n value

/-- The fields of a table that can be written. -/
structure Tabular (n : Nat) (fields : List (String × Document)) : Prop where
  distinct : (fields.map Prod.fst).Nodup
  fits : ∀ field ∈ fields, Fits n field.2

def IsTable (n : Nat) (document : Document) : Prop := ∃ fields, document = .map fields ∧ Tabular n fields

/-- The tables in a table follow each other. Up to the first of them the tree is what it was. -/
theorem reads_innerTables {n : Nat} {fields : List (String × Document)} (distinct : (fields.map Prod.fst).Nodup)
    (inner : ∀ field ∈ fields, standsInTables field.2 = true → ReadsAt n field.2) {path : List String}
    {rebuild : Table → Table} {tree found : Table} {p : Progress} (place : Place path rebuild)
    (leads : Leads path rebuild tree found) (finished : p.finish = some tree)
    (absent : ∀ field ∈ fields, standsInTables field.2 = true → found.lookup field.1 = none)
    (deep : path.length + n ≤ maxDepth) :
    ∃ text q, innerTables path fields = some text ∧ Reads text p q ∧
      q.finish = some (if ((fieldNodes fields).filter fun field => !field.2.isLeaf) = [] then tree
        else rebuild (found ++ (fieldNodes fields).filter fun field => !field.2.isLeaf)) := by
  induction fields generalizing tree found p with
  | nil => exact ⟨"", p, rfl, .refl p, finished⟩
  | cons field rest ih =>
    obtain ⟨name, value⟩ := field
    obtain ⟨fresh, others⟩ := List.nodup_cons.mp distinct
    obtain ⟨first, later⟩ := List.forall_mem_cons.mp inner
    obtain ⟨free, restFree⟩ := List.forall_mem_cons.mp absent
    rw [innerTables, fieldNodes, List.filter_cons, isLeaf_nodeOf]
    cases stands : standsInTables value with
    | false =>
      obtain ⟨text, q, written, read, reached⟩ := ih others later leads finished restFree
      refine ⟨text, q, ?_, read, reached⟩
      rw [if_neg Bool.false_ne_true, written]
      exact congrArg some String.empty_append
    | true =>
      obtain ⟨text, q, written, read, reached⟩ := first stands place leads finished (free stands) deep
      obtain ⟨more, r, moreWritten, moreRead, all⟩ :=
        ih others later (place _) reached fun field member inTables =>
          (lookup_concat_ne (ne_of_fresh fresh member) _).trans (restFree field member inTables)
      refine ⟨text ++ more, r, ?_, read.trans moreRead, ?_⟩
      · rw [if_pos rfl, written, moreWritten]
        rfl
      · simp only [Bool.not_true, Bool.not_false, if_true, reduceCtorEq, if_false]
        rw [all, List.append_assoc, List.singleton_append]
        split_ifs with none
        · rw [none]
        · rfl

theorem lookup_leaves {fields : List (String × Document)} (distinct : (fields.map Prod.fst).Nodup)
    {field : String × Document} (member : field ∈ fields) (inTables : standsInTables field.2 = true) :
    ((fieldNodes fields).filter fun field => field.2.isLeaf).lookup field.1 = none := by
  refine SortedMap.lookup_absent fun listed => ?_
  obtain ⟨⟨name, node⟩, isLeaf, same⟩ := List.mem_map.mp listed
  obtain ⟨isNode, leaf⟩ := List.mem_filter.mp isLeaf
  rw [fieldNodes_eq_map] at isNode
  obtain ⟨other, otherMember, isNode⟩ := List.mem_map.mp isNode
  cases isNode
  obtain rfl := List.inj_on_of_nodup_map distinct otherMember member same
  rw [isLeaf_nodeOf, inTables] at leaf
  cases leaf

/-- What a table holds, from the line behind its header on. -/
theorem Tabular.reads_fields {n : Nat} {fields : List (String × Document)} (T : Tabular n fields)
    {rebuild : Table → Table} {p : Progress} (place : Place p.path rebuild) (empty : p.current = [])
    (finishes : ∀ content, Progress.finish { p with current := content } = some (rebuild content))
    (deep : p.path.length + n ≤ maxDepth) :
    ∃ values tables q, valueLines fields = some values ∧ innerTables p.path fields = some tables ∧
      Reads (values ++ tables) p q ∧ q.finish = some (rebuild (valuesFirst (fieldNodes fields))) := by
  obtain ⟨values, valuesWritten, valuesRead⟩ := reads_valueLines T.distinct
    (fun field member => (T.fits field member).simple) (p := p) (by simp [empty])
  rw [empty, List.nil_append] at valuesRead
  obtain ⟨tables, q, tablesWritten, tablesRead, reached⟩ := reads_innerTables T.distinct
    (fun field member => (T.fits field member).tables) place (place _) (finishes _)
    (fun field => lookup_leaves T.distinct) deep
  refine ⟨values, tables, q, valuesWritten, tablesWritten, valuesRead.trans tablesRead, ?_⟩
  rw [reached, valuesFirst]
  split_ifs with none
  · rw [none, List.append_nil]
  · rfl

theorem valueLines_tables {fields : List (String × Document)}
    (inTables : ∀ field ∈ fields, standsInTables field.2 = true) : valueLines fields = some "" := by
  induction fields with
  | nil => rfl
  | cons field rest ih =>
    obtain ⟨first, later⟩ := List.forall_mem_cons.mp inTables
    rw [valueLines_cons, if_pos first, ih later]

theorem fieldNodes_tables {fields : List (String × Document)}
    (inTables : ∀ field ∈ fields, standsInTables field.2 = true) :
    ∀ field ∈ fieldNodes fields, field.2.isLeaf = false := by
  intro field member
  rw [fieldNodes_eq_map] at member
  obtain ⟨given, listed, rfl⟩ := List.mem_map.mp member
  rw [isLeaf_nodeOf, inTables given listed]
  rfl

theorem finish_close (array : Bool) (path : List String) (name : String) (closed content : Table) :
    Progress.finish ⟨closed, array, path ++ [name], content⟩ =
      Table.close array content (path ++ [name]) closed := by
  cases path <;> rfl

/-- A table is opened by its header, or by the longer headers of the tables in it. -/
theorem Tabular.readsAt_map {n : Nat} {fields : List (String × Document)} (T : Tabular n fields) :
    ReadsAt (n + 1) (.map fields) := by
  intro path rebuild tree found name p place leads finished absent deep
  cases header : hasHeader fields with
  | true =>
    have opened : p.header false (path ++ [name]) = some ⟨tree, false, path ++ [name], []⟩ := by
      have free : tree.opened false (path ++ [name]) = some [] := by
        rw [leads.opened]
        simp [Table.opened, absent]
      simp [Progress.header, finished, free]
    obtain ⟨values, tables, q, valuesWritten, tablesWritten, read, reached⟩ :=
      T.reads_fields (p := ⟨tree, false, path ++ [name], []⟩) (place.table absent .header) rfl
        (fun content => by
          rw [finish_close, leads.close]
          simp [Table.close, put_absent absent])
        (by rw [List.length_append, List.length_singleton]; omega)
    refine ⟨_, q, ?_, (reads_header (by omega) opened).trans read, ?_⟩
    · rw [tableText, header, valuesWritten, tablesWritten]
      exact congrArg some (String.append_assoc ..)
    · rw [reached, nodeOf, header]
      rfl
  | false =>
    obtain ⟨some, inTables⟩ := Bool.or_eq_false_iff.mp header
    have inTables : ∀ field ∈ fields, standsInTables field.2 = true := by simpa using inTables
    -- the name is free until the first inner header puts a table on its way
    obtain ⟨tables, q, written, read, reached⟩ := reads_innerTables T.distinct
      (fun field member => (T.fits field member).tables) (place.table absent .way) (leads.way absent) finished
      (fun _ _ _ => rfl) (by rw [List.length_append, List.length_singleton]; omega)
    refine ⟨tables, q, ?_, read, ?_⟩
    · rw [tableText, header, valueLines_tables inTables, written]
      exact congrArg Option.some (by simp)
    · have noLeaf := fieldNodes_tables inTables
      have nodes : (fieldNodes fields).filter (fun field => !field.2.isLeaf) = fieldNodes fields :=
        List.filter_eq_self.mpr fun field member => by rw [noLeaf field member]; rfl
      have leaves : (fieldNodes fields).filter (fun field => field.2.isLeaf) = [] :=
        List.filter_eq_nil_iff.mpr fun field member => by simp [noLeaf field member]
      have nonempty : fieldNodes fields ≠ [] := by
        rw [fieldNodes_eq_map]
        simpa using some
      rw [reached, nodeOf, header, valuesFirst, nodes, leaves, if_neg nonempty]
      rfl

/-- An element of an array of tables is put behind those before it. -/
theorem Tabular.reads_element {n : Nat} {fields : List (String × Document)} (T : Tabular n fields)
    {path : List String} {rebuild : Table → Table} {tree found : Table} {name : String} (others : List Table)
    {p : Progress} (place : Place path rebuild) (absent : found.lookup name = none) (finished : p.finish = some tree)
    (opens : tree.opened true (path ++ [name]) = some [])
    (closes : ∀ content, Table.close true content (path ++ [name]) tree =
      some (rebuild (found ++ [(name, .tables (others ++ [content]))])))
    (deep : path.length + (n + 1) ≤ maxDepth) :
    ∃ values tables q, valueLines fields = some values ∧ innerTables (path ++ [name]) fields = some tables ∧
      Reads ("\n[[" ++ dotted (path ++ [name]) ++ "]]\n" ++ (values ++ tables)) p q ∧
      q.finish = some (rebuild (found ++ [(name, .tables (others ++ [valuesFirst (fieldNodes fields)]))])) := by
  have opened : p.header true (path ++ [name]) = some ⟨tree, true, path ++ [name], []⟩ := by
    simp [Progress.header, finished, opens]
  obtain ⟨values, tables, q, valuesWritten, tablesWritten, read, reached⟩ :=
    T.reads_fields (p := ⟨tree, true, path ++ [name], []⟩) (place.element absent others) rfl
      (fun content => by rw [finish_close, closes])
      (by rw [List.length_append, List.length_singleton]; omega)
  exact ⟨values, tables, q, valuesWritten, tablesWritten,
    (reads_elementHeader (by omega) opened).trans read, reached⟩

/-- So are all that follow. -/
theorem reads_elements {n : Nat} {items : List Document} (each : ∀ item ∈ items, IsTable n item)
    {path : List String} {rebuild : Table → Table} {found : Table} {name : String} {others : List Table}
    {p : Progress} (place : Place path rebuild) (absent : found.lookup name = none)
    (finished : p.finish = some (rebuild (found ++ [(name, .tables others)])))
    (deep : path.length + (n + 1) ≤ maxDepth) :
    ∃ text q, elementTables (path ++ [name]) items = some text ∧ Reads text p q ∧
      q.finish = some (rebuild (found ++ [(name, .tables (others ++ elementsOf items))])) := by
  induction items generalizing others p with
  | nil => exact ⟨"", p, rfl, .refl p, by rw [finished, elementsOf, List.append_nil]⟩
  | cons item rest ih =>
    obtain ⟨⟨fields, rfl, T⟩, later⟩ := List.forall_mem_cons.mp each
    have leads := place (found ++ [(name, .tables others)])
    obtain ⟨values, tables, q, valuesWritten, tablesWritten, read, reached⟩ :=
      T.reads_element others place absent finished
        (by rw [leads.opened]; simp [Table.opened, lookup_concat absent])
        (fun content => by
          rw [leads.close]
          simp [Table.close, lookup_concat absent, put_concat absent])
        deep
    obtain ⟨more, r, moreWritten, moreRead, all⟩ := ih later reached
    refine ⟨_, r, ?_, read.trans moreRead, by rw [all, elementsOf, List.append_assoc, List.singleton_append]⟩
    rw [elementTables, valuesWritten, tablesWritten, moreWritten]
    exact congrArg (fun text => some (text ++ more)) (String.append_assoc ..)

theorem standsInTables_list {n : Nat} {items : List Document} (some : items ≠ [])
    (each : ∀ item ∈ items, IsTable n item) : standsInTables (.list items) = true := by
  simp only [standsInTables, Bool.and_eq_true, Bool.not_eq_true', List.isEmpty_eq_false_iff, List.all_eq_true]
  refine ⟨some, fun item member => ?_⟩
  obtain ⟨fields, rfl, -⟩ := each item member
  rfl

theorem readsAt_list {n : Nat} {items : List Document} (some : items ≠ [])
    (each : ∀ item ∈ items, IsTable n item) : ReadsAt (n + 1) (.list items) := by
  intro path rebuild tree found name p place leads finished absent deep
  obtain ⟨item, rest, rfl⟩ := List.exists_cons_of_ne_nil some
  obtain ⟨⟨fields, rfl, T⟩, later⟩ := List.forall_mem_cons.mp each
  obtain ⟨values, tables, q, valuesWritten, tablesWritten, read, reached⟩ :=
    T.reads_element [] place absent finished
      (by rw [leads.opened]; simp [Table.opened, absent])
      (fun content => by
        rw [leads.close]
        simp [Table.close, absent, put_absent absent])
      deep
  obtain ⟨more, r, moreWritten, moreRead, all⟩ := reads_elements later place absent reached deep
  refine ⟨_, r, ?_, read.trans moreRead, ?_⟩
  · rw [tableText, elementTables, valuesWritten, tablesWritten, moreWritten]
    exact congrArg (fun text => Option.some (text ++ more)) (String.append_assoc ..)
  · rw [all, nodeOf, if_pos (standsInTables_list some each)]
    rfl

theorem IsSimple.fits {n : Nat} {value : Document} (simple : IsSimple value) : Fits n value where
  simple _ := simple
  tables inTables := by
    cases value with
    | list items =>
      obtain rfl : items = [] := simple
      cases inTables
    | map fields => cases simple
    | _ => cases inTables

theorem IsTable.fits {n : Nat} {document : Document} (table : IsTable n document) : Fits (n + 1) document := by
  obtain ⟨fields, rfl, T⟩ := table
  exact ⟨nofun, fun _ => T.readsAt_map⟩

theorem fits_list {n : Nat} {items : List Document} (each : ∀ item ∈ items, IsTable n item) :
    Fits (n + 1) (.list items) := by
  cases items with
  | nil => exact IsSimple.fits (rfl : IsSimple (.list []))
  | cons item rest =>
    have inTables := standsInTables_list (List.cons_ne_nil item rest) each
    refine ⟨fun simple => ?_, fun _ => readsAt_list (List.cons_ne_nil item rest) each⟩
    rw [inTables] at simple
    cases simple

/-- No line starts with a byte order mark. -/
theorem readLines_mark (fuel : Nat) (p : Progress) (rest : List Char) :
    readLines fuel p ('\uFEFF' :: rest) = none := by
  cases fuel with
  | zero => rfl
  | succ fuel => rfl

theorem read_lines {text : String} {table : Table}
    (lines : readLines (2 * text.toList.length + 2) .start text.toList = some table) :
    read text = some (.map (tableFields table)) := by
  rw [read]
  split
  · rename_i rest chars
    rw [chars, readLines_mark] at lines
    cases lines
  · rw [lines]
    rfl

/-- A tree of tables can be written, and the text is read as the same tree. -/
theorem Tabular.read_print {n : Nat} {fields : List (String × Document)} (T : Tabular n fields)
    (deep : n ≤ maxDepth) :
    ∃ text, print (.map fields) = some text ∧ read text = some (settled (.map fields)) := by
  obtain ⟨values, tables, q, valuesWritten, tablesWritten, ⟨lines, short, reads⟩, reached⟩ :=
    T.reads_fields (p := .start) place_root rfl (fun _ => rfl) (by simpa [Progress.start] using deep)
  refine ⟨values ++ tables, ?_, read_lines ?_⟩
  · rw [print, valuesWritten, show innerTables [] fields = some tables from tablesWritten]
    rfl
  · have whole := reads (2 * (values ++ tables).length + 2 - lines) [] (by omega)
    rwa [List.append_nil, Nat.sub_add_cancel (by omega), readLines, reached] at whole

end SignalDesk.Toml
