-- SUMMARY: Loading writes every row of a frame once, in order, and each cell is read back from its literal.
import Tabular.Proofs.Results
import Tabular.Proofs.Series
import Tabular.Proofs.Sql.Journal
import Tabular.Proofs.Sql.Rows
import Tabular.Sql.Load
import Tabular.Sql.Store

/-!
# Loaded rows

The rows of a frame are cut into batches that are put together again as they were: no batch is empty, none is longer
than the size, and all but the last have it. Each batch is one insertion, and the text of its query is read back to
the cells of its rows. Read together, the insertions of a load are the rows of the frame.
-/

namespace Tabular.Sql.Frame

/-! ## Batches -/

section Batches

variable (size : Nat) (rows : List Nat)

theorem flatten_batches : (batches size rows).flatten = rows := by
  fun_induction batches size rows with
  | case1 => rfl
  | case2 row more ih => rw [List.flatten_cons, ih, List.take_append_drop]

theorem length_of_mem_batches {batch : List Nat} (h : batch ∈ batches size rows) :
    1 ≤ batch.length ∧ batch.length ≤ max size 1 := by
  fun_induction batches size rows with
  | case1 => simp at h
  | case2 row more ih =>
    rcases List.mem_cons.1 h with rfl | h
    · rw [List.length_take, List.length_cons]
      omega
    · exact ih h

/-- The number of batches: the number of rows over the size, rounded up. -/
theorem length_batches : (batches size rows).length = (rows.length + max size 1 - 1) / max size 1 := by
  fun_induction batches size rows with
  | case1 => exact (Nat.div_eq_of_lt (by rw [List.length_nil]; omega)).symm
  | case2 row more ih =>
    have hsize : 0 < max size 1 := by omega
    rw [List.length_cons, ih, List.length_drop, List.length_cons]
    generalize max size 1 = m at hsize ⊢
    have hall : more.length + 1 + m - 1 = more.length + m := by omega
    rw [hall, Nat.add_div_right _ hsize, Nat.add_right_cancel_iff]
    by_cases hmore : m ≤ more.length + 1
    · congr 1
      omega
    -- The first batch has all rows.
    · rw [Nat.div_eq_of_lt (by omega), Nat.div_eq_of_lt (by omega)]

end Batches

/-! ## Rows -/

/-- The literal and its name hold the cell of a row: the name is that of the column, and the literal is read back to
    the cell, where the column has no floats. -/
def HoldsCell (row : Nat) (c : Memory.Column) (cell : String × Literal) : Prop :=
  cell.1 = c.name ∧ ∃ v, c.cell row = .ok v ∧ cell.2 = .of v ∧
    (c.data.dataType ≠ .float → cell.2.value? c.data.dataType = some v)

/-- The literals hold the cells of a row, one for each column and in their order. -/
def HoldsRow (f : Memory.Frame) (row : Nat) (cells : List (String × Literal)) : Prop :=
  List.Forall₂ (HoldsCell row) f.columns cells

theorem holdsCell_of {row : Nat} {c : Memory.Column} {v : Value} (h : c.cell row = .ok v) :
    HoldsCell row c (c.name, .of v) := by
  refine ⟨rfl, v, h, rfl, fun hfloat => ?_⟩
  have hcell : c.data.cell? row = some v := by
    unfold Memory.Column.cell at h
    split at h
    · rename_i hfound
      rw [hfound, Except.ok.inj h]
    · simp at h
  rw [Series.cell?_eq] at hcell
  have htype : v.dataType = c.data.dataType := Series.dataType_of_mem_values (List.mem_of_getElem? hcell)
  have hnull : v.dataType ≠ .nil := by
    rw [htype]
    cases c.data <;> simp [Series.dataType]
  rw [← htype] at hfloat ⊢
  exact Literal.value?_of hnull hfloat

/-- A row of literals is made of the cells of the row. -/
theorem literalRow_eq_ok {d : Dialect} {f : Memory.Frame} {row : Nat} {fields : List Field}
    (h : literalRow d f row = .ok fields) :
    ∃ cells, fields = cells.map Rows.field ∧ HoldsRow f row (Rows.literals cells) := by
  have hall := mapM_eq_ok.1 h
  unfold HoldsRow
  clear h
  generalize f.columns = columns at hall
  induction hall with
  | nil => exact ⟨[], rfl, .nil⟩
  | @cons c field columns fields hfield _ ih =>
    obtain ⟨cells, rfl, hcells⟩ := ih
    obtain ⟨v, hv, hfield⟩ := bind_eq_ok.1 hfield
    obtain ⟨-, -, hfield⟩ := bind_eq_ok.1 hfield
    obtain rfl := Except.ok.inj hfield
    exact ⟨(c.name, v) :: cells, rfl, .cons (holdsCell_of hv) hcells⟩

/-! ## Insertions -/

/-- An insertion into all columns of a table, whose text is read back to the cells of some rows. -/
def HoldsRows (d : Dialect) (table : String) (f : Memory.Frame) (rows : List Nat) (insertion : Insertion) : Prop :=
  insertion.table = table ∧ insertion.names = f.columns.map (·.name) ∧
    ∃ read, Rows.read? (insertion.query.text d) = some read ∧ List.Forall₂ (HoldsRow f) rows read

variable {δ : Type} [Database δ] {d : Dialect} {table : String} {f : Memory.Frame}

/-- One batch is one insertion. -/
theorem inserts_insertBatch {rows : List Nat} (hne : rows ≠ []) (hcolumns : f.columns ≠ []) :
    Work.Inserts (insertBatch (δ := Journaled δ) d table f rows) (insertBatch d table f rows) fun insertions _ =>
      ∃ insertion, insertions = [insertion] ∧ HoldsRows d table f rows insertion := by
  refine .bind (P := fun insertions fields => insertions = [] ∧ rows.mapM (literalRow d f) = .ok fields)
    (.lift fun fields hfields => ⟨rfl, hfields⟩) ?_
  rintro _ fields ⟨rfl, hfields⟩
  obtain ⟨cells, rfl, hcells⟩ : ∃ cells : List (List (String × Value)), fields = cells.map (·.map Rows.field) ∧
      List.Forall₂ (HoldsRow f) rows (cells.map Rows.literals) := by
    have hall := mapM_eq_ok.1 hfields
    clear hfields hne
    induction hall with
    | nil => exact ⟨[], rfl, .nil⟩
    | cons hrow _ ih =>
      obtain ⟨more, rfl, hmore⟩ := ih
      obtain ⟨cells, rfl, hcells⟩ := literalRow_eq_ok hrow
      exact ⟨cells :: more, rfl, .cons hcells hmore⟩
  refine .ask fun _ => ⟨_, rfl, rfl, rfl, cells.map Rows.literals, Rows.read?_literals d ?_ ?_, hcells⟩
  · rintro rfl
    cases hcells
    exact hne rfl
  · rintro row hrow rfl
    obtain ⟨i, -, hi⟩ := exists_of_mem_forall₂ hcells (List.mem_map_of_mem hrow)
    cases hcolumnsEq : f.columns with
    | nil => exact hcolumns hcolumnsEq
    | cons c columns =>
      unfold HoldsRow at hi
      rw [hcolumnsEq] at hi
      cases hi

theorem inserts_ofTable (options : Options) :
    Work.Inserts (ofTable (δ := Journaled δ) d table options) (ofTable d table options) fun insertions _ =>
      insertions = [] := by
  refine .bind (P := fun insertions _ => insertions = []) (.ask fun _ => rfl) ?_
  rintro _ types rfl
  refine .bind (P := fun insertions _ => insertions = []) (.freshMark fun _ => rfl) ?_
  rintro _ mark rfl
  exact .pure rfl

/-- A load inserts the batches one after another, and nothing else. -/
theorem inserts_load :
    Work.Inserts (load (δ := Journaled δ) d table f) (load d table f) fun insertions _ =>
      List.Forall₂ (HoldsRows d table f) (batches f.options.insertBatchRows (List.range f.rows)) insertions := by
  have hbatch : ∀ batch ∈ batches f.options.insertBatchRows (List.range f.rows), batch ≠ [] ∧ f.columns ≠ [] := by
    intro batch hbatch
    refine ⟨List.ne_nil_of_length_pos (length_of_mem_batches _ _ hbatch).1, fun hnone => ?_⟩
    have hrows : f.rows = 0 := by rw [Memory.Frame.rows, hnone]
    rw [hrows, List.range_zero, batches] at hbatch
    simp at hbatch
  refine .bind (P := fun insertions _ => insertions = []) (.ask fun _ => rfl) ?_
  rintro _ _ rfl
  refine .bind (.forM fun batch h => inserts_insertBatch (hbatch batch h).1 (hbatch batch h).2) ?_
  intro insertions _ hall
  refine .bind (inserts_ofTable f.options) ?_
  rintro _ loaded rfl
  exact .pure (by simpa using hall)

/-- When a load succeeds, its insertions go into all columns of the table. There are as many as the number of rows
    over the batch size, rounded up, and each has a row and no more than the batch size. The texts of their queries
    are read back to the rows of the frame, each once and in order: the names of the columns and the cells. -/
theorem load_inserts_rows {g : Frame} {session after : Session δ} (h : load d table f session = (.ok g, after)) :
    let size := max f.options.insertBatchRows 1
    ∃ (insertions : List Insertion) (read : List (List (List (String × Literal)))),
      load d table f (session.journaled []) = (.ok g, after.journaled insertions) ∧
      (∀ insertion ∈ insertions, insertion.table = table ∧ insertion.names = f.columns.map (·.name)) ∧
      insertions.length = (f.rows + size - 1) / size ∧
      List.Forall₂ (fun insertion rows =>
        Rows.read? (insertion.query.text d) = some rows ∧ 1 ≤ rows.length ∧ rows.length ≤ size) insertions read ∧
      List.Forall₂ (HoldsRow f) (List.range f.rows) read.flatten := by
  intro size
  obtain ⟨insertions, hload, hall⟩ := inserts_load session after g [] h
  have hcount := length_batches f.options.insertBatchRows (List.range f.rows)
  have hsizes : ∀ batch ∈ batches f.options.insertBatchRows (List.range f.rows),
      1 ≤ batch.length ∧ batch.length ≤ size := fun _ hbatch => length_of_mem_batches _ _ hbatch
  rw [hall.length_eq, List.length_range] at hcount
  rw [← flatten_batches f.options.insertBatchRows (List.range f.rows)]
  generalize batches f.options.insertBatchRows (List.range f.rows) = parts at hall hsizes
  obtain ⟨read, hread, hrows⟩ : ∃ read, List.Forall₂ (fun insertion rows =>
        Rows.read? (insertion.query.text d) = some rows ∧ 1 ≤ rows.length ∧ rows.length ≤ size) insertions read ∧
      List.Forall₂ (HoldsRow f) parts.flatten read.flatten := by
    clear hload hcount
    induction hall with
    | nil => exact ⟨[], .nil, .nil⟩
    | @cons part insertion parts insertions hpart _ ih =>
      rw [List.forall_mem_cons] at hsizes
      obtain ⟨-, -, rows, hread, hrows⟩ := hpart
      obtain ⟨more, hreads, hmore⟩ := ih hsizes.2
      rw [hrows.length_eq] at hsizes
      exact ⟨rows :: more, .cons ⟨hread, hsizes.1⟩ hreads, List.rel_append hrows hmore⟩
  refine ⟨insertions, read, hload, fun insertion hmem => ?_, hcount, hread, hrows⟩
  obtain ⟨part, -, htable, hnames, -⟩ := exists_of_mem_forall₂ hall hmem
  exact ⟨htable, hnames⟩

/-- Three rows in batches of two: quotes in a name and in a text, a negative number, and a year before the first. -/
theorem load_inserts_rows_quotes :
    let f : Memory.Frame := ⟨.ofList [("n\"", .ofSeries "n\"" (.integers [-7, 0, 12])),
      ("s", .ofSeries "s" (.strings ["it's", "", "' UNION ALL "])),
      ("d", .ofSeries "d" (.dates [⟨-5, 1, 2, by decide⟩, ⟨2024, 2, 29, by decide⟩, ⟨12345, 12, 31, by decide⟩]))],
      { Options.default with insertBatchRows := 2 }⟩
    let session : Session Store := ⟨⟨[]⟩, 0⟩
    ∃ (g : Frame) (after : Session Store) (insertions : List Insertion)
      (read : List (List (List (String × Literal)))),
      load .sqlite "t" f session = (.ok g, after) ∧
      load .sqlite "t" f (session.journaled []) = (.ok g, after.journaled insertions) ∧
      insertions.length = 2 ∧
      List.Forall₂ (fun insertion rows =>
        Rows.read? (insertion.query.text .sqlite) = some rows ∧ 1 ≤ rows.length ∧ rows.length ≤ 2) insertions read ∧
      List.Forall₂ (HoldsRow f) [0, 1, 2] read.flatten := by
  intro f session
  obtain ⟨g, after, hload⟩ : ∃ g after, load .sqlite "t" f session = (.ok g, after) := by
    have hok : (load .sqlite "t" f session).1.isOk = true := by decide +kernel
    rcases hrun : load .sqlite "t" f session with ⟨result, after⟩
    rw [hrun] at hok
    cases result with
    | error failure => simp [Except.isOk, Except.toBool] at hok
    | ok g => exact ⟨g, after, rfl⟩
  obtain ⟨insertions, read, hjournal, -, hlength, hread, hrows⟩ := load_inserts_rows hload
  have hrange : List.range f.rows = [0, 1, 2] := by decide
  rw [hrange] at hrows
  exact ⟨g, after, insertions, read, hload, hjournal, hlength.trans (by decide), hread, hrows⟩

end Tabular.Sql.Frame
