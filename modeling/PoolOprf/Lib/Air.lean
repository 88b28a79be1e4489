import PoolOprf.Lib.Panic
import Mathlib.Algebra.BigOperators.Ring.Finset

/-!
# Algebraic intermediate representations

A circuit of a STARK is a table of field elements with one set of rules that every row, with the
row after it, has to pass (`Air.Holds`). A rule reads its row and the next one, the public values,
and the periodic columns, which repeat down the table and which both sides compute. Rows, public
values, and periodic values are lists, as the slices that a circuit cuts them into are: `col` reads
one column and `columns` a range of them. Selectors are periodic columns of ones and zeros that
take turns (`selectors`), and `select` picks the value whose selector is one.

`Stark` is what the code calls of a proof system: a prover that gets a circuit, a table, and public
values, and a verifier that gets a circuit, public values, and a proof, and that may panic.
-/

/-! ## Columns of a row -/

namespace Row

variable {F : Type*}

/-- Column `c` of a row. -/
def col [Zero F] (row : List F) (c : ℕ) : F := row.getD c 0

/-- The columns `first`, …, `last - 1` of a row. -/
def columns (row : List F) (first last : ℕ) : List F := (row.drop first).take (last - first)

/-! ### Ranges of columns -/

/-- A range of columns within another range. -/
theorem columns_columns (row : List F) (first last a b : ℕ) (h : first + b ≤ last) :
    columns (columns row first last) a b = columns row (first + a) (first + b) := by
  unfold columns
  rw [List.drop_take, List.drop_drop, List.take_take]
  congr 1
  omega

theorem columns_length {row : List F} {first last : ℕ} (h : last ≤ row.length) :
    (columns row first last).length = last - first := by
  rw [columns, List.length_take, List.length_drop]
  omega

/-- Two adjacent ranges of columns. -/
theorem columns_append_columns (row : List F) {a b c : ℕ} (hab : a ≤ b) (hbc : b ≤ c) :
    columns row a b ++ columns row b c = columns row a c := by
  obtain ⟨m, rfl⟩ := Nat.exists_eq_add_of_le hab
  obtain ⟨n, rfl⟩ := Nat.exists_eq_add_of_le hbc
  unfold columns
  rw [Nat.add_sub_cancel_left, Nat.add_sub_cancel_left, Nat.add_assoc, Nat.add_sub_cancel_left,
    List.take_add, List.drop_drop]

/-- All columns of a row. -/
theorem columns_all {row : List F} {n : ℕ} (h : row.length = n) : columns row 0 n = row := by
  rw [columns, List.drop_zero, Nat.sub_zero, ← h, List.take_length]

/-- The columns of the first of two parts. -/
theorem columns_append_left (a b : List F) : columns (a ++ b) 0 a.length = a := by
  simp [columns]

/-- The columns past the first of two parts are columns of the second. -/
theorem columns_append_right (a b : List F) (first last : ℕ) :
    columns (a ++ b) (a.length + first) (a.length + last) = columns b first last := by
  unfold columns
  rw [List.drop_append, List.drop_eq_nil_of_le (by omega), List.nil_append,
    Nat.add_sub_cancel_left, Nat.add_sub_add_left]

/-- The columns in the middle of three parts. -/
theorem columns_middle (before middle after : List F) {a b : ℕ} (h : b ≤ middle.length) :
    columns (before ++ (middle ++ after)) (before.length + a) (before.length + b) =
      columns middle a b := by
  have hleft := columns_columns (middle ++ after) 0 middle.length a b (by omega)
  rw [columns_append_left, Nat.zero_add, Nat.zero_add] at hleft
  rw [columns_append_right, hleft]

/-- All columns of the part in the middle of three. -/
theorem columns_part (before middle after : List F) :
    columns (before ++ (middle ++ after)) before.length (before.length + middle.length) =
      middle := by
  have h := columns_middle before middle after (a := 0) (b := middle.length) le_rfl
  rwa [Nat.add_zero, columns_all rfl] at h

/-- One of several parts of one width. -/
theorem columns_flatten_ofFn {n width : ℕ} (hwidth : 0 < width) {parts : Fin n → List F}
    (h : ∀ k, (parts k).length = width) (k : Fin n) :
    columns (List.ofFn parts).flatten (k * width) ((k + 1) * width) = parts k := by
  have hmem : ∀ part ∈ List.ofFn parts, part.length = width := by
    intro part hpart
    obtain ⟨i, rfl⟩ := List.mem_ofFn.mp hpart
    exact h i
  have hchunks := Panic.chunksExact_flatten hwidth hmem
  have hlen := congrArg List.length hchunks
  rw [Panic.chunksExact_length, List.length_ofFn] at hlen
  have hget := Panic.chunksExact_getElem? (n := width) (l := (List.ofFn parts).flatten) (c := k)
    (by rw [hlen]; exact k.isLt)
  rw [hchunks, List.getElem?_eq_getElem (by simp), List.getElem_ofFn, Option.some.injEq] at hget
  rw [columns, ← Nat.sub_mul, Nat.add_sub_cancel_left, Nat.one_mul, ← hget]

/-- An entry of one of several parts of one width. -/
theorem getElem?_flatten_ofFn {n : ℕ} (width : ℕ) (hwidth : 0 < width) {parts : Fin n → List F}
    (h : ∀ k, (parts k).length = width) (k : Fin n) {c : ℕ} (hc : c < width) :
    (List.ofFn parts).flatten[k * width + c]? = (parts k)[c]? := by
  rw [← columns_flatten_ofFn hwidth h k, columns, Nat.add_mul, Nat.one_mul,
    Nat.add_sub_cancel_left, List.getElem?_take_of_lt hc, List.getElem?_drop]

/-! ### Single columns -/

variable [Zero F]

theorem col_eq_getElem {row : List F} {c : ℕ} (h : c < row.length) : col row c = row[c] := by
  simp [col, List.getD_eq_getElem?_getD, h]

theorem col_append_left {a b : List F} {c : ℕ} (h : c < a.length) : col (a ++ b) c = col a c := by
  simp only [col, List.getD_eq_getElem?_getD, List.getElem?_append_left h]

theorem col_append_right (a b : List F) (c : ℕ) : col (a ++ b) (a.length + c) = col b c := by
  simp only [col, List.getD_eq_getElem?_getD]
  rw [List.getElem?_append_right (by omega), Nat.add_sub_cancel_left]

/-- A column in the middle of three parts. -/
theorem col_middle (before middle after : List F) {c : ℕ} (h : c < middle.length) :
    col (before ++ (middle ++ after)) (before.length + c) = col middle c := by
  rw [col_append_right, col_append_left h]

@[simp]
theorem col_cons_zero (x : F) (row : List F) : col (x :: row) 0 = x := rfl

@[simp]
theorem col_cons_succ (x : F) (row : List F) (c : ℕ) : col (x :: row) (c + 1) = col row c := rfl

/-- A column of a range of columns is a column of the row. -/
theorem col_columns (row : List F) (first last c : ℕ) (h : first + c < last) :
    col (columns row first last) c = col row (first + c) := by
  simp only [col, columns, List.getD_eq_getElem?_getD]
  rw [List.getElem?_take_of_lt (by omega), List.getElem?_drop]

/-- A column of a row that is given column by column. -/
theorem col_ofFn {n : ℕ} (f : Fin n → F) (i : Fin n) : col (List.ofFn f) i.val = f i := by
  rw [col_eq_getElem (by simp)]
  simp

/-- A range of one column. -/
theorem columns_one {row : List F} {c : ℕ} (h : c < row.length) :
    columns row c (c + 1) = [col row c] := by
  rw [columns, col_eq_getElem h, Nat.add_sub_cancel_left, List.drop_eq_getElem_cons h,
    List.take_succ_cons, List.take_zero]

/-- A column of one of several parts of one width. -/
theorem col_flatten_ofFn {n : ℕ} (width : ℕ) (hwidth : 0 < width) {parts : Fin n → List F}
    (h : ∀ k, (parts k).length = width) (k : Fin n) {c : ℕ} (hc : c < width) :
    col (List.ofFn parts).flatten (k * width + c) = col (parts k) c := by
  rw [col, col, List.getD_eq_getElem?_getD, List.getD_eq_getElem?_getD,
    getElem?_flatten_ofFn width hwidth h k hc]

/-- Rows of one length are equal when they agree column by column. -/
theorem ext_col {a b : List F} (hlen : a.length = b.length)
    (h : ∀ c < a.length, col a c = col b c) : a = b := by
  refine List.ext_getElem hlen fun c ha hb => ?_
  rw [← col_eq_getElem ha, ← col_eq_getElem hb, h c ha]

/-- A row of `n` columns, as the list of its columns. -/
theorem ofFn_col {row : List F} {n : ℕ} (h : row.length = n) :
    List.ofFn (fun i : Fin n => col row i) = row := by
  subst h
  refine ext_col (by simp) fun c hc => ?_
  have hc' : c < row.length := by simpa using hc
  exact col_ofFn (fun i : Fin row.length => col row i) ⟨c, hc'⟩

end Row

namespace Air

open Row

/-! ## Selectors -/

section Selectors

variable {F : Type*} [CommRing F]

/-- `K` selectors that take turns being 1, for `width` rows each: one round. -/
def selectors (F : Type*) [CommRing F] (K width : ℕ) : List (List F) :=
  (List.range K).map fun k =>
    (List.range (K * width)).map fun row => if row / width = k then 1 else 0

/-- `Σ_k sel_k · values_k`. -/
def select {K : ℕ} (sel values : Fin K → F) : F := ∑ k, sel k * values k

/-- `Σ_k k · sel_k`: the `k` where `sel_k` is 1. -/
def selectIndex {K : ℕ} (sel : Fin K → F) : F := select sel fun k => ((k : ℕ) : F)

/-- The selectors that pick `k`. -/
def picks {K : ℕ} (k : Fin K) : Fin K → F := fun i => if i = k then 1 else 0

@[simp]
theorem select_picks {K : ℕ} (k : Fin K) (values : Fin K → F) :
    select (picks k) values = values k := by simp [select, picks]

@[simp]
theorem selectIndex_picks {K : ℕ} (k : Fin K) : selectIndex (picks k : Fin K → F) = (k : ℕ) :=
  select_picks k _

end Selectors

/-! ## Periodic columns -/

section Periodic

variable {F : Type*} [Zero F]

/-- The values of the periodic columns at a row: each column repeats down the table. -/
def periodicAt (periodic : List (List F)) (row : ℕ) : List F :=
  periodic.map fun column => col column (row % column.length)

@[simp]
theorem periodicAt_append (a b : List (List F)) (row : ℕ) :
    periodicAt (a ++ b) row = periodicAt a row ++ periodicAt b row := List.map_append

@[simp]
theorem periodicAt_length (periodic : List (List F)) (row : ℕ) :
    (periodicAt periodic row).length = periodic.length := List.length_map _

/-- A column that is given row by row. -/
theorem periodicAt_map_range {n count : ℕ} (hcount : 0 < count) (f : ℕ → ℕ → F) (row : ℕ) :
    periodicAt ((List.range n).map fun k => (List.range count).map (f k)) row =
      (List.range n).map fun k => f k (row % count) := by
  have hlt : row % count < count := Nat.mod_lt _ hcount
  unfold periodicAt
  rw [List.map_map]
  apply List.map_congr_left
  intro k _
  simp only [Function.comp_apply, List.length_map, List.length_range]
  rw [col_eq_getElem (by simpa using hlt)]
  simp

end Periodic

section SelectorsAt

variable {F : Type*} [CommRing F]

/-- On a row, the selectors pick the turn that the row is in. -/
theorem periodicAt_selectors {K width : ℕ} (hw : 0 < width) (hK : 0 < K) (row : ℕ) :
    periodicAt (selectors F K width) row =
      (List.range K).map fun k => if row % (K * width) / width = k then 1 else 0 :=
  periodicAt_map_range (Nat.mul_pos hK hw) (fun k row => if row / width = k then 1 else 0) row

/-- The selectors of a row as a function: they pick turn `k`. -/
theorem col_periodicAt_selectors {K : ℕ} (width : ℕ) (hw : 0 < width) (row : ℕ) (k : Fin K)
    (h : row % (K * width) / width = k) :
    (fun i : Fin K => col (periodicAt (selectors F K width) row) i.val) = picks k := by
  have hK : 0 < K := Nat.pos_of_ne_zero fun h0 => by subst h0; exact k.elim0
  funext i
  rw [periodicAt_selectors hw hK, col_eq_getElem (by simp), h]
  simp [picks, Fin.ext_iff, eq_comm]

end SelectorsAt

end Air

/-! ## Circuits -/

/-- A circuit: its table's size, its periodic columns, and the rules of one row. -/
structure Air (F : Type) where
  /-- The columns of the table. -/
  width : ℕ
  /-- The rows of the table. -/
  height : ℕ
  /-- The number of public values. -/
  num_public_values : ℕ
  /-- The periodic columns, one list each. -/
  periodic_columns : List (List F)
  /-- The rules on a row, the next row, the periodic values of the row, and the public values. -/
  rules : (row next periodic pub : List F) → Prop

namespace Air

variable {F : Type} [Zero F]

/-- A table of the circuit's size passes every rule on every row, the row after the last being
the first. -/
structure Holds (air : Air F) (table : List (List F)) (pub : List F) : Prop where
  height : table.length = air.height
  width : ∀ row ∈ table, row.length = air.width
  public_values : pub.length = air.num_public_values
  rules : ∀ r < air.height, air.rules (table.getD r []) (table.getD ((r + 1) % air.height) [])
    (periodicAt air.periodic_columns r) pub

/-- A row of a table that holds has the circuit's width. -/
theorem Holds.row_length {air : Air F} {table : List (List F)} {pub : List F}
    (h : air.Holds table pub) {r : ℕ} (hr : r < air.height) :
    (table.getD r []).length = air.width := by
  rw [List.getD_eq_getElem?_getD, List.getElem?_eq_getElem (by rw [h.height]; exact hr),
    Option.getD_some]
  exact h.width _ (List.getElem_mem _)

omit [Zero F] in
/-- A table that is given row by row. -/
theorem getD_map_range (f : ℕ → List F) {n r : ℕ} (hr : r < n) :
    ((List.range n).map f).getD r [] = f r := by
  simp [List.getD_eq_getElem?_getD, hr]

end Air

/-- A proof system for circuits. Its verifier may panic (`none`) on a malformed proof. -/
structure Stark (F : Type) where
  /-- A proof. -/
  Proof : Type
  /-- The prover's random choices. -/
  Coins : Type
  /-- Why the prover fails. -/
  ProvingError : Type
  /-- Why the verifier refuses. -/
  VerificationError : Type
  /-- The prover. -/
  prove : Coins → Air F → List (List F) → List F → Except ProvingError Proof
  /-- The verifier. -/
  verify : Air F → List F → Proof → Option (Except VerificationError Unit)

open Classical in
/-- The proof system whose proofs are tables, checked against the rules. -/
noncomputable def Stark.transparent (F : Type) [Zero F] : Stark F where
  Proof := List (List F)
  Coins := Unit
  ProvingError := Unit
  VerificationError := Unit
  prove _ _ table _ := .ok table
  verify air pub table := some (if air.Holds table pub then .ok () else .error ())

/-- The transparent proof system accepts exactly the tables that pass every rule. -/
theorem Stark.transparent_verify {F : Type} [Zero F] {air : Air F} {pub : List F}
    {table : List (List F)} :
    (Stark.transparent F).verify air pub table = some (.ok ()) ↔ air.Holds table pub := by
  unfold Stark.transparent
  simp

/-- A table that passes every rule is proved, and its proof is accepted. -/
def Stark.Complete {F : Type} [Zero F] (stark : Stark F) : Prop :=
  ∀ (coins : stark.Coins) (air : Air F) (table : List (List F)) (pub : List F), air.Holds table pub →
    ∃ proof, stark.prove coins air table pub = .ok proof ∧ stark.verify air pub proof = some (.ok ())

theorem Stark.transparent_complete (F : Type) [Zero F] : (Stark.transparent F).Complete :=
  fun _ _ table _ h => ⟨table, rfl, Stark.transparent_verify.mpr h⟩

/-- There is a table behind each proof that is accepted: it has the circuit's size and passes every
rule. -/
def Stark.Extracts {F : Type} [Zero F] (stark : Stark F)
    (tables : Air F → List F → stark.Proof → List (List F)) : Prop :=
  ∀ (air : Air F) (pub : List F) (proof : stark.Proof), stark.verify air pub proof = some (.ok ()) →
    air.Holds (tables air pub proof) pub

/-- Behind a proof that is a table is that table. -/
theorem Stark.transparent_extracts (F : Type) [Zero F] :
    (Stark.transparent F).Extracts fun _ _ table => table :=
  fun _ _ _ h => Stark.transparent_verify.mp h
