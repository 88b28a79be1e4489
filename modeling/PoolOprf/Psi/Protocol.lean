import PoolOprf.Prf.Evaluate
import Mathlib.Data.List.Destutter

/-!
# Private set intersection

`pool-psi/src/protocol.rs`: the server masks its set with the PRF, and the client looks its outputs
up in what it receives. `maskServerSet_spec` says what the masked set is, sorted and without
repetitions, and `mem_intersect` what the client finds.
-/

namespace PoolOprf

open Panic

/-- A masked element of the server's set. -/
abbrev MaskedElement := Fin OUTPUT_ELEMENTS → UInt8

abbrev MAX_CLIENT_SET : ℕ := 2 ^ 16

abbrev MAX_SERVER_SET : ℕ := 2 ^ 20

/-- The set that the server sends. -/
structure MaskedServerSet where
  /-- The public tag every element was evaluated under. -/
  tag : List UInt8
  /-- `F_sk(tag, y)` for each `y`, sorted and deduplicated. -/
  elements : List MaskedElement

/-- The bytes of a masked element, by which it is compared. -/
def MaskedElement.bytes (element : MaskedElement) : List ℕ := List.ofFn fun i => (element i).toNat

/-- How many requests the client sends in the online phase: `set_size` evaluations, at most
`batch_size` per request. -/
def requestsFor (set_size batch_size : ℕ) : Option ℕ := divCeil set_size batch_size

/-- Mask the server's set: `F_sk(tag, y)` for each `y`, sorted and deduplicated. -/
def maskServerSet (blake3 : Blake3) (sk : SecretKey) (tag : List UInt8) (set : List (List UInt8)) :
    Option (List MaskedElement) := do
  let masked ← set.mapM (evaluate blake3 sk tag)
  let masked := masked.mergeSort fun a b => decide (MaskedElement.bytes a ≤ MaskedElement.bytes b)
  some (masked.destutter (· ≠ ·))

/-- Indices into `outputs` whose element is in the server's set. -/
def intersect (outputs : List PrfOutput) (server : List MaskedElement) : List ℕ :=
  (outputs.zipIdx.filter fun (out, _) => decide (out ∈ server)).map fun (_, i) => i

theorem MaskedElement.bytes_injective : Function.Injective MaskedElement.bytes := by
  intro a b h
  funext i
  have hi := congrFun (List.ofFn_injective h) i
  exact UInt8.toNat_inj.mp hi

section Masking

variable (masked : List MaskedElement)

/-- Sorted elements are in order. -/
theorem sorted_mergeSort :
    (masked.mergeSort fun a b => decide (MaskedElement.bytes a ≤ MaskedElement.bytes b)).Pairwise
      fun a b => MaskedElement.bytes a ≤ MaskedElement.bytes b := by
  have htrans : IsTrans MaskedElement fun a b => MaskedElement.bytes a ≤ MaskedElement.bytes b :=
    ⟨fun _ _ _ hab hbc => le_trans hab hbc⟩
  have htotal : Std.Total fun a b => MaskedElement.bytes a ≤ MaskedElement.bytes b :=
    ⟨fun _ _ => le_total _ _⟩
  exact List.pairwise_mergeSort' (fun a b => MaskedElement.bytes a ≤ MaskedElement.bytes b) masked

/-- What is left of sorted elements without repetitions. -/
theorem destutter_mergeSort :
    (masked.mergeSort fun a b => decide (MaskedElement.bytes a ≤ MaskedElement.bytes b)).destutter
        (· ≠ ·) =
      (masked.mergeSort fun a b =>
        decide (MaskedElement.bytes a ≤ MaskedElement.bytes b)).dedup := by
  have hantisymm : Std.Antisymm fun a b : MaskedElement =>
      MaskedElement.bytes a ≤ MaskedElement.bytes b :=
    ⟨fun _ _ hab hba => MaskedElement.bytes_injective (le_antisymm hab hba)⟩
  exact (sorted_mergeSort masked).destutter_eq_dedup

theorem mem_destutter_sort {element : MaskedElement} :
    element ∈ (masked.mergeSort fun a b =>
      decide (MaskedElement.bytes a ≤ MaskedElement.bytes b)).destutter (· ≠ ·) ↔
        element ∈ masked := by
  rw [destutter_mergeSort, List.mem_dedup, List.mem_mergeSort]

theorem sorted_destutter :
    ((masked.mergeSort fun a b =>
      decide (MaskedElement.bytes a ≤ MaskedElement.bytes b)).destutter (· ≠ ·)).Pairwise
        fun a b => MaskedElement.bytes a < MaskedElement.bytes b := by
  have hsub := List.destutter_sublist (· ≠ ·) (masked.mergeSort fun a b =>
    decide (MaskedElement.bytes a ≤ MaskedElement.bytes b))
  have hle := (sorted_mergeSort masked).sublist hsub
  rw [destutter_mergeSort] at hle ⊢
  -- In order and different is in strict order.
  refine (hle.and (List.nodup_dedup _)).imp fun {a b} h => lt_of_le_of_ne h.1 fun heq => ?_
  exact h.2 (MaskedElement.bytes_injective heq)

end Masking

/-- Masking sorts the set's PRF values, each once. -/
theorem maskServerSet_eq (blake3 : Blake3) (sk : SecretKey) (tag : List UInt8)
    (set : List (List UInt8)) : maskServerSet blake3 sk tag set =
      some (((set.map fun y => outputOf sk (hashToZqMatrix blake3 tag y)).mergeSort fun a b =>
        decide (MaskedElement.bytes a ≤ MaskedElement.bytes b)).destutter (· ≠ ·)) := by
  have heval : set.mapM (evaluate blake3 sk tag) =
      some (set.map fun y => outputOf sk (hashToZqMatrix blake3 tag y)) :=
    mapM_eq_some_map fun y _ => evaluate_eq blake3 sk tag y
  rw [maskServerSet, heval]
  rfl

/-- Masking does not stop, and the masked set is strictly increasing and has the set's PRF values
and no others. -/
theorem maskServerSet_spec (blake3 : Blake3) (sk : SecretKey) (tag : List UInt8)
    (set : List (List UInt8)) :
    ∃ masked, maskServerSet blake3 sk tag set = some masked ∧
      (masked.Pairwise fun a b => MaskedElement.bytes a < MaskedElement.bytes b) ∧
      ∀ element, element ∈ masked ↔ ∃ y ∈ set, evaluate blake3 sk tag y = some element := by
  refine ⟨_, maskServerSet_eq blake3 sk tag set, sorted_destutter _, fun element => ?_⟩
  rw [mem_destutter_sort, List.mem_map]
  constructor
  · rintro ⟨y, hy, rfl⟩
    exact ⟨y, hy, evaluate_eq blake3 sk tag y⟩
  · rintro ⟨y, hy, helement⟩
    rw [evaluate_eq, Option.some.injEq] at helement
    exact ⟨y, hy, helement⟩

/-- The masked set is no larger than the set. -/
theorem maskServerSet_length_le {blake3 : Blake3} {sk : SecretKey} {tag : List UInt8}
    {set : List (List UInt8)} {masked : List MaskedElement}
    (h : maskServerSet blake3 sk tag set = some masked) : masked.length ≤ set.length := by
  rw [maskServerSet_eq, Option.some.injEq] at h
  rw [← h]
  refine (List.destutter_sublist (· ≠ ·) _).length_le.trans ?_
  rw [List.length_mergeSort, List.length_map]

/-- The indices come in increasing order, each once. -/
theorem intersect_pairwise (outputs : List PrfOutput) (server : List MaskedElement) :
    (intersect outputs server).Pairwise (· < ·) := by
  have hindices : (outputs.zipIdx.map fun (_, i) => i) = List.range' 0 outputs.length := by
    rw [← List.zipIdx_map_snd]
  unfold intersect
  refine List.Pairwise.sublist ((List.filter_sublist).map _) ?_
  rw [hindices]
  exact List.pairwise_lt_range'

/-- An index is found exactly when its output is in the server's set. -/
theorem mem_intersect {outputs : List PrfOutput} {server : List MaskedElement} {i : ℕ} :
    i ∈ intersect outputs server ↔ ∃ out, outputs[i]? = some out ∧ out ∈ server := by
  unfold intersect
  simp only [List.mem_map, List.mem_filter, decide_eq_true_eq, Prod.exists,
    List.mk_mem_zipIdx_iff_getElem?]
  constructor
  · rintro ⟨out, i', ⟨hget, hmem⟩, rfl⟩
    exact ⟨out, hget, hmem⟩
  · rintro ⟨out, hget, hmem⟩
    exact ⟨out, i, ⟨hget, hmem⟩, rfl⟩

end PoolOprf
