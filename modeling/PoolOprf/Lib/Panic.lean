import Mathlib.Algebra.BigOperators.Fin
import Mathlib.Data.List.OfFn
import Mathlib.Tactic

/-!
# Computations that may panic

A computation that may stop at a failed assertion, an index out of bounds, or an overflow of a
machine accumulator is a value of `Option`, with `none` for the stop. This file has the loops that
such computations are made of: indexing, an array built entry by entry (`fromFn`), a sum in an
accumulator of bounded width (`checkedSum`), the two short-circuit conjunctions, and the chunks of
a list. Each comes with the lemma that says when it does not stop and what it then returns.
-/

namespace Panic

/-! ## Arrays -/

/-- `array[i]`, which stops out of bounds. -/
def index {α : Type*} {n : ℕ} (array : Fin n → α) (i : ℕ) : Option α :=
  if h : i < n then some (array ⟨i, h⟩) else none

/-- An index in bounds. -/
theorem index_of_lt {α : Type*} {n : ℕ} (array : Fin n → α) {i : ℕ} (h : i < n) :
    index array i = some (array ⟨i, h⟩) := dif_pos h

@[simp]
theorem index_val {α : Type*} {n : ℕ} (array : Fin n → α) (i : Fin n) :
    index array i.val = some (array i) := index_of_lt array i.isLt

/-- The array of the entries `f 0`, `f 1`, …, if none of them stops. -/
def fromFn {α : Type*} {n : ℕ} (f : Fin n → Option α) : Option (Fin n → α) :=
  if h : ∀ i, (f i).isSome then some fun i => (f i).get (h i) else none

/-- `fromFn` returns an array exactly when each entry returns that array's entry. -/
theorem fromFn_eq_some_iff {α : Type*} {n : ℕ} {f : Fin n → Option α} {g : Fin n → α} :
    fromFn f = some g ↔ ∀ i, f i = some (g i) := by
  unfold fromFn
  constructor
  · intro h i
    split at h
    · rw [← Option.some.inj h]
      simp
    · cases h
  · intro h
    have hs : ∀ i, (f i).isSome := fun i => by simp [h i]
    rw [dif_pos hs]
    congr 1
    funext i
    simp [h i]

/-- The list of an array's entries is read back into the array. -/
theorem fromFn_ofFn {α : Type*} {n : ℕ} (g : Fin n → α) :
    fromFn (fun i : Fin n => (List.ofFn g)[i.val]?) = some g := by
  apply fromFn_eq_some_iff.mpr
  intro i
  rw [List.getElem?_ofFn, dif_pos i.isLt]

/-- A list that is read whole into an array is the list of the array's entries. -/
theorem eq_ofFn_of_fromFn {α : Type*} {n : ℕ} {l : List α} {g : Fin n → α} (hlen : l.length = n)
    (h : fromFn (fun i : Fin n => l[i.val]?) = some g) : l = List.ofFn g := by
  have hget := fromFn_eq_some_iff.mp h
  refine List.ext_getElem? fun i => ?_
  by_cases hi : i < n
  · rw [List.getElem?_ofFn, dif_pos hi]
    exact hget ⟨i, hi⟩
  · rw [List.getElem?_ofFn, dif_neg hi, List.getElem?_eq_none]
    rw [hlen]
    exact Nat.le_of_not_lt hi

/-! ## Accumulators -/

/-- The sum of a list, term by term, in an accumulator that holds the numbers below `bound`. -/
def checkedSum (bound : ℕ) (terms : List ℕ) : Option ℕ :=
  terms.foldlM (fun acc x => if acc + x < bound then some (acc + x) else none) 0

theorem checkedSum_fold {bound : ℕ} :
    ∀ (terms : List ℕ) (acc : ℕ), acc + terms.sum < bound →
      terms.foldlM (fun acc x => if acc + x < bound then some (acc + x) else none) acc =
        some (acc + terms.sum)
  | [], acc, _ => by simp
  | x :: terms, acc, h => by
    rw [List.sum_cons] at h
    have hx : acc + x < bound := by omega
    rw [List.foldlM_cons, if_pos hx, List.sum_cons]
    have hacc : acc + x + terms.sum < bound := by omega
    have ih := checkedSum_fold terms (acc + x) hacc
    simpa [Nat.add_assoc] using ih

/-- A sum that the accumulator holds at the end, it holds at every step. -/
theorem checkedSum_of_lt {bound : ℕ} {terms : List ℕ} (h : terms.sum < bound) :
    checkedSum bound terms = some terms.sum := by
  have h0 := checkedSum_fold terms 0 (by omega : 0 + terms.sum < bound)
  rwa [Nat.zero_add] at h0

/-- The sum of `n` terms, each at most `m`, in an accumulator that holds `n * m`. -/
theorem checkedSum_ofFn {bound n : ℕ} (f : Fin n → ℕ) (m : ℕ) (hf : ∀ i, f i ≤ m)
    (h : n * m < bound) : checkedSum bound (List.ofFn f) = some (∑ i, f i) := by
  have hsum : ∑ i, f i ≤ n * m := by
    calc ∑ i, f i ≤ ∑ _i : Fin n, m := Finset.sum_le_sum fun i _ => hf i
      _ = n * m := by simp
  rw [checkedSum_of_lt (by rw [List.sum_ofFn]; omega), List.sum_ofFn]

/-! ## Short-circuit conjunctions -/

/-- `a && b`, where `b` runs only after a true `a`. -/
def and (a b : Option Bool) : Option Bool := do
  if ← a then b else pure false

theorem and_eq_some_true {a b : Option Bool} : and a b = some true ↔ a = some true ∧ b = some true := by
  rcases a with _ | _ | _ <;> simp [and]

/-- A conjunction does not stop when its first part does not, nor its second after a true first. -/
theorem and_isSome {a b : Option Bool} (ha : a.isSome) (hb : a = some true → b.isSome) :
    (and a b).isSome := by
  rcases a with _ | _ | _
  · simp at ha
  · simp [and]
  · simpa [and] using hb rfl

/-- `all` over a list is true exactly when every test is. -/
theorem allM_eq_some_true {α : Type} {p : α → Option Bool} :
    ∀ {l : List α}, l.allM p = some true ↔ ∀ a ∈ l, p a = some true
  | [] => by simp
  | a :: l => by
    rw [List.allM_cons, List.forall_mem_cons, ← allM_eq_some_true (l := l)]
    rcases p a with _ | _ | _ <;> simp

/-- `all` over the indices of an array. -/
theorem allM_finRange_eq_some_true {n : ℕ} {p : Fin n → Option Bool} :
    (List.finRange n).allM p = some true ↔ ∀ i, p i = some true := by
  rw [allM_eq_some_true]
  exact ⟨fun h i => h i (List.mem_finRange i), fun h i _ => h i⟩

/-- A test that does not stop. -/
theorem some_decide_eq_some_true {q : Prop} [Decidable q] : some (decide q) = some true ↔ q := by
  rw [Option.some.injEq, decide_eq_true_eq]

/-- `all` over a list does not stop when no test does. -/
theorem allM_isSome {α : Type} {p : α → Option Bool} :
    ∀ {l : List α}, (∀ a ∈ l, (p a).isSome) → (l.allM p).isSome
  | [], _ => by simp
  | a :: l, h => by
    rw [List.forall_mem_cons] at h
    have ih := allM_isSome h.2
    rw [List.allM_cons]
    obtain ⟨b, hb⟩ := Option.isSome_iff_exists.mp h.1
    cases b <;> simp [hb, ih]

/-! ## Lists -/

/-- A list made entry by entry, where no entry stops. -/
theorem mapM_eq_some_map {α β : Type*} {f : α → Option β} {g : α → β} :
    ∀ {l : List α}, (∀ a ∈ l, f a = some (g a)) → l.mapM f = some (l.map g)
  | [], _ => rfl
  | a :: l, h => by
    rw [List.forall_mem_cons] at h
    rw [List.mapM_cons, h.1, mapM_eq_some_map h.2]
    rfl

/-- As many entries are made as there are. -/
theorem length_mapM {α β : Type*} {f : α → Option β} :
    ∀ {l : List α} {l' : List β}, l.mapM f = some l' → l'.length = l.length
  | [], l', h => by
    obtain rfl := Option.some.inj h
    rfl
  | a :: l, l', h => by
    rw [List.mapM_cons] at h
    obtain ⟨b, -, h⟩ := Option.bind_eq_some_iff.mp h
    obtain ⟨l'', hl, h⟩ := Option.bind_eq_some_iff.mp h
    obtain rfl := Option.some.inj h
    rw [List.length_cons, List.length_cons, length_mapM hl]

/-- No entry of a list that is made stops. -/
theorem exists_of_mapM {α β : Type*} {f : α → Option β} :
    ∀ {l : List α} {l' : List β}, l.mapM f = some l' → ∀ a ∈ l, ∃ b, f a = some b
  | [], _, _ => fun _ h => absurd h List.not_mem_nil
  | a :: l, l', h => by
    rw [List.mapM_cons] at h
    obtain ⟨b, hb, h⟩ := Option.bind_eq_some_iff.mp h
    obtain ⟨l'', hl, -⟩ := Option.bind_eq_some_iff.mp h
    rw [List.forall_mem_cons]
    exact ⟨⟨b, hb⟩, exists_of_mapM hl⟩

/-- Two arrays, entry by entry. -/
theorem zipWith_ofFn {α β γ : Type*} {n : ℕ} (f : α → β → γ) (a : Fin n → α) (b : Fin n → β) :
    List.zipWith f (List.ofFn a) (List.ofFn b) = List.ofFn fun i => f (a i) (b i) := by
  refine List.ext_getElem (by simp) fun i _ _ => ?_
  simp

/-! ## Chunks -/

/-- The consecutive chunks of `n` entries of a list, without a shorter last one. -/
def chunksExact {α : Type*} (n : ℕ) (l : List α) : List (List α) :=
  (List.range (l.length / n)).map fun c => (l.drop (c * n)).take n

@[simp]
theorem chunksExact_length {α : Type*} (n : ℕ) (l : List α) :
    (chunksExact n l).length = l.length / n := by simp [chunksExact]

/-- Entry `i` of chunk `c` is entry `c * n + i` of the list. -/
theorem chunksExact_getElem? {α : Type*} {n : ℕ} {l : List α} {c : ℕ} (h : c < l.length / n) :
    (chunksExact n l)[c]? = some ((l.drop (c * n)).take n) := by
  simp [chunksExact, h]

/-- Every chunk has `n` entries. -/
theorem length_of_mem_chunksExact {α : Type*} {n : ℕ} {l chunk : List α}
    (h : chunk ∈ chunksExact n l) : chunk.length = n := by
  simp only [chunksExact, List.mem_map, List.mem_range] at h
  obtain ⟨c, hc, rfl⟩ := h
  have hn : 0 < n := Nat.pos_of_ne_zero fun h0 => by simp [h0] at hc
  have hle : (c + 1) * n ≤ l.length := by
    calc (c + 1) * n ≤ l.length / n * n := Nat.mul_le_mul_right n hc
      _ ≤ l.length := Nat.div_mul_le_self _ _
  rw [Nat.add_mul, Nat.one_mul] at hle
  rw [List.length_take, List.length_drop]
  omega

/-- The chunks of the images. -/
theorem chunksExact_map {α β : Type*} (f : α → β) (n : ℕ) (l : List α) :
    chunksExact n (l.map f) = (chunksExact n l).map (List.map f) := by
  unfold chunksExact
  rw [List.length_map, List.map_map]
  refine List.map_congr_left fun c _ => ?_
  rw [Function.comp_apply, List.map_take, List.map_drop]

/-- A list of one chunk followed by more: its chunks are that chunk and the chunks of the rest. -/
theorem chunksExact_append {α : Type*} {n : ℕ} (hn : 0 < n) {chunk rest : List α}
    (h : chunk.length = n) : chunksExact n (chunk ++ rest) = chunk :: chunksExact n rest := by
  have hlen : (chunk ++ rest).length / n = rest.length / n + 1 := by
    rw [List.length_append, h, Nat.add_div_left _ hn]
  unfold chunksExact
  rw [hlen, List.range_succ_eq_map, List.map_cons, List.map_map]
  congr 1
  · rw [Nat.zero_mul, List.drop_zero, ← h, List.take_left]
  · apply List.map_congr_left
    intro c _
    have hdrop : (c + 1) * n = chunk.length + c * n := by rw [h]; ring
    simp only [Function.comp_apply, Nat.succ_eq_add_one]
    rw [hdrop, List.drop_append, List.drop_eq_nil_of_le (by omega), List.nil_append]
    simp

@[simp]
theorem chunksExact_nil {α : Type*} (n : ℕ) : chunksExact n ([] : List α) = [] := by
  simp [chunksExact]

/-- The chunks of a list that is chunks of `n` entries end to end. -/
theorem chunksExact_flatten {α : Type*} {n : ℕ} (hn : 0 < n) :
    ∀ {chunks : List (List α)}, (∀ chunk ∈ chunks, chunk.length = n) →
      chunksExact n chunks.flatten = chunks
  | [], _ => by simp
  | chunk :: chunks, h => by
    rw [List.forall_mem_cons] at h
    rw [List.flatten_cons, chunksExact_append hn h.1, chunksExact_flatten hn h.2]

/-- The first chunks of a list of whole chunks, end to end. -/
theorem take_chunksExact_flatten {α : Type*} {n : ℕ} (hn : 0 < n) (m : ℕ) {l : List α}
    (h : n ∣ l.length) : ((chunksExact n l).take m).flatten = l.take (m * n) := by
  obtain ⟨k, hk⟩ := h
  induction k generalizing m l with
  | zero =>
    obtain rfl : l = [] := List.length_eq_zero_iff.mp (by rw [hk, Nat.mul_zero])
    simp
  | succ k ih =>
    rw [Nat.mul_succ] at hk
    have htake : (l.take n).length = n := by rw [List.length_take]; omega
    have hdrop : (l.drop n).length = n * k := by rw [List.length_drop]; omega
    have hchunks : chunksExact n l = l.take n :: chunksExact n (l.drop n) := by
      rw [← chunksExact_append hn htake, List.take_append_drop]
    cases m with
    | zero => simp
    | succ m =>
      rw [hchunks, List.take_succ_cons, List.flatten_cons, ih m hdrop, Nat.succ_mul, Nat.add_comm,
        List.take_add]

/-- Lists of `n` entries are arrays of `n` entries. -/
theorem exists_map_ofFn {α : Type*} {n : ℕ} :
    ∀ {chunks : List (List α)}, (∀ chunk ∈ chunks, chunk.length = n) →
      ∃ arrays : List (Fin n → α), chunks = arrays.map List.ofFn
  | [], _ => ⟨[], rfl⟩
  | chunk :: chunks, h => by
    rw [List.forall_mem_cons] at h
    obtain ⟨rfl, h⟩ := h
    obtain ⟨arrays, rfl⟩ := exists_map_ofFn h
    exact ⟨chunk.get :: arrays, by rw [List.map_cons, List.ofFn_get]⟩

/-- A list's chunks as arrays. -/
theorem chunksExact_arrays {α : Type*} (n : ℕ) (l : List α) :
    ∃ arrays : List (Fin n → α), chunksExact n l = arrays.map List.ofFn ∧
      arrays.length = l.length / n ∧
      ∀ (v : ℕ) (a : Fin n → α), arrays[v]? = some a → ∀ k : Fin n, l[v * n + k]? = some (a k) := by
  obtain ⟨arrays, h⟩ := exists_map_ofFn fun chunk hchunk =>
    length_of_mem_chunksExact (n := n) (l := l) hchunk
  have hlen : arrays.length = l.length / n := by
    rw [← chunksExact_length, h, List.length_map]
  refine ⟨arrays, h, hlen, fun v a hv k => ?_⟩
  have hlt : v < l.length / n := by
    rw [← hlen]
    exact (List.getElem?_eq_some_iff.mp hv).1
  have hchunk : (chunksExact n l)[v]? = some (List.ofFn a) := by
    rw [h, List.getElem?_map, hv, Option.map_some]
  rw [chunksExact_getElem? hlt, Option.some.injEq] at hchunk
  calc l[v * n + k]? = ((l.drop (v * n)).take n)[k.val]? := by
        rw [List.getElem?_take_of_lt k.isLt, List.getElem?_drop]
    _ = some (a k) := by rw [hchunk, List.getElem?_ofFn, dif_pos k.isLt]

/-- A quotient that is rounded up. Stops for a zero divisor. -/
def divCeil (a b : ℕ) : Option ℕ :=
  if b = 0 then none else some (if a % b = 0 then a / b else a / b + 1)

theorem divCeil_spec (a : ℕ) {b : ℕ} (hb : 0 < b) :
    ∃ count, divCeil a b = some count ∧ a ≤ count * b ∧ ∀ c < count, c * b < a := by
  have hsplit := Nat.div_add_mod a b
  have hlt := Nat.mod_lt a hb
  rw [Nat.mul_comm] at hsplit
  unfold divCeil
  rw [if_neg hb.ne']
  by_cases hzero : a % b = 0
  · refine ⟨a / b, by rw [if_pos hzero], by omega, fun c hc => ?_⟩
    have hmul : (c + 1) * b ≤ a / b * b := Nat.mul_le_mul_right b hc
    rw [Nat.add_mul, Nat.one_mul] at hmul
    omega
  · refine ⟨a / b + 1, by rw [if_neg hzero], ?_, fun c hc => ?_⟩
    · rw [Nat.add_mul, Nat.one_mul]
      omega
    · have hmul : c * b ≤ a / b * b := Nat.mul_le_mul_right b (Nat.le_of_lt_succ hc)
      omega

/-- The consecutive chunks of `n` entries of a list, the last of which may be shorter. Stops for
`n = 0`. -/
def chunks {α : Type*} (n : ℕ) (l : List α) : Option (List (List α)) :=
  (divCeil l.length n).map fun count =>
    (List.range count).map fun c => (l.drop (c * n)).take n

/-- The chunks are the list, and none is empty or larger than `n`. -/
theorem chunks_spec {α : Type*} {n : ℕ} (hn : 0 < n) (l : List α) :
    ∃ cs, chunks n l = some cs ∧ divCeil l.length n = some cs.length ∧ cs.flatten = l ∧
      ∀ chunk ∈ cs, chunk ≠ [] ∧ chunk.length ≤ n := by
  obtain ⟨count, hcount, hle, hlt⟩ := divCeil_spec l.length hn
  have hflatten : ∀ m, ((List.range m).map fun c => (l.drop (c * n)).take n).flatten =
      l.take (m * n) := by
    intro m
    induction m with
    | zero => rw [List.range_zero, Nat.zero_mul, List.take_zero]; rfl
    | succ m ih =>
      rw [List.range_succ, List.map_append, List.flatten_append, ih, List.map_singleton,
        List.flatten_singleton, Nat.add_mul, Nat.one_mul, List.take_add]
  refine ⟨_, by rw [chunks, hcount]; rfl, by rw [hcount, List.length_map, List.length_range], ?_, ?_⟩
  · rw [hflatten, List.take_of_length_le hle]
  · intro chunk hchunk
    obtain ⟨c, hc, rfl⟩ := List.mem_map.mp hchunk
    have hstart := hlt c (List.mem_range.mp hc)
    refine ⟨List.ne_nil_of_length_pos ?_, List.length_take_le n _⟩
    rw [List.length_take, List.length_drop]
    omega

/-- The sizes of the chunks depend on the size of the list. -/
theorem chunks_lengths {α β : Type*} (n : ℕ) {l : List α} {l' : List β} (h : l'.length = l.length) :
    (chunks n l').map (List.map List.length) = (chunks n l).map (List.map List.length) := by
  unfold chunks
  rw [h, Option.map_map, Option.map_map]
  congr 1
  funext count
  rw [Function.comp_apply, Function.comp_apply, List.map_map, List.map_map]
  refine List.map_congr_left fun c _ => ?_
  rw [Function.comp_apply, Function.comp_apply, List.length_take, List.length_take, List.length_drop,
    List.length_drop, h]

/-- There are no more chunks than entries. -/
theorem length_le_of_flatten {α : Type*} {l : List α} :
    ∀ {cs : List (List α)}, cs.flatten = l → (∀ chunk ∈ cs, chunk ≠ []) → cs.length ≤ l.length
  | [], _, _ => Nat.zero_le _
  | chunk :: cs, hflatten, hne => by
    rw [List.forall_mem_cons] at hne
    have hpos := List.length_pos_of_ne_nil hne.1
    have hrest := length_le_of_flatten (rfl : cs.flatten = cs.flatten) hne.2
    rw [← hflatten, List.flatten_cons, List.length_cons, List.length_append]
    omega

/-! ## Arrays of a list -/

/-- A list cut into arrays of `n` entries. A last piece that is shorter is left out. -/
def asChunks {α : Type*} (n : ℕ) (l : List α) : List (Fin n → α) :=
  List.ofFn fun c : Fin (l.length / n) => fun i : Fin n =>
    l.get ⟨c * n + i, by
      calc c * n + i < c * n + n := Nat.add_lt_add_left i.isLt _
        _ = (c + 1) * n := (Nat.succ_mul _ _).symm
        _ ≤ l.length / n * n := Nat.mul_le_mul_right n c.isLt
        _ ≤ l.length := Nat.div_mul_le_self _ _⟩

theorem asChunks_length {α : Type*} (n : ℕ) (l : List α) :
    (asChunks n l).length = l.length / n := List.length_ofFn

/-- Entry `i` of chunk `c`. -/
theorem asChunks_getElem {α : Type*} {n : ℕ} {l : List α} {c : ℕ} (hc : c < (asChunks n l).length)
    (i : Fin n) : l[c * n + i.val]? = some ((asChunks n l)[c] i) := by
  unfold asChunks at hc ⊢
  rw [List.getElem_ofFn, List.get_eq_getElem]
  exact List.getElem?_eq_getElem _

/-- The first chunks of an array that has them. -/
theorem take_asChunks_ofFn {α : Type*} {m n count : ℕ} (hn : 0 < n) (f : Fin m → α)
    (h : count * n ≤ m) : (asChunks n (List.ofFn f)).take count =
      List.ofFn fun (j : Fin count) (i : Fin n) => f ⟨j * n + i, by
        calc j * n + i < j * n + n := Nat.add_lt_add_left i.isLt _
          _ = (j + 1) * n := (Nat.succ_mul _ _).symm
          _ ≤ count * n := Nat.mul_le_mul_right n j.isLt
          _ ≤ m := h⟩ := by
  have hcount : count ≤ m / n := (Nat.le_div_iff_mul_le hn).mpr h
  have hlen : (asChunks n (List.ofFn f)).length = m / n := by
    rw [asChunks_length, List.length_ofFn]
  refine List.ext_getElem ?_ fun c hc hc' => ?_
  · rw [List.length_take, hlen, List.length_ofFn, min_eq_left hcount]
  · rw [List.getElem_take, List.getElem_ofFn]
    funext i
    have hc'' : c < (asChunks n (List.ofFn f)).length := by
      rw [List.length_take] at hc
      omega
    have hentry := asChunks_getElem hc'' i
    have hlt : c * n + i.val < (List.ofFn f).length := (List.getElem?_eq_some_iff.mp hentry).1
    rw [List.getElem?_eq_getElem hlt, List.getElem_ofFn] at hentry
    exact (Option.some.inj hentry).symm

end Panic
