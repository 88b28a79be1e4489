import PoolOprf.Lib.BitStream
import PoolOprf.Prf.Modular

/-!
# Packed vectors

`pool-oprf/src/packing.rs`: a vector over `ℤ_q` takes `LOG_Q` bits an element on the wire, so that
two elements take three bytes and an element may begin in the middle of one. The bit reader and
writer are parameters. Both directions are proved against the bit stream: `pack_spec` says what bits
the packed bytes have, and `unpack_eq` that unpacking cuts the bits of its bytes into elements.
-/

namespace PoolOprf

open Panic BitStream

/-- Pack `LOG_Q` bits per element. A failing write stops. -/
def pack (writer : BitWriter) (values : List Zq) : Option (List UInt8) := do
  let state ← values.foldlM (fun state value => writer.write LOG_Q state value.toNat) writer.endian
  let state ← writer.byte_align state
  some (writer.out state)

/-- The loop of `unpack`: the next `LEN` elements. -/
def unpackFrom (reader : BitReader) : (LEN : ℕ) → reader.State → Option (Fin LEN → Zq)
  | 0, _ => some Fin.elim0
  | LEN + 1, state => do
    let (value, state) ← reader.read LOG_Q state
    let values ← unpackFrom reader LEN state
    some (Fin.cons (UInt16.ofNat value) values)

/-- Unpack `LEN` elements, or `none` if `bytes` runs out first. -/
def unpack (reader : BitReader) (LEN : ℕ) (bytes : List UInt8) : Option (Fin LEN → Zq) :=
  unpackFrom reader LEN (reader.endian bytes)

/-- The count and the packed bytes, which go to the serializer. -/
def serialize (writer : BitWriter) {LEN : ℕ} (values : Fin LEN → Zq) :
    Option (UInt64 × List UInt8) := do
  some (UInt64.ofNat LEN, ← pack writer (List.ofFn values))

/-- What the deserializer made of a count and bytes, unpacked. `custom` is an error of the
deserializer with a text. -/
def deserialize (reader : BitReader) {E : Type} (custom : String → E) (LEN : ℕ)
    (deserializer : Except E (UInt64 × List UInt8)) : Except E (Fin LEN → Zq) := do
  let (count, bytes) ← deserializer
  if count ≠ UInt64.ofNat LEN then
    .error (custom s!"packed vector holds {count} elements, not {LEN}")
  else
    match unpack reader LEN bytes with
    | some values => .ok values
    | none => .error (custom "packed bytes are short of the count")

/-! ## Packing -/

/-- The bits of elements, end to end. -/
def packedBits (values : List Zq) : List Bool := values.flatMap fun value => bitsLe LOG_Q value.toNat

theorem packedBits_length (values : List Zq) : (packedBits values).length = values.length * LOG_Q := by
  induction values with
  | nil => rfl
  | cons value values ih =>
    unfold packedBits at ih ⊢
    rw [List.flatMap_cons, List.length_append, bitsLe_length, ih, List.length_cons]
    ring

/-- Reduced elements are written one after the other. -/
theorem write_spec (writer : BitWriter) {values : List Zq} (h : ∀ value ∈ values, value.toNat < Q)
    (state : writer.State) : ∃ state',
      values.foldlM (fun state value => writer.write LOG_Q state value.toNat) state = some state' ∧
      writer.bits state' = writer.bits state ++ packedBits values := by
  induction values generalizing state with
  | nil => exact ⟨state, rfl, (List.append_nil _).symm⟩
  | cons value values ih =>
    rw [List.forall_mem_cons] at h
    obtain ⟨state₁, hwrite, hbits₁⟩ := writer.write_of_lt state (show value.toNat < 2 ^ LOG_Q from h.1)
    obtain ⟨state₂, hrest, hbits₂⟩ := ih h.2 state₁
    refine ⟨state₂, ?_, ?_⟩
    · rw [List.foldlM_cons, hwrite]
      exact hrest
    · rw [hbits₂, hbits₁, List.append_assoc]
      rfl

/-- Reduced elements are packed into the bytes of their bits, with zeros up to a whole byte. -/
theorem pack_spec (writer : BitWriter) {values : List Zq} (h : ∀ value ∈ values, value.toNat < Q) :
    ∃ bytes, pack writer values = some bytes ∧ byteBits bytes = aligned (packedBits values) := by
  obtain ⟨state, hwrite, hbits⟩ := write_spec writer h writer.endian
  obtain ⟨state', halign, hbits'⟩ := writer.byte_align_spec state
  rw [writer.bits_endian, List.nil_append] at hbits
  rw [hbits] at hbits'
  refine ⟨writer.out state', ?_, ?_⟩
  · unfold pack
    simp only [hwrite, Option.bind_eq_bind, Option.bind_some, halign]
  · rw [← hbits']
    refine writer.byteBits_out state' ?_
    rw [hbits', aligned_length, Nat.mul_mod_right]

/-! ## Unpacking -/

/-- Element `k` of a bit stream. -/
def elementAt (bits : List Bool) (k : ℕ) : Zq :=
  UInt16.ofNat (numberLe ((bits.drop (k * LOG_Q)).take LOG_Q))

/-- An element has `LOG_Q` bits. -/
theorem elementAt_lt (bits : List Bool) (k : ℕ) : (elementAt bits k).toNat < Q := by
  have hlt := numberLe_lt ((bits.drop (k * LOG_Q)).take LOG_Q)
  have hle : 2 ^ ((bits.drop (k * LOG_Q)).take LOG_Q).length ≤ Q :=
    Nat.pow_le_pow_right (by norm_num) (List.length_take_le _ _)
  unfold elementAt
  rw [UInt16.toNat_ofNat']
  exact (Nat.mod_le _ _).trans_lt (hlt.trans_le hle)

/-- What is dropped first is elements. -/
theorem elementAt_drop (bits : List Bool) (k : ℕ) :
    elementAt (bits.drop LOG_Q) k = elementAt bits (k + 1) := by
  have hindex : LOG_Q + k * LOG_Q = (k + 1) * LOG_Q := by ring
  unfold elementAt
  rw [List.drop_drop, hindex]

/-- An element is in the bits that it and the elements before it take. -/
theorem elementAt_take (bits : List Bool) {k LEN : ℕ} (h : k < LEN) :
    elementAt (bits.take (LEN * LOG_Q)) k = elementAt bits k := by
  have hle := Nat.mul_le_mul_right LOG_Q h
  rw [Nat.succ_mul] at hle
  unfold elementAt
  rw [List.drop_take, List.take_take, min_eq_left (by omega)]

/-- The elements that were packed are there, whatever comes after them. -/
theorem elementAt_packedBits (more : List Bool) {values : List Zq}
    (h : ∀ value ∈ values, value.toNat < Q) {k : ℕ} {value : Zq} (hvalue : values[k]? = some value) :
    elementAt (packedBits values ++ more) k = value := by
  induction values generalizing k with
  | nil => cases hvalue
  | cons first values ih =>
    rw [List.forall_mem_cons] at h
    have hbits : packedBits (first :: values) ++ more =
        bitsLe LOG_Q first.toNat ++ (packedBits values ++ more) := List.append_assoc _ _ _
    have hlen := bitsLe_length LOG_Q first.toNat
    rw [hbits]
    cases k with
    | zero =>
      obtain rfl := Option.some.inj hvalue
      unfold elementAt
      rw [Nat.zero_mul, List.drop_zero, List.take_left' hlen, numberLe_bitsLe_of_lt h.1,
        UInt16.ofNat_toNat]
    | succ k =>
      rw [← elementAt_drop, List.drop_left' hlen]
      exact ih h.2 hvalue

section Unpack

variable (reader : BitReader)

/-- From enough bits, as many elements are read. -/
theorem unpackFrom_of_le {LEN : ℕ} {state : reader.State}
    (h : LEN * LOG_Q ≤ (reader.rest state).length) :
    unpackFrom reader LEN state = some fun k : Fin LEN => elementAt (reader.rest state) k := by
  induction LEN generalizing state with
  | zero => exact congrArg some (funext fun k => k.elim0)
  | succ LEN ih =>
    rw [Nat.succ_mul] at h
    have hle : LOG_Q ≤ (reader.rest state).length := by omega
    obtain ⟨state', hread, hrest⟩ := reader.read_of_le state hle
    have hmore : LEN * LOG_Q ≤ (reader.rest state').length := by rw [hrest, List.length_drop]; omega
    have hrec := ih hmore
    rw [unpackFrom, hread]
    simp only [Option.bind_eq_bind, Option.bind_some, hrec]
    refine congrArg some (funext fun k => ?_)
    -- The first element is the one read here, and the others are those of the bits that are left.
    refine Fin.cases ?_ (fun k => ?_) k
    · rw [Fin.cons_zero, Fin.val_zero, elementAt, Nat.zero_mul, List.drop_zero]
    · rw [Fin.cons_succ, hrest, elementAt_drop, Fin.val_succ]

/-- Fewer bits run out. -/
theorem unpackFrom_of_lt {LEN : ℕ} {state : reader.State}
    (h : (reader.rest state).length < LEN * LOG_Q) : unpackFrom reader LEN state = none := by
  induction LEN generalizing state with
  | zero =>
    rw [Nat.zero_mul] at h
    exact absurd h (Nat.not_lt_zero _)
  | succ LEN ih =>
    rw [Nat.succ_mul] at h
    rw [unpackFrom]
    by_cases hle : LOG_Q ≤ (reader.rest state).length
    · obtain ⟨state', hread, hrest⟩ := reader.read_of_le state hle
      have hfewer : (reader.rest state').length < LEN * LOG_Q := by rw [hrest, List.length_drop]; omega
      have hrec := ih hfewer
      rw [hread]
      simp only [Option.bind_eq_bind, Option.bind_some, hrec, Option.bind_none]
    · rw [reader.read_of_lt state (Nat.lt_of_not_le hle)]
      rfl

/-- What unpacking gives: the elements of the bytes' bits, if there are enough of these. -/
theorem unpack_eq (LEN : ℕ) (bytes : List UInt8) :
    unpack reader LEN bytes = if LEN * LOG_Q ≤ (byteBits bytes).length then
      some fun k : Fin LEN => elementAt (byteBits bytes) k else none := by
  unfold unpack
  split_ifs with h
  · rw [← reader.rest_endian] at h ⊢
    exact unpackFrom_of_le reader h
  · rw [← reader.rest_endian] at h
    exact unpackFrom_of_lt reader (Nat.lt_of_not_le h)

/-- Only the bits of the elements count. -/
theorem unpack_congr {LEN : ℕ} {bytes bytes' : List UInt8}
    (h : (byteBits bytes').take (LEN * LOG_Q) = (byteBits bytes).take (LEN * LOG_Q)) :
    unpack reader LEN bytes' = unpack reader LEN bytes := by
  have hlen := congrArg List.length h
  rw [List.length_take, List.length_take] at hlen
  rw [unpack_eq, unpack_eq]
  by_cases hle : LEN * LOG_Q ≤ (byteBits bytes).length
  · rw [if_pos hle, if_pos (by omega)]
    refine congrArg some (funext fun k => ?_)
    rw [← elementAt_take _ k.isLt, h, elementAt_take _ k.isLt]
  · rw [if_neg hle, if_neg (by omega)]

/-- What was packed is unpacked, whatever comes after it. -/
theorem unpack_pack (writer : BitWriter) {LEN : ℕ} {values : Fin LEN → Zq}
    (h : ∀ k, (values k).toNat < Q) :
    ∃ bytes, pack writer (List.ofFn values) = some bytes ∧
      divCeil (LEN * LOG_Q) 8 = some bytes.length ∧
      ∀ more, unpack reader LEN (bytes ++ more) = some values := by
  have hvalues : ∀ value ∈ List.ofFn values, value.toNat < Q := by
    intro value hvalue
    obtain ⟨k, rfl⟩ := List.mem_ofFn.mp hvalue
    exact h k
  obtain ⟨bytes, hpack, hbits⟩ := pack_spec writer hvalues
  have hlen := packedBits_length (List.ofFn values)
  rw [List.length_ofFn] at hlen
  have hcount := congrArg List.length hbits
  rw [byteBits_length, aligned_length, hlen] at hcount
  refine ⟨bytes, hpack, ?_, fun more => ?_⟩
  · rw [divCeil, if_neg (by norm_num), Option.some.injEq]
    split_ifs <;> omega
  · -- The padding and what comes after it are not read.
    have hmore : byteBits (bytes ++ more) = packedBits (List.ofFn values) ++
        (List.replicate ((8 - (packedBits (List.ofFn values)).length % 8) % 8) false ++
          byteBits more) := by
      rw [byteBits_append, hbits, aligned, List.append_assoc]
    rw [unpack_eq, hmore, if_pos (by rw [List.length_append, hlen]; omega)]
    refine congrArg some (funext fun k => ?_)
    refine elementAt_packedBits _ hvalues ?_
    rw [List.getElem?_ofFn, dif_pos k.isLt]

end Unpack

/-! ## The codec -/

/-- An in-range vector is deserialized from what it is serialized to. -/
theorem deserialize_serialize (writer : BitWriter) (reader : BitReader) {E : Type} (custom : String → E)
    {LEN : ℕ} {values : Fin LEN → Zq} (h : ∀ k, (values k).toNat < Q) :
    ∃ packed, serialize writer values = some packed ∧
      deserialize reader custom LEN (.ok packed) = .ok values := by
  obtain ⟨bytes, hpack, -, hunpack⟩ := unpack_pack reader writer h
  have hbytes := hunpack []
  rw [List.append_nil] at hbytes
  refine ⟨(UInt64.ofNat LEN, bytes), ?_, ?_⟩
  · unfold serialize
    rw [hpack]
    rfl
  · unfold deserialize
    simp only [bind, Except.bind, ne_eq, not_true_eq_false, if_false, hbytes]

/-- What is deserialized has the count of the vector and is unpacked. -/
theorem deserialize_eq_ok {reader : BitReader} {E : Type} {custom : String → E} {LEN : ℕ}
    {count : UInt64} {bytes : List UInt8} {values : Fin LEN → Zq} :
    deserialize reader custom LEN (.ok (count, bytes)) = .ok values ↔
      count = UInt64.ofNat LEN ∧ unpack reader LEN bytes = some values := by
  unfold deserialize
  simp only [bind, Except.bind]
  by_cases hcount : count = UInt64.ofNat LEN
  · rw [if_neg (not_not.mpr hcount)]
    cases hunpack : unpack reader LEN bytes with
    | none => simp
    | some values' => simp [hcount]
  · rw [if_pos hcount]
    simp [hcount]

/-- The packed codec, for vectors of any length. A vector with elements in `ℤ_q` is packed, without
failing, into as few bytes as its bits take, and is unpacked from them whatever bytes come after.
Any bytes are unpacked exactly when they have the bits of the vector, which are all that counts, and
into elements in `ℤ_q`. A count and bytes are deserialized exactly when the count is the vector's
and the bytes are unpacked, and so is what a vector with elements in `ℤ_q` is serialized to. -/
theorem packed_codec (writer : BitWriter) (reader : BitReader) (LEN : ℕ) :
    (∀ values : Fin LEN → Zq, (∀ k, (values k).toNat < Q) →
      ∃ bytes, pack writer (List.ofFn values) = some bytes ∧
        divCeil (LEN * LOG_Q) 8 = some bytes.length ∧
        ∀ more, unpack reader LEN (bytes ++ more) = some values) ∧
    (∀ bytes, ((unpack reader LEN bytes).isSome ↔ LEN * LOG_Q ≤ 8 * bytes.length) ∧
      (∀ values, unpack reader LEN bytes = some values → ∀ k, (values k).toNat < Q) ∧
      ∀ bytes', (byteBits bytes').take (LEN * LOG_Q) = (byteBits bytes).take (LEN * LOG_Q) →
        unpack reader LEN bytes' = unpack reader LEN bytes) ∧
    ∀ (E : Type) (custom : String → E),
      (LEN < 2 ^ 64 → ∀ count bytes values,
        deserialize reader custom LEN (.ok (count, bytes)) = .ok values ↔
          count.toNat = LEN ∧ unpack reader LEN bytes = some values) ∧
      ∀ values : Fin LEN → Zq, (∀ k, (values k).toNat < Q) →
        ∃ packed, serialize writer values = some packed ∧
          deserialize reader custom LEN (.ok packed) = .ok values := by
  refine ⟨fun values h => unpack_pack reader writer h, fun bytes => ⟨?_, fun values h k => ?_,
    fun bytes' h => unpack_congr reader h⟩, fun E custom => ⟨fun hLEN count bytes values => ?_,
    fun values h => deserialize_serialize writer reader custom h⟩⟩
  · rw [unpack_eq, byteBits_length]
    split_ifs with hle
    · exact ⟨fun _ => hle, fun _ => rfl⟩
    · exact ⟨fun h => (by cases h), fun h => absurd h hle⟩
  · rw [unpack_eq] at h
    split_ifs at h
    obtain rfl := Option.some.inj h
    exact elementAt_lt _ _
  · have hcount : count = UInt64.ofNat LEN ↔ count.toNat = LEN := by
      rw [← UInt64.toNat_inj, UInt64.toNat_ofNat', Nat.mod_eq_of_lt hLEN]
    rw [deserialize_eq_ok, hcount]

/-- Two elements that meet in the middle of a byte. -/
example : pack BitWriter.ofBits [0xabc, 0xdef] = some [0xbc, 0xfa, 0xde] := by decide

end PoolOprf
