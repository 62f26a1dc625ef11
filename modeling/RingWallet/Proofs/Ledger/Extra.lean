import RingWallet.Ledger.Extra

/-!
# Extra bytes and their fields

Parsing extra bytes undoes writing them, and writing what was parsed undoes parsing.

A field that was written is read back whatever follows it (`Extra.field?_of_encodeField?`), unless
it is padding, which takes all that is left. So the fields that were added to extra bytes are read
back in front of whatever comes after them (`Extra.parse_encode?_append`). Conversely, each field
that is read was written in the bytes that it took (`Extra.exists_of_field?_eq_some`); so all fields
together are the first bytes of the input, and they are all of it exactly if the parser says so
(`Extra.exists_encode?_parse`).
-/

set_option autoImplicit false

namespace RingWallet

/-- Whether a field is one that can be added to extra bytes: a key, or a nonce whose length fits
into one byte. -/
def ExtraField.Addable : ExtraField → Prop
  | padding _ => False
  | publicKey _ => True
  | nonce bytes => bytes.length ≤ 255

namespace Extra

/-! ### Writing fields -/

/-- The bytes of a field, if it can be written. -/
def encodeField? : ExtraField → Option Blob
  | .padding count => if 0 < count ∧ count ≤ maxLength then some (.replicate count 0) else none
  | .publicKey key => some (encodeKey key)
  | .nonce bytes => encodeNonce? bytes

/-- The bytes of some fields, one after the other, if each of them can be written. -/
def encode? : List ExtraField → Option Blob
  | [] => some []
  | f :: rest => do return (← encodeField? f) ++ (← encode? rest)

/-- Fields are written one after the other, if all of them can be. -/
theorem encode?_cons_eq_some {f : ExtraField} {rest : List ExtraField} {bytes : Blob} :
    encode? (f :: rest) = some bytes ↔ ∃ first others, encodeField? f = some first ∧
      encode? rest = some others ∧ bytes = first ++ others := by
  rcases one : encodeField? f with - | first
  · simp [encode?, one]
  · rcases later : encode? rest with - | others
    · simp [encode?, one, later]
    · simp [encode?, one, later, eq_comm]

/-- A nonce is written with its length, which has to fit into one byte. -/
theorem encodeNonce?_eq_some {nonce bytes : Blob} :
    encodeNonce? nonce = some bytes ↔
      nonce.length ≤ 255 ∧ bytes = 2 :: UInt8.ofNat nonce.length :: nonce := by
  unfold encodeNonce? maxLength
  split
  · next fits => simp [fits, eq_comm]
  · next long => simp [long]

/-- What can be added can be written. -/
theorem exists_encode?_of_addable {fields : List ExtraField} (addable : ∀ f ∈ fields, f.Addable) :
    ∃ bytes, encode? fields = some bytes := by
  induction fields with
  | nil => exact ⟨[], rfl⟩
  | cons f rest ih =>
    rw [List.forall_mem_cons] at addable
    obtain ⟨own, addable⟩ := addable
    obtain ⟨others, later⟩ := ih addable
    -- padding is not addable, and a nonce fits because it is
    have written : ∃ first, encodeField? f = some first := by
      cases f with
      | padding count => cases own
      | publicKey key => exact ⟨_, rfl⟩
      | nonce bytes => exact ⟨_, encodeNonce?_eq_some.mpr ⟨own, rfl⟩⟩
    obtain ⟨first, written⟩ := written
    exact ⟨_, encode?_cons_eq_some.mpr ⟨first, others, written, later, rfl⟩⟩

/-! ### One round of the parser -/

/-- The parser after a field that it can read. -/
theorem parse_of_field?_eq_some {bytes rest : Blob} {f : ExtraField}
    (first : field? bytes = some (f, rest)) :
    parse bytes = (f :: (parse rest).1, (parse rest).2) := by
  rw [parse]
  split
  · next none =>
    rw [first] at none
    cases none
  · next found =>
    obtain ⟨rfl, rfl⟩ := Prod.mk.inj (Option.some.inj (first.symm.trans found))
    rfl

/-- The parser where it can read no field. -/
theorem parse_of_field?_eq_none {bytes : Blob} (stuck : field? bytes = none) :
    parse bytes = ([], bytes.isEmpty) := by
  rw [parse]
  split
  · rfl
  · next found =>
    rw [stuck] at found
    cases found

/-- There is nothing to read in no bytes. -/
@[simp] theorem parse_nil : parse [] = ([], true) := parse_of_field?_eq_none rfl

/-! ### What was written is read -/

/-- Padding takes all that is left. -/
theorem field?_replicate {count : Nat} (present : 0 < count) (fits : count ≤ 255) :
    field? (List.replicate count 0) = some (.padding count, []) := by
  obtain ⟨others, rfl⟩ := Nat.exists_eq_add_one_of_ne_zero (Nat.ne_of_gt present)
  have zeros : (List.replicate others (0 : UInt8)).length + 1 ≤ maxLength ∧
      (List.replicate others (0 : UInt8)).all (fun b => b = 0) = true := by
    simpa [maxLength] using fits
  rw [List.replicate_succ]
  unfold field?
  simp only [if_true]
  rw [if_pos zeros, List.length_replicate]

/-- A key is read back, whatever follows it. -/
theorem field?_encodeKey (key : PublicKey) (more : Blob) :
    field? (encodeKey key ++ more) = some (.publicKey key, more) := by
  have length : key.bytes.toList.length = 32 := key.bytes.length_eq
  show (Bytes.ofBlob? ((key.bytes.toList ++ more).take 32)).map (fun first =>
    (ExtraField.publicKey ⟨first⟩, (key.bytes.toList ++ more).drop 32)) = _
  rw [List.take_left' length, Bytes.ofBlob?_toList, Option.map_some, List.drop_left' length]

/-- A nonce is read back, whatever follows it. -/
theorem field?_encodeNonce? {nonce bytes : Blob} (written : encodeNonce? nonce = some bytes)
    (more : Blob) : field? (bytes ++ more) = some (.nonce nonce, more) := by
  obtain ⟨fits, rfl⟩ := encodeNonce?_eq_some.mp written
  have length : (UInt8.ofNat nonce.length).toNat = nonce.length :=
    UInt8.toNat_ofNat_of_lt' (Nat.lt_succ_of_le fits)
  show (if (UInt8.ofNat nonce.length).toNat ≤ (nonce ++ more).length then
    some (ExtraField.nonce ((nonce ++ more).take (UInt8.ofNat nonce.length).toNat),
      (nonce ++ more).drop (UInt8.ofNat nonce.length).toNat) else none) = _
  have here : nonce.length ≤ (nonce ++ more).length := by
    rw [List.length_append]
    exact Nat.le_add_right _ _
  rw [length, if_pos here, List.take_left, List.drop_left]

/-- A field that was added is read, whatever follows it. -/
theorem field?_of_encodeField? {f : ExtraField} (addable : f.Addable) {bytes : Blob}
    (written : encodeField? f = some bytes) (more : Blob) :
    field? (bytes ++ more) = some (f, more) := by
  cases f with
  | padding count => cases addable
  | publicKey key =>
    obtain rfl := Option.some.inj written
    exact field?_encodeKey key more
  | nonce nonce => exact field?_encodeNonce? written more

/-- Fields that were added are read in front of what follows them. -/
theorem parse_encode?_append {fields : List ExtraField} (addable : ∀ f ∈ fields, f.Addable)
    {bytes : Blob} (written : encode? fields = some bytes) (more : Blob) :
    parse (bytes ++ more) = (fields ++ (parse more).1, (parse more).2) := by
  induction fields generalizing bytes with
  | nil =>
    obtain rfl := Option.some.inj written
    rfl
  | cons f rest ih =>
    rw [List.forall_mem_cons] at addable
    obtain ⟨first, others, one, later, rfl⟩ := encode?_cons_eq_some.mp written
    have read := field?_of_encodeField? addable.1 one (others ++ more)
    rw [List.append_assoc, parse_of_field?_eq_some read, ih addable.2 later]
    rfl

/-- The transaction key at the front is found, whatever bytes follow it. -/
theorem publicKey?_encodeKey (key : PublicKey) (more : Blob) :
    publicKey? (encodeKey key ++ more) = some key := by
  rw [publicKey?, parse_of_field?_eq_some (field?_encodeKey key more)]
  rfl

/-! ### What is read was written -/

/-- A blob as the bytes of a key. -/
theorem toList_of_ofBlob?_eq_some {size : Nat} {bytes : Blob} {b : Bytes size}
    (read : Bytes.ofBlob? bytes = some b) : b.toList = bytes := by
  unfold Bytes.ofBlob? at read
  split at read
  · obtain rfl := Option.some.inj read
    rfl
  · cases read

/-- A field that is read is what its bytes were written for. -/
theorem exists_of_field?_eq_some {bytes rest : Blob} {f : ExtraField}
    (read : field? bytes = some (f, rest)) :
    ∃ first, encodeField? f = some first ∧ bytes = first ++ rest := by
  unfold field? at read
  split at read
  · cases read
  next tag body =>
  split at read
  · next zero =>
    -- padding
    split at read
    · next zeros =>
      obtain ⟨rfl, rfl⟩ := Prod.mk.inj (Option.some.inj read)
      refine ⟨.replicate (body.length + 1) 0, if_pos ⟨Nat.succ_pos _, zeros.1⟩, ?_⟩
      have all : body = .replicate body.length 0 := by
        rw [List.eq_replicate_iff]
        exact ⟨rfl, by simpa using zeros.2⟩
      rw [zero, List.append_nil, List.replicate_succ, ← all]
    · cases read
  split at read
  · next one =>
    -- a key
    obtain ⟨key, whole, eq⟩ := Option.map_eq_some_iff.mp read
    obtain ⟨rfl, rfl⟩ := Prod.mk.inj eq
    refine ⟨_, rfl, ?_⟩
    rw [encodeKey, toList_of_ofBlob?_eq_some whole, one, List.cons_append, List.take_append_drop]
  split at read
  · next two =>
    -- a nonce
    split at read
    · cases read
    next length body =>
    split at read
    · next here =>
      obtain ⟨rfl, rfl⟩ := Prod.mk.inj (Option.some.inj read)
      have taken : (body.take length.toNat).length = length.toNat := List.length_take_of_le here
      refine ⟨_, encodeNonce?_eq_some.mpr ⟨?_, rfl⟩, ?_⟩
      · have := length.toNat_lt
        omega
      · rw [taken, UInt8.ofNat_toNat, two, List.cons_append, List.cons_append,
          List.take_append_drop]
    · cases read
  · cases read

/-- The fields that are read were written in the first bytes of the input. No field can be read from
the rest, and the parser says whether there is any. -/
theorem exists_encode?_parse (bytes : Blob) :
    ∃ consumed rest, encode? (parse bytes).1 = some consumed ∧ bytes = consumed ++ rest ∧
      field? rest = none ∧ (parse bytes).2 = rest.isEmpty ∧
      (parse bytes).1.length ≤ consumed.length := by
  induction bytes using parse.induct with
  | case1 bytes stuck =>
    rw [parse_of_field?_eq_none stuck]
    exact ⟨[], bytes, rfl, rfl, stuck, rfl, Nat.le_refl 0⟩
  | case2 bytes f rest read shorter _ _ _ ih =>
    obtain ⟨consumed, tail, written, rfl, stuck, complete, count⟩ := ih
    obtain ⟨first, one, rfl⟩ := exists_of_field?_eq_some read
    rw [parse_of_field?_eq_some read]
    refine ⟨first ++ consumed, tail, encode?_cons_eq_some.mpr ⟨first, consumed, one, written, rfl⟩,
      (List.append_assoc _ _ _).symm, stuck, complete, ?_⟩
    -- a field takes at least one byte
    simp only [List.length_append] at shorter
    rw [List.length_cons, List.length_append]
    omega

/-- The parser and the encoders agree. Keys and nonces of up to 255 bytes can be written one after
the other, and are read back as they are, to the end; if up to 255 zero bytes follow them, these are
read as padding. Of any bytes at all the parser reads at most as many fields as there are bytes, and
writing these fields again gives the first bytes of the input. They are all of the input exactly if
the parser says that it reached the end. -/
theorem parse_inverse_of_encode :
    (∀ fields : List ExtraField, (∀ f ∈ fields, f.Addable) →
      ∃ bytes, encode? fields = some bytes ∧ parse bytes = (fields, true) ∧
        ∀ count, 1 ≤ count → count ≤ 255 →
          parse (bytes ++ List.replicate count 0) = (fields ++ [.padding count], true)) ∧
    ∀ bytes : Blob, (parse bytes).1.length ≤ bytes.length ∧
      ∃ consumed, encode? (parse bytes).1 = some consumed ∧ consumed <+: bytes ∧
        ((parse bytes).2 = true ↔ consumed = bytes) := by
  constructor
  · intro fields addable
    obtain ⟨bytes, written⟩ := exists_encode?_of_addable addable
    refine ⟨bytes, written, ?_, ?_⟩
    · -- with nothing behind it the text ends in the last field
      have read := parse_encode?_append addable written []
      rw [List.append_nil, parse_nil, List.append_nil] at read
      exact read
    · -- the zeros are read as one padding field
      intro count present fits
      rw [parse_encode?_append addable written,
        parse_of_field?_eq_some (field?_replicate present fits), parse_nil]
  · intro bytes
    obtain ⟨consumed, rest, written, eq, -, complete, count⟩ := exists_encode?_parse bytes
    have length : bytes.length = consumed.length + rest.length := by
      rw [eq, List.length_append]
    refine ⟨by omega, consumed, written, ⟨rest, eq.symm⟩, ?_⟩
    rw [complete, List.isEmpty_iff]
    constructor
    · -- nothing is left exactly if what was consumed is all
      rintro rfl
      rw [eq, List.append_nil]
    · rintro rfl
      exact List.eq_nil_of_length_eq_zero (by omega)

/-- A key, a nonce of two bytes and two bytes of padding; and a key whose last bytes are missing. -/
theorem parse_inverse_of_encode_padded :
    (∀ f ∈ [.publicKey .zero, .nonce [7, 8]], ExtraField.Addable f) ∧
      parse (encodeKey .zero ++ [2, 2, 7, 8] ++ [0, 0]) =
        ([.publicKey .zero, .nonce [7, 8], .padding 2], true) ∧
      parse [2, 1, 9, 1, 5] = ([.nonce [9]], false) ∧ encode? [.nonce [9]] = some [2, 1, 9] := by
  have addable : ∀ f ∈ [.publicKey .zero, .nonce [7, 8]], ExtraField.Addable f := by
    simp [ExtraField.Addable]
  obtain ⟨bytes, written, -, padded⟩ := parse_inverse_of_encode.1 _ addable
  obtain rfl := Option.some.inj ((show _ = some (encodeKey .zero ++ [2, 2, 7, 8]) by
    decide +kernel).symm.trans written)
  exact ⟨addable, padded 2 (by decide) (by decide), by decide +kernel, by decide +kernel⟩

end Extra

end RingWallet
