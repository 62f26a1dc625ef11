import RingWallet.Proofs.Bech32.Spelling
import RingWallet.Proofs.Ledger.Extra
import RingWallet.Proofs.Support.SmallSuite
import RingWallet.Address

/-!
# The spellings of an address

An address is spelled by 64 bytes, which leave three bits over in the last data symbol
(`Address.fills_payload_iff`). The text that is written for an address is the spelling that leaves
zeros over and carries the newer checksum (`Address.encode_eq_ok`).

`Address.read_back_of_encode` says that this text is read back under its own prefix and refused
under every other one, and that no other address is written like this. `Address.spellings_of_decode`
lists all the texts that are read as an address under a prefix without upper-case letters: the three
bits and the older checksum make sixteen of them, and a prefix without lower-case letters admits
these in upper case as well. So the one that is written is not the only one
(`Address.accepted_beside_written`).
-/

set_option autoImplicit false

namespace RingWallet.Address

open Bech32 (target olderTarget)

variable {S : Suite} {a : Address} {human text : String} {leftover : List Bool}
  {mark : Bech32.Residue}

/-! ### Bytes -/

/-- The two keys of an address have 32 bytes each. -/
theorem length_payload (a : Address) : a.payload.length = 64 := by
  unfold payload
  rw [List.length_append, a.spendKey.bytes.length_eq, a.viewKey.bytes.length_eq]

/-- An address is read back from its payload. -/
theorem ofPayload?_payload (a : Address) : ofPayload? a.payload = some a := by
  have spend : a.payload.take 32 = a.spendKey.bytes.toList :=
    List.take_left' a.spendKey.bytes.length_eq
  have view : a.payload.drop 32 = a.viewKey.bytes.toList :=
    List.drop_left' a.spendKey.bytes.length_eq
  unfold ofPayload?
  rw [spend, view, Bytes.ofBlob?_toList, Bytes.ofBlob?_toList]
  rfl

/-- A payload is that of the address that is read from it. -/
theorem ofPayload?_eq_some {bytes : Blob} : ofPayload? bytes = some a ↔ bytes = a.payload := by
  constructor
  · intro found
    obtain ⟨spend, first, found⟩ := Option.bind_eq_some_iff.mp found
    obtain ⟨view, second, found⟩ := Option.bind_eq_some_iff.mp found
    obtain rfl := Option.some.inj found
    show bytes = spend.toList ++ view.toList
    rw [Extra.toList_of_ofBlob?_eq_some first, Extra.toList_of_ofBlob?_eq_some second,
      List.take_append_drop]
  · rintro rfl
    exact ofPayload?_payload a

/-- Three bits are left over behind 64 bytes. -/
theorem fills_payload_iff : Bech32.Fills a.payload leftover ↔ leftover.length = 3 := by
  unfold Bech32.Fills
  rw [length_payload]
  omega

/-! ### Spellings -/

/-- The text of an address under a prefix, with three bits left over and a checksum that leads to a
mark. -/
def spelling (a : Address) (human : String) (leftover : List Bool) (mark : Bech32.Residue) :
    String :=
  Bech32.spelling human a.payload leftover mark

/-- The three bits that are written. -/
def noneLeft : List Bool := List.replicate 3 false

/-- An address is written as one of its spellings, in lower case. -/
theorem encode_eq_ok : a.encode human = .ok text ↔ Bech32.checkPrefix human.toList = .ok () ∧
    text = a.spelling human.toLower noneLeft target := by
  have whole : 5 ∣ 8 * a.payload.length + 3 := by rw [length_payload]; decide
  unfold encode
  rw [Except.mapError_eq_ok]
  exact Bech32.encode_eq_ok (by decide) whole

/-- A spelling tells the prefix, the address, the bits left over and the mark. -/
theorem spelling_inj {b : Address} {human' : String} {leftover' : List Bool}
    {mark' : Bech32.Residue} (three : leftover.length = 3) (three' : leftover'.length = 3)
    (same : a.spelling human leftover mark = b.spelling human' leftover' mark') :
    human = human' ∧ a = b ∧ leftover = leftover' ∧ mark = mark' := by
  obtain ⟨prefixes, bytes, rest⟩ := Bech32.spelling_inj (fills_payload_iff.mpr three)
    (fills_payload_iff.mpr three') same
  have found := ofPayload?_payload a
  rw [bytes, ofPayload?_payload] at found
  exact ⟨prefixes, (Option.some.inj found).symm, rest⟩

/-- Spellings are never too long: a prefix has 83 characters at most, and 110 follow it. -/
theorem length_spelling_le (fits : Bech32.checkPrefix human.toList = .ok ())
    (three : leftover.length = 3) : (a.spelling human leftover mark).length ≤ Bech32.maxLength := by
  have fills : Bech32.Fills a.payload leftover := fills_payload_iff.mpr three
  have symbols := fills.length_spelled human.toList mark
  have short := Bech32.length_le_of_checkPrefix fits
  rw [length_payload, three] at symbols
  unfold spelling
  rw [← String.length_toList, Bech32.toList_spelling, List.length_append, List.length_cons,
    List.length_map]
  unfold Bech32.maxPrefixLength at short
  unfold Bech32.maxLength
  omega

/-- A prefix without upper-case letters is its own lower case. -/
theorem toLower_of_lower (lower : human.toList.any Char.isUpper = false) :
    human.toLower = human := by
  apply String.toList_inj.mp
  exact String.toList_map.trans (Bech32.map_toLower_eq_self lower)

/-! ### Reading -/

/-- The text has to spell the bytes of the address under the expected prefix, and both keys have to
be points. -/
theorem decode_eq_ok_iff_payload : decode S text human = .ok a ↔
    Bech32.decode text = .ok (human, a.payload) ∧ a.spendKey.isValid S = true ∧
      a.viewKey.isValid S = true := by
  unfold decode
  constructor
  · intro decoded
    obtain ⟨⟨found, bytes⟩, spelled, decoded⟩ := Except.bind_eq_ok.mp decoded
    -- a wrong prefix is refused before the payload is looked at
    by_cases same : found = human
    · subst same
      rw [Except.mapError_eq_ok.mp spelled]
      simp only [ne_eq, not_true_eq_false, if_false] at decoded
      split at decoded
      · next b payload =>
        -- the keys are checked last
        obtain ⟨valid, same⟩ := Bech32.ite_ok_eq_ok.mp decoded
        subst same
        rw [ofPayload?_eq_some.mp payload]
        exact ⟨rfl, Bool.and_eq_true_iff.mp valid⟩
      · cases decoded
    · simp only [ne_eq, same, not_false_eq_true, if_true] at decoded
      cases decoded
  · rintro ⟨spelled, spend, view⟩
    rw [spelled, Except.mapError_ok, Except.ok_bind]
    simp only [ne_eq, not_true_eq_false, if_false, ofPayload?_payload, spend, view, Bool.and_self,
      if_true]
    rfl

/-- A text with another prefix is refused for its prefix. -/
theorem decode_of_otherPrefix {found : String} {bytes : Blob}
    (spelled : Bech32.decode text = .ok (found, bytes)) (other : found ≠ human) :
    decode S text human = .error (.otherPrefix human found) := by
  unfold decode
  rw [spelled, Except.mapError_ok, Except.ok_bind]
  simp only [ne_eq, other, not_false_eq_true, if_true]
  rfl

/-- The texts that are read as an address under a prefix without upper-case letters. -/
theorem decode_eq_ok (lower : human.toList.any Char.isUpper = false) : decode S text human = .ok a ↔
    a.spendKey.isValid S = true ∧ a.viewKey.isValid S = true ∧
      Bech32.checkPrefix human.toList = .ok () ∧ ∃ mark leftover,
        (mark = target ∨ mark = olderTarget) ∧ leftover.length = 3 ∧
          (text = a.spelling human leftover mark ∨ human.toList.any Char.isLower = false ∧
            text = (a.spelling human leftover mark).toUpper) := by
  rw [decode_eq_ok_iff_payload, Bech32.decode_eq_ok lower]
  simp only [fills_payload_iff]
  constructor
  · rintro ⟨⟨fits, -, spelled⟩, spend, view⟩
    exact ⟨spend, view, fits, spelled⟩
  · rintro ⟨spend, view, fits, mark, leftover, marked, three, spelled⟩
    -- the bound on the length of a text excludes none of these
    have short : text.length ≤ Bech32.maxLength := by
      rcases spelled with rfl | ⟨-, rfl⟩
      · exact length_spelling_le fits three
      · have upper : (a.spelling human leftover mark).toUpper.length =
            (a.spelling human leftover mark).length := String.length_map
        exact upper ▸ length_spelling_le fits three
    exact ⟨⟨fits, short, mark, leftover, marked, three, spelled⟩, spend, view⟩

/-- What is written under a prefix without upper-case letters spells the bytes under this prefix. -/
theorem decode_of_encode (lower : human.toList.any Char.isUpper = false)
    (encoded : a.encode human = .ok text) : Bech32.decode text = .ok (human, a.payload) := by
  obtain ⟨fits, rfl⟩ := encode_eq_ok.mp encoded
  rw [toLower_of_lower lower]
  exact (Bech32.decode_eq_ok lower).mpr ⟨fits, length_spelling_le fits rfl, target, noneLeft,
    .inl rfl, fills_payload_iff.mpr rfl, .inl rfl⟩

/-! ### What comes back -/

/-- An address whose keys are points is read back under the prefix it was written with, and refused
for its prefix under every other one; whatever prefix another address is written with, the text is
not this one. -/
theorem read_back_of_encode (S : Suite) (human : String)
    (lower : human.toList.any Char.isUpper = false) (a : Address) (text : String)
    (encoded : a.encode human = .ok text) :
    (a.spendKey.isValid S = true → a.viewKey.isValid S = true → decode S text human = .ok a) ∧
      (∀ other, other ≠ human → decode S text other = .error (.otherPrefix other human)) ∧
      ∀ (b : Address) (other : String), b.encode other = .ok text → b = a := by
  have spelled := decode_of_encode lower encoded
  refine ⟨fun spend view => ?_, fun other apart => ?_, fun b other encoded' => ?_⟩
  · exact decode_eq_ok_iff_payload.mpr ⟨spelled, spend, view⟩
  · exact decode_of_otherPrefix spelled apart.symm
  · have same := (encode_eq_ok.mp encoded').2.symm.trans (encode_eq_ok.mp encoded).2
    exact (spelling_inj rfl rfl same).2.1

/-- The prefix may hold a separator. -/
theorem read_back_of_encode_separated :
    let text := "ae1on1qcqqqqqqqqqqqqqqqqqqqqqqqqqqqqqqqqqqqqqqqqqqqqqqqqqqsqqqqqqqqqqq" ++
      "qqqqqqqqqqqqqqqqqqqqqqqqqqqqqqqqqqqqqqqp3jcnd"
    "ae1on".toList.any Char.isUpper = false ∧
      SmallSuite.account.address.encode "ae1on" = .ok text ∧
      decode .small text "ae1on" = .ok SmallSuite.account.address ∧
      decode .small text "ae" = .error (.otherPrefix "ae" "ae1on") := by
  intro text
  have lower : "ae1on".toList.any Char.isUpper = false := by decide
  have encoded : SmallSuite.account.address.encode "ae1on" = .ok text := by decide +kernel
  obtain ⟨back, refused, -⟩ := read_back_of_encode .small "ae1on" lower _ text encoded
  exact ⟨lower, encoded, back (by decide +kernel) (by decide +kernel), refused "ae" (by decide)⟩

/-! ### What else is read -/

/-- Under a prefix without upper-case letters exactly these texts are read as an address whose keys
are points: its spellings with any three bits left over and a checksum of either kind, in lower
case, and in upper case as well if the prefix has no lower-case letters. The text that is written
for the address is the spelling that leaves zeros over and has the newer checksum, and different
choices give different spellings. -/
theorem spellings_of_decode (S : Suite) (human : String)
    (lower : human.toList.any Char.isUpper = false) (a : Address) :
    (∀ text, decode S text human = .ok a ↔
      a.spendKey.isValid S = true ∧ a.viewKey.isValid S = true ∧
        Bech32.checkPrefix human.toList = .ok () ∧ ∃ mark leftover,
          (mark = target ∨ mark = olderTarget) ∧ leftover.length = 3 ∧
            (text = a.spelling human leftover mark ∨ human.toList.any Char.isLower = false ∧
              text = (a.spelling human leftover mark).toUpper)) ∧
      (∀ text, a.encode human = .ok text ↔ Bech32.checkPrefix human.toList = .ok () ∧
        text = a.spelling human [false, false, false] target) ∧
      ∀ leftover leftover' mark mark', leftover.length = 3 → leftover'.length = 3 →
        a.spelling human leftover mark = a.spelling human leftover' mark' →
          leftover = leftover' ∧ mark = mark' := by
  refine ⟨fun text => decode_eq_ok lower, fun text => ?_, fun _ _ _ _ three three' same => ?_⟩
  · have written : a.encode human = .ok text ↔ Bech32.checkPrefix human.toList = .ok () ∧
        text = a.spelling human.toLower noneLeft target := encode_eq_ok
    rwa [toLower_of_lower lower] at written
  · exact (spelling_inj three three' same).2.2

/-- The spelling with an older checksum behind bits that are not zeros is read, and not written. -/
theorem spellings_of_decode_older :
    let text := SmallSuite.account.address.spelling "aeon" [true, false, true] olderTarget
    "aeon".toList.any Char.isUpper = false ∧
      decode .small text "aeon" = .ok SmallSuite.account.address ∧
      SmallSuite.account.address.encode "aeon" ≠ .ok text := by
  intro text
  have lower : "aeon".toList.any Char.isUpper = false := by decide
  obtain ⟨read, written, apart⟩ :=
    spellings_of_decode .small "aeon" lower SmallSuite.account.address
  refine ⟨lower, (read text).mpr ?_, fun encoded => ?_⟩
  · exact ⟨by decide +kernel, by decide +kernel, by decide, olderTarget, [true, false, true],
      .inr rfl, rfl, .inl rfl⟩
  · have same := apart _ _ _ _ rfl rfl ((written text).mp encoded).2
    exact absurd same.1 (by decide)

/-- A text with the older checksum and one whose three bits are not zeros are read as an address for
which another text is written. -/
theorem accepted_beside_written :
    let written := "aeon1qcqqqqqqqqqqqqqqqqqqqqqqqqqqqqqqqqqqqqqqqqqqqqqqqqqqsqqqqqqqqqqqq" ++
      "qqqqqqqqqqqqqqqqqqqqqqqqqqqqqqqqqqqqqq22wazl"
    let older := "aeon1qcqqqqqqqqqqqqqqqqqqqqqqqqqqqqqqqqqqqqqqqqqqqqqqqqqqsqqqqqqqqqqqq" ++
      "qqqqqqqqqqqqqqqqqqqqqqqqqqqqqqqqqqqqqqlk738a"
    let padded := "aeon1qcqqqqqqqqqqqqqqqqqqqqqqqqqqqqqqqqqqqqqqqqqqqqqqqqqqsqqqqqqqqqqqq" ++
      "qqqqqqqqqqqqqqqqqqqqqqqqqqqqqqqqqqqqqphu6gld"
    "aeon".toList.any Char.isUpper = false ∧
      SmallSuite.account.address.encode "aeon" = .ok written ∧
      decode .small older "aeon" = .ok SmallSuite.account.address ∧ older ≠ written ∧
      decode .small padded "aeon" = .ok SmallSuite.account.address ∧ padded ≠ written := by
  decide +kernel

end RingWallet.Address
