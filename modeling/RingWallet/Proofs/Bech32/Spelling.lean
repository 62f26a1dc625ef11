import Mathlib
import RingWallet.Proofs.Bech32.Bits
import RingWallet.Proofs.Bech32.Checksum
import RingWallet.Proofs.Support.Except

/-!
# How bytes are spelled

`spelling` is the text of some bytes under a prefix, in lower case. Beside the prefix and the bytes
it takes what the bytes leave open: the bits that are left over in the last data symbol, and the
mark that the checksum leads to. The writer leaves zeros over and takes the newer mark
(`encode_eq_ok`).

The reader looks at neither: it takes the spellings with any bits left over, with the older mark as
well, and, if the prefix has no letters that tell the case, in upper case too (`decode_eq_ok`).
Different choices give different spellings (`spelling_inj`).
-/

set_option autoImplicit false

namespace RingWallet.Bech32

/-- A result that is given under a condition only. -/
theorem ite_ok_eq_ok {ε α : Type} {p : Prop} [Decidable p] {a b : α} {e : ε} :
    (if p then .ok a else .error e : Except ε α) = .ok b ↔ p ∧ a = b := by
  split
  · next holds => simp [holds]
  · next fails => simp [fails]

/-! ### Data characters -/

/-- A data character is read back in either case, and is no separator. -/
theorem toChar_spec (s : Symbol) : Symbol.ofChar? s.toChar = some s ∧ s.toChar.isUpper = false ∧
    s.toChar ≠ '1' := by
  have all : ∀ s : Symbol, Symbol.ofChar? s.toChar = some s ∧ s.toChar.isUpper = false ∧
    s.toChar ≠ '1' := by decide +kernel
  exact all s

/-- Symbols are written in lower case. -/
theorem toLower_toChar (s : Symbol) : s.toChar.toLower = s.toChar :=
  Char.toLower_eq_of_not_isUpper (by rw [(toChar_spec s).2.1]; exact Bool.false_ne_true)

/-- A character stands for a symbol if the symbol is written as this character in lower case. -/
theorem ofChar?_eq_some {c : Char} {s : Symbol} :
    Symbol.ofChar? c = some s ↔ c.toLower = s.toChar := by
  constructor
  · intro read
    obtain ⟨i, found, rfl⟩ := Option.map_eq_some_iff.mp read
    obtain ⟨bound, at_i, -⟩ := List.idxOf?_eq_some_iff.mp found
    -- a position in the alphabet fits into five bits
    have value : (BitVec.ofNat 5 i).toNat = i := Nat.mod_eq_of_lt bound
    unfold Symbol.toChar
    rw [value, List.getD_eq_getElem _ _ bound, at_i]
  · intro same
    -- a letter that is a symbol's own is read as it
    have read := (toChar_spec s).1
    unfold Symbol.ofChar? at read ⊢
    rwa [toLower_toChar, ← same] at read

/-- Characters are read as the symbols that are written like them, up to the case. -/
theorem mapM_ofChar?_eq_some {data : List Char} {symbols : List Symbol} :
    data.mapM Symbol.ofChar? = some symbols ↔
      data.map Char.toLower = symbols.map Symbol.toChar := by
  induction data generalizing symbols with
  | nil =>
    constructor
    · intro read
      obtain rfl := Option.some.inj read
      rfl
    · intro same
      obtain rfl := List.map_eq_nil_iff.mp same.symm
      rfl
  | cons c data ih =>
    rw [List.mapM_cons, List.map_cons]
    constructor
    · -- the first letter and the others are read on their own
      intro read
      obtain ⟨s, first, read⟩ := Option.bind_eq_some_iff.mp read
      obtain ⟨others, rest, read⟩ := Option.bind_eq_some_iff.mp read
      obtain rfl := Option.some.inj read
      rw [List.map_cons, ofChar?_eq_some.mp first, ih.mp rest]
    · intro same
      obtain ⟨s, others, rfl, first, rest⟩ := List.map_eq_cons_iff.mp same.symm
      refine Option.bind_eq_some_iff.mpr ⟨s, ofChar?_eq_some.mpr first.symm, ?_⟩
      exact Option.bind_eq_some_iff.mpr ⟨others, ih.mpr rest.symm, rfl⟩

/-- Different symbols are written as different characters. -/
theorem toChar_injective : Function.Injective Symbol.toChar := fun s t same => by
  have read := (toChar_spec s).1
  rw [same, (toChar_spec t).1] at read
  exact (Option.some.inj read).symm

/-- The separator stands for no symbol. -/
theorem separator_notMem_map_toChar (symbols : List Symbol) : '1' ∉ symbols.map Symbol.toChar := by
  intro mem
  obtain ⟨s, -, same⟩ := List.mem_map.mp mem
  exact (toChar_spec s).2.2 same

/-! ### The separator -/

/-- The last separator is the one behind which there is none. -/
theorem splitAtSeparator?_append (human : List Char) {data : List Char} (last : '1' ∉ data) :
    splitAtSeparator? (human ++ '1' :: data) = some (human, data) := by
  have other : ∀ c ∈ data.reverse, decide (c ≠ '1') = true := fun c mem =>
    decide_eq_true fun same => last (same ▸ List.mem_reverse.mp mem)
  have cut : (data.reverse ++ '1' :: human.reverse).span (fun c => decide (c ≠ '1')) =
      (data.reverse, '1' :: human.reverse) := by
    rw [List.span_eq_takeWhile_dropWhile, List.takeWhile_append_of_pos other,
      List.dropWhile_append_of_pos other]
    simp
  unfold splitAtSeparator?
  rw [List.reverse_append, List.reverse_cons, List.append_assoc, List.singleton_append, cut]
  simp

/-- A text is split at its last separator. -/
theorem splitAtSeparator?_eq_some {chars human data : List Char} :
    splitAtSeparator? chars = some (human, data) ↔ chars = human ++ '1' :: data ∧ '1' ∉ data := by
  constructor
  · intro found
    -- the separator is searched from the end
    by_cases mem : '1' ∈ chars
    · obtain ⟨after, before, split, first⟩ := List.eq_append_cons_of_mem (List.mem_reverse.mpr mem)
      obtain rfl : chars = before.reverse ++ '1' :: after.reverse := by
        rw [← List.reverse_reverse chars, split]
        simp
      have last : '1' ∉ after.reverse := fun mem => first (List.mem_reverse.mp mem)
      rw [splitAtSeparator?_append _ last] at found
      obtain ⟨rfl, rfl⟩ := Prod.mk.inj (Option.some.inj found)
      exact ⟨rfl, last⟩
    · have other : ∀ c ∈ chars.reverse, decide (c ≠ '1') = true := fun c found =>
        decide_eq_true fun same => mem (same ▸ List.mem_reverse.mp found)
      have cut : chars.reverse.span (fun c => decide (c ≠ '1')) = (chars.reverse, []) := by
        rw [List.span_eq_takeWhile_dropWhile, List.takeWhile_eq_self_iff.mpr other,
          List.dropWhile_eq_nil_iff.mpr other]
      unfold splitAtSeparator? at found
      rw [cut] at found
      cases found
  · -- after the last separator there is none
    rintro ⟨rfl, last⟩
    exact splitAtSeparator?_append human last

/-! ### Letters -/

/-- Whether no text of these characters mixes letters of both cases. -/
def Unmixed (chars : List Char) : Prop := ¬(chars.any Char.isUpper ∧ chars.any Char.isLower)

/-- Behind a prefix without upper-case letters only the data decide whether there are any. -/
theorem any_isUpper_append {human data : List Char} (lower : human.any Char.isUpper = false) :
    (human ++ '1' :: data).any Char.isUpper = data.any Char.isUpper := by
  have separator : Char.isUpper '1' = false := rfl
  rw [List.any_append, List.any_cons, lower, separator, Bool.false_or, Bool.false_or]

/-- The separator is no lower-case letter. -/
theorem any_isLower_append (human data : List Char) :
    (human ++ '1' :: data).any Char.isLower =
      (human.any Char.isLower || data.any Char.isLower) := by
  have separator : Char.isLower '1' = false := rfl
  rw [List.any_append, List.any_cons, separator, Bool.false_or]

/-- Without upper-case letters a text is its own lower case. -/
theorem map_toLower_eq_self {chars : List Char} (lower : chars.any Char.isUpper = false) :
    chars.map Char.toLower = chars := by
  refine (List.map_congr_left fun c mem => ?_).trans (List.map_id chars)
  exact Char.toLower_eq_of_not_isUpper (List.any_eq_false.mp lower c mem)

/-- Without lower-case letters a text is its own upper case. -/
theorem map_toUpper_eq_self {chars : List Char} (upper : chars.any Char.isLower = false) :
    chars.map Char.toUpper = chars := by
  refine (List.map_congr_left fun c mem => ?_).trans (List.map_id chars)
  exact Char.toUpper_eq_of_not_isLower (List.any_eq_false.mp upper c mem)

/-- There is no lower-case letter in upper case. -/
theorem any_isLower_map_toUpper (chars : List Char) :
    (chars.map Char.toUpper).any Char.isLower = false := by
  rw [List.any_map, List.any_eq_false]
  simp

/-- Behind a prefix without upper-case letters the data are in lower case. They may be in upper case
as well, if the prefix has no lower-case letters either. -/
theorem unmixed_append_iff {human data plain : List Char} (lower : human.any Char.isUpper = false)
    (plain_lower : plain.any Char.isUpper = false) :
    Unmixed (human ++ '1' :: data) ∧ data.map Char.toLower = plain ↔
      data = plain ∨ human.any Char.isLower = false ∧ data = plain.map Char.toUpper := by
  unfold Unmixed
  rw [any_isUpper_append lower, any_isLower_append]
  constructor
  · rintro ⟨unmixed, rfl⟩
    -- a letter in upper case forbids lower case in the data and in the prefix
    by_cases upper : data.any Char.isUpper = true
    · have none : (human.any Char.isLower || data.any Char.isLower) = false :=
        Bool.eq_false_iff.mpr fun some => unmixed ⟨upper, some⟩
      rw [Bool.or_eq_false_iff] at none
      refine .inr ⟨none.1, ?_⟩
      rw [List.map_map, ← map_toUpper_eq_self none.2, List.map_map]
      refine List.map_congr_left fun c _ => ?_
      simp
    · exact .inl (map_toLower_eq_self (Bool.eq_false_iff.mpr upper)).symm
  · rintro (rfl | ⟨letterless, rfl⟩)
    · exact ⟨fun mixed => by simp [plain_lower] at mixed, map_toLower_eq_self plain_lower⟩
    · refine ⟨fun mixed => ?_, ?_⟩
      · rw [letterless, any_isLower_map_toUpper] at mixed
        cases mixed.2
      · rw [List.map_map]
        refine Eq.trans (List.map_congr_left fun c _ => ?_) (map_toLower_eq_self plain_lower)
        simp

/-! ### Prefixes -/

/-- A text has at least as many bytes as characters. -/
theorem length_le_utf8ByteSize (chars : List Char) :
    chars.length ≤ (String.ofList chars).utf8ByteSize := by
  rw [String.utf8ByteSize_ofList]
  induction chars with
  | nil => exact Nat.le_refl 0
  | cons c chars ih =>
    have := c.utf8Size_pos
    rw [String.utf8Len_cons, List.length_cons]
    omega

/-- A prefix that is accepted is not too long. -/
theorem length_le_of_checkPrefix {human : List Char} (fits : checkPrefix human = .ok ()) :
    human.length ≤ maxPrefixLength := by
  refine Nat.le_trans (length_le_utf8ByteSize human) (Nat.not_lt.mp fun long => ?_)
  have nonempty : (String.ofList human).utf8ByteSize ≠ 0 := Nat.ne_of_gt (Nat.zero_lt_of_lt long)
  unfold checkPrefix at fits
  simp only [nonempty, long, if_true, if_false] at fits
  cases fits

/-- A prefix adds to the checksum what it adds in lower case. -/
theorem expand_map_toLower (human : List Char) :
    expand (human.map Char.toLower) = expand human := by
  unfold expand
  simp only [List.map_map, Function.comp_def, Char.toLower_toLower_eq_toLower]

/-! ### Spellings -/

/-- The data symbols of some bytes, with the given bits left over behind them, and a checksum that
leads to a mark. -/
def spelled (human : List Char) (bytes : Blob) (leftover : List Bool) (mark : Residue) :
    List Symbol :=
  let data := symbolsOfBits (bitsOfBytes bytes ++ leftover)
  data ++ checksumTo mark human data

/-- The text of some bytes under a prefix, with the given bits left over behind them, and a checksum
that leads to a mark. -/
def spelling (human : String) (bytes : Blob) (leftover : List Bool) (mark : Residue) : String :=
  String.ofList
    (human.toList ++ '1' :: (spelled human.toList bytes leftover mark).map Symbol.toChar)

/-- The bits that can be left over: fewer than a byte, and as many as fill the last symbol. -/
def Fills (bytes : Blob) (leftover : List Bool) : Prop :=
  leftover.length < 8 ∧ 5 ∣ 8 * bytes.length + leftover.length

variable {human : String} {bytes bytes' : Blob} {leftover leftover' : List Bool}
  {mark mark' : Residue} {text : String}

/-- The data symbols, and then the checksum that leads to the mark. -/
theorem spelled_eq (human : List Char) : spelled human bytes leftover mark =
    symbolsOfBits (bitsOfBytes bytes ++ leftover) ++
      checksumTo mark human (symbolsOfBits (bitsOfBytes bytes ++ leftover)) := rfl

/-- The characters of a spelling, one after the other. -/
theorem toList_spelling : (spelling human bytes leftover mark).toList =
    human.toList ++ '1' :: (spelled human.toList bytes leftover mark).map Symbol.toChar :=
  String.toList_ofList

/-- Whole groups of five bits give a symbol each. -/
theorem length_symbolsOfBits {bits : List Bool} (whole : 5 ∣ bits.length) :
    5 * (symbolsOfBits bits).length = bits.length := by
  rw [← length_bitsOfSymbols, bitsOfSymbols_symbolsOfBits whole]

/-- The bits of the bytes and those left over fill the symbols. -/
theorem Fills.whole (fills : Fills bytes leftover) :
    5 ∣ (bitsOfBytes bytes ++ leftover).length := by
  rw [List.length_append, length_bitsOfBytes]
  exact fills.2

/-- How many symbols a spelling has behind its prefix, in bits. -/
theorem Fills.length_spelled (fills : Fills bytes leftover) (human : List Char) (mark : Residue) :
    5 * (spelled human bytes leftover mark).length = 8 * bytes.length + leftover.length + 30 := by
  have data := length_symbolsOfBits fills.whole
  rw [List.length_append, length_bitsOfBytes] at data
  rw [spelled_eq, List.length_append, length_checksumTo, Nat.mul_add, data]

/-- The spelling tells everything that it was made from. -/
theorem spelling_inj {human' : String} (fills : Fills bytes leftover)
    (fills' : Fills bytes' leftover')
    (same : spelling human bytes leftover mark = spelling human' bytes' leftover' mark') :
    human = human' ∧ bytes = bytes' ∧ leftover = leftover' ∧ mark = mark' := by
  -- no data character is a separator, so the last one ends the prefix
  have chars := congrArg String.toList same
  rw [toList_spelling, toList_spelling] at chars
  have split := splitAtSeparator?_append human.toList (separator_notMem_map_toChar
    (spelled human.toList bytes leftover mark))
  rw [chars, splitAtSeparator?_append _ (separator_notMem_map_toChar _)] at split
  obtain ⟨prefixes, symbols⟩ := Prod.mk.inj (Option.some.inj split)
  obtain rfl := String.toList_inj.mp prefixes
  have width := (length_checksumTo mark' human'.toList
    (symbolsOfBits (bitsOfBytes bytes' ++ leftover'))).trans (length_checksumTo mark human'.toList
      (symbolsOfBits (bitsOfBytes bytes ++ leftover))).symm
  obtain ⟨data, check⟩ := List.append_inj' (toChar_injective.list_map symbols) width
  -- the bits are those of the symbols, and their whole bytes are the bytes
  have bits := congrArg bitsOfSymbols data
  rw [bitsOfSymbols_symbolsOfBits fills.whole, bitsOfSymbols_symbolsOfBits fills'.whole] at bits
  have found := congrArg bytesOfBits bits
  rw [bytesOfBits_bitsOfBytes _ fills.1, bytesOfBits_bitsOfBytes _ fills'.1] at found
  subst found
  have leftovers := List.append_cancel_left bits
  subst leftovers
  refine ⟨rfl, rfl, rfl, ?_⟩
  -- one checksum cannot lead to two marks
  have marked := residue_checksumTo mark human'.toList
    (symbolsOfBits (bitsOfBytes bytes' ++ leftover'))
  rw [← check, residue_checksumTo] at marked
  exact marked.symm

/-- What is written: the spelling in lower case, with zeros left over and the newer mark. -/
theorem encode_eq_ok {missing : Nat} (few : missing < 5) (whole : 5 ∣ 8 * bytes.length + missing) :
    encode human bytes = .ok text ↔ checkPrefix human.toList = .ok () ∧
      text = spelling human.toLower bytes (List.replicate missing false) target := by
  -- the bits that are missing are filled with zeros, and case does not count in the checksum
  have length : 5 ∣ (bitsOfBytes bytes).length + missing := by rwa [length_bitsOfBytes]
  have data : symbolsOfBits (bitsOfBytes bytes ++ List.replicate missing false) =
      symbolsOfBytes bytes := symbolsOfBits_filled _ few length
  have chars : human.toLower.toList = human.toList.map Char.toLower := String.toList_map
  have check : checksumTo target human.toLower.toList (symbolsOfBytes bytes) =
      checksum human.toList (symbolsOfBytes bytes) := by
    rw [checksum_eq, checksumTo, checksumTo, chars, expand_map_toLower]
  have written : spelling human.toLower bytes (List.replicate missing false) target =
      String.ofList (human.toList.map Char.toLower ++ '1' ::
        (symbolsOfBytes bytes ++ checksum human.toList (symbolsOfBytes bytes)).map
          Symbol.toChar) := by
    rw [spelling, spelled_eq, data, check, chars]
  rw [written]
  unfold encode
  constructor
  · intro encoded
    obtain ⟨_, fits, encoded⟩ := Except.bind_eq_ok.mp encoded
    exact ⟨fits, (Except.ok.inj encoded).symm⟩
  · rintro ⟨fits, rfl⟩
    rw [fits]
    rfl

/-- The prefix and the symbols of a text are those that it is made of, in letters of one case. -/
theorem parse?_eq_some {chars human : List Char} {symbols : List Symbol} :
    parse? chars = some (human, symbols) ↔ Unmixed chars ∧ checkPrefix human = .ok () ∧
      ∃ data, chars = human ++ '1' :: data ∧
        data.map Char.toLower = symbols.map Symbol.toChar := by
  unfold parse?
  constructor
  · intro parsed
    -- the five steps of the parser, in their order
    obtain ⟨_, unmixed, parsed⟩ := Option.bind_eq_some_iff.mp parsed
    obtain ⟨⟨human', data⟩, split, parsed⟩ := Option.bind_eq_some_iff.mp parsed
    obtain ⟨_, fits, parsed⟩ := Option.bind_eq_some_iff.mp parsed
    obtain ⟨symbols', read, parsed⟩ := Option.bind_eq_some_iff.mp parsed
    obtain ⟨rfl, rfl⟩ := Prod.mk.inj (Option.some.inj parsed)
    obtain ⟨rfl, -⟩ := splitAtSeparator?_eq_some.mp split
    have unmixed := (Option.guard_eq_some' ()).mp unmixed
    exact ⟨unmixed, Except.toOption_eq_some.mp fits, data, rfl,
      mapM_ofChar?_eq_some.mp read⟩
  · rintro ⟨unmixed, fits, data, rfl, read⟩
    -- no symbol is written as the separator, so that it is found where the prefix ends
    have last : '1' ∉ data := fun mem =>
      separator_notMem_map_toChar symbols (read ▸ List.mem_map_of_mem mem)
    refine Option.bind_eq_some_iff.mpr ⟨(), (Option.guard_eq_some' ()).mpr unmixed, ?_⟩
    refine Option.bind_eq_some_iff.mpr ⟨_, splitAtSeparator?_append human last, ?_⟩
    refine Option.bind_eq_some_iff.mpr ⟨(), Except.toOption_eq_some.mpr fits, ?_⟩
    exact Option.bind_eq_some_iff.mpr ⟨symbols, mapM_ofChar?_eq_some.mpr read, rfl⟩

/-- Behind a prefix without upper-case letters the symbols are written in lower case, or in upper
case if the prefix has no lower-case letters either. -/
theorem parse?_eq_some_of_lower {chars human : List Char} (lower : human.any Char.isUpper = false)
    {symbols : List Symbol} : parse? chars = some (human, symbols) ↔ checkPrefix human = .ok () ∧
      (chars = human ++ '1' :: symbols.map Symbol.toChar ∨
        human.any Char.isLower = false ∧
          chars = (human ++ '1' :: symbols.map Symbol.toChar).map Char.toUpper) := by
  -- the symbols themselves are written without capitals
  have plain : (symbols.map Symbol.toChar).any Char.isUpper = false := by
    rw [List.any_map, List.any_eq_false]
    exact fun s _ => Bool.eq_false_iff.mp (toChar_spec s).2.1
  have upper (letterless : human.any Char.isLower = false) :
      (human ++ '1' :: symbols.map Symbol.toChar).map Char.toUpper =
        human ++ '1' :: (symbols.map Symbol.toChar).map Char.toUpper := by
    rw [List.map_append, map_toUpper_eq_self letterless]
    rfl
  rw [parse?_eq_some]
  constructor
  · rintro ⟨unmixed, fits, data, rfl, read⟩
    refine ⟨fits, ?_⟩
    -- small and capital letters are the only two unmixed ways to write the data
    rcases (unmixed_append_iff lower plain).mp ⟨unmixed, read⟩ with rfl | ⟨letterless, rfl⟩
    · exact .inl rfl
    · exact .inr ⟨letterless, (upper letterless).symm⟩
  · rintro ⟨fits, rfl | ⟨letterless, rfl⟩⟩
    · obtain ⟨unmixed, read⟩ := (unmixed_append_iff lower plain).mpr (.inl rfl)
      exact ⟨unmixed, fits, _, rfl, read⟩
    · obtain ⟨unmixed, read⟩ := (unmixed_append_iff lower plain).mpr (.inr ⟨letterless, rfl⟩)
      rw [upper letterless]
      exact ⟨unmixed, fits, _, rfl, read⟩

/-- The last six symbols are a checksum to one of the marks, and the others stand for the bytes. -/
theorem decode_eq_ok_iff_parse : decode text = .ok (human, bytes) ↔ text.length ≤ maxLength ∧
    ∃ mark leftover, (mark = target ∨ mark = olderTarget) ∧ Fills bytes leftover ∧
      parse? text.toList = some (human.toList, spelled human.toList bytes leftover mark) := by
  unfold decode
  constructor
  · intro decoded
    rcases parsed : parse? text.toList with - | ⟨chars, symbols⟩
    · rw [parsed] at decoded
      cases decoded
    · rw [parsed] at decoded
      obtain ⟨⟨short, long, marked⟩, decoded⟩ := ite_ok_eq_ok.mp decoded
      obtain ⟨rfl, stand⟩ := Prod.mk.inj decoded
      obtain ⟨data, check, rfl, six⟩ : ∃ data check, symbols = data ++ check ∧ check.length = 6 :=
        ⟨symbols.take (symbols.length - 6), symbols.drop (symbols.length - 6),
          (List.take_append_drop _ _).symm, by rw [List.length_drop]; omega⟩
      have taken : (data ++ check).take ((data ++ check).length - 6) = data :=
        List.take_left' (by rw [List.length_append]; omega)
      rw [taken] at stand
      obtain ⟨leftover, few, whole, rfl⟩ := bytesOfSymbols_eq_iff.mp stand
      -- the mark is whatever residue was found
      generalize leads : residue (expand chars ++ (_ ++ check)) = mark at marked
      obtain rfl := (residue_append_eq_iff six).mp leads
      refine ⟨short, mark, leftover, marked, ⟨few, whole⟩, ?_⟩
      rw [String.toList_ofList]
      rfl
  · rintro ⟨short, mark, leftover, marked, fills, parsed⟩
    have stand := bytesOfSymbols_eq_iff.mpr ⟨leftover, fills.1, fills.2, rfl⟩
    rw [← residue_checksumTo mark human.toList (symbolsOfBits (bitsOfBytes bytes ++ leftover))]
      at marked
    rw [parsed]
    refine ite_ok_eq_ok.mpr ⟨⟨short, ?_, marked⟩, ?_⟩
    · rw [spelled_eq, List.length_append, length_checksumTo]
      exact Nat.le_add_left 6 _
    · rw [String.ofList_toList, spelled_eq, List.take_left' (by simp), stand]

/-- What the reader takes under a prefix without upper-case letters: the spellings with any bits
left over and either mark, and those in upper case, if the prefix has no lower-case letters. -/
theorem decode_eq_ok (lower : human.toList.any Char.isUpper = false) :
    decode text = .ok (human, bytes) ↔ checkPrefix human.toList = .ok () ∧
      text.length ≤ maxLength ∧ ∃ mark leftover, (mark = target ∨ mark = olderTarget) ∧
        Fills bytes leftover ∧ (text = spelling human bytes leftover mark ∨
          human.toList.any Char.isLower = false ∧
            text = (spelling human bytes leftover mark).toUpper) := by
  have upper (leftover : List Bool) (mark : Residue) :
      (spelling human bytes leftover mark).toUpper.toList =
        (spelling human bytes leftover mark).toList.map Char.toUpper := String.toList_map
  rw [decode_eq_ok_iff_parse]
  simp only [parse?_eq_some_of_lower lower, ← toList_spelling, ← upper, String.toList_inj]
  constructor
  · rintro ⟨short, mark, leftover, marked, fills, fits, spelled⟩
    exact ⟨fits, short, mark, leftover, marked, fills, spelled⟩
  · rintro ⟨fits, short, mark, leftover, marked, fills, spelled⟩
    exact ⟨short, mark, leftover, marked, fills, fits, spelled⟩

end RingWallet.Bech32
