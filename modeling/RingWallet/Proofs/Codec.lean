import RingWallet.Codec
import RingWallet.Proofs.Support.Except

/-!
# What a codec owes its readers

`Takes` is about one run of bytes: a reader takes it for a value whatever follows it, and finds it
too short wherever it is cut. Such readers can be put in a row (`Takes.bind`).

`Codec.Exact` is about a codec and the values that it can write. The reader takes what is written
for a value for that value, and it takes nothing else: whatever it reads was written. Each way to
put a codec together keeps this, so that an exact codec is built from exact parts. The values that
can be written are those whose numbers fit into their words; of a list it is the length that has to
fit (`Codec.Listed`).

`Codec.Exact.canonical` says what this means for a reader that drops what follows the value: it
accepts exactly the runs of bytes that start with the form of the value, no form starts another one,
and a form that is cut short is refused.

The codec of a map is not exact, because the entries may come in any order. `Codec.takes_map` says
that it reads every order of the entries.
-/

set_option autoImplicit false

namespace RingWallet

/-- A reader takes a run of bytes for a value, which may depend on what follows it, and fails with
the error of a run that is too short if it is cut. -/
structure Takes {ε β : Type} (tooShort : ε) (read : Blob → Except ε β) (bytes : Blob)
    (value : Blob → β) : Prop where
  whole : ∀ rest, read (bytes ++ rest) = .ok (value rest)
  short : ∀ cut, cut <+: bytes → cut ≠ bytes → read cut = .error tooShort

namespace Takes

variable {ε ε' α β : Type} {tooShort : ε}

/-- A reader that reads nothing. -/
theorem done (value : Blob → β) : Takes tooShort (fun bytes => .ok (value bytes)) [] value where
  whole _ := rfl
  short _ before other := absurd (List.prefix_nil.mp before) other

/-- Two readers in a row take two runs of bytes in a row. -/
theorem bind {first : Blob → Except ε α} {second : α → Except ε β} {bytes bytes' : Blob}
    {a : Blob → α} {value : Blob → β} (here : Takes tooShort first bytes a)
    (later : Takes tooShort (fun rest => second (a rest)) bytes' value) :
    Takes tooShort (fun input => first input >>= second) (bytes ++ bytes') value where
  whole rest := by
    rw [List.append_assoc, here.whole, Except.ok_bind]
    exact later.whole rest
  short cut before other := by
    -- the cut is inside the first run, or behind it and inside the second one
    rcases List.prefix_or_prefix_of_prefix before (List.prefix_append bytes bytes') with
      inside | ⟨rest, rfl⟩
    · by_cases all : cut = bytes
      · subst all
        have nonempty : [] ≠ bytes' := fun nil => other (by rw [← nil, List.append_nil])
        have whole := here.whole []
        rw [List.append_nil] at whole
        rw [whole, Except.ok_bind]
        exact later.short [] List.nil_prefix nonempty
      · rw [here.short cut inside all]
        rfl
    · have inside : rest <+: bytes' := (List.prefix_append_right_inj bytes).mp before
      rw [here.whole, Except.ok_bind]
      exact later.short rest inside fun same => other (by rw [same])

variable {read : Blob → Except ε α} {bytes : Blob} {a : Blob → α}

/-- A reader whose value is turned into another one. -/
theorem map (taken : Takes tooShort read bytes a) (f : α → β) :
    Takes tooShort (fun input => (read input).map f) bytes fun rest => f (a rest) where
  whole rest := by
    rw [taken.whole]
    rfl
  short cut before other := by
    rw [taken.short cut before other]
    rfl

/-- A reader whose errors are worded in another way. -/
theorem mapError (taken : Takes tooShort read bytes a) (f : ε → ε') :
    Takes (f tooShort) (fun input => (read input).mapError f) bytes a where
  whole rest := by
    rw [taken.whole, Except.mapError_ok]
  short cut before other := by
    rw [taken.short cut before other, Except.mapError_error]

/-- A reader after which nothing more is read. -/
theorem last (taken : Takes tooShort read bytes a) (f : α → β) :
    Takes tooShort (fun input => read input >>= fun a => .ok (f a)) bytes
      fun rest => f (a rest) := by
  have both : Takes tooShort (fun input => read input >>= fun a => .ok (f a)) (bytes ++ [])
      fun rest => f (a rest) := taken.bind (.done fun rest => f (a rest))
  rwa [List.append_nil] at both

end Takes

namespace Codec

variable {α β : Type}

/-- The reader takes what is written for a value of the domain for that value, and whatever it reads
is a value of the domain and was written for it. -/
structure Exact (c : Codec α) (domain : α → Prop) : Prop where
  takes : ∀ a, domain a → Takes .endOfData c.decode (c.encode a) fun rest => (a, rest)
  written : ∀ input a rest, c.decode input = .ok (a, rest) →
    domain a ∧ input = c.encode a ++ rest

variable {c : Codec α} {d : Codec β} {P : α → Prop} {Q : β → Prop}

/-- The same values can be described in another way. -/
theorem Exact.congr (hc : c.Exact P) {P' : α → Prop} (same : ∀ a, P a ↔ P' a) : c.Exact P' where
  takes a ha := hc.takes a ((same a).mpr ha)
  written input a rest read := by
    obtain ⟨ha, eq⟩ := hc.written input a rest read
    exact ⟨(same a).mp ha, eq⟩

/-- What is written for a value alone is read back. -/
theorem read_of_takes {bytes : Blob} {a : α}
    (taken : Takes .endOfData c.decode bytes fun rest => (a, rest)) : c.read bytes = .ok a := by
  have whole := taken.whole []
  rw [List.append_nil] at whole
  unfold read
  rw [whole]
  rfl

/-! ### Words and strings of fixed length -/

/-- A cut of a run of bytes is shorter than the run. -/
theorem length_lt_of_cut {cut bytes : Blob} (before : cut <+: bytes) (other : cut ≠ bytes) :
    cut.length < bytes.length := by
  refine Nat.lt_of_le_of_ne before.length_le ?_
  exact fun same => other (before.eq_of_length same)

/-- A byte string takes its own size. -/
theorem exact_bytes (size : Nat) : (bytes size).Exact fun _ => True where
  takes b _ :=
    { whole := by
        intro rest
        have taken : (b.toList ++ rest).take size = b.toList := List.take_left' b.length_eq
        have left : (b.toList ++ rest).drop size = rest := List.drop_left' b.length_eq
        simp [bytes, taken, left]
      -- a cut of the bytes is too short to take all of them
      short := by
        intro cut before other
        have shorter := length_lt_of_cut before other
        have missing : (cut.take size).length ≠ size := by
          have := b.length_eq
          rw [List.length_take]
          simp only [bytes] at shorter
          omega
        simp only [bytes, Bytes.ofBlob?, missing, dif_neg, not_false_eq_true] }
  written input b rest read := by
    -- what was read is the part that was taken
    refine ⟨trivial, ?_⟩
    simp only [bytes, Bytes.ofBlob?] at read ⊢
    split at read
    · next found =>
      split at found
      · obtain rfl := Option.some.inj found
        obtain ⟨rfl, rfl⟩ := Prod.mk.inj (Except.ok.inj read)
        exact (List.take_append_drop size input).symm
      · cases found
    · cases read

/-- A number is exact as long as it fits into its bytes. -/
theorem exact_number (width : Nat) : (number width).Exact (· < Nat.pow 256 width) where
  takes n hn :=
    { whole := by
        intro rest
        have length := length_littleEndian width n
        have taken : (littleEndian width n ++ rest).take width = littleEndian width n :=
          List.take_left' length
        have left : (littleEndian width n ++ rest).drop width = rest := List.drop_left' length
        have value : ofLittleEndian (littleEndian width n) = n := by
          rw [ofLittleEndian_littleEndian]
          exact Nat.mod_eq_of_lt hn
        simp only [number, taken, left, length, value, if_true]
      -- a cut of the digits is too short to take all of them
      short := by
        intro cut before other
        have shorter := length_lt_of_cut before other
        have missing : (cut.take width).length ≠ width := by
          rw [List.length_take]
          simp only [number, length_littleEndian] at shorter
          omega
        simp only [number, missing, if_false] }
  written input n rest read := by
    simp only [number] at read ⊢
    split at read
    · next length =>
      obtain ⟨rfl, rfl⟩ := Prod.mk.inj (Except.ok.inj read)
      -- the digits of what was read are the digits that were read, since there are `width` of them
      have bound := ofLittleEndian_lt (input.take width)
      have back := littleEndian_ofLittleEndian (input.take width)
      rw [length] at bound back
      rw [back]
      exact ⟨bound, (List.take_append_drop width input).symm⟩
    · cases read

/-! ### Codecs from codecs -/

/-- Writing through another type keeps exactness if the two translations undo each other. -/
theorem Exact.via (hc : c.Exact P) {into : β → α} {back : α → β}
    (back_into : ∀ b, back (into b) = b) (into_back : ∀ a, P a → into (back a) = a) :
    (c.via into back).Exact fun b => P (into b) where
  takes b hb := by
    have taken := (hc.takes (into b) hb).map fun p => (back p.1, p.2)
    -- the value that is read is translated back
    simp only [back_into] at taken
    exact taken
  written input b rest read := by
    show P (into b) ∧ input = c.encode (into b) ++ rest
    -- the value was read by the inner codec and then translated
    rcases first : c.decode input with e | ⟨a, more⟩
    · simp [Codec.via, first, Except.map] at read
    · obtain ⟨ha, eq⟩ := hc.written input a more first
      obtain ⟨rfl, rfl⟩ : back a = b ∧ more = rest := by
        simpa [Codec.via, first, Except.map] using read
      rw [into_back a ha]
      exact ⟨ha, eq⟩

/-- Two values in a row. -/
theorem Exact.pair (hc : c.Exact P) (hd : d.Exact Q) :
    (c.pair d).Exact fun p => P p.1 ∧ Q p.2 where
  takes p hp := (hc.takes p.1 hp.1).bind ((hd.takes p.2 hp.2).last fun q => ((p.1, q.1), q.2))
  written input p rest read := by
    obtain ⟨⟨a, more⟩, first, read⟩ := Except.bind_eq_ok.mp read
    obtain ⟨⟨b, last⟩, second, read⟩ := Except.bind_eq_ok.mp read
    obtain ⟨rfl, rfl⟩ := Prod.mk.inj (Except.ok.inj read)
    obtain ⟨ha, rfl⟩ := hc.written input a more first
    obtain ⟨hb, rfl⟩ := hd.written more b last second
    exact ⟨⟨ha, hb⟩, (List.append_assoc _ _ _).symm⟩

/-- Every byte is read back. -/
theorem exact_byte : byte.Exact fun _ => True := by
  refine ((exact_number 1).via (fun _ => UInt8.ofNat_toNat) ?_).congr fun b => ?_
  · intro n hn
    exact UInt8.toNat_ofNat_of_lt hn
  · exact iff_true_intro b.toNat_lt

/-- Every word of 32 bits is read back. -/
theorem exact_word32 : word32.Exact fun _ => True := by
  refine ((exact_number 4).via (fun _ => UInt32.ofNat_toNat) ?_).congr fun w => ?_
  · intro n hn
    exact UInt32.toNat_ofNat_of_lt hn
  · exact iff_true_intro w.toNat_lt

/-- Every word is read back. -/
theorem exact_word : word.Exact fun _ => True := by
  refine ((exact_number 8).via (fun _ => UInt64.ofNat_toNat) ?_).congr fun w => ?_
  · intro n hn
    exact UInt64.toNat_ofNat_of_lt hn
  · exact iff_true_intro w.toNat_lt

/-- A position is read back if it fits into a word. -/
theorem exact_position : position.Exact (· < UInt64.size) := exact_number 8

/-- What a tag in front of other bytes stands for. -/
def boolOf (p : UInt8 × Blob) : Except BlobError (Bool × Blob) :=
  if p.1 = 0 then .ok (false, p.2)
  else if p.1 = 1 then .ok (true, p.2)
  else .error (.invalidBool p.1)

/-- A flag is one byte, which is zero or one. -/
theorem exact_bool : bool.Exact fun _ => True where
  takes b _ := by
    -- nothing is read behind the tag
    have body : Takes .endOfData (fun rest => boolOf (if b then 1 else 0, rest)) []
        fun rest => (b, rest) := by
      cases b with
      | false => exact .done _
      | true => exact .done _
    have whole : Takes .endOfData (fun input => byte.decode input >>= boolOf)
        (byte.encode (if b then 1 else 0) ++ []) fun rest => (b, rest) :=
      (exact_byte.takes _ trivial).bind body
    rw [List.append_nil] at whole
    cases b with
    | false => exact whole
    | true => exact whole
  written input b rest read := by
    obtain ⟨⟨tag, more⟩, first, tagged⟩ := Except.bind_eq_ok.mp read
    obtain ⟨-, rfl⟩ := exact_byte.written input tag more first
    refine ⟨trivial, ?_⟩
    simp only [] at tagged
    split at tagged
    · next zero =>
      subst zero
      obtain ⟨rfl, rfl⟩ := Prod.mk.inj (Except.ok.inj tagged)
      rfl
    · split at tagged
      · next one =>
        subst one
        obtain ⟨rfl, rfl⟩ := Prod.mk.inj (Except.ok.inj tagged)
        rfl
      · cases tagged

/-- What the tag before a value that may be missing stands for. -/
def optionOf (c : Codec α) (p : UInt8 × Blob) : Except BlobError (Option α × Blob) :=
  if p.1 = 0 then .ok (none, p.2)
  else if p.1 = 1 then c.decode p.2 >>= fun q => .ok (some q.1, q.2)
  else .error (.invalidOption p.1)

/-- A value that may be missing has a flag in front. -/
theorem Exact.option (hc : c.Exact P) : (option c).Exact fun value => ∀ a ∈ value, P a where
  takes value fits := by
    cases value with
    -- the tag says whether anything follows
    | none =>
      show Takes .endOfData (fun input => byte.decode input >>= optionOf c) (byte.encode 0 ++ []) _
      exact (exact_byte.takes 0 trivial).bind (.done fun rest => (none, rest))
    | some a =>
      show Takes .endOfData (fun input => byte.decode input >>= optionOf c)
        (byte.encode 1 ++ c.encode a) _
      have body : Takes .endOfData (fun rest => optionOf c (1, rest)) (c.encode a)
          fun rest => (some a, rest) :=
        (hc.takes a (fits a rfl)).last fun q => (some q.1, q.2)
      exact (exact_byte.takes 1 trivial).bind body
  written input value rest read := by
    obtain ⟨⟨tag, more⟩, first, tagged⟩ := Except.bind_eq_ok.mp read
    obtain ⟨-, rfl⟩ := exact_byte.written input tag more first
    -- a tag other than 0 and 1 is refused
    simp only [] at tagged
    split at tagged
    · next zero =>
      subst zero
      obtain ⟨rfl, rfl⟩ := Prod.mk.inj (Except.ok.inj tagged)
      exact ⟨fun a none => (nomatch none), rfl⟩
    · split at tagged
      · next one =>
        subst one
        obtain ⟨⟨a, last⟩, second, tagged⟩ := Except.bind_eq_ok.mp tagged
        obtain ⟨rfl, rfl⟩ := Prod.mk.inj (Except.ok.inj tagged)
        obtain ⟨fits, rfl⟩ := hc.written more a last second
        exact ⟨fun a' same => Option.some.inj same ▸ fits, rfl⟩
      · cases tagged

/-- Every secret is read back. -/
theorem exact_secretKey : secretKey.Exact fun _ => True :=
  (exact_bytes 32).via (fun _ => rfl) fun _ _ => rfl

/-- Every hash is read back. -/
theorem exact_hash : Codec.hash.Exact fun _ => True :=
  (exact_bytes 32).via (fun _ => rfl) fun _ _ => rfl

/-- Every public key is read back, also one that is no point. -/
theorem exact_publicKey : publicKey.Exact fun _ => True :=
  (exact_bytes 32).via (fun _ => rfl) fun _ _ => rfl

/-- Every key image is read back. -/
theorem exact_keyImage : keyImage.Exact fun _ => True :=
  (exact_bytes 32).via (fun _ => rfl) fun _ _ => rfl

/-! ### Lists -/

/-- A list whose length fits into a word, of values that can be written. -/
def Listed (P : α → Prop) (as : List α) : Prop := as.length < UInt64.size ∧ ∀ a ∈ as, P a

/-- Values in a row are taken one after the other, and nothing behind them. -/
theorem takes_decodeMany (hc : c.Exact P) {as : List α} (fits : ∀ a ∈ as, P a) :
    Takes .endOfData (decodeMany c as.length) (as.flatMap c.encode) fun rest => (as, rest) := by
  induction as with
  | nil => exact .done _
  | cons a as ih =>
    rw [List.forall_mem_cons] at fits
    exact (hc.takes a fits.1).bind ((ih fits.2).last fun q => (a :: q.1, q.2))

/-- What was read as a number of values in a row is how they are written. -/
theorem written_decodeMany (hc : c.Exact P) {count : Nat} {input rest : Blob} {as : List α}
    (read : decodeMany c count input = .ok (as, rest)) :
    as.length = count ∧ (∀ a ∈ as, P a) ∧ input = as.flatMap c.encode ++ rest := by
  induction count generalizing input as with
  | zero =>
    obtain ⟨rfl, rfl⟩ := Prod.mk.inj (Except.ok.inj read)
    exact ⟨rfl, by simp, rfl⟩
  -- the first item, then the others from what it left
  | succ count ih =>
    obtain ⟨⟨a, more⟩, first, read⟩ := Except.bind_eq_ok.mp read
    obtain ⟨⟨others, last⟩, next, read⟩ := Except.bind_eq_ok.mp read
    obtain ⟨rfl, rfl⟩ := Prod.mk.inj (Except.ok.inj read)
    obtain ⟨ha, rfl⟩ := hc.written input a more first
    obtain ⟨length, fits, rfl⟩ := ih next
    refine ⟨by rw [List.length_cons, length], List.forall_mem_cons.mpr ⟨ha, fits⟩, ?_⟩
    rw [List.flatMap_cons, List.append_assoc]

/-- A list has its length in front. -/
theorem Exact.list (hc : c.Exact P) : (list c).Exact (Listed P) where
  takes as fits := by
    show Takes .endOfData
      (fun input => position.decode input >>= fun p => decodeMany c p.1 p.2)
      (position.encode as.length ++ as.flatMap c.encode) _
    exact (exact_position.takes as.length fits.1).bind (takes_decodeMany hc fits.2)
  written input as rest read := by
    obtain ⟨⟨count, more⟩, first, items⟩ := Except.bind_eq_ok.mp read
    obtain ⟨rfl, fits, rfl⟩ := written_decodeMany hc items
    obtain ⟨bound, rfl⟩ := exact_position.written input as.length _ first
    exact ⟨⟨bound, fits⟩, (List.append_assoc _ _ _).symm⟩

/-! ### Maps -/

section Maps

variable [Ord α] [Std.TransOrd α] [Std.LawfulEqOrd α]

/-- Inserting entries with different keys: the map holds these entries and, under other keys, what
it held before. -/
theorem getElem?_foldl_insert (entries : List (α × β)) (distinct : (entries.map Prod.fst).Nodup)
    (m : Std.ExtTreeMap α β) (k : α) (v : β) :
    (entries.foldl (fun m e => m.insert e.1 e.2) m)[k]? = some v ↔
      (k, v) ∈ entries ∨ k ∉ entries.map Prod.fst ∧ m[k]? = some v := by
  induction entries generalizing m with
  | nil => simp
  | cons entry rest ih =>
    obtain ⟨key, value⟩ := entry
    rw [List.map_cons, List.nodup_cons] at distinct
    rw [List.foldl_cons, ih distinct.2]
    simp only [Std.ExtTreeMap.getElem?_insert, Std.LawfulEqOrd.compare_eq_iff_eq, List.mem_cons,
      Prod.mk.injEq, List.map_cons, not_or]
    -- the entry of the key in question is the first one, or one of the others
    by_cases same : key = k
    · subst same
      have absent (v : β) : (key, v) ∉ rest := fun mem =>
        distinct.1 (List.mem_map.mpr ⟨_, mem, rfl⟩)
      simp [absent, distinct.1, eq_comm]
    · simp [same, Ne.symm same]

/-- The keys of a map are different from each other. -/
theorem nodup_keys_toList (m : Std.ExtTreeMap α β) : (m.toList.map Prod.fst).Nodup := by
  rw [List.Nodup, List.pairwise_map]
  refine m.distinct_keys_toList.imp fun {a b} apart same => apart ?_
  exact Std.LawfulEqOrd.compare_eq_iff_eq.mpr same

/-- A map is made from its entries, in whatever order they come. -/
theorem foldl_insert_of_perm {m : Std.ExtTreeMap α β} {entries : List (α × β)}
    (order : entries.Perm m.toList) :
    entries.foldl (fun m e => m.insert e.1 e.2) (∅ : Std.ExtTreeMap α β) = m := by
  have distinct : (entries.map Prod.fst).Nodup :=
    (order.map Prod.fst).nodup_iff.mpr (nodup_keys_toList m)
  apply Std.ExtTreeMap.ext_getElem?
  intro k
  refine Option.ext fun v => ?_
  rw [getElem?_foldl_insert entries distinct, order.mem_iff,
    Std.ExtTreeMap.mem_toList_iff_getElem?_eq_some]
  simp

/-- The entries of a map are read back in whatever order they are written. -/
theorem takes_map (hc : c.Exact P) (hd : d.Exact Q) {m : Std.ExtTreeMap α β}
    {entries : List (α × β)} (order : entries.Perm m.toList)
    (fits : Listed (fun e : α × β => P e.1 ∧ Q e.2) m.toList) :
    Takes .endOfData (map c d).decode ((list (pair c d)).encode entries) fun rest => (m, rest) := by
  have written : Listed (fun e : α × β => P e.1 ∧ Q e.2) entries :=
    ⟨order.length_eq ▸ fits.1, fun e he => fits.2 e (order.mem_iff.mp he)⟩
  have taken := ((hc.pair hd).list.takes entries written).map fun p =>
    (p.1.foldl (fun (m : Std.ExtTreeMap α β) e => m.insert e.1 e.2) ∅, p.2)
  simp only [foldl_insert_of_perm order] at taken
  exact taken

end Maps

/-! ### Whole forms -/

/-- The forms of the values of a domain can be told from each other and from everything else, also
in front of other bytes. -/
structure Canonical (domain : α → Prop) (write : α → Blob) (read : Blob → Except BlobError α) :
    Prop where
  /-- A value is read back from its form, whatever follows it. -/
  read_write : ∀ a, domain a → ∀ rest, read (write a ++ rest) = .ok a
  /-- What is accepted starts with the form of the value that is read. -/
  write_read : ∀ bytes a, read bytes = .ok a → domain a ∧ write a <+: bytes
  /-- No form starts the form of another value. -/
  prefix_free : ∀ a b, domain a → domain b → write a <+: write b → a = b
  /-- A form that is cut short is refused. -/
  short : ∀ a, domain a → ∀ cut, cut <+: write a → cut ≠ write a → read cut = .error .endOfData

/-- The forms that an exact codec writes. -/
theorem Exact.canonical (hc : c.Exact P) : Canonical P c.encode c.read := by
  have back (a : α) (ha : P a) (rest : Blob) : c.read (c.encode a ++ rest) = .ok a :=
    ((hc.takes a ha).map Prod.fst).whole rest
  refine ⟨back, ?_, ?_, fun a ha => ((hc.takes a ha).map Prod.fst).short⟩
  · intro bytes a read
    rcases first : c.decode bytes with e | ⟨a', rest⟩
    · simp [Codec.read, first, Except.map] at read
    · obtain rfl : a' = a := by simpa [Codec.read, first, Except.map] using read
      obtain ⟨ha, rfl⟩ := hc.written bytes a' rest first
      exact ⟨ha, List.prefix_append _ _⟩
  · rintro a b ha hb ⟨rest, eq⟩
    -- the form of `b` is read as `b`, and as `a` because it starts with the form of `a`
    have as_a := back a ha rest
    rw [eq, ← List.append_nil (c.encode b), back b hb []] at as_a
    exact (Except.ok.inj as_a).symm

end Codec

end RingWallet
