import RingWallet.Proofs.Wallet.SavedState
import RingWallet.Storage.WalletFiles

/-!
# The files of a wallet, written and read

The files of a wallet have the same directory and different names, because each one is named by the
path of the wallet with an ending of its own (`Path.names_append`). So a write to one of them leaves
the others as they are (`Directory.read_of_write_of_names`).

`WalletFiles.run_load_of_store` follows from it: a wallet that was stored is opened as the wallet
that its state is restored to, with the account that was in the keys file before.
-/

set_option autoImplicit false

namespace RingWallet

/-! ### Names -/

/-- Only a name makes a step that enters what has this name. -/
theorem PathStep.eq_of_ofName {text name : String} (enters : ofName text = .enter name) :
    name = text := by
  unfold ofName at enters
  split at enters
  · cases enters
  split at enters
  · cases enters
  exact (PathStep.enter.inj enters).symm

namespace Path

/-- The steps that the names between the slashes of a text stand for. -/
def stepsOf (text : List Char) : List PathStep :=
  ((text.splitOn '/').filter (· ≠ [])).map fun name => .ofName (.ofList name)

/-- A text names a thing in the directory to which some steps lead. -/
def Names (text : String) (folder : List PathStep) (name : String) : Prop :=
  ∃ path, parse text = .ok path ∧ path.steps = folder ++ [.enter name]

/-- A path that is read has the steps of its text, and knows whether the text ends in a slash. -/
theorem parse_eq_ok {text : String} {path : Path} (parsed : parse text = .ok path) :
    path.steps = stepsOf text.toList ∧
      path.endsInSlash = decide (text.toList.getLast? = some '/') := by
  unfold parse at parsed
  split at parsed
  · cases parsed
  split at parsed
  · cases parsed
  obtain rfl := Except.ok.inj parsed
  exact ⟨rfl, rfl⟩

/-- The steps of two texts with a slash between them are those of the first, then those of the
second. -/
theorem stepsOf_append_slash (folder name : List Char) :
    stepsOf (folder ++ '/' :: name) = stepsOf folder ++ stepsOf name := by
  unfold stepsOf
  rw [List.splitOn_append_cons_self, List.filter_append, List.map_append]

/-- A name without a slash is one step. -/
theorem stepsOf_name {name : List Char} (plain : '/' ∉ name) (long : name ≠ []) :
    stepsOf name = [.ofName (.ofList name)] := by
  unfold stepsOf
  simp [List.splitOn_eq_singleton plain, long]

/-- A text that does not end in a slash is cut behind its last one. -/
theorem exists_last_name {text : List Char} (long : text ≠ [])
    (open_end : text.getLast? ≠ some '/') :
    ∃ folder name, name ≠ [] ∧ '/' ∉ name ∧
      ∀ ending, stepsOf (text ++ ending) = folder ++ stepsOf (name ++ ending) := by
  by_cases slash : '/' ∈ text
  · -- the last slash is the first one of the reversed text
    obtain ⟨name, folder, cut, plain⟩ :=
      List.eq_append_cons_of_mem (List.mem_reverse.mpr slash)
    have whole : text = folder.reverse ++ '/' :: name.reverse := by
      rw [← List.reverse_reverse text, cut]
      simp
    -- what is appended to the text is appended to its name
    refine ⟨stepsOf folder.reverse, name.reverse, ?_, by simpa using plain, fun ending => ?_⟩
    · intro none
      rw [whole, none] at open_end
      simp at open_end
    · rw [whole, List.append_assoc, List.cons_append, stepsOf_append_slash]
  · exact ⟨[], text, long, slash, fun ending => rfl⟩

/-- With an ending, the path of a file names another thing in the same directory. -/
theorem names_append {text ending : String} {path path' : Path} {folder : List PathStep}
    {name : String} (parsed : parse text = .ok path) (file : path.steps = folder ++ [.enter name])
    (open_end : path.endsInSlash = false) (plain : '/' ∉ ending.toList) (long : 2 < ending.length)
    (parsed' : parse (text ++ ending) = .ok path') :
    Names (text ++ ending) folder (name ++ ending) := by
  obtain ⟨steps, last⟩ := parse_eq_ok parsed
  obtain ⟨steps', -⟩ := parse_eq_ok parsed'
  have named : text.toList ≠ [] := by
    intro none
    rw [file, none] at steps
    cases folder with
    | nil => cases steps
    | cons s rest => cases steps
  rw [last, decide_eq_false_iff_not] at open_end
  obtain ⟨folder', name', long', plain', cut⟩ := exists_last_name named open_end
  -- the last name of the text is the name of the file
  have own := cut []
  rw [List.append_nil, List.append_nil, stepsOf_name plain' long', ← steps, file] at own
  obtain ⟨rfl, step⟩ := List.append_inj' own rfl
  obtain rfl : name = .ofList name' := PathStep.eq_of_ofName (List.head_eq_of_cons_eq step).symm
  refine ⟨path', parsed', ?_⟩
  have plain_name : '/' ∉ name' ++ ending.toList := by
    rw [List.mem_append, not_or]
    exact ⟨plain', plain⟩
  have whole : String.ofList (name' ++ ending.toList) = .ofList name' ++ ending := by
    rw [String.ofList_append, String.ofList_toList]
  rw [steps', String.toList_append, cut,
    stepsOf_name plain_name (List.append_ne_nil_of_left_ne_nil long' _), whole]
  -- a name with such an ending is too long to stand for a step of another kind
  have longer (short : String) (few : short.length ≤ 2) :
      String.ofList name' ++ ending ≠ short := by
    rintro rfl
    rw [String.length_append] at few
    omega
  unfold PathStep.ofName
  rw [if_neg (longer "." (by decide)), if_neg (longer ".." (by decide))]

end Path

/-! ### Writes -/

namespace Directory

open RingWallet.Path (Names)

variable {d d' : Directory} {text other : String} {contents kept : Blob}

/-- A write puts a file under a name in a directory that exists. -/
theorem exists_of_write (written : d.write text contents = .ok d') :
    ∃ path steps name folder, Path.parse text = .ok path ∧ path.steps = steps ++ [.enter name] ∧
      path.endsInSlash = false ∧ d.walk [] steps = .ok folder ∧
      d.isFolder (name :: folder) = false ∧ d' = d.putFile (name :: folder) contents := by
  obtain ⟨path, parsed, written⟩ := Except.bind_eq_ok.mp written
  obtain ⟨place, target, written⟩ := Except.bind_eq_ok.mp written
  obtain ⟨name, folder, rfl, walk, steps, open_end, -, -, free⟩ := target_eq_ok target
  exact ⟨path, _, name, folder, parsed, steps, open_end, walk, free, (Except.ok.inj written).symm⟩

/-- What a path locates is what its steps lead to from the top. -/
theorem locate_of_walk {path : Path} {place : Place} (parsed : Path.parse text = .ok path)
    (located : d.locate text = .ok place) : d.walk [] path.steps = .ok place := by
  obtain ⟨path', parsed', located⟩ := Except.bind_eq_ok.mp located
  obtain rfl := Except.ok.inj (parsed.symm.trans parsed')
  obtain ⟨stop, walk, located⟩ := Except.bind_eq_ok.mp located
  rw [walk]
  split at located
  · -- to stay at a directory leads nowhere else
    unfold step at located
    split at located
    · exact located
    · cases located
  · exact located

/-- A name in a directory is found there. -/
theorem locate_of_names {steps : List PathStep} {name : String} {folder place : Place}
    (names : Names text steps name) (walk : d.walk [] steps = .ok folder)
    (located : d.locate text = .ok place) : place = name :: folder := by
  obtain ⟨path, parsed, file⟩ := names
  -- the file is reached through the directory to which the other steps lead
  have way := locate_of_walk parsed located
  rw [file, walk_append_singleton _ walk] at way
  unfold step at way
  simp only [] at way
  split at way
  · split at way
    · cases way
    split at way
    · exact (Except.ok.inj way).symm
    · cases way
  · cases way

/-- What is found in a directory is still found after a file was put there. -/
theorem locate_putFile {target place : Place} (contents : Blob) (free : d.isFolder target = false)
    (located : d.locate text = .ok place) :
    (d.putFile target contents).locate text = .ok place := by
  unfold locate at located ⊢
  obtain ⟨path, parsed, located⟩ := Except.bind_eq_ok.mp located
  obtain ⟨stop, walk, located⟩ := Except.bind_eq_ok.mp located
  -- a walk does not see what is written into a file
  refine Except.bind_eq_ok.mpr ⟨path, parsed, Except.bind_eq_ok.mpr
    ⟨stop, walk_putFile contents free walk, ?_⟩⟩
  split
  · -- a path that ends in a slash takes one step more
    next slash =>
    rw [if_pos slash] at located
    exact step_putFile contents free located
  · next slash =>
    rw [if_neg slash] at located
    exact located

/-- A write leaves the files with other names in its directory. -/
theorem read_of_write_of_names {steps : List PathStep} {name name' : String}
    (names : Names text steps name) (names' : Names other steps name') (apart : name ≠ name')
    (written : d.write text contents = .ok d') (read : d.read other = .ok kept) :
    d'.read other = .ok kept := by
  obtain ⟨path, steps', name'', folder, parsed, file, -, walk, free, rfl⟩ := exists_of_write written
  obtain ⟨path', parsed', file'⟩ := names
  obtain rfl := Except.ok.inj (parsed.symm.trans parsed')
  obtain ⟨rfl, same⟩ := List.append_inj' (file.symm.trans file') rfl
  obtain rfl := PathStep.enter.inj (List.head_eq_of_cons_eq same)
  obtain ⟨place, located, read⟩ := Except.bind_eq_ok.mp read
  -- the other file has another name in the same directory
  have elsewhere : name'' :: folder ≠ place := by
    rw [locate_of_names names' walk located]
    exact fun eq => apart (List.head_eq_of_cons_eq eq)
  refine Except.bind_eq_ok.mpr ⟨place, locate_putFile contents free located, ?_⟩
  -- at another place nothing was written
  have node : (d.putFile (name'' :: folder) contents).nodes[place]? = d.nodes[place]? := by
    unfold putFile
    rw [Std.ExtTreeMap.getElem?_insert, if_neg]
    exact fun same => elsewhere (Std.LawfulEqOrd.compare_eq_iff_eq.mp same)
  rw [node]
  exact read

/-- A file that can be read exists. -/
theorem exists_of_read (read : d.read text = .ok kept) : d.exists? text = true := by
  obtain ⟨place, located, -⟩ := Except.bind_eq_ok.mp read
  unfold exists?
  rw [located]
  rfl

end Directory

/-! ### Keys -/

/-- The four keys and the creation time of an account are read back exactly as they were written. -/
theorem Account.exact_codec : codec.Exact fun _ => True := by
  refine ((Address.exact_codec.pair (Codec.exact_secretKey.option.pair (Codec.exact_secretKey.pair
    Codec.exact_word))).via (fun _ => rfl) fun _ _ => rfl).congr fun _ => iff_true_intro ?_
  exact ⟨trivial, fun _ _ => trivial, trivial, trivial⟩

/-- An account takes 137 bytes at most. -/
theorem Account.length_encode_le (account : Account) : (codec.encode account).length ≤ 137 := by
  have key (b : Bytes 32) : b.toList.length = 32 := b.length_eq
  have word : (littleEndian 8 account.createTime.toNat).length = 8 := length_littleEndian _ _
  -- the spend key is the only part whose length is not fixed
  have spend : ((Codec.option Codec.secretKey).encode account.keys.spendSecret).length ≤ 33 := by
    cases account.keys.spendSecret with
    | none => exact Nat.le_of_ble_eq_true rfl
    | some secret => exact Nat.le_of_eq (congrArg (· + 1) (key secret.bytes))
  show ((account.address.spendKey.bytes.toList ++ account.address.viewKey.bytes.toList) ++
    ((Codec.option Codec.secretKey).encode account.keys.spendSecret ++
      (account.keys.viewSecret.bytes.toList ++
        littleEndian 8 account.createTime.toNat))).length ≤ 137
  simp only [List.length_append, key, word]
  omega

namespace KeysFile

/-- A keys file is read back exactly as it was written, however long its sealed part is. -/
theorem exact_codec : codec.Exact fun f => f.sealedAccount.length < UInt64.size := by
  refine (((Codec.exact_bytes 16).pair ((Codec.exact_bytes 24).pair Codec.exact_byte.list)).via
    (fun _ => rfl) fun _ _ => rfl).congr fun f => ?_
  constructor
  · rintro ⟨-, -, count, -⟩
    exact count
  · exact fun count => ⟨trivial, trivial, count, fun _ _ => trivial⟩

/-- The password opens the keys file that was locked with it, if the keys belong together. -/
theorem unlock_lockWith {S : Suite} {account : Account} (verified : account.verify S = true)
    (password : String) (salt : Bytes 16) (nonce : Bytes 24) :
    (lockWith account password salt nonce).unlock S password = .ok account := by
  have back := Account.exact_codec.canonical.read_write account trivial []
  rw [List.append_nil] at back
  unfold unlock lockWith
  simp only [Sealed.unlock?_lock, back, Except.mapError_ok, Except.ok_bind, verified, if_true]
  rfl

/-- The keys file of an account is read back. -/
theorem read_encode_lockWith (account : Account) (password : String) (salt : Bytes 16)
    (nonce : Bytes 24) : codec.read (codec.encode (lockWith account password salt nonce)) =
      .ok (lockWith account password salt nonce) := by
  have count : (lockWith account password salt nonce).sealedAccount.length < UInt64.size := by
    have short := Account.length_encode_le account
    show (Sealed.mask _ _ _ ++ Sealed.tagOf _ _ _).length < UInt64.size
    rw [List.length_append, Sealed.length_mask, Sealed.length_tagOf]
    exact Nat.lt_of_le_of_lt (Nat.add_le_add_right short 16) (by decide)
  have back := exact_codec.canonical.read_write _ count []
  rwa [List.append_nil] at back

end KeysFile

/-! ### Wallets -/

namespace WalletFiles

open RingWallet.Path (Names)

variable {σ : Type} {path password : String} {disk disk' : Disk σ}

/-- Whether a file exists is looked up on the disk, which stays as it is. -/
theorem run_fileExists (path : String) (disk : Disk σ) :
    (fileExists path).run.run disk = (.ok (disk.files.exists? path), disk) :=
  rfl

/-- The disk is read without being changed. -/
theorem run_get (disk : Disk σ) : (get : StorageM σ (Disk σ)).run.run disk = (.ok disk, disk) := rfl

/-- Reading a file changes nothing, and its errors are wrapped. -/
theorem run_readFile (failure : FileError → StorageError) (path : String) (disk : Disk σ) :
    (readFile path failure).run.run disk =
      ((disk.files.read path).mapError fun e => .storage (failure e), disk) := by
  unfold readFile
  rw [ExceptT.run_bind_ok (run_get disk)]
  rcases disk.files.read path with e | contents
  · rfl
  · rfl

/-- A file is written exactly if the directory takes its contents, and then nothing else changes. -/
theorem run_writeFile_eq_ok {contents : Blob} {failure : FileError → StorageError} :
    (writeFile path contents failure).run.run disk = (.ok (), disk') ↔
      ∃ files, disk.files.write path contents = .ok files ∧ disk' = { disk with files } := by
  unfold writeFile
  rw [ExceptT.run_bind_ok (run_get disk)]
  -- either the write fails on both sides, or it gives the same files
  rcases disk.files.write path contents with e | files
  · constructor
    · intro run
      cases (Prod.mk.inj run).1
    · rintro ⟨files, written, -⟩
      cases written
  · constructor
    · intro run
      exact ⟨files, rfl, (Prod.mk.inj run).2.symm⟩
    · rintro ⟨files', same, rfl⟩
      obtain rfl := Except.ok.inj same
      rfl

variable {S : Suite} {account : Account}

/-- The account in the keys file, if it can be read and the password opens it. -/
def accountIn (S : Suite) (files : Directory) (path password : String) : Option Account :=
  (files.read (keysPath path)).toOption.bind fun contents =>
    (KeysFile.codec.read contents).toOption.bind fun keys => (keys.unlock S password).toOption

/-- A keys file that exists is read and decoded. -/
theorem run_loadKeysFile {path : String} {contents : Blob} {disk : Disk σ}
    (read : disk.files.read (keysPath path) = .ok contents) :
    (loadKeysFile path).run.run disk =
      (((KeysFile.codec.read contents).mapError .blob).map some, disk) := by
  have found := (run_readFile (.readKeys (keysPath path)) (keysPath path) disk).trans
    (by rw [read, Except.mapError_ok])
  unfold loadKeysFile
  rw [ExceptT.run_bind_ok (run_fileExists _ _), if_pos (Directory.exists_of_read read),
    ExceptT.run_bind_ok found]
  rcases KeysFile.codec.read contents with e | keys
  · rfl
  · rfl

/-- Opening the keys leaves the disk as it is, and gives an account exactly if a keys file on it
opens under the password. -/
theorem run_loadKeys (S : Suite) (path password : String) (disk : Disk σ) :
    ∃ r, (loadKeys S path password).run.run disk = (r, disk) ∧
      r.toOption = accountIn S disk.files path password := by
  unfold loadKeys accountIn
  rcases read : disk.files.read (keysPath path) with e | contents
  -- without a file there are no keys, whatever the reason
  · unfold loadKeysFile
    rw [ExceptT.run_bind_cases, ExceptT.run_bind_ok (run_fileExists _ _)]
    by_cases here : disk.files.exists? (keysPath path) = true
    · rw [if_pos here, ExceptT.run_bind_cases, run_readFile, read]
      exact ⟨_, rfl, rfl⟩
    · rw [if_neg here]
      exact ⟨_, rfl, rfl⟩
  · rw [ExceptT.run_bind_cases, run_loadKeysFile read]
    -- the file is decoded, then opened under the password
    rcases decoded : KeysFile.codec.read contents with e | keys
    · exact ⟨_, rfl, by simp [decoded, Except.toOption]⟩
    · rcases unlocked : keys.unlock S password with e | account
      · refine ⟨.error e, ?_, by simp [decoded, unlocked, Except.toOption]⟩
        simp only [Except.mapError_ok, Except.map, unlocked]
        rfl
      · refine ⟨.ok account, ?_, by simp [decoded, unlocked, Except.toOption]⟩
        simp only [Except.mapError_ok, Except.map, unlocked]
        rfl

/-- The keys are opened exactly if a keys file on the disk opens under the password, and the disk
stays as it is. -/
theorem run_loadKeys_eq_ok :
    (loadKeys S path password).run.run disk = (.ok account, disk') ↔
      accountIn S disk.files path password = some account ∧ disk' = disk := by
  obtain ⟨r, run, value⟩ := run_loadKeys S path password disk
  rw [run, Prod.mk.injEq, ← value, Except.toOption_eq_some]
  exact and_congr_right fun _ => eq_comm

/-- The account is in a keys file that was locked for it. -/
theorem accountIn_of_lockWith {salt : Bytes 16} {nonce : Bytes 24} {files : Directory}
    (verified : account.verify S = true) (read : files.read (keysPath path) =
      .ok (KeysFile.codec.encode (KeysFile.lockWith account password salt nonce))) :
    accountIn S files path password = some account := by
  unfold accountIn
  rw [read]
  simp only [Except.toOption, Option.bind_some, KeysFile.read_encode_lockWith,
    KeysFile.unlock_lockWith verified]

/-- Storing writes the note, and then the state. -/
theorem exists_of_run_store {env : Environment σ} {w : Wallet}
    (run : (store env path w).run.run disk = (.ok (), disk')) :
    ∃ note files, disk.files.write (notePath path) note = .ok files ∧
      files.write path w.snapshot.encode = .ok disk'.files := by
  obtain ⟨now, asked, env_step, run⟩ := ExceptT.run_bind_eq_ok.mp run
  obtain ⟨⟨⟩, noted, first, second⟩ := ExceptT.run_bind_eq_ok.mp run
  have files : asked.files = disk.files := by
    obtain ⟨-, rfl⟩ := Prod.mk.inj env_step
    rfl
  obtain ⟨files₁, written₁, rfl⟩ := run_writeFile_eq_ok.mp first
  obtain ⟨files₂, written₂, rfl⟩ := run_writeFile_eq_ok.mp second
  exact ⟨_, files₁, files ▸ written₁, written₂⟩

/-- Storing goes through if both can be written. -/
theorem run_store (env : Environment σ) (path : String) (w : Wallet) (disk : Disk σ)
    (writes : ∀ note, ∃ files, disk.files.write (notePath path) note = .ok files ∧
      ∃ files', files.write path w.snapshot.encode = .ok files') :
    ∃ disk', (store env path w).run.run disk = (.ok (), disk') := by
  let asked : Disk σ := { disk with env := (env.now.run disk.env).2 }
  obtain ⟨files, noted, files', written⟩ :=
    writes (note w.height (env.now.run disk.env).1).pretty.toUTF8.toList
  refine ⟨{ asked with files := files' }, ExceptT.run_bind_eq_ok.mpr ⟨_, asked, rfl, ?_⟩⟩
  exact ExceptT.run_bind_eq_ok.mpr ⟨(), { asked with files },
    run_writeFile_eq_ok.mpr ⟨files, noted, rfl⟩, run_writeFile_eq_ok.mpr ⟨files', written, rfl⟩⟩

/-- The files next to the state keep their names, so the keys file stays. -/
theorem accountIn_of_store {env : Environment σ} {w : Wallet}
    (run : (store env path w).run.run disk = (.ok (), disk'))
    (own : accountIn S disk.files path password = some account) :
    accountIn S disk'.files path password = some account := by
  obtain ⟨note, files, noted, written⟩ := exists_of_run_store run
  obtain ⟨state, steps, name, -, parsed, file, open_end, -⟩ := Directory.exists_of_write written
  -- the three files of a wallet lie in one directory, under different names
  have named (ending : String) (plain : '/' ∉ ending.toList) (long : 2 < ending.length)
      {p : Path} (parsed' : Path.parse (path ++ ending) = .ok p) :
      Names (path ++ ending) steps (name ++ ending) :=
    Path.names_append parsed file open_end plain long parsed'
  have different : name ++ ".meta.json" ≠ name ++ ".keys" := by
    rw [Ne, String.append_right_inj]
    decide
  have longer : name ≠ name ++ ".keys" := by
    intro same
    have length := congrArg String.length same
    have ending : ".keys".length = 5 := by decide
    rw [String.length_append] at length
    omega
  -- the keys were read before, and neither file that is written is theirs
  obtain ⟨contents, read, rest⟩ := Option.bind_eq_some_iff.mp own
  rw [Except.toOption_eq_some] at read
  obtain ⟨place, located, -⟩ := Except.bind_eq_ok.mp read
  obtain ⟨keys_path, parsed_keys, -⟩ := Except.bind_eq_ok.mp located
  obtain ⟨note_path, -, -, -, parsed_note, -⟩ := Directory.exists_of_write noted
  have keys := named ".keys" (by decide) (by decide) parsed_keys
  have kept := Directory.read_of_write_of_names
    (named ".meta.json" (by decide) (by decide) parsed_note) keys different noted read
  -- the note is written before the state
  have kept' : disk'.files.read (keysPath path) = .ok contents :=
    Directory.read_of_write_of_names ⟨state, parsed, file⟩ keys longer written kept
  unfold accountIn
  rw [kept']
  exact rest

/-- A stored state is found if it can be read. -/
theorem run_loadState {contents : Blob} {version : Nat} {state : SavedState}
    (read : disk.files.read path = .ok contents)
    (decoded : SavedState.decode contents = .ok (version, state)) :
    ∃ height, (loadState path).run.run disk = (.ok (some ⟨version, state, height⟩), disk) := by
  have found : (readFile path .readState).run.run disk = (.ok contents, disk) := by
    rw [run_readFile, read, Except.mapError_ok]
  have asked : (get : StorageM σ (Disk σ)).run.run disk = (.ok disk, disk) := rfl
  refine ⟨((disk.files.read (notePath path)).toOption.bind noteHeight?).getD 0, ?_⟩
  unfold loadState
  rw [ExceptT.run_bind_ok (run_fileExists path disk), if_pos (Directory.exists_of_read read),
    ExceptT.run_bind_ok asked, ExceptT.run_bind_ok found, decoded]
  rfl

/-- A wallet that was stored is opened as the wallet that its state is restored to, with the account
that was in the keys file. -/
theorem run_load_of_store {env : Environment σ} {config : Config} {w w' : Wallet}
    (own : (loadKeys S path password).run.run disk = (.ok account, disk))
    (run : (store env path w).run.run disk = (.ok (), disk')) {version : Nat} {state : SavedState}
    (held : SavedState.historyVersion ≤ version)
    (decoded : SavedState.decode w.snapshot.encode = .ok (version, state))
    (restored : Wallet.restore S account config state = .ok w') :
    (load S path password config).run.run disk' = (.ok w', disk') := by
  have opened := run_loadKeys_eq_ok.mpr
    ⟨accountIn_of_store run (run_loadKeys_eq_ok.mp own).1, rfl⟩
  obtain ⟨note, files, -, written⟩ := exists_of_run_store run
  obtain ⟨height, found⟩ := run_loadState (Directory.read_of_write written) decoded
  unfold load
  rw [ExceptT.run_bind_ok opened, ExceptT.run_bind_ok found]
  simp only [if_neg (Nat.not_lt.mpr held), restored]
  rfl

end WalletFiles

end RingWallet
