import RingWallet.Storage.Path

/-!
# Directories

A tree of files and directories. A path is walked name by name, and each place on the way has to be
a directory. A file is written only into a directory that exists, and reading gives back what was
written (`read_of_write`).
-/

set_option autoImplicit false

namespace RingWallet

/-- What stands at a place. -/
inductive Node where
  | file (contents : Blob)
  | folder
deriving DecidableEq

/-- The names that lead from the root to a place, the last one first. -/
abbrev Place := List String

/-- Files and directories by place. -/
structure Directory where
  nodes : Std.ExtTreeMap Place Node

namespace Directory

/-- A tree with one empty directory in its root. -/
def empty (root : String) : Directory :=
  ⟨(((∅ : Std.ExtTreeMap Place Node).insert [] .folder).insert [root] .folder)⟩

def isFolder (d : Directory) (place : Place) : Bool := d.nodes[place]? = some .folder

/-- Where a step leads from a place. -/
def step (d : Directory) (place : Place) (s : PathStep) : Except FileError Place :=
  if d.isFolder place then
    match s with
    | .stay => .ok place
    | .up => .ok place.tail
    | .enter name =>
      if Path.maxNameBytes < name.utf8ByteSize then .error .nameTooLong
      else if name :: place ∈ d.nodes then .ok (name :: place)
      else .error .notFound
  else .error .notDirectory

/-- Where steps lead from a place. -/
def walk (d : Directory) (place : Place) : List PathStep → Except FileError Place
  | [] => .ok place
  | s :: rest => do
    let next ← d.step place s
    d.walk next rest

/-- The place of a path. -/
def locate (d : Directory) (text : String) : Except FileError Place := do
  let path ← Path.parse text
  let place ← d.walk [] path.steps
  if path.endsInSlash then d.step place .stay else return place

def exists? (d : Directory) (text : String) : Bool := (d.locate text).isOk

def read (d : Directory) (text : String) : Except FileError Blob := do
  let place ← d.locate text
  match d.nodes[place]? with
  | some (.file contents) => .ok contents
  | some .folder => .error .isDirectory
  | none => .error .notFound

/-- Where a file would be written: it needs a name of its own, in a directory. -/
def target (d : Directory) (path : Path) : Except FileError Place := do
  let place ← d.walk [] path.steps.dropLast
  let folder ← d.step place .stay
  match path.steps.getLast?, path.endsInSlash with
  | some (.enter name), false =>
    if Path.maxNameBytes < name.utf8ByteSize then .error .nameTooLong
    else if d.isFolder (name :: folder) then .error .isDirectory
    else .ok (name :: folder)
  | _, _ => .error .isDirectory

/-- The tree with a file at a place. -/
def putFile (d : Directory) (place : Place) (contents : Blob) : Directory :=
  ⟨d.nodes.insert place (.file contents)⟩

def write (d : Directory) (text : String) (contents : Blob) : Except FileError Directory := do
  let path ← Path.parse text
  let place ← d.target path
  return d.putFile place contents

/-- The tree without a file. Directories stay. -/
def remove (d : Directory) (text : String) : Directory :=
  match d.locate text with
  | .ok place => if d.isFolder place then d else ⟨d.nodes.erase place⟩
  | .error _ => d

/-- The tree with the missing directories on a walk, up to where it cannot go on. -/
def makeFoldersAlong (d : Directory) (place : Place) : List PathStep → Directory
  | [] => d
  | s :: rest =>
    match s, d.step place s with
    | _, .ok next => d.makeFoldersAlong next rest
    | .enter name, .error .notFound =>
      makeFoldersAlong ⟨d.nodes.insert (name :: place) .folder⟩ (name :: place) rest
    | _, .error _ => d

/-- The tree with a directory and all that it lies in. -/
def makeFolder (d : Directory) (text : String) : Directory :=
  match Path.parse text with
  | .ok path => d.makeFoldersAlong [] path.named
  | .error _ => d

/-- The names in a directory, in order. -/
def names (d : Directory) (folder : Place) : List String :=
  d.nodes.keys.filterMap fun
    | name :: place => if place = folder then some name else none
    | [] => none

/-! ## What a write leaves -/

/-- A file that was written is there. -/
theorem getElem?_putFile (d : Directory) (place : Place) (contents : Blob) :
    (d.putFile place contents).nodes[place]? = some (.file contents) := by
  simp [putFile]

/-- A file does not take the place of a folder. -/
theorem isFolder_putFile {d : Directory} {place q : Place} (contents : Blob)
    (hplace : d.isFolder place = false) (hq : d.isFolder q = true) :
    (d.putFile place contents).isFolder q = true := by
  have hne : place ≠ q := fun h => by simp [h, hq] at hplace
  simpa [isFolder, putFile, Std.ExtTreeMap.getElem?_insert, hne] using hq

/-- A step of a path leads where it led before a file was written. -/
theorem step_putFile {d : Directory} {place q r : Place} {s : PathStep} (contents : Blob)
    (hplace : d.isFolder place = false) (h : d.step q s = .ok r) :
    (d.putFile place contents).step q s = .ok r := by
  unfold step at h ⊢
  split at h
  · rename_i hq
    -- no place that was a directory is touched, so that the same case is taken again
    rw [if_pos (isFolder_putFile contents hplace hq)]
    cases s with
    | stay => exact h
    | up => exact h
    | enter name =>
      dsimp only at h ⊢
      split at h
      · contradiction
      · rename_i hname
        rw [if_neg hname]
        split at h
        -- what exists still exists behind the new file
        · rename_i hmem
          rw [if_pos (by simp [putFile, hmem]), ← h]
        · contradiction
  · contradiction

/-- A path leads where it led before a file was written. -/
theorem walk_putFile {d : Directory} {place q r : Place} {steps : List PathStep} (contents : Blob)
    (hplace : d.isFolder place = false) (h : d.walk q steps = .ok r) :
    (d.putFile place contents).walk q steps = .ok r := by
  induction steps generalizing q with
  | nil => exact h
  | cons s rest ih =>
    unfold walk at h ⊢
    cases hs : d.step q s with
    | error e => rw [hs] at h; contradiction
    | ok next =>
      rw [hs] at h
      rw [step_putFile contents hplace hs]
      exact ih h

/-- The last step of a path is taken from where the others lead. -/
theorem walk_append_singleton {d : Directory} {q r : Place} {steps : List PathStep} (s : PathStep)
    (h : d.walk q steps = .ok r) : d.walk q (steps ++ [s]) = d.step r s := by
  induction steps generalizing q with
  | nil =>
    obtain rfl : q = r := by simpa [walk] using h
    -- nothing is left of the first walk
    cases hs : d.step q s <;> simp [walk, hs, bind, Except.bind]
  | cons t rest ih =>
    rw [List.cons_append, walk]
    unfold walk at h
    cases ht : d.step q t with
    | error e => rw [ht] at h; contradiction
    | ok next =>
      rw [ht] at h
      exact ih h

/-- A target is a name in a directory, and no directory itself. -/
theorem target_eq_ok {d : Directory} {path : Path} {place : Place} (h : d.target path = .ok place) :
    ∃ name folder, place = name :: folder ∧ d.walk [] path.steps.dropLast = .ok folder
      ∧ path.steps = path.steps.dropLast ++ [.enter name] ∧ path.endsInSlash = false
      ∧ name.utf8ByteSize ≤ Path.maxNameBytes ∧ d.isFolder folder = true
      ∧ d.isFolder place = false := by
  unfold target at h
  cases hwalk : d.walk [] path.steps.dropLast with
  | error e => rw [hwalk] at h; contradiction
  | ok folder =>
    rw [hwalk] at h
    cases hfolder : d.isFolder folder with
    | false => simp [step, hfolder, bind, Except.bind] at h
    | true =>
      simp only [step, hfolder, bind, Except.bind, if_true] at h
      split at h
      -- only a name can end the path of a file, and the name is checked before the place
      · rename_i name hlast hslash
        split at h
        · contradiction
        · rename_i hname
          split at h
          · contradiction
          · rename_i hplace
            obtain rfl : name :: folder = place := by simpa using h
            refine ⟨name, folder, rfl, rfl, ?_, hslash, by omega, hfolder, by simpa using hplace⟩
            obtain ⟨parents, hparents⟩ := List.getLast?_eq_some_iff.mp hlast
            rw [hparents, List.dropLast_concat]
      · contradiction

/-- A file that was written is read back. -/
theorem read_of_write {d d' : Directory} {text : String} {contents : Blob}
    (h : d.write text contents = .ok d') : d'.read text = .ok contents := by
  unfold write at h
  cases hpath : Path.parse text with
  | error e => rw [hpath] at h; contradiction
  | ok path =>
    rw [hpath] at h
    cases htarget : d.target path with
    | error e => simp [htarget, bind, Except.bind] at h
    | ok place =>
      obtain rfl : d.putFile place contents = d' := by
        simpa [htarget, bind, Except.bind, pure, Except.pure] using h
      obtain ⟨name, folder, rfl, hwalk, hsteps, hslash, hname, hfolder, hplace⟩ :=
        target_eq_ok htarget
      -- the file stands at its place now
      have hstep : (d.putFile (name :: folder) contents).step folder (.enter name)
          = .ok (name :: folder) := by
        rw [step, if_pos (isFolder_putFile contents hplace hfolder)]
        simp [Nat.not_lt.mpr hname, putFile]
      have hlocate : (d.putFile (name :: folder) contents).locate text = .ok (name :: folder) := by
        rw [locate, hpath]
        simp only [bind, Except.bind, hslash]
        rw [hsteps, walk_append_singleton _ (walk_putFile contents hplace hwalk), hstep]
        rfl
      rw [read, hlocate]
      simp [bind, Except.bind, getElem?_putFile]

end Directory

end RingWallet
