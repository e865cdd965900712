/-
  Directories of files, and the paths that lead to them.

  A file has a place: the names on the way to it from the root.  A path is followed name by
  name, from the root or from the directory that is worked in.  An empty part and a single dot
  stay where they are, two dots lead to the directory above, and any other part is a name.

  A file is made in two steps, and either can fail.  It is opened, which empties it, and then
  its contents are written, as far as there is room for them.  `Access` says which of the two
  will succeed; a file that is made new has the access of its directory.

  * `follow` says where a path leads, `read` and `create` act on the file that is there, and
    `write` on a file that was created; `node?` and `put` take a place;
  * a slash after a name asks for a directory: a file behind it cannot be read, and none can be
    made;
  * `node?_put`, `put_put`: a place that was put holds what was put there last, and every other
    place is as before; `follow_of_isName`: a name is a path to that name.

  There are no links, so a file has one place, and no devices whose bytes do not stay with them.
  What one file takes up is not lost to another one.
-/
import WordMachine.Fault

namespace WordMachine

/-! ## Files and directories -/

/-- Where a file or a directory is: its name, and the names of the directories above it, up to
    the root. -/
abbrev Place := List String

/-- What may be written to a file. -/
inductive Access where
  /-- It cannot be opened to be written to. -/
  | closed
  /-- There is room for that many bytes. -/
  | upTo (bytes : Nat)
  /-- There is room for all. -/
  | unlimited
deriving DecidableEq, Repr

/-- The bytes that there is room for. -/
def Access.taken (contents : List UInt8) : Access → List UInt8
  | closed => []
  | upTo bytes => contents.take bytes
  | unlimited => contents

/-- What is at a place. -/
inductive Node where
  /-- A directory.  A file that is made in it has that access. -/
  | directory (access : Access)
  | file (access : Access) (contents : List UInt8)
deriving DecidableEq, Repr

/-- Directories and files, and the directory that is worked in. -/
structure Files where
  nodes : List (Place × Node)
  cwd : Place
deriving Inhabited

namespace Files

/-- What is at a place, if there is anything. -/
def node? (files : Files) (place : Place) : Option Node := files.nodes.lookup place

/-- The files after something was put at a place. -/
def put (files : Files) (place : Place) (node : Node) : Files :=
  { files with nodes := (place, node) :: files.nodes.filter (·.1 ≠ place) }

/-- A directory of such files to work in, beside the device that has no room.  Nothing can be
    made in the directories above it. -/
def workspace (entries : List (String × List UInt8)) : Files where
  nodes := entries.map (fun (name, contents) => ([name, "work"], .file .unlimited contents)) ++
    [(["work"], .directory .unlimited), (["full", "dev"], .file (.upTo 0) []),
      (["dev"], .directory .closed), ([], .directory .closed)]
  cwd := ["work"]

/-! ## Paths -/

/-- The number of bytes that a path may have. -/
def longestPath : Nat := 4095

/-- The number of bytes that a name may have. -/
def longestName : Nat := 255

/-- The parts of a path between its slashes. -/
def parts (path : List Char) : List (List Char) :=
  path.foldr (fun c parts =>
    if c = '/' then [] :: parts
    else
      match parts with
      | [] => [[c]]
      | part :: parts => (c :: part) :: parts) [[]]

/-- Where a path leads. -/
inductive Target where
  /-- To a directory that it does not name. -/
  | directory
  /-- To a name in a directory, whether or not there is anything of that name.  The flag says
      that a slash follows the name. -/
  | entry (place : Place) (name : String) (slash : Bool)
deriving DecidableEq, Repr

/-- What has that name in a directory. -/
def lookup (files : Files) (place : Place) (name : String) : Except DeviceError Node :=
  if longestName < name.utf8ByteSize then .error .nameTooLong
  else
    match files.node? (name :: place) with
    | some node => .ok node
    | none => .error .notFound

/-- Follows the parts of a path from a place on.  Only a directory can be passed. -/
def walk (files : Files) : Place → List (List Char) → Except DeviceError Target
  | _, [] => .ok .directory
  | place, part :: rest =>
    if part = [] ∨ part = ['.'] then files.walk place rest
    else if part = ['.', '.'] then files.walk place.tail rest
    else if ∀ other ∈ rest, other = [] then
      .ok (.entry place (String.ofList part) (rest ≠ []))
    else
      match files.lookup place (String.ofList part) with
      | .ok (.directory _) => files.walk (String.ofList part :: place) rest
      | .ok (.file _ _) => .error .notDirectory
      | .error error => .error error

/-- Follows a path.  One that starts with a slash starts at the root. -/
def follow (files : Files) (path : String) : Except DeviceError Target :=
  if path = "" then .error .notFound
  else if longestPath < path.utf8ByteSize then .error .nameTooLong
  else files.walk (if path.toList.head? = some '/' then [] else files.cwd) (parts path.toList)

/-! ## Reading and writing -/

/-- The contents of the file at a path. -/
def read (files : Files) (path : String) : Except DeviceError (List UInt8) := do
  match ← files.follow path with
  | .directory => .error .isDirectory
  | .entry place name slash =>
    match ← files.lookup place name with
    | .directory _ => .error .isDirectory
    | .file _ contents => if slash then .error .notDirectory else .ok contents

/-- What may be written to the file of that name in a directory, whether or not there is one. -/
def access (files : Files) (place : Place) (name : String) : Except DeviceError Access :=
  match files.node? (name :: place) with
  | some (.file access _) => .ok access
  | some (.directory _) => .error .isDirectory
  | none =>
    match files.node? place with
    | some (.directory access) => .ok access
    | _ => .error .notFound

/-- The place of the file that is opened at a path to be written to, and what may be written. -/
def opened (files : Files) (path : String) : Except DeviceError (Place × Access) := do
  match ← files.follow path with
  | .directory | .entry _ _ true => .error .isDirectory
  | .entry place name false =>
    if longestName < name.utf8ByteSize then .error .nameTooLong
    else
      let access ← files.access place name
      if access = .closed then .error .notPermitted else .ok (name :: place, access)

/-- Opens the file at a path, new or emptied, to be written to. -/
def create (files : Files) (path : String) : Except DeviceError (Place × Files) := do
  let (place, access) ← files.opened path
  .ok (place, files.put place (.file access []))

/-- Writes the contents of a file that was created, as far as there is room for them. -/
def write (files : Files) (place : Place) (contents : List UInt8) :
    Except DeviceError Unit × Files :=
  match files.node? place with
  | some (.file access _) =>
    let taken := access.taken contents
    (if taken = contents then .ok () else .error .noSpace, files.put place (.file access taken))
  | _ => (.error .notFound, files)

/-! ## What was put -/

theorem node?_put (files : Files) (place other : Place) (node : Node) :
    (files.put place node).node? other =
      if other = place then some node else files.node? other := by
  obtain ⟨nodes, cwd⟩ := files
  simp only [put, node?, List.lookup_cons]
  by_cases h : other = place
  · simp [h]
  · have hb : (other == place) = false := by simpa using h
    simp only [hb, h, if_false]
    induction nodes with
    | nil => rfl
    | cons entry nodes ih =>
      obtain ⟨key, value⟩ := entry
      by_cases hk : key = place
      · have : (other == key) = false := by simpa [hk] using h
        rw [List.filter_cons_of_neg (by simpa using hk), ih, List.lookup_cons, this]
      · rw [List.filter_cons_of_pos (by simpa using hk), List.lookup_cons, List.lookup_cons, ih]

theorem put_put (files : Files) (place : Place) (node node' : Node) :
    (files.put place node).put place node' = files.put place node' := by
  simp only [put, List.filter_cons, List.filter_filter, Bool.and_self, ne_eq, not_true_eq_false,
    decide_false, Bool.false_eq_true, if_false]

/-! ## Names as paths -/

/-- A name that a file can have. -/
def IsName (name : String) : Prop :=
  name ≠ "" ∧ name ≠ "." ∧ name ≠ ".." ∧ '/' ∉ name.toList ∧ name.utf8ByteSize ≤ longestName

instance (name : String) : Decidable (IsName name) := inferInstanceAs (Decidable (_ ∧ _))

/-- A path without slashes has one part. -/
theorem parts_of_not_mem {path : List Char} (h : '/' ∉ path) : parts path = [path] := by
  induction path with
  | nil => rfl
  | cons c path ih =>
    rw [List.mem_cons, not_or] at h
    have := ih h.2
    simp only [parts, List.foldr_cons] at this ⊢
    rw [this, if_neg (Ne.symm h.1)]

/-- A name is a path to that name in the directory that is worked in. -/
theorem follow_of_isName (files : Files) {name : String} (h : IsName name) :
    files.follow name = .ok (.entry files.cwd name false) := by
  obtain ⟨hnil, hdot, hdots, hslash, hsize⟩ := h
  have hhead : name.toList.head? ≠ some '/' := fun hc => hslash (List.mem_of_head? hc)
  have ne_of (l : List Char) (hl : name ≠ String.ofList l) : name.toList ≠ l :=
    fun hc => hl (by rw [← hc, String.ofList_toList])
  have h₁ := ne_of [] hnil
  have h₂ := ne_of ['.'] hdot
  have h₃ := ne_of ['.', '.'] hdots
  have hpath : ¬ longestPath < name.utf8ByteSize := by
    simp only [longestPath, longestName] at hsize ⊢; omega
  simp [follow, hnil, hpath, hhead, parts_of_not_mem hslash, walk, h₁, h₂, h₃]

end Files

end WordMachine
