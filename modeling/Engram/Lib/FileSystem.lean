import Engram.Lib.OrderedDict

/-!
# File systems

A file system as a map from paths to contents, with a list of directories. A
path is the list of its components. Writes and renames replace the target;
a rename is atomic.
-/

namespace Engram.Lib

abbrev Path := List String

def Path.text (path : Path) : String :=
  String.join (path.map (fun component => "/" ++ component))

structure FileSystem (γ : Type) where
  dirs : List Path
  files : OrderedDict Path γ

namespace FileSystem

variable {γ : Type} {fs : FileSystem γ} {dir : Path} {name : String}

def empty : FileSystem γ :=
  ⟨[], .empty⟩

def read? (fs : FileSystem γ) (path : Path) : Option γ :=
  fs.files.lookup path

def isFile (fs : FileSystem γ) (path : Path) : Bool :=
  (fs.read? path).isSome

def write (fs : FileSystem γ) (path : Path) (content : γ) : FileSystem γ :=
  { fs with files := fs.files.insert path content }

def unlink (fs : FileSystem γ) (path : Path) : FileSystem γ :=
  { fs with files := fs.files.erase path }

def rename (fs : FileSystem γ) (source target : Path) : FileSystem γ :=
  match fs.read? source with
  | none => fs
  | some content => (fs.unlink source).write target content

instance (dir : Path) (dirs : List Path) : Decidable (dir ∈ dirs) :=
  List.instDecidableMemOfLawfulBEq dir dirs

def mkdir (fs : FileSystem γ) (dir : Path) : FileSystem γ :=
  if dir ∈ fs.dirs then fs else { fs with dirs := fs.dirs ++ [dir] }

def childName (dir path : Path) : Option String :=
  if path.dropLast = dir then path.getLast? else none

/-- The names in `dir.iterdir()` that are directories; their order is unspecified. -/
def subdirs (fs : FileSystem γ) (dir : Path) : List String :=
  fs.dirs.filterMap (childName dir)

def fileNames (fs : FileSystem γ) (dir : Path) : List String :=
  fs.files.keys.filterMap (childName dir)

theorem read?_write (fs : FileSystem γ) (path other : Path) (content : γ) :
    (fs.write path content).read? other = if other = path then some content else fs.read? other :=
  OrderedDict.lookup_insert ..

theorem read?_unlink (fs : FileSystem γ) (path other : Path) :
    (fs.unlink path).read? other = if other = path then none else fs.read? other :=
  OrderedDict.lookup_erase ..

@[simp] theorem read?_mkdir (fs : FileSystem γ) (dir path : Path) :
    (fs.mkdir dir).read? path = fs.read? path := by
  unfold mkdir
  split
  · rfl
  · rfl

/-- A write to a temporary path followed by the rename is a write to the target
    that also removes the temporary file. -/
theorem read?_rename_write (fs : FileSystem γ) {temporary target other : Path} (content : γ) :
    ((fs.write temporary content).rename temporary target).read? other =
      if other = target then some content
      else if other = temporary then none
      else fs.read? other := by
  have written : (fs.write temporary content).read? temporary = some content := by
    rw [read?_write, if_pos rfl]
  unfold rename
  rw [written]
  simp only [read?_write, read?_unlink]
  by_cases isTarget : other = target
  · simp [isTarget]
  · by_cases isTemporary : other = temporary
    · simp [isTemporary]
    · simp [isTemporary]

theorem isFile_iff_mem {path : Path} :
    fs.isFile path = true ↔ path ∈ fs.files := by
  rw [isFile, Option.isSome_iff_exists, OrderedDict.mem_iff_lookup]
  rfl

/-! ### Directories and their entries -/

theorem childName_eq_some {path : Path} :
    childName dir path = some name ↔ path = dir ++ [name] := by
  unfold childName
  constructor
  · intro found
    split at found
    · next parent =>
      rw [← parent]
      exact (List.dropLast_append_getLast? name found).symm
    · cases found
  · intro child
    simp [child]

theorem mem_subdirs :
    name ∈ fs.subdirs dir ↔ dir ++ [name] ∈ fs.dirs := by
  simp [subdirs, childName_eq_some]

theorem mem_fileNames :
    name ∈ fs.fileNames dir ↔ dir ++ [name] ∈ fs.files := by
  simp only [fileNames, List.mem_filterMap, childName_eq_some, exists_eq_right]
  rfl

private theorem childName_injective (dir : Path) (path path' : Path) (name : String)
    (first : name ∈ childName dir path) (second : name ∈ childName dir path') : path = path' := by
  rw [childName_eq_some.mp first, childName_eq_some.mp second]

theorem nodup_subdirs (nodup : fs.dirs.Nodup) (dir : Path) :
    (fs.subdirs dir).Nodup :=
  nodup.filterMap (childName_injective dir)

theorem nodup_fileNames (fs : FileSystem γ) (dir : Path) : (fs.fileNames dir).Nodup :=
  fs.files.keysNodup.filterMap (childName_injective dir)

theorem mem_dirs_mkdir {other : Path} :
    other ∈ (fs.mkdir dir).dirs ↔ other = dir ∨ other ∈ fs.dirs := by
  unfold mkdir
  split
  · next present =>
    constructor
    · exact .inr
    · rintro (rfl | old)
      · exact present
      · exact old
  · simp [or_comm]

theorem nodup_dirs_mkdir (nodup : fs.dirs.Nodup) (dir : Path) :
    (fs.mkdir dir).dirs.Nodup := by
  unfold mkdir
  split
  · exact nodup
  · next absent => simpa [List.nodup_append] using
      ⟨nodup, fun other old same => absent (same ▸ old)⟩

@[simp] theorem files_mkdir (fs : FileSystem γ) (dir : Path) : (fs.mkdir dir).files = fs.files := by
  unfold mkdir
  split
  · rfl
  · rfl

@[simp] theorem dirs_write (fs : FileSystem γ) (path : Path) (content : γ) :
    (fs.write path content).dirs = fs.dirs :=
  rfl

@[simp] theorem dirs_unlink (fs : FileSystem γ) (path : Path) :
    (fs.unlink path).dirs = fs.dirs :=
  rfl

@[simp] theorem dirs_rename (fs : FileSystem γ) (source target : Path) :
    (fs.rename source target).dirs = fs.dirs := by
  unfold rename
  split
  · rfl
  · rfl

end FileSystem

end Engram.Lib
