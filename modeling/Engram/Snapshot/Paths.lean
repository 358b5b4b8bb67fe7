import Mathlib
import Engram.Lib.FileSystem

/-!
# Snapshot paths

How `MambaSnapshotManager` turns a conversation id and a turn or branch into the
paths of the metadata and state files, and that different snapshots, and the
temporary files written on the way to them, never share a path.
-/

namespace Engram.Snapshot

open Lib List

/-- The exceptions of the snapshot manager, with their texts. -/
inductive StoreError where
  | valueError (message : String)
  | fileNotFoundError (message : String)
  | ioError (message : String)
  | snapshotValidationError (message : String)
deriving DecidableEq, Repr

/-! ### Sanitizing -/

/-- The character class `[a-zA-Z0-9_.-]`. -/
def allowedChar (c : Char) : Bool :=
  c.isAlphanum || c = '_' || c = '.' || c = '-'

def matchesComponent (component : String) : Bool :=
  let chars := component.toList
  let body := if chars.getLast? = some '\n' then chars.dropLast else chars
  body ≠ [] && body.all allowedChar

/-- `".." in component`. -/
def hasDotDot (component : String) : Bool :=
  ['.', '.'] <:+: component.toList

/-- `component.startswith(("/", "\\"))`. -/
def startsWithSlash (component : String) : Bool :=
  component.toList.head? = some '/' || component.toList.head? = some '\\'

def sanitizePathComponent (component name : String) : Except StoreError String :=
  if component = "" then
    .error (.valueError (name ++ " cannot be empty"))
  else if matchesComponent component = false then
    .error (.valueError (name ++ " contains invalid characters. " ++
      "Only alphanumeric, underscore, hyphen, and period are allowed. " ++
      "Got: " ++ component))
  else if hasDotDot component || startsWithSlash component then
    .error (.valueError (name ++ " contains path traversal sequences. Got: " ++ component))
  else if component.toList.length > 255 then
    .error (.valueError (name ++ " exceeds maximum length of 255 characters"))
  else .ok component

/-- What the sanitizer lets through. -/
def Sanitized (component : String) : Prop :=
  component ≠ "" ∧ matchesComponent component = true ∧
    (hasDotDot component || startsWithSlash component) = false ∧
    component.toList.length ≤ 255
deriving Decidable

theorem sanitizePathComponent_ok {component : String} (sanitized : Sanitized component)
    (name : String) : sanitizePathComponent component name = .ok component := by
  obtain ⟨nonempty, matched, inside, short⟩ := sanitized
  have notLong : ¬ component.toList.length > 255 := by
    omega
  simp [sanitizePathComponent, nonempty, matched, inside, notLong]

theorem sanitized_of_ok {component name safe : String}
    (passed : sanitizePathComponent component name = .ok safe) :
    safe = component ∧ Sanitized component := by
  unfold sanitizePathComponent at passed
  split at passed
  · cases passed
  split at passed
  · cases passed
  split at passed
  · cases passed
  split at passed
  · cases passed
  next nonempty matched inside short =>
    cases passed
    exact ⟨rfl, nonempty, by simpa using matched, by simpa using inside, by omega⟩

/-- A final newline passes. -/
example : sanitizePathComponent "a.b-c_1\n" "branch_name" = .ok "a.b-c_1\n" := by
  decide

/-! ### Directories and files -/

/-- `str(path.resolve()).startswith(str(base))`; the store contains no symbolic links. -/
def staysUnder (path base : Path) : Bool :=
  base.text.toList.isPrefixOf path.text.toList

theorem staysUnder_append (base : Path) (rest : Path) : staysUnder (base ++ rest) base = true := by
  simp [staysUnder, Path.text]

section Paths

variable {γ : Type} (baseDir : Path)

def conversationDir (conversationId : String) : Path :=
  baseDir ++ ["conversation_" ++ conversationId]

def getConversationDir (conversationId : String) (fs : FileSystem γ) :
    Except StoreError Path × FileSystem γ :=
  match sanitizePathComponent conversationId "conversation_id" with
  | .error error => (.error error, fs)
  | .ok safeId =>
    let convDir := conversationDir baseDir safeId
    if staysUnder convDir baseDir = false then
      (.error (.valueError ("conversation_id '" ++ conversationId ++
        "' results in path outside base directory")), fs)
    else (.ok convDir, fs.mkdir convDir)

def getSnapshotPaths (conversationId : String) (turnNumber : Option Int)
    (branchName : Option String) (fs : FileSystem γ) :
    Except StoreError (Path × Path) × FileSystem γ :=
  match getConversationDir baseDir conversationId fs with
  | (.error error, fs) => (.error error, fs)
  | (.ok convDir, fs) =>
    match branchName.filter (fun name => name ≠ ""), turnNumber with
    | some branch, _ =>
      match sanitizePathComponent branch "branch_name" with
      | .error error => (.error error, fs)
      | .ok safeBranch =>
        let branchDir := convDir ++ ["branches"]
        let metadataPath := branchDir ++ [safeBranch ++ "_metadata.json"]
        let statePath := branchDir ++ [safeBranch ++ "_state.safetensors"]
        if staysUnder metadataPath branchDir = false then
          (.error (.valueError ("branch_name '" ++ branch ++ "' results in invalid path")),
            fs.mkdir branchDir)
        else (.ok (metadataPath, statePath), fs.mkdir branchDir)
    | none, some turn =>
      if turn < 0 then
        (.error (.valueError ("turn_number must be non-negative, got " ++ toString turn)), fs)
      else
        (.ok (convDir ++ ["turn_" ++ toString turn ++ "_metadata.json"],
          convDir ++ ["turn_" ++ toString turn ++ "_state.safetensors"]), fs)
    | none, none =>
      (.error (.valueError "Must specify either turn_number or branch_name"), fs)

end Paths

/-- `Path.with_suffix` on the last component: the text from the last dot on is
    replaced, unless the dot is the first or the last character. -/
def withSuffix (name suffix : String) : String :=
  let reversed := name.toList.reverse
  let extension := reversed.takeWhile (fun c => c ≠ '.')
  let stem := (reversed.dropWhile (fun c => c ≠ '.')).tail.reverse
  if extension ≠ [] ∧ stem ≠ [] then String.ofList stem ++ suffix else name ++ suffix

def pathWithSuffix (path : Path) (suffix : String) : Path :=
  match path.getLast? with
  | none => path
  | some name => path.dropLast ++ [withSuffix name suffix]

/-- `path.stem` and `path.suffix` without its dot, of a name that has a suffix. -/
def splitExtension (name : String) : Option (String × String) :=
  let reversed := name.toList.reverse
  let extension := (reversed.takeWhile (fun c => c ≠ '.')).reverse
  let stem := (reversed.dropWhile (fun c => c ≠ '.')).tail.reverse
  if extension ≠ [] ∧ stem ≠ [] then some (String.ofList stem, String.ofList extension) else none

theorem splitExtension_append (stem extension : String) (nonempty : stem ≠ "")
    (proper : extension ≠ "") (dotless : '.' ∉ extension.toList) :
    splitExtension (stem ++ "." ++ extension) = some (stem, extension) := by
  have reversed : (stem ++ "." ++ extension).toList.reverse =
      extension.toList.reverse ++ '.' :: stem.toList.reverse := by
    simp
  have noDot : ∀ c ∈ extension.toList.reverse, decide (c ≠ '.') = true := by
    intro c member
    simp only [mem_reverse] at member
    simpa using fun same : c = '.' => dotless (same ▸ member)
  have taken : (extension.toList.reverse ++ '.' :: stem.toList.reverse).takeWhile
      (fun c => c ≠ '.') = extension.toList.reverse := by
    rw [takeWhile_append_of_pos noDot]
    simp
  have dropped : (extension.toList.reverse ++ '.' :: stem.toList.reverse).dropWhile
      (fun c => c ≠ '.') = '.' :: stem.toList.reverse := by
    rw [dropWhile_append_of_pos noDot]
    simp
  unfold splitExtension
  simp only [reversed, taken, dropped, tail_cons, reverse_reverse]
  have guard : extension.toList ≠ [] ∧ stem.toList ≠ [] := by
    simp [nonempty, proper]
  rw [if_pos guard, String.ofList_toList, String.ofList_toList]

theorem withSuffix_eq (name suffix : String) :
    withSuffix name suffix = (splitExtension name).elim name Prod.fst ++ suffix := by
  simp only [withSuffix, splitExtension, reverse_eq_nil_iff, ne_eq]
  split
  · rfl
  · rfl

theorem withSuffix_append (stem extension suffix : String) (nonempty : stem ≠ "")
    (proper : extension ≠ "") (dotless : '.' ∉ extension.toList) :
    withSuffix (stem ++ "." ++ extension) suffix = stem ++ suffix := by
  rw [withSuffix_eq, splitExtension_append stem extension nonempty proper dotless]
  rfl

/-! ### One path for each snapshot and file -/

/-- What a snapshot is stored under within its conversation. -/
inductive Selector where
  | turn (number : Int)
  | branch (name : String)
deriving DecidableEq, Repr

structure SnapshotKey where
  conversationId : String
  selector : Selector
deriving DecidableEq, Repr

/-- A branch name that is given and not empty takes precedence over a turn. -/
def selectorOf (turnNumber : Option Int) (branchName : Option String) : Option Selector :=
  match branchName.filter (fun name => name ≠ "") with
  | some branch => some (.branch branch)
  | none => turnNumber.map .turn

theorem selectorOf_branch {branch : String} (given : branch ≠ "") (turnNumber : Option Int) :
    selectorOf turnNumber (some branch) = some (.branch branch) := by
  simp [selectorOf, Option.filter, given]

variable {turnNumber : Option Int} {branchName : Option String} {cid : String} {γ : Type}

theorem branchName_of_selectorOf {branch : String}
    (selected : selectorOf turnNumber branchName = some (.branch branch)) :
    branchName = some branch := by
  unfold selectorOf at selected
  split at selected
  · next given =>
    cases selected
    exact (Option.filter_eq_some_iff.mp given).1
  · obtain ⟨turn, -, impossible⟩ := Option.map_eq_some_iff.mp selected
    cases impossible

theorem turnNumber_of_selectorOf {turn : Int}
    (selected : selectorOf turnNumber branchName = some (.turn turn)) : turnNumber = some turn := by
  unfold selectorOf at selected
  split at selected
  · cases selected
  · obtain ⟨number, given, same⟩ := Option.map_eq_some_iff.mp selected
    cases same
    exact given

def Selector.Accepted : Selector → Prop
  | .turn number => 0 ≤ number
  | .branch name => Sanitized name

instance (selector : Selector) : Decidable selector.Accepted :=
  match selector with
  | .turn number => inferInstanceAs (Decidable (0 ≤ number))
  | .branch name => inferInstanceAs (Decidable (Sanitized name))

/-- Ids that pass the sanitizer and a turn that is not negative. -/
def SnapshotKey.Accepted (key : SnapshotKey) : Prop :=
  Sanitized key.conversationId ∧ key.selector.Accepted
deriving Decidable

/-- The files of a snapshot, the temporary ones included. -/
inductive FileKind where
  | metadata
  | state
  | metadataTemp
  | stateTemp
deriving DecidableEq

def FileKind.ending : FileKind → String
  | .metadata => "_metadata.json"
  | .state => "_state.safetensors"
  | .metadataTemp => "_metadata.json.tmp"
  | .stateTemp => "_state.safetensors.tmp"

def SnapshotKey.dir (baseDir : Path) (key : SnapshotKey) : Path :=
  match key.selector with
  | .turn _ => conversationDir baseDir key.conversationId
  | .branch _ => conversationDir baseDir key.conversationId ++ ["branches"]

def Selector.stem : Selector → String
  | .turn number => "turn_" ++ toString number
  | .branch name => name

def SnapshotKey.file (baseDir : Path) (key : SnapshotKey) (kind : FileKind) : Path :=
  key.dir baseDir ++ [key.selector.stem ++ kind.ending]

private theorem ending_injective {stem stem' : String} {kind kind' : FileKind}
    (same : stem ++ kind.ending = stem' ++ kind'.ending) : kind = kind' := by
  have tails : kind.ending.toList.reverse.take 5 = kind'.ending.toList.reverse.take 5 := by
    have lists := congrArg (fun name => name.toList.reverse.take 5) same
    simp only [String.toList_append, reverse_append] at lists
    rw [take_append_of_le_length, take_append_of_le_length] at lists
    · exact lists
    · cases kind' <;> decide
    · cases kind <;> decide
  revert tails
  cases kind <;> cases kind' <;> decide

theorem file_injective {baseDir : Path} {key key' : SnapshotKey} {kind kind' : FileKind}
    (same : key.file baseDir kind = key'.file baseDir kind') : key = key' ∧ kind = kind' := by
  obtain ⟨conversation, selector⟩ := key
  obtain ⟨conversation', selector'⟩ := key'
  cases selector with
  | turn number =>
    cases selector' with
    | turn number' =>
      simp only [SnapshotKey.file, SnapshotKey.dir, conversationDir, append_assoc,
        append_cancel_left_eq, cons_append, cons.injEq, and_true, String.append_right_inj] at same
      obtain ⟨sameConversation, sameName⟩ := same
      have sameKind := ending_injective sameName
      subst sameKind
      have sameStem : "turn_" ++ toString number = "turn_" ++ toString number' :=
        (String.append_left_inj _).mp sameName
      have sameNumber : number = number' :=
        Int.repr_injective ((String.append_right_inj _).mp sameStem)
      exact ⟨by rw [sameConversation, sameNumber], rfl⟩
    | branch name' =>
      -- a turn file lies one level above a branch file
      have lengths := congrArg length same
      simp [SnapshotKey.file, SnapshotKey.dir, conversationDir] at lengths
  | branch name =>
    cases selector' with
    | turn number' =>
      have lengths := congrArg length same
      simp [SnapshotKey.file, SnapshotKey.dir, conversationDir] at lengths
    | branch name' =>
      simp only [SnapshotKey.file, SnapshotKey.dir, conversationDir, append_assoc,
        append_cancel_left_eq, cons_append, cons.injEq,
        and_true, true_and, String.append_right_inj] at same
      obtain ⟨sameConversation, sameName⟩ := same
      have sameKind := ending_injective sameName
      subst sameKind
      have sameBranch : name = name' := (String.append_left_inj _).mp sameName
      exact ⟨by rw [sameConversation, sameBranch], rfl⟩

variable (baseDir : Path)

theorem getConversationDir_ok (sanitized : Sanitized cid) (fs : FileSystem γ) :
    getConversationDir baseDir cid fs =
      (.ok (conversationDir baseDir cid),
        fs.mkdir (conversationDir baseDir cid)) := by
  simp [getConversationDir, sanitizePathComponent_ok sanitized, conversationDir, staysUnder_append]

theorem getConversationDir_cases (cid : String) (fs : FileSystem γ) :
    Sanitized cid ∨
      ∃ error, getConversationDir baseDir cid fs = (.error error, fs) := by
  cases checked : sanitizePathComponent cid "conversation_id" with
  | error error => exact .inr ⟨error, by simp [getConversationDir, checked]⟩
  | ok safe => exact .inl (sanitized_of_ok checked).2

/-- The directories that have to exist for the files of `key`. -/
def SnapshotKey.makeDirs {γ : Type} (baseDir : Path) (key : SnapshotKey) (fs : FileSystem γ) :
    FileSystem γ :=
  (fs.mkdir (conversationDir baseDir key.conversationId)).mkdir (key.dir baseDir)

theorem getSnapshotPaths_eq {selector : Selector}
    (selected : selectorOf turnNumber branchName = some selector)
    (accepted : SnapshotKey.Accepted ⟨cid, selector⟩) (fs : FileSystem γ) :
    getSnapshotPaths baseDir cid turnNumber branchName fs =
      (.ok (SnapshotKey.file baseDir ⟨cid, selector⟩ .metadata,
        SnapshotKey.file baseDir ⟨cid, selector⟩ .state),
       SnapshotKey.makeDirs baseDir ⟨cid, selector⟩ fs) := by
  unfold selectorOf at selected
  unfold getSnapshotPaths
  rw [getConversationDir_ok baseDir accepted.1]
  split at selected
  · next branch given =>
    cases selected
    have sanitized : Sanitized branch := accepted.2
    simp only [given, sanitizePathComponent_ok sanitized, staysUnder_append]
    rfl
  · next noBranch =>
    obtain ⟨turn, rfl, rfl⟩ := Option.map_eq_some_iff.mp selected
    have nonnegative : ¬ turn < 0 := by
      have bound : 0 ≤ turn := accepted.2
      omega
    have again : (fs.mkdir (conversationDir baseDir cid)).mkdir
        (conversationDir baseDir cid) =
        fs.mkdir (conversationDir baseDir cid) :=
      if_pos (FileSystem.mem_dirs_mkdir.mpr (.inl rfl))
    simp only [noBranch, if_neg nonnegative]
    simp [SnapshotKey.file, SnapshotKey.dir, Selector.stem, FileKind.ending,
      SnapshotKey.makeDirs, again]

theorem getSnapshotPaths_ok {selector : Selector}
    (selected : selectorOf turnNumber branchName = some selector)
    (accepted : SnapshotKey.Accepted ⟨cid, selector⟩) (fs : FileSystem γ) :
    ∃ fs', getSnapshotPaths baseDir cid turnNumber branchName fs =
        (.ok (SnapshotKey.file baseDir ⟨cid, selector⟩ .metadata,
          SnapshotKey.file baseDir ⟨cid, selector⟩ .state), fs') ∧
      ∀ path, fs'.read? path = fs.read? path :=
  ⟨_, getSnapshotPaths_eq baseDir selected accepted fs, by simp [SnapshotKey.makeDirs]⟩

theorem getSnapshotPaths_cases (cid : String) (turnNumber : Option Int) (branchName : Option String)
    (fs : FileSystem γ) :
    (∃ selector, selectorOf turnNumber branchName = some selector ∧
      SnapshotKey.Accepted ⟨cid, selector⟩) ∨
    ∃ error, getSnapshotPaths baseDir cid turnNumber branchName fs = (.error error, fs) ∨
      Sanitized cid ∧
        getSnapshotPaths baseDir cid turnNumber branchName fs =
          (.error error, fs.mkdir (conversationDir baseDir cid)) := by
  rcases getConversationDir_cases baseDir cid fs with sanitized | ⟨error, refused⟩
  · have convDir := getConversationDir_ok baseDir sanitized fs
    unfold selectorOf getSnapshotPaths
    rw [convDir]
    cases branchName.filter (fun name => name ≠ "") with
    | some branch =>
      cases checked : sanitizePathComponent branch "branch_name" with
      | error error => exact .inr ⟨error, .inr ⟨sanitized, by simp only [checked]⟩⟩
      | ok safe => exact .inl ⟨.branch branch, rfl, sanitized, (sanitized_of_ok checked).2⟩
    | none =>
      cases turnNumber with
      | none => exact .inr ⟨_, .inr ⟨sanitized, rfl⟩⟩
      | some turn =>
        by_cases negative : turn < 0
        · exact .inr ⟨_, .inr ⟨sanitized, if_pos negative⟩⟩
        · have bound : 0 ≤ turn := by
            omega
          exact .inl ⟨.turn turn, rfl, sanitized, bound⟩
  · refine .inr ⟨error, .inl ?_⟩
    unfold getSnapshotPaths
    rw [refused]

theorem pathWithSuffix_state (key : SnapshotKey) :
    pathWithSuffix (key.file baseDir .state) ".safetensors.tmp" = key.file baseDir .stateTemp := by
  have name : key.selector.stem ++ FileKind.ending .state =
      (key.selector.stem ++ "_state") ++ "." ++ "safetensors" := by
    simp [FileKind.ending, String.append_assoc]
  have renamed := withSuffix_append (key.selector.stem ++ "_state") "safetensors"
    ".safetensors.tmp" (by simp) (by decide) (by decide)
  simp only [pathWithSuffix, SnapshotKey.file, getLast?_append, getLast?_singleton,
    Option.some_or, name, renamed]
  simp [FileKind.ending, String.append_assoc]

theorem pathWithSuffix_metadata (key : SnapshotKey) :
    pathWithSuffix (key.file baseDir .metadata) ".json.tmp" =
      key.file baseDir .metadataTemp := by
  have name : key.selector.stem ++ FileKind.ending .metadata =
      (key.selector.stem ++ "_metadata") ++ "." ++ "json" := by
    simp [FileKind.ending, String.append_assoc]
  have renamed := withSuffix_append (key.selector.stem ++ "_metadata") "json"
    ".json.tmp" (by simp) (by decide) (by decide)
  simp only [pathWithSuffix, SnapshotKey.file, getLast?_append, getLast?_singleton,
    Option.some_or, name, renamed]
  simp [FileKind.ending, String.append_assoc]

end Engram.Snapshot
