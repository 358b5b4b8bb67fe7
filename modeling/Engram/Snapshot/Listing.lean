import Engram.Snapshot.Store
import Engram.Lib.Occurrences

/-!
# Listings of the store

`list_conversations`, `list_snapshots`, `list_branches` and the other read-only calls
of `MambaSnapshotManager`. The listings recover ids, turns and branch names from
directory and file names by removing the fixed parts of the name as substrings.
-/

namespace Engram.Snapshot

open Lib

/-! ### Names -/

/-- `text.replace(marker, "")`. -/
def removeMarker (marker text : String) : String :=
  String.ofList (removeAll marker.toList text.toList)

/-- `marker in text`. -/
def containsMarker (marker text : String) : Bool :=
  marker.toList <:+: text.toList

/-- `path.suffix` of the last component. -/
def pathSuffix (name : String) : String :=
  (splitExtension name).elim "" (fun parts => "." ++ parts.2)

/-- `path.stem` of the last component. -/
def pathStem (name : String) : String :=
  (splitExtension name).elim name Prod.fst

def parseDigits (digits : List Char) : Option Nat :=
  if digits ≠ [] ∧ digits.all Char.isDigit then some (Nat.ofDigitChars 10 digits 0) else none

/-- `int(text)`. The blanks and underscores it also accepts are in no name that the
    manager writes. -/
def parseInt (text : String) : Option Int :=
  match text.toList with
  | '-' :: digits => (parseDigits digits).map (fun n => -(n : Int))
  | '+' :: digits => (parseDigits digits).map Int.ofNat
  | digits => (parseDigits digits).map Int.ofNat

def sortedNames (names : List String) : List String :=
  names.insertionSort (· ≤ ·)

def sortedTurns (turns : List Int) : List Int :=
  turns.insertionSort (· ≤ ·)

/-! ### Listings -/

def conversationOfName (name : String) : Option String :=
  if "conversation_".toList <+: name.toList then some (removeMarker "conversation_" name) else none

def turnOfName (name : String) : Option Int :=
  if "turn_".toList <+: name.toList ∧ pathSuffix name = ".json" then
    parseInt (removeMarker "_metadata" (removeMarker "turn_" (pathStem name)))
  else none

def branchOfName (name : String) : Option String :=
  if pathSuffix name = ".json" then some (removeMarker "_metadata" (pathStem name)) else none

section Calls

variable {τ : Type} (baseDir : Path)

def listConversations (fs : FileSystem (Content τ)) : List String :=
  sortedNames ((fs.subdirs baseDir).filterMap conversationOfName)

def listSnapshots (conversationId : String) (fs : FileSystem (Content τ)) :
    Except StoreError (List Int) × FileSystem (Content τ) :=
  match getConversationDir baseDir conversationId fs with
  | (.error error, fs) => (.error error, fs)
  | (.ok convDir, fs) => (.ok (sortedTurns ((fs.fileNames convDir).filterMap turnOfName)), fs)

def listBranches (conversationId : String) (fs : FileSystem (Content τ)) :
    Except StoreError (List String) × FileSystem (Content τ) :=
  match getConversationDir baseDir conversationId fs with
  | (.error error, fs) => (.error error, fs)
  | (.ok convDir, fs) =>
    let branchDir := convDir ++ ["branches"]
    if branchDir ∉ fs.dirs then (.ok [], fs)
    else (.ok (sortedNames ((fs.fileNames branchDir).filterMap branchOfName)), fs)

def loadMetadata (conversationId : String) (turnNumber : Option Int) (branchName : Option String)
    (fs : FileSystem (Content τ)) :
    Except StoreError (Option MambaSnapshotMetadata) × FileSystem (Content τ) :=
  match getSnapshotPaths baseDir conversationId turnNumber branchName fs with
  | (.error error, fs) => (.error error, fs)
  | (.ok (metadataPath, _), fs) =>
    match fs.read? metadataPath with
    | some (.metadata metadata) => (.ok (some metadata), fs)
    | _ => (.ok none, fs)

def getLatestSnapshot (conversationId : String) (fs : FileSystem (Content τ)) :
    Except StoreError (Option (Int × MambaSnapshotMetadata)) × FileSystem (Content τ) :=
  match listSnapshots baseDir conversationId fs with
  | (.error error, fs) => (.error error, fs)
  | (.ok turns, fs) =>
    match turns.getLast? with
    | none => (.ok none, fs)
    | some latestTurn =>
      match getSnapshotPaths baseDir conversationId (some latestTurn) none fs with
      | (.error error, fs) => (.error error, fs)
      | (.ok (metadataPath, _), fs) =>
        match fs.read? metadataPath with
        | some (.metadata metadata) => (.ok (some (latestTurn, metadata)), fs)
        | some _ => (.error (.valueError "Expecting value: line 1 column 1 (char 0)"), fs)
        | none => (.error (.fileNotFoundError metadataPath.text), fs)

def getSnapshotSize (fileSize : Content τ → Nat) (conversationId : String)
    (turnNumber : Option Int) (branchName : Option String) (fs : FileSystem (Content τ)) :
    Except StoreError Nat × FileSystem (Content τ) :=
  match getSnapshotPaths baseDir conversationId turnNumber branchName fs with
  | (.error error, fs) => (.error error, fs)
  | (.ok (metadataPath, statePath), fs) =>
    (.ok ((fs.read? metadataPath).elim 0 fileSize + (fs.read? statePath).elim 0 fileSize), fs)

end Calls

/-! ### What the names give back -/

theorem removeMarker_append_left (head : Char) (tail : List Char) (text : String) :
    removeMarker (String.ofList (head :: tail)) (String.ofList (head :: tail) ++ text) =
      removeMarker (String.ofList (head :: tail)) text := by
  simp only [removeMarker, String.toList_append, String.toList_ofList]
  rw [removeAll_append_left]

theorem removeMarker_of_not_contains {marker text : String}
    (absent : containsMarker marker text = false) : removeMarker marker text = text := by
  have notInfix : ¬ marker.toList <:+: text.toList := by
    simpa [containsMarker] using absent
  rw [removeMarker, removeAll_of_not_infix notInfix, String.ofList_toList]

theorem removeMarker_append_right (head : Char) {tail : List Char} (fresh : head ∉ tail)
    {text : String} (absent : containsMarker (String.ofList (head :: tail)) text = false) :
    removeMarker (String.ofList (head :: tail)) (text ++ String.ofList (head :: tail)) = text := by
  have notInfix : ¬ head :: tail <:+: text.toList := by
    simpa [containsMarker] using absent
  simp only [removeMarker, String.toList_append, String.toList_ofList]
  rw [removeAll_append_right fresh notInfix, String.ofList_toList]

/-- A conversation directory is listed under its id when the id does not contain the
    word in front of it. -/
theorem conversationOfName_eq {cid : String} (plain : containsMarker "conversation_" cid = false) :
    conversationOfName ("conversation_" ++ cid) = some cid := by
  have starts : "conversation_".toList <+: ("conversation_" ++ cid).toList := by
    rw [String.toList_append]
    exact List.prefix_append ..
  rw [conversationOfName, if_pos starts]
  refine congrArg some ?_
  calc removeMarker "conversation_" ("conversation_" ++ cid)
      = removeMarker "conversation_" cid :=
        removeMarker_append_left 'c' "onversation_".toList cid
    _ = cid := removeMarker_of_not_contains plain

private theorem splitExtension_metadata (stem : String) :
    splitExtension (stem ++ "_metadata.json") = some (stem ++ "_metadata", "json") := by
  have name : stem ++ "_metadata.json" = (stem ++ "_metadata") ++ "." ++ "json" := by
    simp [String.append_assoc]
  rw [name]
  exact splitExtension_append _ _ (by simp) (by decide) (by decide)

theorem pathSuffix_metadata (stem : String) : pathSuffix (stem ++ "_metadata.json") = ".json" := by
  rw [pathSuffix, splitExtension_metadata]
  rfl

theorem pathStem_metadata (stem : String) :
    pathStem (stem ++ "_metadata.json") = stem ++ "_metadata" := by
  rw [pathStem, splitExtension_metadata]
  rfl

theorem branchOfName_metadata {branch : String}
    (plain : containsMarker "_metadata" branch = false) :
    branchOfName (branch ++ "_metadata.json") = some branch := by
  rw [branchOfName, if_pos (pathSuffix_metadata branch), pathStem_metadata]
  exact congrArg some (removeMarker_append_right '_' (by decide) plain)

theorem toList_toString_ofNat (n : Nat) : (toString (n : Int)).toList = Nat.toDigits 10 n := by
  have text : toString (n : Int) = n.repr := rfl
  rw [text, Nat.toList_repr]

theorem isDigit_of_mem_toString {n : Nat} {c : Char} (member : c ∈ (toString (n : Int)).toList) :
    c.isDigit = true := by
  rw [toList_toString_ofNat] at member
  exact Nat.isDigit_of_mem_toDigits (by decide) (by decide) member

theorem parseInt_toString {turn : Int} (nonnegative : 0 ≤ turn) :
    parseInt (toString turn) = some turn := by
  obtain ⟨n, rfl⟩ := Int.eq_ofNat_of_zero_le nonnegative
  have digits : ∀ c ∈ Nat.toDigits 10 n, c.isDigit = true := by
    intro c member
    exact Nat.isDigit_of_mem_toDigits (by decide) (by decide) member
  have parsed : parseDigits (Nat.toDigits 10 n) = some n := by
    have guard : Nat.toDigits 10 n ≠ [] ∧ (Nat.toDigits 10 n).all Char.isDigit := by
      exact ⟨Nat.toDigits_ne_nil, List.all_eq_true.mpr digits⟩
    rw [parseDigits, if_pos guard, Nat.ofDigitChars_ten_toDigits]
  rw [parseInt, toList_toString_ofNat]
  split
  · next rest shape =>
    have signDigit := digits '-' (by rw [shape]; exact List.mem_cons_self ..)
    exact absurd signDigit (by decide)
  · next rest shape =>
    have signDigit := digits '+' (by rw [shape]; exact List.mem_cons_self ..)
    exact absurd signDigit (by decide)
  · rw [parsed]
    rfl

theorem not_contains_of_not_mem {head : Char} {tail : List Char} {text : String}
    (absent : head ∉ text.toList) : containsMarker (String.ofList (head :: tail)) text = false := by
  have notInfix : ¬ head :: tail <:+: text.toList :=
    fun inside => absent (inside.subset (List.mem_cons_self ..))
  simpa [containsMarker] using notInfix

theorem turnOfName_metadata {turn : Int} (nonnegative : 0 ≤ turn) :
    turnOfName ("turn_" ++ toString turn ++ "_metadata.json") = some turn := by
  have suffix := pathSuffix_metadata ("turn_" ++ toString turn)
  have stem : pathStem ("turn_" ++ toString turn ++ "_metadata.json") =
      "turn_" ++ (toString turn ++ "_metadata") := by
    rw [pathStem_metadata, String.append_assoc]
  have starts : "turn_".toList <+: ("turn_" ++ toString turn ++ "_metadata.json").toList := by
    rw [String.append_assoc, String.toList_append]
    exact List.prefix_append ..
  obtain ⟨n, rfl⟩ := Int.eq_ofNat_of_zero_le nonnegative
  -- a turn has digits only, so neither word begins in it
  have noWord : ∀ c : Char, c.isDigit = false → c ∉ (toString (n : Int)).toList := by
    intro c notDigit member
    rw [isDigit_of_mem_toString member] at notDigit
    cases notDigit
  have noTurn : containsMarker "turn_" (toString (n : Int) ++ "_metadata") = false := by
    have notInfix : ¬ "turn_".toList <:+: (toString (n : Int) ++ "_metadata").toList := by
      intro inside
      have member := inside.subset (show 'u' ∈ "turn_".toList by decide)
      rw [String.toList_append, List.mem_append] at member
      rcases member with inTurn | inWord
      · exact noWord 'u' (by decide) inTurn
      · exact absurd inWord (by decide)
    simpa [containsMarker] using notInfix
  have turnRemoved : removeMarker "turn_" ("turn_" ++ (toString (n : Int) ++ "_metadata")) =
      toString (n : Int) ++ "_metadata" :=
    (removeMarker_append_left 't' "urn_".toList _).trans (removeMarker_of_not_contains noTurn)
  have wordRemoved : removeMarker "_metadata" (toString (n : Int) ++ "_metadata") =
      toString (n : Int) :=
    removeMarker_append_right '_' (show '_' ∉ "metadata".toList by decide)
      (not_contains_of_not_mem (noWord '_' (by decide)))
  rw [turnOfName, if_pos ⟨starts, suffix⟩, stem, turnRemoved, wordRemoved,
    parseInt_toString nonnegative]

end Engram.Snapshot
