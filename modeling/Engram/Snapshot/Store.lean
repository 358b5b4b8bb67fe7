import Engram.Snapshot.Paths
import Engram.Snapshot.Tensor

/-!
# The snapshot store on disk

`save_snapshot`, `load_snapshot` and `delete_snapshot` of
`MambaSnapshotManager`, over a file system whose files hold either a dictionary
of tensors or a metadata record: safetensors and JSON are taken to be lossless.
-/

namespace Engram.Snapshot

open Lib

inductive ConfigValue where
  | number (value : Int)
  | text (value : String)
deriving DecidableEq, Repr

structure MambaSnapshotMetadata where
  conversationId : String
  turnNumber : Int
  timestamp : Nat
  tokenCount : Nat
  modelName : String
  mambaPoolIdx : Int
  reqPoolIdx : Int
  layerConfig : List (String × ConfigValue)
  activeToolContext : Option String := none
  branchName : Option String := none
  parentSnapshot : Option String := none
  fillIds : Option (List Nat) := none
deriving DecidableEq, Repr

inductive Content (τ : Type) where
  | tensors (stateDict : OrderedDict String τ)
  | metadata (record : MambaSnapshotMetadata)
  /-- a file whose writing was interrupted -/
  | truncated
deriving DecidableEq

/-- What a save stores and a load returns. -/
structure StoredSnapshot (τ : Type) where
  convStates : List τ
  temporalStates : τ
  metadata : MambaSnapshotMetadata
deriving DecidableEq

def convLayerKey (layerIdx : Nat) : String :=
  "conv_layer_" ++ toString layerIdx

section StateDict

variable {τ : Type}

def addConvStates : Nat → List τ → OrderedDict String τ → OrderedDict String τ
  | _, [], stateDict => stateDict
  | layerIdx, convState :: convStates, stateDict =>
    addConvStates (layerIdx + 1) convStates (stateDict.insert (convLayerKey layerIdx) convState)

def stateDictOf (convStates : List τ) (temporalStates : τ) : OrderedDict String τ :=
  addConvStates 0 convStates (OrderedDict.empty.insert "temporal" temporalStates)

/-- The loop of `load_snapshot` that collects the convolution tensors while their
    keys are present; it runs at most once for each key. -/
def collectConvStates (stateDict : OrderedDict String τ) : Nat → Nat → List τ
  | 0, _ => []
  | fuel + 1, layerIdx =>
    match stateDict.lookup (convLayerKey layerIdx) with
    | none => []
    | some convState => convState :: collectConvStates stateDict fuel (layerIdx + 1)

end StateDict

/-- Where a save can fail on the disk. A write that fails may leave a torn file behind;
    otherwise the step that fails has no effect. -/
inductive SaveFault where
  | stateWrite (torn : Bool)
  | stateRename
  | metadataWrite (torn : Bool)
  | metadataRename
deriving DecidableEq, Repr

variable {τ : Type} [Torch τ] (baseDir : Path)

def saveState (fault : Option SaveFault) (statePath : Path) (stateDict : OrderedDict String τ)
    (fs : FileSystem (Content τ)) : Except StoreError Unit × FileSystem (Content τ) :=
  let tempStatePath := pathWithSuffix statePath ".safetensors.tmp"
  match fault with
  | some (.stateWrite torn) =>
    (.error (.ioError "Failed to save state"),
      (if torn then fs.write tempStatePath .truncated else fs).unlink tempStatePath)
  | some .stateRename =>
    (.error (.ioError "Failed to save state"),
      (fs.write tempStatePath (.tensors stateDict)).unlink tempStatePath)
  | _ =>
    (.ok (), (fs.write tempStatePath (.tensors stateDict)).rename tempStatePath statePath)

/-- The second `try` block: on an exception the state file, already in place, is
    removed and the temporary metadata file stays. -/
def saveMetadata (fault : Option SaveFault) (metadataPath statePath : Path)
    (metadata : MambaSnapshotMetadata) (fs : FileSystem (Content τ)) :
    Except StoreError Unit × FileSystem (Content τ) :=
  let tempMetadataPath := pathWithSuffix metadataPath ".json.tmp"
  match fault with
  | some (.metadataWrite torn) =>
    (.error (.ioError "Failed to save metadata"),
      (if torn then fs.write tempMetadataPath .truncated else fs).unlink statePath)
  | some .metadataRename =>
    (.error (.ioError "Failed to save metadata"),
      (fs.write tempMetadataPath (.metadata metadata)).unlink statePath)
  | _ =>
    (.ok (), (fs.write tempMetadataPath (.metadata metadata)).rename tempMetadataPath metadataPath)

def saveSnapshot (fault : Option SaveFault) (convStates : List τ) (temporalStates : τ)
    (metadata : MambaSnapshotMetadata) (fs : FileSystem (Content τ)) :
    Except StoreError (Path × Path) × FileSystem (Content τ) :=
  let result := validateStateTensors convStates temporalStates (some metadata.conversationId) false
  if convStates = [] then
    (.error (.valueError "conv_states must not be empty"), fs)
  else if result.isValid = false then
    (.error (.valueError ("State validation failed before save (conversation=" ++
      metadata.conversationId ++ ", turn=" ++ toString metadata.turnNumber ++ "): " ++
      "; ".intercalate result.errors)), fs)
  else
    match getSnapshotPaths baseDir metadata.conversationId (some metadata.turnNumber)
        metadata.branchName fs with
    | (.error error, fs) => (.error error, fs)
    | (.ok (metadataPath, statePath), fs) =>
      match saveState fault statePath (stateDictOf convStates temporalStates) fs with
      | (.error error, fs) => (.error error, fs)
      | (.ok (), fs) =>
        match saveMetadata fault metadataPath statePath metadata fs with
        | (.error error, fs) => (.error error, fs)
        | (.ok (), fs) => (.ok (metadataPath, statePath), fs)

def decodeSnapshot (conversationId : String) (turnNumber : Option Int)
    (metadataContent stateContent : Content τ) : Except StoreError (StoredSnapshot τ) :=
  match metadataContent, stateContent with
  | .metadata metadata, .tensors stateDict =>
    match stateDict.lookup "temporal" with
    | none => .error (.valueError "Snapshot missing 'temporal' state")
    | some temporalStates =>
      let convStates := collectConvStates stateDict stateDict.size 0
      let result := validateStateTensors convStates temporalStates
        (some metadata.conversationId) false
      if convStates = [] then .error (.valueError "Snapshot has no conv states")
      else if result.isValid = false then
        .error (.snapshotValidationError ("Loaded snapshot failed validation: conversation=" ++
          conversationId ++ ", turn=" ++ (turnNumber.map toString).getD "None" ++ ": " ++
          "; ".intercalate result.errors))
      else .ok { convStates, temporalStates, metadata }
  | .metadata _, _ => .error (.valueError "Failed to load state tensors")
  | _, _ => .error (.valueError "Failed to load metadata")

def loadSnapshot (conversationId : String) (turnNumber : Option Int)
    (branchName : Option String) (fs : FileSystem (Content τ)) :
    Except StoreError (StoredSnapshot τ) × FileSystem (Content τ) :=
  match getSnapshotPaths baseDir conversationId turnNumber branchName fs with
  | (.error error, fs) => (.error error, fs)
  | (.ok (metadataPath, statePath), fs) =>
    match fs.read? metadataPath, fs.read? statePath with
    | none, _ => (.error (.fileNotFoundError ("Metadata not found: " ++ metadataPath.text)), fs)
    | some _, none => (.error (.fileNotFoundError ("State not found: " ++ statePath.text)), fs)
    | some metadataContent, some stateContent =>
      (decodeSnapshot conversationId turnNumber metadataContent stateContent, fs)

def deleteSnapshot (conversationId : String) (turnNumber : Option Int)
    (branchName : Option String) (fs : FileSystem (Content τ)) :
    Except StoreError Bool × FileSystem (Content τ) :=
  match getSnapshotPaths baseDir conversationId turnNumber branchName fs with
  | (.error error, fs) => (.error error, fs)
  | (.ok (metadataPath, statePath), fs) =>
    (.ok (fs.isFile metadataPath || fs.isFile statePath),
      (fs.unlink metadataPath).unlink statePath)

end Engram.Snapshot
