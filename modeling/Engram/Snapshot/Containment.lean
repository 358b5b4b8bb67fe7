import Engram.Snapshot.Directory

/-!
# Paths stay inside the store

The two paths of a snapshot are files directly in the directory of the conversation or in its
`branches` directory: no component holds a slash. What `_sanitize_path_component` lets through is
the documented alphabet and, because the dollar sign of the pattern also matches before a final
newline, each such string with one newline at its end (`sanitizer_exact_iff`).
-/

namespace Engram.Snapshot

open Lib List

/-! ### What the sanitizer accepts -/

/-- A non-empty string of at most 255 characters over `[A-Za-z0-9_.-]` without `..`. -/
def AllowedComponent (component : String) : Prop :=
  component ≠ "" ∧ component.toList.length ≤ 255 ∧
    (∀ c ∈ component.toList, allowedChar c = true) ∧ hasDotDot component = false
deriving Decidable

/-- An allowed string of at most 254 characters and a newline. -/
def AllowedThenNewline (component : String) : Prop :=
  ∃ body, component = body ++ "\n" ∧ body.toList.length ≤ 254 ∧ AllowedComponent body

theorem not_slash_of_allowedChar {c : Char} (allowed : allowedChar c = true) :
    c ≠ '/' ∧ c ≠ '\\' ∧ c ≠ '\n' := by
  refine ⟨?_, ?_, ?_⟩
  all_goals
    rintro rfl
    exact absurd allowed (by decide)

variable {component : String}

theorem startsWithSlash_of_head (head : ∀ c, component.toList.head? = some c → c ≠ '/' ∧ c ≠ '\\') :
    startsWithSlash component = false := by
  rw [startsWithSlash, Bool.or_eq_false_iff, decide_eq_false_iff_not, decide_eq_false_iff_not]
  exact ⟨fun slash => (head _ slash).1 rfl, fun backslash => (head _ backslash).2 rfl⟩

theorem hasDotDot_append_newline (body : String) : hasDotDot (body ++ "\n") = hasDotDot body := by
  have lists : (body ++ "\n").toList = body.toList ++ ['\n'] := by
    rw [String.toList_append]
    rfl
  rw [hasDotDot, hasDotDot, decide_eq_decide, lists]
  constructor
  · rintro ⟨before, after, split⟩
    -- the last character of the whole is the newline, so it belongs to what follows the dots
    rcases eq_nil_or_concat after with rfl | ⟨rest, last, rfl⟩
    · have ends := congrArg getLast? split
      simp at ends
    · rw [concat_eq_append, ← append_assoc] at split
      exact ⟨before, rest, (append_inj' split rfl).1⟩
  · rintro ⟨before, after, split⟩
    exact ⟨before, after ++ ['\n'], by rw [← split]; simp⟩

theorem matchesComponent_iff (component : String) :
    matchesComponent component = true ↔
      (component ≠ "" ∧ ∀ c ∈ component.toList, allowedChar c = true) ∨
        ∃ body, component = body ++ "\n" ∧ body ≠ "" ∧ ∀ c ∈ body.toList, allowedChar c = true := by
  have empty : ∀ text : String, text ≠ "" ↔ text.toList ≠ [] := by
    intro text
    simp
  rw [matchesComponent]
  by_cases newline : component.toList.getLast? = some '\n'
  · obtain ⟨front, shape⟩ := getLast?_eq_some_iff.mp newline
    have body : component = String.ofList front ++ "\n" := by
      apply String.toList_inj.mp
      rw [shape, String.toList_append, String.toList_ofList]
      rfl
    rw [if_pos newline, shape, dropLast_concat, Bool.and_eq_true, decide_eq_true_eq, all_eq_true]
    constructor
    · rintro ⟨nonempty, allowed⟩
      refine .inr ⟨String.ofList front, body, ?_, ?_⟩
      · rwa [empty, String.toList_ofList]
      · rwa [String.toList_ofList]
    -- a newline is not an allowed character
    rintro (⟨-, allowed⟩ | ⟨other, same, nonempty, allowed⟩)
    · exact absurd rfl (not_slash_of_allowedChar (allowed '\n' (by simp))).2.2
    have chars := congrArg String.toList (body.symm.trans same)
    rw [String.toList_append, String.toList_append, String.toList_ofList,
      append_cancel_right_eq] at chars
    rw [empty, ← chars] at nonempty
    rw [← chars] at allowed
    exact ⟨nonempty, allowed⟩
  · simp only [newline, if_false, Bool.and_eq_true, decide_eq_true_eq, all_eq_true, ← empty]
    constructor
    · exact fun plain => .inl plain
    · rintro (plain | ⟨body, rfl, -⟩)
      · exact plain
      · exact absurd (by simp) newline

theorem sanitized_iff (component : String) :
    Sanitized component ↔ AllowedComponent component ∨ AllowedThenNewline component := by
  rw [Sanitized, matchesComponent_iff, Bool.or_eq_false_iff]
  constructor
  · rintro ⟨nonempty, ⟨-, allowed⟩ | ⟨body, rfl, bodyNonempty, allowed⟩, ⟨inside, -⟩, short⟩
    · exact .inl ⟨nonempty, short, allowed, inside⟩
    rw [hasDotDot_append_newline] at inside
    have bound : body.toList.length ≤ 254 := by
      rw [String.toList_append, length_append] at short
      have one : "\n".toList.length = 1 := by decide
      omega
    exact .inr ⟨body, rfl, bound, bodyNonempty, by omega, allowed, inside⟩
  rintro (⟨nonempty, short, allowed, inside⟩ | ⟨body, rfl, bound, nonempty, -, allowed, inside⟩)
  · refine ⟨nonempty, .inl ⟨nonempty, allowed⟩, ⟨inside, ?_⟩, short⟩
    apply startsWithSlash_of_head
    intro c first
    have plain := not_slash_of_allowedChar (allowed c (mem_of_mem_head? first))
    exact ⟨plain.1, plain.2.1⟩
  have chars : (body ++ "\n").toList = body.toList ++ ['\n'] := by
    rw [String.toList_append]
    rfl
  refine ⟨by simp, .inr ⟨body, rfl, nonempty, allowed⟩, ⟨?_, ?_⟩, ?_⟩
  · rw [hasDotDot_append_newline, inside]
  · apply startsWithSlash_of_head
    intro c first
    have member : c ∈ body.toList ++ ['\n'] := chars ▸ mem_of_mem_head? first
    rcases mem_append.mp member with inBody | isNewline
    · have plain := not_slash_of_allowedChar (allowed c inBody)
      exact ⟨plain.1, plain.2.1⟩
    · obtain rfl := mem_singleton.mp isNewline
      decide
  · rw [chars, length_append, length_singleton]
    omega

theorem AllowedThenNewline.not_allowed (newline : AllowedThenNewline component) :
    ¬ AllowedComponent component := by
  rintro ⟨-, -, allowed, -⟩
  obtain ⟨body, rfl, -⟩ := newline
  exact (not_slash_of_allowedChar (allowed '\n' (by simp))).2.2 rfl

/-- `_sanitize_path_component` returns. -/
def Accepts (component name : String) : Prop :=
  ∃ safe, sanitizePathComponent component name = .ok safe

theorem accepts_iff (component name : String) : Accepts component name ↔ Sanitized component := by
  constructor
  · rintro ⟨safe, passed⟩
    exact (sanitized_of_ok passed).2
  · intro sanitized
    exact ⟨component, sanitizePathComponent_ok sanitized name⟩

/-! ### Where the paths lie -/

/-- A name of one directory entry: no separator in it, and neither `.` nor `..`. -/
def ProperName (name : String) : Prop :=
  name ≠ "" ∧ name ≠ "." ∧ name ≠ ".." ∧ '/' ∉ name.toList

/-- `path` is an entry of `dir`. -/
def DirectlyIn (dir path : Path) : Prop :=
  ∃ name, path = dir ++ [name] ∧ ProperName name

/-- Whatever `_get_snapshot_paths` returns is a pair of entries of the directory of the
    conversation, which is an entry of the base directory, or of its `branches` directory. -/
def PathsInside {γ : Type} (baseDir : Path) (conversationId : String) (turnNumber : Option Int)
    (branchName : Option String) (fs : FileSystem γ) : Prop :=
  ∀ metadataPath statePath fs',
    getSnapshotPaths baseDir conversationId turnNumber branchName fs =
      (.ok (metadataPath, statePath), fs') →
    DirectlyIn baseDir (conversationDir baseDir conversationId) ∧
      ((DirectlyIn (conversationDir baseDir conversationId) metadataPath ∧
          DirectlyIn (conversationDir baseDir conversationId) statePath) ∨
        (DirectlyIn (conversationDir baseDir conversationId ++ ["branches"]) metadataPath ∧
          DirectlyIn (conversationDir baseDir conversationId ++ ["branches"]) statePath))

theorem Sanitized.no_slash (sanitized : Sanitized component) :
    '/' ∉ component.toList := by
  have alphabet : ∀ body : String, (∀ c ∈ body.toList, allowedChar c = true) →
      '/' ∉ body.toList := by
    intro body allowed slash
    exact (not_slash_of_allowedChar (allowed '/' slash)).1 rfl
  rcases (sanitized_iff component).mp sanitized with allowed | ⟨body, rfl, -, allowed⟩
  · exact alphabet component allowed.2.2.1
  · rw [String.toList_append, mem_append]
    rintro (slash | slash)
    · exact alphabet body allowed.2.2.1 slash
    · exact absurd slash (by decide)

theorem properName_of_long {name : String} (long : 2 < name.toList.length)
    (plain : '/' ∉ name.toList) : ProperName name := by
  refine ⟨?_, ?_, ?_, plain⟩
  all_goals
    rintro rfl
    exact absurd long (by decide)

theorem Selector.stem_no_slash {selector : Selector} (accepted : selector.Accepted) :
    '/' ∉ selector.stem.toList := by
  cases selector with
  | turn number =>
    obtain ⟨n, rfl⟩ := Int.eq_ofNat_of_zero_le accepted
    rw [Selector.stem, String.toList_append, mem_append]
    rintro (slash | slash)
    · exact absurd slash (by decide)
    · exact absurd (isDigit_of_mem_toString slash) (by decide)
  | branch name => exact Sanitized.no_slash accepted

theorem file_directlyIn (baseDir : Path) {key : SnapshotKey} (accepted : key.Accepted)
    (kind : FileKind) : DirectlyIn (key.dir baseDir) (key.file baseDir kind) := by
  refine ⟨key.selector.stem ++ kind.ending, rfl, ?_⟩
  apply properName_of_long
  · have long : 2 < kind.ending.toList.length := by
      cases kind <;> decide
    rw [String.toList_append, length_append]
    omega
  · rw [String.toList_append, mem_append]
    rintro (slash | slash)
    · exact Selector.stem_no_slash accepted.2 slash
    · revert slash
      cases kind <;> decide

theorem conversationDir_directlyIn (baseDir : Path) {cid : String} (sanitized : Sanitized cid) :
    DirectlyIn baseDir (conversationDir baseDir cid) := by
  refine ⟨"conversation_" ++ cid, rfl, ?_⟩
  apply properName_of_long
  · have long : 2 < "conversation_".toList.length := by
      decide
    rw [String.toList_append, length_append]
    omega
  · rw [String.toList_append, mem_append]
    rintro (slash | slash)
    · exact absurd slash (by decide)
    · exact sanitized.no_slash slash

theorem pathsInside {γ : Type} (baseDir : Path) (cid : String) (turnNumber : Option Int)
    (branchName : Option String) (fs : FileSystem γ) :
    PathsInside baseDir cid turnNumber branchName fs := by
  intro metadataPath statePath fs' returned
  rcases getSnapshotPaths_cases baseDir cid turnNumber branchName fs with
    ⟨selector, selected, accepted⟩ | ⟨error, refused | ⟨-, refused⟩⟩
  · rw [getSnapshotPaths_eq baseDir selected accepted] at returned
    cases returned
    refine ⟨conversationDir_directlyIn baseDir accepted.1, ?_⟩
    have metadata := file_directlyIn baseDir accepted .metadata
    have state := file_directlyIn baseDir accepted .state
    cases selector with
    | turn number => exact .inl ⟨metadata, state⟩
    | branch name => exact .inr ⟨metadata, state⟩
  · rw [refused] at returned
    cases returned
  · rw [refused] at returned
    cases returned

/-- The paths always stay inside, and the sanitizer accepts exactly the documented strings,
    with the exception of those that end in a newline after an allowed string. -/
theorem sanitizer_exact_iff {γ : Type} (baseDir : Path) (fs : FileSystem γ)
    (conversationId : String) (turnNumber : Option Int) (branchName : Option String)
    (component name : String) :
    (PathsInside baseDir conversationId turnNumber branchName fs ∧
        (Accepts component name ↔ AllowedComponent component)) ↔
      ¬ AllowedThenNewline component := by
  have inside := pathsInside baseDir conversationId turnNumber branchName fs
  rw [and_iff_right_of_imp (fun _ => inside), accepts_iff, sanitized_iff]
  constructor
  · intro same newline
    exact newline.not_allowed (same.mp (.inr newline))
  intro plain
  constructor
  · rintro (allowed | newline)
    · exact allowed
    · exact absurd newline plain
  · exact .inl

/-- A conversation id with a newline at its end is accepted. -/
theorem sanitizer_accepts_newline :
    Accepts "abc\n" "conversation_id" ∧ ¬ AllowedComponent "abc\n" := by
  refine ⟨⟨"abc\n", by decide⟩, ?_⟩
  rintro ⟨-, -, allowed, -⟩
  exact absurd (allowed '\n' (by decide)) (by decide)

end Engram.Snapshot
