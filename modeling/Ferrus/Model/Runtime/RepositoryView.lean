import Ferrus.ToMathlib.ExceptBind
import Mathlib.Tactic.TypeStar
import Mathlib.Tactic.SplitIfs

/-! # Repository views and their columns

A task or run row stores its repository view in seven columns. Identities and digests are built only
through their checked constructors, so a view value never holds an empty identity or a malformed
digest. `encode` is the column tuple that every writer binds, and
`repositoryViewReferenceFromDatabase` is the decoder that rejects an inconsistent combination.
-/

namespace Ferrus.Runtime

/-- A validated identity; `kind` names it in the error of its constructor. -/
structure OpaqueId (kind : String) where
  value : String
  nonempty : value.isEmpty = false
deriving DecidableEq, Repr

/-- The checked constructor of an identity. -/
def OpaqueId.new (kind value : String) : Except String (OpaqueId kind) :=
  if nonempty : value.isEmpty = false then .ok ⟨value, nonempty⟩
  else .error s!"{kind} must not be empty"

@[simp] theorem OpaqueId.new_value {kind : String} (id : OpaqueId kind) : OpaqueId.new kind id.value = .ok id := by
  rw [OpaqueId.new, dif_pos id.nonempty]

abbrev SnapshotId := OpaqueId "snapshot id"

abbrev OverlayRevisionId := OpaqueId "overlay revision id"

abbrev SourceRevisionId := OpaqueId "source revision id"

namespace Digest

/-- The characters of a digest algorithm token. -/
def validAlgorithm (algorithm : String) : Bool :=
  !algorithm.isEmpty && algorithm.toList.all fun char =>
    ('a' ≤ char && char ≤ 'z') || ('0' ≤ char && char ≤ '9') ||
      char == '.' || char == '_' || char == '-'

/-- Lowercase hexadecimal. -/
def validValue (value : String) : Bool :=
  !value.isEmpty && value.toList.all fun char =>
    ('0' ≤ char && char ≤ '9') || ('a' ≤ char && char ≤ 'f')

end Digest

/-- An algorithm-tagged digest whose value is lowercase hexadecimal. -/
structure Digest where
  (algorithm value : String)
  algorithmValid : Digest.validAlgorithm algorithm = true
  valueValid : Digest.validValue value = true
deriving DecidableEq, Repr

/-- The checked constructor of a digest; the algorithm is checked first. -/
def Digest.new (algorithm value : String) : Except String Digest :=
  if algorithmValid : Digest.validAlgorithm algorithm = true then
    if valueValid : Digest.validValue value = true then
      .ok ⟨algorithm, value, algorithmValid, valueValid⟩
    else .error "digest value must be non-empty lowercase hexadecimal"
  else .error "digest algorithm must be a non-empty lowercase ASCII token"

@[simp] theorem Digest.new_parts (digest : Digest) : Digest.new digest.algorithm digest.value = .ok digest := by
  rw [Digest.new, dif_pos digest.algorithmValid, dif_pos digest.valueValid]

inductive TaskViewLifecycle where
  | mutable | frozenSubmitted
deriving DecidableEq, Repr, Inhabited

def TaskViewLifecycle.asStr : TaskViewLifecycle → String
  | .mutable => "mutable"
  | .frozenSubmitted => "frozen_submitted"

inductive RepositoryViewStatus where
  | notBuilt | available | stale | unavailable | failed
deriving DecidableEq, Repr, Inhabited

namespace RepositoryViewStatus

def asStr : RepositoryViewStatus → String
  | notBuilt => "not_built"
  | available => "available"
  | stale => "stale"
  | unavailable => "unavailable"
  | failed => "failed"

def fromDatabase : String → Except String RepositoryViewStatus
  | "not_built" => .ok notBuilt
  | "available" => .ok available
  | "stale" => .ok stale
  | "unavailable" => .ok unavailable
  | "failed" => .ok failed
  | value => .error s!"Unknown repository view status in ferrus.db: {value.quote}"

@[simp] theorem fromDatabase_asStr (status : RepositoryViewStatus) : fromDatabase status.asStr = .ok status := by
  cases status <;> rfl

end RepositoryViewStatus

/-- The graph view a task or run works against. -/
structure RepositoryViewReference where
  baselineSnapshotId : Option SnapshotId
  overlayRevisionId : Option OverlayRevisionId
  viewSnapshotId : Option SnapshotId
  frozenSourceTree : Option Digest
  lifecycle : TaskViewLifecycle
  status : RepositoryViewStatus
deriving DecidableEq, Repr

variable {view : RepositoryViewReference}

namespace RepositoryViewReference

/-- A mutable view that names no materialized snapshot. -/
def new (baselineSnapshotId : Option SnapshotId) (overlayRevisionId : Option OverlayRevisionId)
    (status : RepositoryViewStatus) : Except String RepositoryViewReference :=
  if overlayRevisionId.isSome && baselineSnapshotId.isNone then
    .error "A repository overlay revision requires a baseline snapshot"
  else if status = .available && baselineSnapshotId.isNone then
    .error "An available repository view requires a baseline snapshot"
  else .ok ⟨baselineSnapshotId, overlayRevisionId, none, none, .mutable, status⟩

/-- A mutable view whose graph snapshot has been built. -/
def materialized (baselineSnapshotId : SnapshotId) (overlayRevisionId : Option OverlayRevisionId)
    (viewSnapshotId : SnapshotId) (status : RepositoryViewStatus) : Except String RepositoryViewReference :=
  if status = .notBuilt then .error "A materialized repository view cannot be not_built"
  else .ok ⟨some baselineSnapshotId, overlayRevisionId, some viewSnapshotId, none, .mutable, status⟩

/-- Pin a materialized view to the submitted source tree. -/
def frozen (view : RepositoryViewReference) (sourceTree : Digest) : Except String RepositoryViewReference :=
  if view.baselineSnapshotId.isNone || view.viewSnapshotId.isNone then
    .error "A frozen repository view requires materialized baseline and view snapshots"
  else .ok { view with lifecycle := .frozenSubmitted, frozenSourceTree := some sourceTree }

section

variable (view : RepositoryViewReference)

def mutableSuccessor : RepositoryViewReference :=
  { view with lifecycle := .mutable, frozenSourceTree := none }

def validate : Except String Unit :=
  if view.overlayRevisionId.isSome && view.baselineSnapshotId.isNone then
    .error "A repository overlay revision requires a baseline snapshot"
  else if view.status = .available && view.baselineSnapshotId.isNone then
    .error "An available repository view requires a baseline snapshot"
  else
    match view.lifecycle with
    | .mutable =>
        if view.frozenSourceTree.isSome then
          .error "A mutable repository view cannot retain a frozen source tree"
        else .ok ()
    | .frozenSubmitted =>
        if view.viewSnapshotId.isNone || view.frozenSourceTree.isNone then
          .error "A frozen repository view requires a snapshot and source tree"
        else .ok ()

/-- The views that `validate` accepts. -/
def Valid : Prop := view.validate = .ok ()

end

instance (view : RepositoryViewReference) : Decidable view.Valid :=
  match result : view.validate with
  | .ok () => .isTrue result
  | .error _ => .isFalse fun valid => by rw [Valid, result] at valid; cases valid

/-- Dropping the frozen tree keeps a view valid: the other columns do not change. -/
theorem Valid.mutableSuccessor (valid : view.Valid) : view.mutableSuccessor.Valid := by
  unfold Valid validate at valid
  split at valid
  · cases valid
  · next overlay =>
    split at valid
    · cases valid
    · next available => exact (if_neg overlay).trans (if_neg available)

end RepositoryViewReference

/-- The seven view columns of a task or run row. -/
structure ViewColumns where
  (baselineSnapshotId overlayRevisionId viewSnapshotId treeAlgorithm treeDigest : Option String)
  (lifecycle status : String)
deriving DecidableEq, Repr

/-- The column defaults of the schema. -/
def ViewColumns.default : ViewColumns := ⟨none, none, none, none, none, "mutable", "not_built"⟩

instance : Inhabited ViewColumns := ⟨.default⟩

/-- The column tuple every view writer binds. -/
def RepositoryViewReference.encode (view : RepositoryViewReference) : ViewColumns where
  baselineSnapshotId := view.baselineSnapshotId.map (·.value)
  overlayRevisionId := view.overlayRevisionId.map (·.value)
  viewSnapshotId := view.viewSnapshotId.map (·.value)
  treeAlgorithm := view.frozenSourceTree.map (·.algorithm)
  treeDigest := view.frozenSourceTree.map (·.value)
  lifecycle := view.lifecycle.asStr
  status := view.status.asStr

/-- Replace an error by the context its caller attaches. -/
def context {α : Type*} (message : String) : Except String α → Except String α
  | .ok value => .ok value
  | .error _ => .error message

/-- A nullable identity column. -/
def decodeId (kind message : String) : Option String → Except String (Option (OpaqueId kind))
  | none => .ok none
  | some value => context message ((OpaqueId.new kind value).map some)

@[simp] theorem decodeId_value {kind : String} (message : String) (id : Option (OpaqueId kind)) :
    decodeId kind message (id.map (·.value)) = .ok id := by
  cases id with
  | none => rfl
  | some id => simp [decodeId, context, Except.map]

/-- The frozen tree is stored in two columns that are both null or both set. -/
def decodeTree : Option String → Option String → Except String (Option Digest)
  | some algorithm, some value =>
      context "Invalid frozen repository source tree in ferrus.db" ((Digest.new algorithm value).map some)
  | none, none => .ok none
  | _, _ => .error "Incomplete frozen repository source tree in ferrus.db"

@[simp] theorem decodeTree_parts (tree : Option Digest) :
    decodeTree (tree.map (·.algorithm)) (tree.map (·.value)) = .ok tree := by
  cases tree with
  | none => rfl
  | some digest => simp [decodeTree, context, Except.map]

def decodeLifecycle : String → Except String TaskViewLifecycle
  | "mutable" => .ok .mutable
  | "frozen_submitted" => .ok .frozenSubmitted
  | lifecycle => .error s!"Unknown repository view lifecycle in ferrus.db: {lifecycle.quote}"

@[simp] theorem decodeLifecycle_asStr (lifecycle : TaskViewLifecycle) :
    decodeLifecycle lifecycle.asStr = .ok lifecycle := by
  cases lifecycle <;> rfl

/-- Read a view back from its columns. -/
def repositoryViewReferenceFromDatabase (columns : ViewColumns) :
    Except String RepositoryViewReference := do
  let baselineSnapshotId ← decodeId "snapshot id"
    "Invalid baseline snapshot identity in ferrus.db" columns.baselineSnapshotId
  let overlayRevisionId ← decodeId "overlay revision id"
    "Invalid overlay revision identity in ferrus.db" columns.overlayRevisionId
  let viewSnapshotId ← decodeId "snapshot id"
    "Invalid materialized repository view snapshot in ferrus.db" columns.viewSnapshotId
  let frozenSourceTree ← decodeTree columns.treeAlgorithm columns.treeDigest
  let lifecycle ← decodeLifecycle columns.lifecycle
  let status ← RepositoryViewStatus.fromDatabase columns.status
  let view := ⟨baselineSnapshotId, overlayRevisionId, viewSnapshotId, frozenSourceTree, lifecycle, status⟩
  view.validate
  return view

/-- Decoding encoded columns only repeats the view's own validation. -/
private theorem decode_encode (view : RepositoryViewReference) :
    repositoryViewReferenceFromDatabase view.encode = view.validate.map (fun _ => view) := by
  simp only [repositoryViewReferenceFromDatabase, RepositoryViewReference.encode, decodeId_value,
    decodeTree_parts, decodeLifecycle_asStr, RepositoryViewStatus.fromDatabase_asStr, bind, Except.bind]
  cases view.validate <;> rfl

/-- A valid view is read back as it was written. -/
theorem RepositoryViewReference.Valid.decode_encode (valid : view.Valid) :
    repositoryViewReferenceFromDatabase view.encode = .ok view := by
  rw [Runtime.decode_encode, valid]
  rfl

/-- The decoder returns valid views only. -/
theorem valid_of_decode {columns : ViewColumns}
    (decoded : repositoryViewReferenceFromDatabase columns = .ok view) : view.Valid := by
  simp only [repositoryViewReferenceFromDatabase, Except.bind_eq_ok_iff] at decoded
  obtain ⟨_, _, _, _, _, _, _, _, _, _, _, _, _, validated, returned⟩ := decoded
  cases returned
  exact validated

/-! ### Values for the examples -/

private theorem builtSnapshot_nonempty : "snap-1".isEmpty = false := rfl

private theorem sha1_valid : Digest.validAlgorithm "sha1" = true := by decide

private theorem firstTree_valid : Digest.validValue "ab" = true := by decide

def builtSnapshot : SnapshotId := ⟨"snap-1", builtSnapshot_nonempty⟩

def firstTree : Digest := ⟨"sha1", "ab", sha1_valid, firstTree_valid⟩

/-- A mutable view whose graph snapshot is built. -/
def builtExample : RepositoryViewReference := ⟨some builtSnapshot, none, some builtSnapshot, none, .mutable, .available⟩

/-- The view of a submission. -/
def frozenExample : RepositoryViewReference :=
  { builtExample with frozenSourceTree := some firstTree, lifecycle := .frozenSubmitted }

end Ferrus.Runtime
