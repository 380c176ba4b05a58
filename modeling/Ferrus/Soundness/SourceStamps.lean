import Ferrus.Model.Nano.SourceStamp
import Ferrus.ToMathlib.ExceptBind

/-! # Equal stamps, equal files

The records of a walk can be told apart in what is hashed, and a walk within its limits has a record of every file.
-/

namespace Ferrus.Nano.SourceStamp

open List

/-! ## Records can be told apart -/

theorem length_leBytes (width number : Nat) : (leBytes width number).length = width := by
  induction width generalizing number with
  | zero => rfl
  | succ width ih => rw [leBytes, length_cons, ih]

theorem leBytes_inj {width first second : Nat} (firstFits : first < 256 ^ width) (secondFits : second < 256 ^ width)
    (same : leBytes width first = leBytes width second) : first = second := by
  induction width generalizing first second with
  | zero => omega
  | succ width ih =>
    obtain ⟨low, high⟩ := cons.inj same
    rw [Nat.pow_succ] at firstFits secondFits
    have quotients := ih (Nat.div_lt_of_lt_mul (by omega)) (Nat.div_lt_of_lt_mul (by omega)) high
    have remainders : first % 256 = second % 256 := congrArg UInt8.toNat low
    omega

/-- The lengths of the record are `u64`s. -/
def FileRecord.Short (record : FileRecord) : Prop := record.path.length < 2 ^ 64 ∧ record.bytes.length < 2 ^ 64

theorem encode_append_inj {first second : FileRecord} {rest others : List UInt8} (firstShort : first.Short)
    (secondShort : second.Short) (same : first.encode ++ rest = second.encode ++ others) :
    first = second ∧ rest = others := by
  have widths (width one other : Nat) : (leBytes width one).length = (leBytes width other).length := by
    rw [length_leBytes, length_leBytes]
  simp only [FileRecord.encode, append_assoc] at same
  obtain ⟨_, same⟩ := append_inj same rfl
  obtain ⟨modes, same⟩ := append_inj same (widths ..)
  obtain ⟨pathLengths, same⟩ := append_inj same (widths ..)
  obtain ⟨paths, same⟩ := append_inj same (leBytes_inj firstShort.1 secondShort.1 pathLengths)
  obtain ⟨lengths, same⟩ := append_inj same (widths ..)
  obtain ⟨contents, same⟩ := append_inj same (leBytes_inj firstShort.2 secondShort.2 lengths)
  have mode : first.mode = second.mode := UInt32.toNat.inj (leBytes_inj first.mode.toNat_lt second.mode.toNat_lt modes)
  exact ⟨FileRecord.ext mode paths contents, same⟩

theorem encode_inj {first second : List FileRecord} (firstShort : ∀ record ∈ first, record.Short)
    (secondShort : ∀ record ∈ second, record.Short)
    (same : first.flatMap FileRecord.encode = second.flatMap FileRecord.encode) : first = second := by
  induction first generalizing second with
  | nil =>
    cases second with
    | nil => rfl
    | cons record records => cases same
  | cons record records ih =>
    cases second with
    | nil => cases same
    | cons other others =>
      obtain ⟨isShort, areShort⟩ := forall_mem_cons.mp firstShort
      obtain ⟨otherShort, othersShort⟩ := forall_mem_cons.mp secondShort
      obtain ⟨rfl, rest⟩ := encode_append_inj isShort otherShort same
      rw [ih areShort othersShort rest]

/-! ## The walk finds the files -/

theorem Path.bytes_inj {first second : Path} (firstNamed : first ≠ []) (secondNamed : second ≠ [])
    (same : Path.bytes first = Path.bytes second) : first = second := by
  have names {path : Path} (named : path ≠ []) : (Path.bytes path).splitOn 0x2F = path.map Subtype.val := by
    refine splitOn_intercalate _ (fun name member => ?_) (mt map_eq_nil_iff.mp named)
    obtain ⟨name, -, rfl⟩ := mem_map.mp member
    exact name.2.2
  exact map_injective_iff.mpr Subtype.val_injective (by rw [← names firstNamed, same, names secondNamed])

theorem open?_append (node : Node) (path rest : Path) :
    node.open? (path ++ rest) = (node.open? path).bind (·.open? rest) := by
  induction path generalizing node with
  | nil => rfl
  | cons name path ih =>
    cases node with
    | directory =>
      simp only [cons_append, Node.open?, Option.bind_assoc]
      congr
      funext entry
      exact ih entry.2
    | file | other => rfl

/-- The path is not below the hidden names of the root. -/
def Visible (path : Path) : Prop := ∀ name ∈ path.head?, name.val ∉ hidden

variable {root : Node} {left remaining : Nat} {paths : List Path} {records : List FileRecord}

theorem scan_sound (scanned : scan root left remaining paths = .ok records) :
    ∀ record ∈ records, record.bytes.length ≤ remaining ∧
      ∃ path, record.path = Path.bytes path ∧ root.open? path = some (.file record.mode record.bytes) := by
  fun_induction scan root left remaining paths generalizing records with
  | case1 =>
    cases scanned
    exact forall_mem_nil _
  | case2 | case3 | case5 | case7 | case8 => cases scanned
  | case4 _ _ _ _ _ _ _ _ ih => exact ih scanned
  | case6 remaining left path paths mode bytes opened fits ih =>
    obtain ⟨more, scannedMore, rfl⟩ := Except.map_eq_ok_iff.mp scanned
    refine forall_mem_cons.mpr ⟨⟨Nat.le_of_not_lt fits, path, rfl, opened⟩, fun record member => ?_⟩
    obtain ⟨bounded, found⟩ := ih scannedMore record member
    exact ⟨bounded.trans (Nat.sub_le ..), found⟩

theorem mem_childPaths {path rest : Path} {entries : List (Name × Node)} {entry : Name × Node}
    (member : entry ∈ entries)
    (visible : Visible (path ++ entry.1 :: rest)) : path ++ [entry.1] ∈ childPaths path entries := by
  refine mem_filterMap.mpr ⟨entry.1, (mem_insertionSort _).mpr (mem_map_of_mem member), if_neg ?_⟩
  rintro ⟨rfl, isHidden⟩
  exact visible _ rfl isHidden

/-- Every file below a path of the stack gets its record. -/
theorem scan_complete (scanned : scan root left remaining paths = .ok records) {path rest : Path} {mode : UInt32}
    {bytes : List UInt8} (member : path ∈ paths) (visible : Visible (path ++ rest))
    (opened : root.open? (path ++ rest) = some (.file mode bytes)) :
    ⟨mode, Path.bytes (path ++ rest), bytes⟩ ∈ records := by
  fun_induction scan root left remaining paths generalizing records path rest with
  | case1 => cases member
  | case2 | case3 | case5 | case7 | case8 => cases scanned
  | case4 remaining left top paths _ entries isDirectory fits ih =>
    rcases mem_cons.mp member with rfl | later
    · have below := opened
      rw [open?_append, isDirectory] at below
      -- the file is not the directory itself, so it is below one of the entries
      cases rest with
      | nil => cases below
      | cons name rest =>
        simp only [Option.bind_some, Node.open?] at below
        obtain ⟨entry, found, -⟩ := Option.bind_eq_some_iff.mp below
        obtain rfl : entry.1 = name := by simpa using find?_some found
        have child := mem_childPaths (mem_of_find?_eq_some found) visible
        rw [append_cons] at visible opened ⊢
        exact ih scanned (mem_append_left _ child) visible opened
    · exact ih scanned (mem_append_right _ later) visible opened
  | case6 remaining left top paths _ _ isFile fits ih =>
    obtain ⟨more, scannedMore, rfl⟩ := Except.map_eq_ok_iff.mp scanned
    rcases mem_cons.mp member with rfl | later
    · rw [open?_append, isFile] at opened
      cases rest with
      | nil =>
        cases opened
        rw [append_nil]
        exact mem_cons_self
      | cons => cases opened
    · exact mem_cons_of_mem _ (ih scannedMore later visible opened)

/-! ## Equal stamps -/

theorem scan_short {workspace : Workspace} (scanned : scan workspace.root maxEntries maxBytes [[]] = .ok records) :
    ∀ record ∈ records, record.Short := by
  intro record member
  obtain ⟨bounded, path, isPath, opened⟩ := scan_sound scanned record member
  exact ⟨isPath ▸ workspace.short path _ opened, bounded.trans_lt (by decide)⟩

theorem open?_of_stamps {Digest : Type} {sha256 : List UInt8 → Digest} {stamp : Digest} (injective : sha256.Injective)
    {first second : Workspace} (firstStamp : sourceStamp sha256 first = .ok stamp)
    (secondStamp : sourceStamp sha256 second = .ok stamp) {path : Path} (visible : Visible path) {mode : UInt32}
    {bytes : List UInt8} (found : first.root.open? path = some (.file mode bytes)) :
    second.root.open? path = some (.file mode bytes) := by
  have named {workspace : Workspace} {path : Path} {mode : UInt32} {bytes : List UInt8}
      (opened : workspace.root.open? path = some (.file mode bytes)) : path ≠ [] := by
    rintro rfl
    cases opened
  obtain ⟨records, scanned, isStamp⟩ := Except.map_eq_ok_iff.mp firstStamp
  obtain ⟨others, scannedOthers, rfl⟩ := Except.map_eq_ok_iff.mp secondStamp
  obtain rfl := encode_inj (scan_short scanned) (scan_short scannedOthers) (injective isStamp)
  have member := scan_complete scanned (mem_singleton_self []) visible found
  obtain ⟨-, other, same, opened⟩ := scan_sound scannedOthers _ member
  obtain rfl : path = other := Path.bytes_inj (named found) (named opened) same
  exact opened

/-- Workspaces with equal stamps have the same files with the same bits and contents, outside the hidden names of the
root. -/
theorem files_eq_of_stamps {Digest : Type} (sha256 : List UInt8 → Digest) (injective : sha256.Injective)
    (first second : Workspace) (stamp : Digest) (firstStamp : sourceStamp sha256 first = .ok stamp)
    (secondStamp : sourceStamp sha256 second = .ok stamp) (path : Path) (visible : Visible path) (mode : UInt32)
    (bytes : List UInt8) :
    first.root.open? path = some (.file mode bytes) ↔ second.root.open? path = some (.file mode bytes) :=
  ⟨open?_of_stamps injective firstStamp secondStamp visible, open?_of_stamps injective secondStamp firstStamp visible⟩

/-! ### Two workspaces that differ below `.git` -/

private theorem exists_of_open? {unsupportedName : Bool} {entries : List (Name × Node)} {name : Name} {rest : Path}
    {node : Node} (found : (Node.directory unsupportedName entries).open? (name :: rest) = some node) :
    ∃ child, (name, child) ∈ entries ∧ child.open? rest = some node := by
  obtain ⟨⟨entryName, child⟩, isEntry, opened⟩ := Option.bind_eq_some_iff.mp found
  obtain rfl : entryName = name := by simpa using find?_some isEntry
  exact ⟨child, mem_of_find?_eq_some isEntry, opened⟩

private def gitName : Name := ⟨[0x2E, 0x67, 0x69, 0x74], by decide⟩

private def folder : Name := ⟨[0x62], by decide⟩

private def source : Name := ⟨[0x61], by decide⟩

private def script : Name := ⟨[0x63], by decide⟩

/-- A folder with two files beside a file, and some content in `.git`. -/
private def edited (git : List UInt8) : Workspace where
  entries := [(folder, .directory false [(script, .file 0o755 [2, 3]), (source, .file 0o644 [])]),
    (gitName, .file 0o644 git), (source, .file 0o644 [1])]
  unsupportedName := false
  short path node found := by
    match path with
    | [] => decide
    | name :: rest =>
      obtain ⟨child, member, opened⟩ := exists_of_open? found
      simp only [mem_cons, not_mem_nil, or_false, Prod.mk.injEq] at member
      rcases member with ⟨rfl, rfl⟩ | ⟨rfl, rfl⟩ | ⟨rfl, rfl⟩ <;> rcases rest with _ | ⟨inner, rest⟩
      case inl.nil | inr.inl.nil | inr.inr.nil => decide
      case inr.inl.cons | inr.inr.cons => cases opened
      case inl.cons =>
        obtain ⟨leaf, member, opened⟩ := exists_of_open? opened
        simp only [mem_cons, not_mem_nil, or_false, Prod.mk.injEq] at member
        rcases member with ⟨rfl, rfl⟩ | ⟨rfl, rfl⟩ <;> cases rest <;> first | decide | cases opened

private theorem sourceStamp_edited (git : List UInt8) : sourceStamp id (edited git) =
    .ok ([(⟨0o644, [0x61], [1]⟩ : FileRecord), ⟨0o644, [0x62, 0x2F, 0x61], []⟩,
      ⟨0o755, [0x62, 0x2F, 0x63], [2, 3]⟩].flatMap FileRecord.encode) := by
  rfl

/-- Two workspaces that differ below `.git` have one stamp, and the same script in a directory. -/
theorem files_eq_of_stamps_edited :
    (edited [1]).root.open? [gitName] = some (.file 0o644 [1]) ∧
    (edited [4, 5]).root.open? [gitName] = some (.file 0o644 [4, 5]) ∧
    ((edited [1]).root.open? [folder, script] = some (.file 0o755 [2, 3]) ↔
      (edited [4, 5]).root.open? [folder, script] = some (.file 0o755 [2, 3])) :=
  ⟨rfl, rfl, files_eq_of_stamps id Function.injective_id (edited [1]) (edited [4, 5]) _ (sourceStamp_edited _)
    (sourceStamp_edited _) [folder, script] (by rintro _ ⟨⟩; decide) 0o755 [2, 3]⟩

end Ferrus.Nano.SourceStamp
