import Mathlib.Data.List.Basic

/-! # The journal of a session and its reader

The session appends one line of JSON for each record, within its quotas. A frontend polls the file while it grows
and replays the lines that are complete. The JSON of a record and the replay are parameters; reads and writes that
fail are left out, and so are polls before the file exists.
-/

namespace Ferrus.Nano

def newline : UInt8 := 10

structure Quotas where
  (recordBytes journalBytes totalBytes : Nat)
deriving DecidableEq, Repr

def journalVersion : Nat := 1

structure Record (β ε : Type) where
  version : Nat
  sessionId : String
  sequence : Nat
  budget : β
  event : ε
deriving DecidableEq, Repr

/-- The JSON of records and the replay. Not every record that is written can be read again, since the parser bounds
the depth of a value. -/
structure JournalCodec (β ε σ : Type) where
  encode : Record β ε → List UInt8
  decode : List UInt8 → Option (Record β ε)
  newline_not_mem : ∀ record, newline ∉ encode record
  replay : σ
  sequence : σ → Nat
  apply : σ → Record β ε → Except String σ

variable {β ε σ : Type} (codec : JournalCodec β ε σ) (quotas : Quotas)

def JournalCodec.line (record : Record β ε) : List UInt8 := codec.encode record ++ [newline]

/-! ## The writer -/

structure FileJournal (β ε σ : Type) where
  sessionId : String
  state : σ
  (journalBytes totalBytes : Nat)
  file : List UInt8
  /-- What `append` has returned. -/
  records : List (Record β ε)

def FileJournal.create (sessionId : String) : FileJournal β ε σ := ⟨sessionId, codec.replay, 0, 0, [], []⟩

/-- The arguments of `append`, and the bytes of the artifacts that were stored before it. -/
structure Append (β ε : Type) where
  event : ε
  budget : β
  artifactBytes : Nat

def FileJournal.append (journal : FileJournal β ε σ) (request : Append β ε) : Except String (FileJournal β ε σ) := do
  let record : Record β ε :=
    ⟨journalVersion, journal.sessionId, codec.sequence journal.state + 1, request.budget, request.event⟩
  let next ← codec.apply journal.state record
  let bytes := codec.line record
  let totalBytes := journal.totalBytes + request.artifactBytes
  if quotas.recordBytes < (codec.encode record).length then .error "Serialized output exceeds byte limit"
  else if quotas.journalBytes - journal.journalBytes < bytes.length ∨ quotas.totalBytes - totalBytes < bytes.length then
    .error "Journal quota exhausted"
  else
    .ok ⟨journal.sessionId, next, journal.journalBytes + bytes.length, totalBytes + bytes.length, journal.file ++ bytes,
      journal.records ++ [record]⟩

/-! ## The reader -/

/-- The bytes up to the first newline, at most `limit` of them. -/
def readUntil : Nat → List UInt8 → List UInt8
  | 0, _ | _, [] => []
  | limit + 1, byte :: rest => if byte = newline then [byte] else byte :: readUntil limit rest

structure Reader (β ε σ : Type) where
  expectedRun : String
  replay : σ
  offset : Nat
  /-- The records that the snapshot shows. -/
  snapshot : List (Record β ε)

def Reader.new (runId : String) : Reader β ε σ := ⟨runId, codec.replay, 0, []⟩

/-- How long the file is when a poll asks for its length, and at each of its reads. -/
structure Poll where
  length : Nat
  sizes : List Nat
deriving DecidableEq, Repr

namespace Reader

/-- One line, unless it is not complete yet. -/
def readLine (reader : Reader β ε σ) (bytes : List UInt8) : Except String (Option (Reader β ε σ)) :=
  let line := readUntil (quotas.recordBytes + 1) (bytes.drop reader.offset)
  if quotas.recordBytes < line.length then .error "Conversation record exceeds its limit"
  else if line.getLast? ≠ some newline then .ok none
  else
    match codec.decode line with
    | none => .error "invalid JSON"
    | some record =>
        if record.sessionId ≠ reader.expectedRun then .error "Conversation session mismatch"
        else (codec.apply reader.replay record).map fun replay =>
          some ⟨reader.expectedRun, replay, reader.offset + line.length, reader.snapshot ++ [record]⟩

def readLines (file : List UInt8) (reader : Reader β ε σ) : List Nat → Except String (Reader β ε σ)
  | [] => .ok reader
  | size :: sizes =>
      match reader.readLine codec quotas (file.take size) with
      | .error error => .error error
      | .ok none => .ok reader
      | .ok (some next) => next.readLines file sizes

/-- The reader after a poll, and the snapshot if there is anything new. -/
def poll (file : List UInt8) (reader : Reader β ε σ) (poll : Poll) :
    Except String (Reader β ε σ × Option (List (Record β ε))) :=
  if poll.length < reader.offset ∨ quotas.journalBytes < poll.length then .error "Invalid conversation journal size"
  else (reader.readLines codec quotas file (poll.sizes.take 64)).map fun next =>
    (next, if next.offset ≠ reader.offset then some next.snapshot else none)

end Reader

end Ferrus.Nano
