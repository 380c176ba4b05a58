import Ferrus.Model.Nano.Conversation
import Ferrus.ToMathlib.ExceptBind

/-! # The reader follows the writer

A reader that polls the journal while it grows has always read the first records of it, and all of them once it has
seen the complete file often enough. The writer applies the limit of a record to its JSON alone, the reader to the
line with its newline, so a record at the limit stops the reader.
-/

namespace Ferrus.Nano

open List Except JournalCodec

variable {β ε σ : Type} {codec : JournalCodec β ε σ} {quotas : Quotas}

/-! ## Lines -/

private theorem readUntil_append {bytes : List UInt8} (unmarked : newline ∉ bytes) (room : Nat) (rest : List UInt8) :
    readUntil (bytes.length + room) (bytes ++ rest) = bytes ++ readUntil room rest := by
  induction bytes with
  | nil => simp
  | cons byte bytes ih =>
    obtain ⟨different, tail⟩ := not_or.mp (mem_cons.not.mp unmarked)
    rw [length_cons, Nat.succ_add, cons_append, readUntil, if_neg (Ne.symm different), ih tail, cons_append]

/-- The text of a journal. -/
def JournalCodec.text (codec : JournalCodec β ε σ) (records : List (Record β ε)) : List UInt8 :=
  records.flatMap codec.line

private theorem replays_concat {records : List (Record β ε)} {record : Record β ε} {state next : σ}
    (replays : records.foldlM codec.apply codec.replay = .ok state) (applied : codec.apply state record = .ok next) :
    (records ++ [record]).foldlM codec.apply codec.replay = .ok next := by
  rw [foldlM_append, replays]
  exact bind_eq_ok_iff.mpr ⟨state, rfl, bind_eq_ok_iff.mpr ⟨next, applied, rfl⟩⟩

/-! ## The writer -/

/-- What `append` keeps of the journal of a session. -/
structure FileJournal.Written (codec : JournalCodec β ε σ) (quotas : Quotas) (sessionId : String)
    (journal : FileJournal β ε σ) : Prop where
  isSession : journal.sessionId = sessionId
  own : ∀ record ∈ journal.records, record.sessionId = sessionId
  isText : journal.file = codec.text journal.records
  replays : journal.records.foldlM codec.apply codec.replay = .ok journal.state
  counted : journal.journalBytes = journal.file.length
  bounded : journal.file.length ≤ quotas.journalBytes

theorem FileJournal.Written.append {sessionId : String} {journal next : FileJournal β ε σ} {request : Append β ε}
    (written : journal.Written codec quotas sessionId) (appended : journal.append codec quotas request = .ok next) :
    next.Written codec quotas sessionId := by
  simp only [FileJournal.append, bind_eq_ok_iff, reject_eq_ok_iff] at appended
  obtain ⟨state, applied, -, fits, ⟨⟩⟩ := appended
  refine ⟨written.isSession, ?_, ?_, ?_, ?_, ?_⟩
  · exact forall_mem_append.mpr ⟨written.own, by simp [written.isSession]⟩
  · simp [written.isText, text]
  · exact replays_concat written.replays applied
  · simp [written.counted]
  · have counted := written.counted
    have bounded := written.bounded
    rw [length_append]
    omega

/-! ## The reader -/

/-- The record is read back, and its line is within the limit. -/
structure Readable (codec : JournalCodec β ε σ) (quotas : Quotas) (record : Record β ε) : Prop where
  short : (codec.encode record).length < quotas.recordBytes
  decodes : codec.decode (codec.line record) = some record

/-- The reader has read the first records of a session. -/
structure Reader.Reads (codec : JournalCodec β ε σ) (sessionId : String) (records : List (Record β ε))
    (reader : Reader β ε σ) : Prop where
  isSession : reader.expectedRun = sessionId
  shown : reader.snapshot <+: records
  isOffset : reader.offset = (codec.text reader.snapshot).length
  replays : reader.snapshot.foldlM codec.apply codec.replay = .ok reader.replay

/-- The sizes that a poll sees, in order. -/
def Poll.seen (poll : Poll) : List Nat := poll.length :: poll.sizes

/-- Each of the reads sees the whole file. -/
def Poll.complete (file : List UInt8) (poll : Poll) : Bool :=
  decide (64 ≤ poll.sizes.length) && poll.sizes.all (· = file.length)

/-- The polls see a file that only grows, up to the given one. -/
structure Grows (file : List UInt8) (polls : List Poll) : Prop where
  ordered : (polls.flatMap Poll.seen).Pairwise (· ≤ ·)
  inside : ∀ size ∈ polls.flatMap Poll.seen, size ≤ file.length

/-- The reader after some polls. -/
def Reader.polls (codec : JournalCodec β ε σ) (quotas : Quotas) (file : List UInt8) (reader : Reader β ε σ)
    (polls : List Poll) : Except String (Reader β ε σ) :=
  polls.foldlM (fun reader poll => (reader.poll codec quotas file poll).map Prod.fst) reader

namespace Reader

variable {sessionId : String} {journal : FileJournal β ε σ} {reader : Reader β ε σ}
  (written : journal.Written codec quotas sessionId)
  (readable : ∀ record ∈ journal.records, Readable codec quotas record)
  (reads : reader.Reads codec sessionId journal.records)

include written readable reads

/-- A read finds no complete line, or the next record. -/
theorem Reads.readLine (size : Nat) : reader.readLine codec quotas (journal.file.take size) = .ok none ∧
        (size < journal.file.length ∨ reader.snapshot = journal.records) ∨
      ∃ next : Reader β ε σ, reader.readLine codec quotas (journal.file.take size) = .ok (some next) ∧
        next.Reads codec sessionId journal.records ∧ next.snapshot.length = reader.snapshot.length + 1 ∧
        next.offset ≤ size := by
  obtain ⟨rest, split⟩ := reads.shown
  have isFile : journal.file = codec.text reader.snapshot ++ codec.text rest := by
    rw [written.isText, ← split, text, flatMap_append]
    rfl
  have view : (journal.file.take size).drop reader.offset = (codec.text rest).take (size - reader.offset) := by
    rw [drop_take, isFile, reads.isOffset, drop_left]
  unfold Reader.readLine
  rw [view]
  cases rest with
  | nil => exact .inl ⟨by simp [text, readUntil], .inr (by rw [← split, append_nil])⟩
  | cons record rest =>
    have member : record ∈ journal.records := split ▸ mem_append_right _ mem_cons_self
    obtain ⟨short, decodes⟩ := readable record member
    have unmarked := codec.newline_not_mem record
    have isText : codec.text (record :: rest) = codec.encode record ++ newline :: codec.text rest := by
      simp [text, line]
    rw [isText]
    by_cases complete : (codec.encode record).length < size - reader.offset
    · obtain ⟨more, isMore⟩ := Nat.exists_eq_add_of_lt complete
      obtain ⟨room, isLimit⟩ := Nat.exists_eq_add_of_lt short
      rw [isMore, Nat.add_assoc, take_length_add_append, take_succ_cons, isLimit, Nat.add_assoc, Nat.add_assoc,
        readUntil_append unmarked, readUntil, if_pos rfl]
      have length : (codec.encode record ++ [newline]).length = (codec.encode record).length + 1 := by simp
      have replays := written.replays
      rw [← split, foldlM_append, reads.replays] at replays
      obtain ⟨_, ⟨⟩, replays⟩ := bind_eq_ok_iff.mp replays
      obtain ⟨replay, applied, -⟩ := bind_eq_ok_iff.mp replays
      rw [line] at decodes
      rw [if_neg (by omega), if_neg (by simp), decodes]
      dsimp only
      rw [if_neg (not_not.mpr ((written.own record member).trans reads.isSession.symm)), applied]
      refine .inr ⟨_, rfl, ⟨reads.isSession, ⟨rest, by simpa using split⟩, ?_, ?_⟩, by simp, ?_⟩
      · simp [text, line, reads.isOffset]
      · exact replays_concat reads.replays applied
      · dsimp only
        omega
    · rw [take_append_of_le_length (Nat.not_lt.mp complete)]
      have part : newline ∉ (codec.encode record).take (size - reader.offset) :=
        fun found => unmarked (mem_of_mem_take found)
      have shorter := length_take_le' (size - reader.offset) (codec.encode record)
      obtain ⟨room, isLimit⟩ := Nat.exists_eq_add_of_lt (Nat.lt_of_le_of_lt shorter short)
      have whole := readUntil_append part (room + 1 + 1) []
      simp only [append_nil, readUntil] at whole
      rw [isLimit, Nat.add_assoc, Nat.add_assoc, whole, if_neg (by omega),
        if_pos fun last => part (mem_of_getLast? last)]
      refine .inl ⟨rfl, .inl ?_⟩
      rw [isFile, length_append, isText, length_append, length_cons, ← reads.isOffset]
      omega

/-- The reads of a poll. Where each of them sees the whole file, each finds a record as long as there is one. -/
theorem Reads.readLines (sizes : List Nat) :
    ∃ next : Reader β ε σ, reader.readLines codec quotas journal.file sizes = .ok next ∧
      next.Reads codec sessionId journal.records ∧
      (next.offset = reader.offset ∨ ∃ size ∈ sizes, next.offset ≤ size) ∧
      reader.snapshot.length ≤ next.snapshot.length ∧
      ((∀ size ∈ sizes, size = journal.file.length) →
        min journal.records.length (reader.snapshot.length + sizes.length) ≤ next.snapshot.length) := by
  induction sizes generalizing reader with
  | nil => exact ⟨reader, rfl, reads, .inl rfl, Nat.le_refl _, fun _ => Nat.min_le_right _ _⟩
  | cons size sizes ih =>
    unfold Reader.readLines
    obtain ⟨none, seen⟩ | ⟨middle, found, middleReads, longer, inside⟩ := reads.readLine written readable size
    · rw [none]
      refine ⟨reader, rfl, reads, .inl rfl, Nat.le_refl _, fun whole => ?_⟩
      have all := seen.resolve_left (whole size mem_cons_self ▸ Nat.lt_irrefl _)
      exact all ▸ Nat.min_le_left _ _
    · rw [found]
      obtain ⟨next, ends, nextReads, offset, more, finds⟩ := ih middleReads
      refine ⟨next, ends, nextReads, .inr ?_, by omega, fun whole => ?_⟩
      · obtain same | ⟨other, isOther, within⟩ := offset
        · exact ⟨size, mem_cons_self, same ▸ inside⟩
        · exact ⟨other, mem_cons_of_mem _ isOther, within⟩
      · have most := finds fun other isOther => whole other (mem_cons_of_mem _ isOther)
        rw [length_cons]
        omega

theorem Reads.polls {polls : List Poll} (grows : Grows journal.file polls)
    (behind : ∀ size ∈ polls.flatMap Poll.seen, reader.offset ≤ size) :
    ∃ next : Reader β ε σ, reader.polls codec quotas journal.file polls = .ok next ∧
      next.Reads codec sessionId journal.records ∧
      min journal.records.length (reader.snapshot.length + 64 * polls.countP (·.complete journal.file)) ≤
        next.snapshot.length := by
  induction polls generalizing reader with
  | nil => exact ⟨reader, rfl, reads, Nat.min_le_right _ _⟩
  | cons poll polls ih =>
    obtain ⟨ordered, inside⟩ := grows
    simp only [flatMap_cons, Poll.seen, cons_append, pairwise_cons, pairwise_append, forall_mem_cons,
      forall_mem_append] at ordered inside behind
    obtain ⟨middle, ends, middleReads, offset, more, finds⟩ :=
      reads.readLines written readable (poll.sizes.take 64)
    have polled : (reader.poll codec quotas journal.file poll).map Prod.fst = .ok middle := by
      have bounded := Nat.le_trans inside.1 written.bounded
      rw [Reader.poll, if_neg (by omega), ends]
      rfl
    -- the next poll sees at least what the last read has seen
    have later : ∀ size ∈ polls.flatMap Poll.seen, middle.offset ≤ size := by
      intro size isLater
      obtain same | ⟨last, isLast, within⟩ := offset
      · exact same ▸ behind.2.2 size isLater
      · exact Nat.le_trans within (ordered.2.2.2 last (mem_of_mem_take isLast) size isLater)
    obtain ⟨next, follows, nextReads, most⟩ := ih middleReads ⟨ordered.2.2.1, inside.2.2⟩ later
    refine ⟨next, ?_, nextReads, ?_⟩
    · rw [Reader.polls, foldlM_cons, polled]
      exact follows
    · rw [countP_cons]
      split_ifs with whole
      · simp only [Poll.complete, Bool.and_eq_true, decide_eq_true_eq, all_eq_true] at whole
        have found := finds fun size isSize => whole.2 size (mem_of_mem_take isSize)
        rw [length_take, Nat.min_eq_left whole.1] at found
        omega
      · omega

end Reader

/-- However the polls fall while the journal grows: if every record can be read back and leaves room for its newline,
no poll fails and the reader shows the first records of the journal. After polls of the complete file that have room
for all records, it has exactly the records and the state of the writer. -/
theorem reader_follows_writer (codec : JournalCodec β ε σ) (quotas : Quotas) (sessionId : String)
    (requests : List (Append β ε)) (journal : FileJournal β ε σ)
    (appended : requests.foldlM (FileJournal.append codec quotas) (.create codec sessionId) = .ok journal)
    (readable : ∀ record ∈ journal.records, Readable codec quotas record) (polls : List Poll)
    (grows : Grows journal.file polls) :
    ∃ reader, Reader.polls codec quotas journal.file (.new codec sessionId) polls = .ok reader ∧
      reader.snapshot <+: journal.records ∧
      (journal.records.length ≤ 64 * polls.countP (·.complete journal.file) →
        reader.snapshot = journal.records ∧ reader.replay = journal.state) := by
  have written : journal.Written codec quotas sessionId :=
    foldlM_invariant (FileJournal.Written codec quotas sessionId)
      ⟨rfl, forall_mem_nil _, rfl, rfl, rfl, Nat.zero_le _⟩ (fun _ _ _ written => written.append) appended
  have start : Reader.Reads codec sessionId journal.records (.new codec sessionId) :=
    ⟨rfl, nil_prefix, rfl, rfl⟩
  obtain ⟨reader, ends, reads, most⟩ := start.polls written readable grows fun _ _ => Nat.zero_le _
  refine ⟨reader, ends, reads.shown, fun enough => ?_⟩
  rw [show (Reader.new codec sessionId).snapshot.length = 0 from rfl, Nat.zero_add, Nat.min_eq_left enough] at most
  have all := reads.shown.eq_of_length_le most
  have replays := reads.replays
  rw [all, written.replays] at replays
  exact ⟨all, (ok.inj replays).symm⟩

/-- Records that are written as their number of bytes. -/
def unaryCodec : JournalCodec Unit Unit Nat where
  encode record := replicate record.sequence 1
  decode line := some ⟨journalVersion, "s-1", line.length - 1, (), ()⟩
  newline_not_mem record := by simp [newline]
  replay := 0
  sequence := id
  apply state record := if record.sequence = state + 1 then .ok record.sequence else .error "Journal sequence gap"

/-- The journal of two records. -/
def unaryJournal : FileJournal Unit Unit Nat :=
  ⟨"s-1", 2, 5, 5, [1, 10, 1, 1, 10], [⟨journalVersion, "s-1", 1, (), ()⟩, ⟨journalVersion, "s-1", 2, (), ()⟩]⟩

/-- It is polled within its first line, within the second and at the end. -/
theorem reader_follows_writer_unary : ∃ reader,
    Reader.polls unaryCodec ⟨3, 10, 10⟩ unaryJournal.file (.new unaryCodec "s-1")
      [⟨1, [1]⟩, ⟨4, [4, 4]⟩, ⟨5, replicate 64 5⟩] = .ok reader ∧
    reader.snapshot = unaryJournal.records ∧ reader.replay = 2 := by
  have readable : ∀ record ∈ unaryJournal.records, Readable unaryCodec ⟨3, 10, 10⟩ record :=
    forall_mem_cons.mpr ⟨⟨by decide, by decide⟩, forall_mem_singleton.mpr ⟨by decide, by decide⟩⟩
  obtain ⟨reader, ends, -, all⟩ := reader_follows_writer unaryCodec ⟨3, 10, 10⟩ "s-1" (replicate 2 ⟨(), (), 0⟩)
    unaryJournal rfl readable [⟨1, [1]⟩, ⟨4, [4, 4]⟩, ⟨5, replicate 64 5⟩] ⟨by decide +kernel, by decide +kernel⟩
  exact ⟨reader, ends, all (by decide +kernel)⟩

/-- A record that is as long as the limit is accepted, and stops the reader. -/
theorem not_reader_follows_writer_limit : ∃ journal,
    (FileJournal.create unaryCodec "s-1").append unaryCodec ⟨1, 10, 10⟩ ⟨(), (), 0⟩ = .ok journal ∧
    Reader.polls unaryCodec ⟨1, 10, 10⟩ journal.file (.new unaryCodec "s-1") [⟨2, [2]⟩] =
      .error "Conversation record exceeds its limit" :=
  ⟨_, rfl, rfl⟩

end Ferrus.Nano
