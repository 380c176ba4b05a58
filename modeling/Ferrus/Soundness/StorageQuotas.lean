import Ferrus.Proofs.DeletionSteps
import Ferrus.Soundness.PublicationSwap
import Ferrus.ToMathlib.TableTotals

/-! # Storage stays within its quotas

Every store counts what it holds of a project before it adds to it, in the transaction that adds. A package of
objects is counted as a whole, and a publication counts again before its second revision. Deletions only remove,
so the totals stay within fixed quotas in every run. What is refused adds nothing.
-/

namespace Ferrus.Distributed

open Ferrus.Machine PublicationTables DeletionSystem List Table

/-- The limits that the stores are configured with. -/
structure StorageQuotas where
  objects : ObjectStoreQuota
  facts : FactStoreQuota
  publications : RemoteStoreLimits
deriving DecidableEq, Repr

/-- What is stored of one project. -/
structure StorageTotals where
  (objectCount objectBytes batchCount batchBytes revisionCount factCount ciphertextBytes : Nat)
deriving DecidableEq, Repr

def RemoteStores.totals (stores : RemoteStores) (project : ProjectKey) : StorageTotals where
  objectCount := stores.objects.objectCount project
  objectBytes := stores.objects.objectBytes project
  batchCount := stores.facts.batchCount project
  batchBytes := stores.facts.batchBytes project
  revisionCount := stores.database.publications.revisionCount project
  factCount := stores.database.publications.factCount project
  ciphertextBytes := stores.database.publications.ciphertextBytes project

structure StorageTotals.Within (totals : StorageTotals) (quotas : StorageQuotas) : Prop where
  objectCount : totals.objectCount ≤ quotas.objects.maxObjectsPerProject
  objectBytes : totals.objectBytes ≤ quotas.objects.maxBytesPerProject
  batchCount : totals.batchCount ≤ quotas.facts.maxBatchesPerProject
  batchBytes : totals.batchBytes ≤ quotas.facts.maxBytesPerProject
  revisionCount : totals.revisionCount ≤ quotas.publications.maxSnapshotsPerProject
  factCount : totals.factCount ≤ quotas.publications.maxFactsPerProject
  ciphertextBytes : totals.ciphertextBytes ≤ quotas.publications.maxBytesPerProject

/-- The request is made of stores with these limits. -/
def ClientRequest.isUnder (quotas : StorageQuotas) : ClientRequest → Bool
  | .coordinate _ => true
  | .putFacts quota .. => quota = quotas.facts
  | .publishGraph limits .. | .publishMemory limits .. => limits = quotas.publications
  | .putObject quota .. | .putObjects quota .. => quota = quotas.objects

/-- The deletion stops with an error. -/
def DeletionProcess.isStopped (process : DeletionProcess) : Bool :=
  process.phase = .recordFailure || process.phase = .refused

/-- The operation is refused: an error is returned, or a deletion stops here. -/
def DeletionSystem.refuses (codec : StoreCodec) (system : DeletionSystem) : DeletionEvent → Bool
  | .client request =>
      match system.stores.serve codec request with
      | .ok _ => false
      | .error _ => true
  | .start _ => false
  | .advance index now => system.processes[index]?.any fun process => (process.advance system.stores now).2.isStopped
  | .interrupt .. => true

/-! ## Totals of tables -/

section

variable (db : ObjectDatabase) (facts : FactDatabase) (tables : PublicationTables) (project : ProjectKey)

private theorem objectCount_eq :
    db.objectCount project = db.objects.total (fun key => ObjectKey.project key = project) (fun _ => 1) := by
  rw [← length_select, ObjectDatabase.objectCount, ObjectDatabase.ofProject, length_map]

private theorem objectBytes_eq :
    db.objectBytes project = db.objects.total (fun key => ObjectKey.project key = project) id := rfl

private theorem batchCount_eq :
    facts.batchCount project = facts.batches.total (fun key => BatchKey.project key = project) (fun _ => 1) := by
  rw [← length_select, FactDatabase.batchCount, FactDatabase.ofProject, length_map]

private theorem batchBytes_eq :
    facts.batchBytes project = facts.batches.total (fun key => BatchKey.project key = project) (·.byteLen) := by
  rw [FactDatabase.batchBytes, FactDatabase.ofProject, map_map]
  rfl

private theorem revisionCount_eq :
    tables.revisionCount project = tables.revisions.total (fun key => ScopedKey.project key = project)
      (fun _ => 1) := by
  rw [← length_select, revisionCount, ofProject, length_map]

private theorem factCount_eq :
    tables.factCount project = tables.revisions.total (fun key => ScopedKey.project key = project)
      (·.facts.length) := by
  rw [factCount, ofProject, map_map]
  rfl

private theorem ciphertextBytes_eq : tables.ciphertextBytes project =
      tables.revisions.total (fun key => ScopedKey.project key = project) (fun row => ciphertextTotal row.facts) := by
  rw [ciphertextBytes, ofProject, map_map]
  rfl

end

/-! ## One store -/

def ObjectDatabase.Fits (quota : ObjectStoreQuota) (db : ObjectDatabase) : Prop :=
  ∀ project, db.objectCount project ≤ quota.maxObjectsPerProject ∧ db.objectBytes project ≤ quota.maxBytesPerProject

def FactDatabase.Fits (quota : FactStoreQuota) (facts : FactDatabase) : Prop :=
  ∀ project, facts.batchCount project ≤ quota.maxBatchesPerProject ∧ facts.batchBytes project ≤ quota.maxBytesPerProject

def PublicationTables.Fits (limits : RemoteStoreLimits) (tables : PublicationTables) : Prop :=
  ∀ project, tables.revisionCount project ≤ limits.maxSnapshotsPerProject ∧
    tables.factCount project ≤ limits.maxFactsPerProject ∧ tables.ciphertextBytes project ≤ limits.maxBytesPerProject

variable {db next : ObjectDatabase} {facts : FactDatabase}

section Deleted

variable {objectQuota : ObjectStoreQuota} {factQuota : FactStoreQuota} {limits : RemoteStoreLimits}

theorem ObjectDatabase.Fits.deleted (fits : db.Fits objectQuota) (selected : ObjectKey → Nat → Bool)
    (deleted : next.objects = db.objects.deleteWhere selected) : next.Fits objectQuota := by
  intro project
  have count := db.objects.total_deleteWhere_le selected (fun key => ObjectKey.project key = project) fun _ => 1
  have bytes := db.objects.total_deleteWhere_le selected (fun key => ObjectKey.project key = project) id
  rw [objectCount_eq, objectBytes_eq, deleted]
  exact ⟨count.trans (objectCount_eq db project ▸ (fits project).1), bytes.trans (fits project).2⟩

theorem FactDatabase.Fits.deleted {next : FactDatabase} (fits : facts.Fits factQuota)
    (selected : BatchKey → StoredBatch → Bool) (deleted : next.batches = facts.batches.deleteWhere selected) :
    next.Fits factQuota := by
  intro project
  have count := facts.batches.total_deleteWhere_le selected (fun key => BatchKey.project key = project) fun _ => 1
  have bytes := facts.batches.total_deleteWhere_le selected (fun key => BatchKey.project key = project) (·.byteLen)
  rw [batchCount_eq, batchBytes_eq, deleted]
  exact ⟨count.trans (batchCount_eq facts project ▸ (fits project).1),
    bytes.trans (batchBytes_eq facts project ▸ (fits project).2)⟩

theorem PublicationTables.Fits.deleted {tables next : PublicationTables} (fits : tables.Fits limits)
    (selected : ScopedKey → RevisionRow → Bool) (deleted : next.revisions = tables.revisions.deleteWhere selected) :
    next.Fits limits := by
  intro project
  have less := tables.revisions.total_deleteWhere_le selected fun key => ScopedKey.project key = project
  rw [revisionCount_eq, factCount_eq, ciphertextBytes_eq, deleted]
  obtain ⟨revisions, facts, bytes⟩ := fits project
  rw [revisionCount_eq] at revisions
  rw [factCount_eq] at facts
  rw [ciphertextBytes_eq] at bytes
  exact ⟨(less _).trans revisions, (less _).trans facts, (less _).trans bytes⟩

end Deleted

variable {project : RemoteProjectRef}

/-- The objects of a package add up. -/
private theorem writes_total (weight : Nat → Nat) (other : ProjectKey) (pending : List VerifiedObject)
    (db : ObjectDatabase)
    (absent : ∀ object ∈ pending, db.objects.get? (objectKey project object.contentIdentity) = none)
    (distinct : (pending.map (·.contentIdentity)).Nodup) :
    (pending.foldl (fun db object => db.write project object) db).objects.total
        (fun key => ObjectKey.project key = other) weight =
      db.objects.total (fun key => ObjectKey.project key = other) weight +
        if project.key = other then (pending.map (fun object => weight object.byteLen)).sum else 0 := by
  induction pending generalizing db with
  | nil => simp
  | cons object rest ih =>
    obtain ⟨here, later⟩ := forall_mem_cons.mp absent
    obtain ⟨fresh, restDistinct⟩ := nodup_cons.mp distinct
    have stillAbsent :
        ∀ next ∈ rest, (db.write project object).objects.get? (objectKey project next.contentIdentity) = none := by
      intro next member
      change (db.objects.insertNew _ _).get? _ = none
      rw [get?_insertNew, if_neg]
      · exact later next member
      · intro same
        have sameId : next.contentIdentity = object.contentIdentity := congrArg (fun key => (ofLex key).2) same
        exact fresh (mem_map.mpr ⟨next, member, sameId⟩)
    rw [foldl_cons, ih _ stillAbsent restDistinct]
    change (db.objects.insertNew _ _).total _ _ + _ = _
    rw [total_insertNew _ _ here]
    by_cases own : project.key = other
    · have chosen : ObjectKey.project (objectKey project object.contentIdentity) = other := own
      simp only [chosen, decide_true, if_true, own, map_cons, sum_cons, Nat.add_assoc]
    · have spared : ObjectKey.project (objectKey project object.contentIdentity) ≠ other := own
      simp only [spared, decide_false, own, if_false, Bool.false_eq_true, Nat.add_zero]

theorem PutsObjects.keepsFit {quota : ObjectStoreQuota} {pending : List VerifiedObject}
    (puts : PutsObjects quota project db pending next) (before : db.Fits quota) : next.Fits quota := by
  intro other
  have count := writes_total (fun _ => 1) other pending db puts.absent puts.distinct
  have bytes := writes_total id other pending db puts.absent puts.distinct
  rw [← puts.written, ← objectCount_eq, ← objectCount_eq, map_const', sum_replicate_nat, Nat.mul_one] at count
  rw [← puts.written, ← objectBytes_eq, ← objectBytes_eq] at bytes
  obtain ⟨countBefore, bytesBefore⟩ := before other
  by_cases own : project.key = other
  · subst own
    rw [if_pos rfl] at count bytes
    rcases puts.fits with rfl | ⟨countFits, bytesFit⟩
    · exact ⟨count ▸ countBefore, bytes ▸ bytesBefore⟩
    · exact ⟨count ▸ countFits, bytes ▸ bytesFit⟩
  · rw [if_neg own] at count bytes
    exact ⟨count ▸ countBefore, bytes ▸ bytesBefore⟩

theorem PutsBatch.fits {codec : BatchCodec} {quota : FactStoreQuota} {next : FactDatabase}
    {control : ControlDatabase} {batch : FactBatch} {outcome : PutFactBatchOutcome}
    (puts : PutsBatch codec quota facts (facts.dropFinished control batch.header.job.project) batch next outcome)
    (before : facts.Fits quota) : next.Fits quota := by
  cases puts with
  | reused => exact before
  | stored absent _ countFits bytesFit =>
    have cleaned : (facts.dropFinished control batch.header.job.project).Fits quota :=
      before.deleted (fun key _ => BatchKey.project key = batch.header.job.project.key && control.hasFinished key) rfl
    intro other
    obtain ⟨countBefore, bytesBefore⟩ := cleaned other
    rw [batchCount_eq, batchBytes_eq, total_insertNew _ _ absent, total_insertNew _ _ absent, ← batchCount_eq,
      ← batchBytes_eq]
    by_cases own : batch.header.job.project.key = other
    · subst own
      have chosen : BatchKey.project batch.key = batch.header.job.project.key := rfl
      simp only [chosen, decide_true, if_true]
      exact ⟨countFits, bytesFit⟩
    · have spared : BatchKey.project batch.key ≠ other := own
      simp only [spared, decide_false, Bool.false_eq_true, if_false, Nat.add_zero]
      exact ⟨countBefore, bytesBefore⟩

variable {limits : RemoteStoreLimits}

theorem Admits.fits {project : ProjectKey} {old new : PublicationTables}
    (admits : Admits limits project old new) (before : old.Fits limits) : new.Fits limits := by
  cases admits with
  | kept same =>
    intro other
    rw [revisionCount_eq, factCount_eq, ciphertextBytes_eq, same, ← revisionCount_eq, ← factCount_eq,
      ← ciphertextBytes_eq]
    exact before other
  | inserted scope _ absent within same =>
    intro other
    obtain ⟨revisions, facts, bytes⟩ := before other
    rw [revisionCount_eq, factCount_eq, ciphertextBytes_eq, same, total_insertNew _ _ absent,
      total_insertNew _ _ absent, total_insertNew _ _ absent, ← revisionCount_eq, ← factCount_eq,
      ← ciphertextBytes_eq, scope]
    by_cases own : project = other
    · subst own
      simp only [withinQuota, Bool.and_eq_true, decide_eq_true_eq] at within
      simp only [decide_true, if_true]
      exact ⟨within.1.1, within.1.2, within.2⟩
    · simp only [own, decide_false, Bool.false_eq_true, if_false, Nat.add_zero]
      exact ⟨revisions, facts, bytes⟩

/-! ## All stores -/

/-- Every store fits its quotas. -/
structure RemoteStores.Fits (quotas : StorageQuotas) (stores : RemoteStores) : Prop where
  objects : stores.objects.Fits quotas.objects
  facts : stores.facts.Fits quotas.facts
  publications : stores.database.publications.Fits quotas.publications

theorem RemoteStores.Fits.within {quotas : StorageQuotas} {stores : RemoteStores} (fits : stores.Fits quotas)
    (project : ProjectKey) : (stores.totals project).Within quotas :=
  ⟨(fits.objects project).1, (fits.objects project).2, (fits.facts project).1, (fits.facts project).2,
    (fits.publications project).1, (fits.publications project).2.1, (fits.publications project).2.2⟩

variable {quotas : StorageQuotas} {stores next : RemoteStores} {request : ClientRequest} {now : Int}

theorem ClientRequest.isUnder_publication {asked : PublicationRequest}
    (asks : request.publication? = some (limits, asked, now)) (under : request.isUnder quotas = true) :
    limits = quotas.publications := by
  cases request with
  | publishGraph | publishMemory =>
    cases asks
    exact of_decide_eq_true under
  | coordinate | putFacts | putObject | putObjects => cases asks

variable {codec : StoreCodec}

theorem Serves.fits {reply : ClientReply} (serves : Serves codec stores request next reply)
    (under : request.isUnder quotas = true) (before : stores.Fits quotas) : next.Fits quotas := by
  cases serves with
  | coordinated | replayed => exact { before with }
  | factsPut put =>
    obtain rfl := of_decide_eq_true under
    obtain ⟨_, _, _, puts⟩ := put_cases put
    exact ⟨before.objects, puts.fits before.facts, before.publications⟩
  | published asks _ publishes =>
    obtain ⟨middle, first, second⟩ := publishes.admitted
    obtain rfl := ClientRequest.isUnder_publication asks under
    exact ⟨before.objects, before.facts, second.fits (first.fits before.publications)⟩
  | objectPut put =>
    obtain rfl := of_decide_eq_true under
    obtain ⟨_, puts⟩ := putVerified_puts put
    exact ⟨puts.keepsFit before.objects, before.facts, before.publications⟩
  | objectsPut put =>
    obtain rfl := of_decide_eq_true under
    obtain ⟨_, puts⟩ := putVerifiedBatch_puts put
    exact ⟨puts.keepsFit before.objects, before.facts, before.publications⟩

theorem DeletionWrites.fits {deletion : DeleteDataRequest} (writes : DeletionWrites deletion stores next)
    (before : stores.Fits quotas) : next.Fits quotas := by
  obtain ⟨objects, facts, publications⟩ := before
  cases writes with
  | kept | begun | recorded | releasedFacts | releasedObjects | releasedControl => exact ⟨objects, facts, publications⟩
  | purgedObjects purges =>
    obtain ⟨_, _, rfl⟩ := Except.map_eq_ok_iff.mp purges
    exact ⟨objects.deleted (fun key _ => ObjectKey.project key = deletion.target.projectRef.key) rfl, facts,
      publications⟩
  | tornFiles =>
    unfold ObjectDatabase.tearFiles
    split <;> exact ⟨objects, facts, publications⟩
  | @purgedFacts jobs _ purges =>
    obtain ⟨_, _, rfl⟩ := Except.map_eq_ok_iff.mp purges
    exact ⟨objects, facts.deleted (fun key _ => deletion.purgesBatch jobs key) rfl, publications⟩
  | purgedControl => exact ⟨objects, facts, publications.deleted (fun key _ => deletion.purgesRevision key) rfl⟩

/-! ## Refused operations -/

namespace DeletionProcess

variable {process : DeletionProcess}

theorem goOn_stopped {result : Except MaintenanceStoreError RemoteStores} {after onError : DeletionPhase}
    (goes : ({ process with phase := after }).isStopped = false)
    (stops : (process.goOn stores result after onError).2.isStopped = true) :
    (process.goOn stores result after onError).1 =
      { stores with deletions := (process.goOn stores result after onError).1.deletions } := by
  unfold goOn at stops ⊢
  split
  · exact absurd (goes.symm.trans stops) Bool.false_ne_true
  · rfl

/-- A deletion that stops has written nothing but its record. -/
theorem advance_stopped (stops : (process.advance stores now).2.isStopped = true) :
    (process.advance stores now).1 = { stores with deletions := (process.advance stores now).1.deletions } := by
  revert stops
  unfold advance
  cases process.phase with
  | begin =>
    dsimp only
    split_ifs
    · exact fun _ => rfl
    · split
      · next next stored begins =>
        intro stops
        split at stops <;> cases stops
      · exact fun _ => rfl
  | purgeObjects | purgeFacts =>
    dsimp only
    split
    · exact goOn_stopped rfl
    · exact nofun
  | recordObjects | recordFacts | purgeControl | finish => exact goOn_stopped rfl
  | releaseFacts | releaseObjects =>
    dsimp only
    split_ifs <;> exact nofun
  | listJobs | checkFacts | releaseControl => exact nofun
  | complete | recordFailure | refused => exact fun _ => rfl

theorem interrupt_totals (removed : List ObjectKey) (project : ProjectKey) :
    ((process.interrupt stores removed).1).totals project = stores.totals project := by
  unfold interrupt
  cases process.phase with
  | purgeObjects =>
    dsimp only
    split
    · unfold ObjectDatabase.tearFiles
      split <;> rfl
    · rfl
  | begin | listJobs | recordObjects | purgeFacts | recordFacts | checkFacts | purgeControl | finish | releaseFacts
  | releaseObjects | releaseControl | complete | recordFailure | refused => rfl

end DeletionProcess

variable {system : DeletionSystem} {event : DeletionEvent}

/-- What is refused leaves the totals. -/
theorem DeletionSystem.totals_of_refuses (refused : system.refuses codec event = true) (project : ProjectKey) :
    (system.step codec event).stores.totals project = system.stores.totals project := by
  cases event with
  | client request =>
    simp only [refuses] at refused
    simp only [step, RemoteStores.afterRequest]
    split at refused
    · cases refused
    · next error serves => rw [serves]
  | start => cases refused
  | advance index now =>
    obtain ⟨process, found, stops⟩ := (Option.any_eq_true _ _).mp refused
    simp only [step, act, Option.mem_def.mp found]
    rw [DeletionProcess.advance_stopped stops]
    rfl
  | interrupt index removed =>
    simp only [step, act]
    split
    · rfl
    · exact DeletionProcess.interrupt_totals removed project

/-! ## Runs -/

theorem DeletionSystem.fits_step (under : ∀ request, event = .client request → request.isUnder quotas = true)
    (carry : system.Carry) (fits : system.stores.Fits quotas) : (system.step codec event).stores.Fits quotas := by
  by_cases client : ∃ request, event = .client request
  · obtain ⟨request, rfl⟩ := client
    exact afterRequest_of_serves (P := RemoteStores.Fits quotas) fits
      (fun next reply serves => serves.fits (under request rfl) fits)
  · rcases (system.step_stepped codec carry _).2 (fun request same => client ⟨request, same⟩) with same |
      ⟨_, _, _, _, writes⟩
    · rw [same]
      exact fits
    · exact writes.fits fits

/-- Under fixed limits, whatever clients and deletions do, what is stored of a project stays within its quotas, and an
operation that is refused leaves every total. -/
theorem storage_within_quotas (codec : StoreCodec) (quotas : StorageQuotas) (events : List DeletionEvent)
    (under : ∀ request, .client request ∈ events → request.isUnder quotas = true) :
    (∀ project, ((run (step codec) .empty events).stores.totals project).Within quotas) ∧
    EveryStep (step codec) (fun source event target => source.refuses codec event = true →
      ∀ project, target.stores.totals project = source.stores.totals project) .empty events := by
  constructor
  · let Q (_ : DeletionSystem) (event : DeletionEvent) (_ : DeletionSystem) : Prop :=
      ∀ request, event = .client request → request.isUnder quotas = true
    have limited : EveryStep (step codec) Q .empty events :=
      EveryStep.of_mem (P := Q) (fun event member _ request same => under request (same ▸ member)) _
    have empty : RemoteStores.empty.Fits quotas :=
      ⟨fun _ => ⟨Nat.zero_le _, Nat.zero_le _⟩, fun _ => ⟨Nat.zero_le _, Nat.zero_le _⟩,
        fun _ => ⟨Nat.zero_le _, Nat.zero_le _, Nat.zero_le _⟩⟩
    have reached := EveryStep.run_invariant
      (fun system : DeletionSystem => system.Carry ∧ system.stores.Fits quotas) limited
      ⟨nofun, empty⟩ fun source event ⟨carry, fits⟩ allowed =>
        ⟨carry.step codec event, fits_step allowed carry fits⟩
    exact reached.2.within
  · exact EveryStep.of_forall (fun _ _ refused => totals_of_refuses refused) _ _

def exampleQuotas : StorageQuotas := ⟨⟨1, 3, 10⟩, ⟨1, 10, 10⟩, exampleStoreLimits⟩

/-- An object, a batch and a publication of one project. -/
def storingEvents : List DeletionEvent :=
  .client (.putObject exampleQuotas.objects exampleProject ⟨"content", [1, 2, 3]⟩) ::
    (publishingRequests.take 3).map (fun request => .client request.1) ++
    [.client (.putFacts exampleQuotas.facts exampleBatch ⟨"worker-1", 1⟩ (atSecond 3)),
      .client (.coordinate (.beginPublication exampleAdvance (atSecond 3))), .client (examplePublish none (atSecond 4))]

/-- One of each is stored, which the quotas allow. -/
theorem storage_within_quotas_stored :
    (run (step exampleCodec) .empty storingEvents).stores.totals exampleProject.key =
      ⟨1, 3, 1, 1, 1, 0, 0⟩ ∧ (⟨1, 3, 1, 1, 1, 0, 0⟩ : StorageTotals).Within exampleQuotas := by
  have under : ∀ request, .client request ∈ storingEvents → request.isUnder exampleQuotas = true := by
    intro request member
    simp only [storingEvents, publishingRequests, take, map, cons_append, nil_append, mem_cons,
      not_mem_nil, or_false, DeletionEvent.client.injEq] at member
    rcases member with rfl | rfl | rfl | rfl | rfl | rfl | rfl <;> rfl
  refine ⟨?stored,
    ?stored ▸ (storage_within_quotas exampleCodec exampleQuotas storingEvents under).1 exampleProject.key⟩
  decide

end Ferrus.Distributed
