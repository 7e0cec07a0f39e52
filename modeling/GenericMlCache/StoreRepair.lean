import GenericMlCache.ServicePorts

/-!
# Repair

The repair pass as a program: each run awaiting persistence is reconciled
against the blobs that are there, and finalized when none was missing. It takes
no lock.
-/

namespace GenericMlCache.StoreRepair

open CallProgram PythonText ExecutionModel ExecutionQueries RepositoryCalls ServicePorts

variable {Command : Type}

/-- What a repair pass counts. -/
structure RepairReport where
  /-- The runs that were promoted. -/
  runsRecovered : ℕ
  /-- The runs that were not. -/
  runsUnrecoverable : ℕ
  /-- The blobs found in the store. -/
  blobsReconciled : ℕ
  /-- The blobs found missing. -/
  blobsMissing : ℕ
deriving DecidableEq,Repr

/-- The detail of a document found missing. -/
def missingDetail : PyStr := pyStr "blob missing on repair"

/-- The inner loop: reconcile a run's listed blobs, counting present and missing. -/
def reconcileBlobs (executionId : ExecutionId) : List BlobKey → ServiceM Command (ℕ × ℕ)
  | [] => return (0,0)
  | blobKey::rest => do
    let content ← ask (.blobGet blobKey)
    if content.isSome=true then
      let _ ← store (.markArtifactsStored executionId blobKey)
      let counts ← reconcileBlobs executionId rest
      return (counts.1+1,counts.2)
    else
      let _ ← store (.markArtifactsFailed executionId blobKey missingDetail)
      let counts ← reconcileBlobs executionId rest
      return (counts.1,counts.2+1)

/-- One run: finalized when every listed blob was present. -/
def repairRun (run : UnpersistedRun) (report : RepairReport) : ServiceM Command RepairReport := do
  let (reconciled,missing) ← reconcileBlobs run.executionId run.blobKeys
  let report := { report with
    blobsReconciled := report.blobsReconciled+reconciled
    blobsMissing := report.blobsMissing+missing }
  if missing=0 then
    let _ ← store (.finalizeOutputPersisted run.executionId)
    return { report with runsRecovered := report.runsRecovered+1 }
  else return { report with runsUnrecoverable := report.runsUnrecoverable+1 }

/-- The outer loop. -/
def repairRuns : List UnpersistedRun → RepairReport → ServiceM Command RepairReport
  | [],report => return report
  | run::rest,report => do
    let report ← repairRun run report
    repairRuns rest report

/-- `repair`. -/
def repair : ServiceM Command RepairReport := do
  let runs ← store .runsAwaitingPersistence
  repairRuns runs ⟨0,0,0,0⟩

end GenericMlCache.StoreRepair
