/-!
# Metrics

The quantities that the controller counts, and the text in which they are declared to those who
collect them.  `Metric.declarations` lists them by name.
-/

namespace PipelineStacks

/-- Why a stack is looked at again. -/
inductive RequeueReason
  | periodic
  | errorBackoff
deriving DecidableEq, Repr, Inhabited

/-- The label of a reason. -/
def RequeueReason.label : RequeueReason → String
  | .periodic => "periodic"
  | .errorBackoff => "error-backoff"

/-- Something that is counted.  Of durations, the number of samples counts. -/
inductive Metric
  | archiveCacheHits
  | archiveFetchDuration
  | archiveFetchErrors
  | archiveFetches
  | assetsApplied
  | assetsDeleted
  | assetsFailed
  | reconciliationDuration
  | reconciliationErrors
  | reconciliations
  | requeues (reason : RequeueReason)
deriving DecidableEq, Repr, Inhabited

namespace Metric

/-- The name without the name of the controller. -/
def shortName : Metric → String
  | archiveCacheHits => "archive_cache_hits_total"
  | archiveFetchDuration => "archive_fetch_duration_seconds"
  | archiveFetchErrors => "archive_fetch_errors_total"
  | archiveFetches => "archive_fetches_total"
  | assetsApplied => "assets_applied_total"
  | assetsDeleted => "assets_deleted_total"
  | assetsFailed => "assets_failed_total"
  | reconciliationDuration => "reconciliation_duration_seconds"
  | reconciliationErrors => "reconciliation_errors_total"
  | reconciliations => "reconciliations_total"
  | requeues _ => "requeues_total"

/-- The full name. -/
def name (m : Metric) : String :=
  "stack_controller_" ++ m.shortName

/-- What is counted. -/
def help : Metric → String
  | archiveCacheHits => "Total number of archive downloads answered with 304 Not Modified"
  | archiveFetchDuration => "Duration of pipeline archive fetch and decode in seconds"
  | archiveFetchErrors => "Total number of pipeline archive fetch or verification failures"
  | archiveFetches => "Total number of pipeline archive fetches"
  | assetsApplied => "Total number of pipeline assets created in the cluster"
  | assetsDeleted => "Total number of pipeline assets released by a Stack"
  | assetsFailed => "Total number of pipeline assets that could not be applied"
  | reconciliationDuration => "Duration of Stack reconciliation in seconds"
  | reconciliationErrors => "Total number of Stack reconciliation errors"
  | reconciliations => "Total number of Stack reconciliations"
  | requeues _ => "Total number of reconciliation requeues"

/-- Durations are collected in a histogram. -/
def isHistogram : Metric → Bool
  | archiveFetchDuration | reconciliationDuration => true
  | _ => false

/-- One metric of each name, sorted by name. -/
def all : List Metric :=
  [archiveCacheHits, archiveFetchDuration, archiveFetchErrors, archiveFetches, assetsApplied,
    assetsDeleted, assetsFailed, reconciliationDuration, reconciliationErrors, reconciliations,
    requeues .periodic]

theorem exists_mem_all_name (m : Metric) : ∃ m' ∈ all, m'.name = m.name := by
  cases m with
  | requeues _ => exact ⟨requeues .periodic, by simp [all], rfl⟩
  | _ => exact ⟨_, by simp [all], rfl⟩

/-- The two lines that declare a metric. -/
def declaration (m : Metric) : List String :=
  ["# HELP " ++ m.name ++ " " ++ m.help,
    "# TYPE " ++ m.name ++ " " ++ if m.isHistogram then "histogram" else "counter"]

/-- The lines that declare all metrics. -/
def declarations : List String :=
  all.flatMap declaration

end Metric

end PipelineStacks
