import ExtensionLint.Report.Document
import ExtensionLint.Results

/-! The outcome of a run as a document. -/
namespace ExtensionLint

open Data

def Duration.toValue (d : Duration) : Value :=
  .table [("secs", .integer d.seconds), ("nanos", .integer d.nanos)]

def FileStatus.toValue : FileStatus → Value
  | .checked => .table [("status", .text "checked")]
  | .skipped reason => .table [("status", .text "skipped"), ("reason", .text reason)]
  | .failed message => .table [("status", .text "failed"), ("message", .text message)]

def FileReport.toValue (r : FileReport) : Value :=
  .table [
    ("path", .text r.path),
    ("status", r.status.toValue),
    ("rules", .list (r.rules.map fun id => .text id.label)),
    ("entries", .list (r.entries.map Entry.toValue)),
    ("duration", r.duration.toValue)]

/-- The outcome of a run with the given reports on files as a record; the numbers are those of the
outcome. -/
def Results.toValue (r : Results) (files : List FileReport) : Value :=
  .table [
    ("started_at", .text r.startedAt.document),
    ("total_files", .integer r.numbers.total),
    ("checked_files", .integer r.checkedFiles),
    ("skipped_files", .integer r.skippedFiles),
    ("failed_files", .integer r.failedFiles),
    ("error_count", .integer (r.count .error)),
    ("warning_count", .integer (r.count .warning)),
    ("notice_count", .integer (r.count .notice)),
    ("discovery_duration", r.discovery.toValue),
    ("total_duration", r.total.toValue),
    ("file_results", .list (files.map FileReport.toValue))]

end ExtensionLint
