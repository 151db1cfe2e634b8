/-!
Diagnostic events. They go to the log and never into a report.
-/
namespace FormatPreview

inductive Level where
  | error
  | warn
  | debug
deriving DecidableEq

inductive Event where
  | entryUnreadable (pattern error : String)
  | noFilesMatched (pattern : String)
  | readFailed (path error : String)
  | formatFailed (path error : String)
  | formatStart (path : String) (parser : Option String)
  | complete (files : Nat)
deriving DecidableEq

namespace Event

def level : Event → Level
  | .noFilesMatched _ | .readFailed .. => .warn
  | .formatFailed .. => .error
  | .entryUnreadable .. | .formatStart .. | .complete _ => .debug

def name : Event → String
  | .entryUnreadable .. => "glob_entry_unreadable"
  | .noFilesMatched _ => "no_files_matched_pattern"
  | .readFailed .. => "read_failed_skipping"
  | .formatFailed .. => "format_failed"
  | .formatStart .. => "format_start"
  | .complete _ => "diffcheck_complete"

end Event

end FormatPreview
