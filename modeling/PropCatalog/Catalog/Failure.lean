import PropCatalog.Catalog.Scan
import PropCatalog.Config.Load

/-!
# Failures

The reasons why a command fails, with their texts and the exit code that each gives.
-/

namespace PropCatalog.Catalog

open Files (PathError)

/-- Why a document cannot be written. -/
inductive WriteProblem where
  | makeDirectory (path : Text) (error : PathError)
  | writeFile (path : Text) (error : PathError)

def WriteProblem.message : WriteProblem → Text
  | .makeDirectory path error =>
    "Failed to create directory ".toList ++ path ++ ": ".toList ++ error.message
  | .writeFile path error => "Failed to write file ".toList ++ path ++ ": ".toList ++ error.message

/-- Why a command fails. -/
inductive Failure where
  | scan (problem : ScanProblem)
  | config (problem : Config.LoadProblem)
  | targetUnreadable (path : Text) (error : PathError)
  | splice (problem : Document.RegionProblem)
  | write (problem : WriteProblem)
  | watch
  | outOfDate
  | configExists (path : Text)
  | configUnwritable (error : PathError)

namespace Failure

def message : Failure → Text
  | scan problem => "Failed to scan directory: ".toList ++ problem.message
  | config problem => "Failed to load configuration: ".toList ++ problem.message
  | targetUnreadable path error =>
    "Failed to read target document ".toList ++ path ++ ": ".toList ++ error.message
  | splice problem => "Failed to update target document: ".toList ++ problem.message
  | write problem => "Failed to write output: ".toList ++ problem.message
  | watch => "Watch error: Failed to initialize file watcher".toList
  | outOfDate => "Validation failed: Template section is out of date".toList
  | configExists path => "IO error: configuration file already exists: ".toList ++ path
  | configUnwritable error => "IO error: ".toList ++ error.message

/-- The exit code of a failure: 2 for a document that is not up to date, and 1 for all else. -/
def exitCode : Failure → Nat
  | outOfDate => 2
  | _ => 1

end Failure

end PropCatalog.Catalog
