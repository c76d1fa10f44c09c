import CompilationBridge.Path

/-!
The files of a project. A project is known by the path of its manifest; the lock file that a restore
writes stands beside it, and a settings file at the root of a solution lists where projects are.
-/

namespace CompilationBridge.Manifest

def fileName : String := "project.json"

def lockFileName : String := "project.lock.json"

def settingsFileName : String := "global.json"

/-- The lock file beside a manifest. -/
def lockFile (manifest : String) : String :=
  Path.append (Path.dir manifest) lockFileName

/-- The manifest that owns a lock file. -/
def ofLockFile (lock : String) : String :=
  Path.append (Path.dir lock) fileName

end CompilationBridge.Manifest
