import CompilationBridge.Message
import CompilationBridge.Workspace

/-!
Host messages in the workspace's terms: compiler settings as compilation and parse options, and a
framework variant as a workspace project.
-/

namespace CompilationBridge

/-- The platform of a variant that names none. -/
def defaultPlatform : String := "AnyCpu"

def CompilerOptions.compilation (o : CompilerOptions) : Workspace.CompilationOptions where
  outputKind := if o.emitEntryPoint then "ConsoleApplication" else "DynamicallyLinkedLibrary"
  optimizationLevel := if o.optimize then "Release" else "Debug"
  allowUnsafe := o.allowUnsafe
  warningsAsErrors := o.warningsAsErrors
  platform := if o.platform = "" then defaultPlatform else o.platform
  emitEntryPoint := o.emitEntryPoint

def CompilerOptions.parse (o : CompilerOptions) : Workspace.ParseOptions where
  languageVersion := o.languageVersion
  preprocessorSymbols := o.defines.getD []

/-- The workspace's description of a variant: the project's name and the framework's short name. -/
def Framework.projectInfo (f : Framework) (handle : Handle) (name path : String) :
    Workspace.ProjectInfo where
  handle := handle
  name := name ++ "+" ++ f.shortName
  filePath := path
  framework := f.name

end CompilationBridge
