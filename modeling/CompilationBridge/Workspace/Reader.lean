import CompilationBridge.Json.Reader
import CompilationBridge.Workspace

/-!
Options of a compilation, read from the documents that they are written as.
-/

namespace CompilationBridge.Workspace

open Json (field)

def CompilationOptions.reader : Json.Reader CompilationOptions := Json.Reader.record [
  field "outputKind" (·.outputKind) (fun o v => { o with outputKind := v }) Json.Reader.string,
  field "optimizationLevel" (·.optimizationLevel) (fun o v => { o with optimizationLevel := v })
    Json.Reader.string,
  field "allowUnsafe" (·.allowUnsafe) (fun o v => { o with allowUnsafe := v }) Json.Reader.bool,
  field "warningsAsErrors" (·.warningsAsErrors) (fun o v => { o with warningsAsErrors := v })
    Json.Reader.bool,
  field "platform" (·.platform) (fun o v => { o with platform := v }) Json.Reader.string,
  field "emitEntryPoint" (·.emitEntryPoint) (fun o v => { o with emitEntryPoint := v })
    Json.Reader.bool]

def ParseOptions.reader : Json.Reader ParseOptions := Json.Reader.record [
  field "languageVersion" (·.languageVersion) (fun o v => { o with languageVersion := v })
    Json.Reader.string,
  field "preprocessorSymbols" (fun o => some o.preprocessorSymbols)
    (fun o v => { o with preprocessorSymbols := v.getD [] })
    (Json.Reader.list "" Json.Reader.string)]

end CompilationBridge.Workspace
