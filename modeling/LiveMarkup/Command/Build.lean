import LiveMarkup.Document.Generate
import LiveMarkup.Tree.Outline

/-!
# Builds

A build compiles a source, lists its diagnostics with the lines they refer to, and writes the
document or the outline of the tree.
-/

namespace LiveMarkup

/-- What a build writes. -/
structure BuildOptions where
  /-- Whether the outline is written in place of the document. -/
  tree : Bool := false
  /-- Whether any diagnostic makes the build fail. -/
  strict : Bool := false

/-- Why a build failed. -/
inductive BuildError
  /-- The source could not be read. -/
  | reading (reason : Bytes)
  /-- The output could not be written. -/
  | writing (reason : Bytes)
  /-- There were diagnostics, and none were allowed. -/
  | reported (name : Bytes) (count : Nat)
  /-- The build broke off. -/
  | broken (name reason : Bytes)
  deriving DecidableEq, Repr

namespace BuildError

/-- The wording of an error. -/
def message : BuildError → Bytes
  | .reading reason => reason
  | .writing reason => utf8 "write document: " ++ reason
  | .reported name count => name ++ utf8 ": " ++ decimalNat count ++ utf8 " diagnostics reported"
  | .broken name reason => utf8 "compile " ++ name ++ utf8 ": panic: " ++ reason

/-- Whether the diagnostics are the error. -/
def isReported : BuildError → Bool
  | .reported _ _ => true
  | _ => false

end BuildError

/-- The result of compiling a source. -/
structure Build where
  /-- What is to be written. -/
  output : Bytes
  /-- The list of diagnostics. -/
  report : Bytes
  /-- How many diagnostics there were. -/
  count : Nat

namespace Build

/-- A diagnostic with the line it refers to. -/
def reportOne (name src : Bytes) (d : Diagnostic) : Bytes :=
  name ++ utf8 ":" ++ d.position.text ++ utf8 ": " ++ d.severity.name ++ utf8 ": " ++ d.message
    ++ utf8 "\n" ++ ((d.context? src 0).map SourceContext.text).getD []

/-- The list of diagnostics of a source with a name. -/
def reportAll (name src : Bytes) (ds : List Diagnostic) : Bytes :=
  ds.flatMap (reportOne name src)

/-- Compiles a source with a name. -/
def ofSource (o : BuildOptions) (name src : Bytes) : Build :=
  let t := SourceTree.ofSource src
  { output := if o.tree then Outline.dump t.nodes else Document.ofTree t
    report := reportAll name src t.diagnostics
    count := t.diagnostics.length }

/-- The error of a build whose output was written. -/
def finish (b : Build) (o : BuildOptions) (name : Bytes) : Option BuildError :=
  if o.strict ∧ 0 < b.count then some (.reported name b.count) else none

end Build

/-! ### Builds to the standard output -/

/-- What the standard output does with what is written to it. -/
inductive Output
  | accepts
  /-- Writing fails. -/
  | fails (reason : Bytes)
  /-- Writing breaks off the build. -/
  | breaks (reason : Bytes)

/-- What a build wrote, and its error. -/
structure BuildResult where
  stdout : Bytes := []
  stderr : Bytes := []
  error? : Option BuildError := none

/-- Builds a source to the standard output. -/
def BuildResult.ofSource (o : BuildOptions) (output : Output) (name src : Bytes) : BuildResult :=
  let b := Build.ofSource o name src
  match output with
  | .accepts => ⟨b.output, b.report, b.finish o name⟩
  | .fails reason => ⟨[], b.report, some (.writing reason)⟩
  | .breaks reason => ⟨[], b.report, some (.broken name reason)⟩

end LiveMarkup
