import UmlTyping.Disk.Basic
import UmlTyping.Model.Load
import UmlTyping.Module
import UmlTyping.Resolve

/-!
# Generation

A generation reads a model from a file, orders the definitions that its roots need, and writes the
modules into a directory, next to an empty file that makes the directory a package. Nothing is
written before all modules are composed, and the writing stops at the first fault.
-/

namespace UmlTyping

/-- Why a generation fails. -/
inductive GenerationError where
  /-- The model or its definitions are at fault. -/
  | definition (e : DefinitionError)
  /-- A file or directory cannot be read or written. -/
  | disk (fault : Disk.Fault)
deriving DecidableEq, Repr

/-- The wording of an error. -/
def GenerationError.message : GenerationError → String
  | .definition e => e.message
  | .disk fault => "I/O error: " ++ fault.message

/-- What a generation works on. -/
structure Config where
  /-- The path of the model. -/
  model : String
  /-- The path of the directory for the modules. -/
  output : String
  /-- The identifiers of the entries to generate with all they need. -/
  roots : List Identifier
deriving DecidableEq, Repr

/-- What the identifiers of all service types start with. -/
def serviceMarker : String := "ID_eurocontrol.cfmu.cua.b2b."

/-- The requests and replies of the services that are supported. -/
def defaultRoots : List Identifier :=
  ["airspace.CompleteAIXMDatasetRequest", "airspace.CompleteAIXMDatasetReply",
   "flight.FlightListByAerodromeRequest", "flight.FlightListByAerodromeReply",
   "flight.FlightListByAirspaceRequest", "flight.FlightListByAirspaceReply",
   "flight.FlightListByMeasureRequest", "flight.FlightListByMeasureReply",
   "flight.FlightPlanListRequest", "flight.FlightPlanListReply",
   "flight.FlightRetrievalRequest", "flight.FlightRetrievalReply",
   "flow.RegulationListRequest", "flow.RegulationListReply"].map (serviceMarker ++ ·)

/-- The settings that hold unless others are given. -/
def Config.default : Config where
  model := "model/datamodel.xmi"
  output := "src/pyb2b/types/generated"
  roots := defaultRoots

/-- The modules with the definitions that the roots need. -/
def Model.generate (m : Model) (roots : List Identifier) : Run DefinitionError Modules := do
  let definitions ← m.resolve roots
  Modules.compose (definitions.map (·.piece))

/-- The modules that come of a model document, given as bytes. -/
def Config.generate (c : Config) (bytes : ByteArray) : Run GenerationError Modules := do
  Run.report (.loadingFile c.model)
  let m ← (Model.load bytes).mapError (.definition ∘ .model)
  (m.generate c.roots).mapError .definition

namespace Modules

/-- The name of the file that makes a directory a package. -/
def packageInit : String := "__init__.py"

/-- The path of the file for a module in a directory. -/
def filePath (directory package : String) : String := Path.join directory (package ++ ".py")

/-- Writes modules in turn, and reports each that is written. -/
def writeFiles (directory : String) (d : Disk) :
    List (String × String) → Disk × Run Disk.Fault Unit
  | [] => (d, pure ())
  | (package, content) :: rest =>
    match d.write (filePath directory package) content.toUTF8 with
    | .error fault => (d, throw fault)
    | .ok d =>
      let (d, written) := writeFiles directory d rest
      (d, do
        Run.report (.generatedModule (filePath directory package))
        written)

/-- Writes modules into a directory, which is made if it is missing. -/
def write (ms : Modules) (directory : String) (d : Disk) : Disk × Run Disk.Fault Unit :=
  match d.makeDirectories directory with
  | (d, .error fault) => (d, throw fault)
  | (d, .ok ()) =>
    match d.write (Path.join directory packageInit) "".toUTF8 with
    | .error fault => (d, throw fault)
    | .ok d => writeFiles directory d ms.entries

end Modules

/-- Runs a generation on a disk. -/
def Config.run (c : Config) (d : Disk) : Disk × Run GenerationError Modules :=
  match d.read c.model with
  | .error fault =>
    (d, do
      Run.report (.loadingFile c.model)
      throw (.disk fault))
  | .ok bytes =>
    let generated := c.generate bytes
    match generated.result with
    | .error _ => (d, generated)
    | .ok ms =>
      let (d, written) := ms.write c.output d
      (d, do
        let ms ← generated
        written.mapError .disk
        Run.report (.generatedModules ms.size c.output)
        pure ms)

end UmlTyping
