import WorkflowAnalysis.Json.Decoder
import WorkflowAnalysis.Json.Writer

/-! The names by which calls are recognized. Extraction goes by names alone, so a fork of the workflow
library, or a wrapper around it, needs only another vocabulary. -/
namespace WorkflowAnalysis

structure Vocabulary where
  /-- Calls that bind a set of activities to a task queue. -/
  proxyFunctions : List String := ["proxyActivities", "proxyLocalActivities"]
  /-- The call that starts a child workflow. -/
  childStart : String := "executeChild"
  /-- What compiled code calls to export all of another module. -/
  reExportHelper : String := "__exportStar"
deriving DecidableEq, Repr, Inhabited

namespace Vocabulary

def isProxy (vocabulary : Vocabulary) (name : String) : Bool := vocabulary.proxyFunctions.contains name

def isChildStart (vocabulary : Vocabulary) (name : String) : Bool := vocabulary.childStart == name

def document (vocabulary : Vocabulary) : Document :=
  .record
    [("proxyFunctions", .list (vocabulary.proxyFunctions.map .text)),
     ("childStartFunction", .text vocabulary.childStart),
     ("reExportHelper", .text vocabulary.reExportHelper)]

structure Draft where
  proxyFunctions : Option (List String) := none
  childStart : Option String := none
  reExportHelper : Option String := none

/-- Fields that are left out keep their defaults. -/
def shape : RecordShape Draft Vocabulary where
  fields :=
    [.slot "proxyFunctions" (·.proxyFunctions)
       (fun draft names => { draft with proxyFunctions := some names })
       (Decoder.list Decoder.string),
     .slot "childStartFunction" (·.childStart)
       (fun draft name => { draft with childStart := some name }) Decoder.string,
     .slot "reExportHelper" (·.reExportHelper)
       (fun draft name => { draft with reExportHelper := some name }) Decoder.string]
  start := {}
  finish := fun draft =>
    let default : Vocabulary := {}
    some
      { proxyFunctions := draft.proxyFunctions.getD default.proxyFunctions
        childStart := draft.childStart.getD default.childStart
        reExportHelper := draft.reExportHelper.getD default.reExportHelper }

def ofText : String → Except Problem Vocabulary := shape.decode.ofText

end Vocabulary

end WorkflowAnalysis
