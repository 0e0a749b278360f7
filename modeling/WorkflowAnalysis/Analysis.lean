import WorkflowAnalysis.Extraction.ChildWorkflows
import WorkflowAnalysis.Extraction.Collaborators

/-! Analysis of one workflow file: the activities it can invoke and the child workflows it can start,
each with its task queue. Nothing is run; the file and the modules it imports are only read. -/
namespace WorkflowAnalysis

open Syntax

namespace Project

/-- Every place where a file invokes activities, those of other files included. -/
def activitySites (project : Project) (file : SourceFile) : List Site :=
  project.inheritedSites file ++ project.classSites file ++ project.moduleSites file
    ++ project.createdSites file

def childWorkflows (project : Project) (file : SourceFile) : List ChildWorkflow :=
  ((project.childSites file).map Site.childWorkflow).eraseDups

def workflow (project : Project) (file : SourceFile) : Workflow where
  name := file.program.exportedName?
  activities := ((project.activitySites file).map Site.activity).eraseDups
  childWorkflows := project.childWorkflows file
  taskQueue := none

/-- Analyzes a text as if it were the file at a path. -/
def analyzeSource (project : Project) (text : String) (path : Path) (fallback : String) :
    Except Failure Workflow := do
  let path := project.tree.normalize path
  let program ← (Program.parse path text).mapError (.unparsable path)
  return project.workflow (.ofProgram path program fallback)

def analyze (project : Project) (path : Path) (fallback : String) : Except Failure Workflow := do
  let path := project.tree.normalize path
  let program ← project.tree.parseFile path
  return project.workflow (.ofProgram path program fallback)

end Project

end WorkflowAnalysis
