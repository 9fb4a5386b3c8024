import MarkupLoader.Load.Assignment
import MarkupLoader.Load.Creation
import MarkupLoader.Load.Expansion
import MarkupLoader.Load.Filling
import MarkupLoader.Load.Naming
import MarkupLoader.Load.Pruning
import MarkupLoader.Load.Scoping

/-!
# The passes of a load

A load runs eight passes over its document, each over the whole of it, and notes each one that it
completes. The first failure that is not passed over ends the load.

Main definition: `Load.runPasses`.
-/

namespace MarkupLoader.Load

/-- Runs one pass. -/
def runPass (env : Environment) : Pass → Load Unit
  | .parentLinking => modifyTree NodeTree.linkParents
  | .markupExpansion => expandMarkup env
  | .pruneIgnored => modifyTree NodeTree.prune
  | .namescoping => assignScopes env
  | .valueCreation => createValues env
  | .nameRegistration => registerNames env
  | .resourceDictionaryFill => fillResources env
  | .propertyApplication => applyProperties env

/-- Runs one pass and notes that it has been completed. -/
def completePass (env : Environment) (pass : Pass) : Load Unit := do
  runPass env pass
  modifyContext (·.completed pass)

/-- Runs all passes. -/
def runPasses (env : Environment) : Load Unit := Pass.all.forM (completePass env)

end MarkupLoader.Load
