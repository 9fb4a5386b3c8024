import MarkupLoader.Table
import MarkupLoader.Text.Blank

/-!
# Resource bundles

A bundle holds resources under ids, in an order. A resource may say which file it comes from, and
a bundle may be on a platform that cannot tell. **Of resources with one id the first counts.**

* **A component** is a class in a bundle, given by its full name.
* **The bundle of a directory** names its files by the path, with dots between the parts and the
  name of the bundle in front, and orders them by these ids.
-/

namespace MarkupLoader

/-- A resource. -/
structure Resource where
  id : String
  fileName : Option String
  content : ByteArray

/-- Resources under a name. -/
structure Bundle where
  name : String
  resources : List Resource
  /-- Whether it cannot be told which files the resources come from. -/
  restricted : Bool

/-- The file names of a bundle cannot be told. -/
structure FileNamesUnsupported where

/-- The wording of the fault. -/
def FileNamesUnsupported.message (_ : FileNamesUnsupported) : String :=
  "resource filename metadata is not supported on this platform"

namespace Bundle

/-- The ids of the resources in order. -/
def ids (b : Bundle) : List String := b.resources.map (·.id)

/-- The resource of an id. -/
def resource? (b : Bundle) (id : String) : Option Resource := b.resources.find? (·.id == id)

/-- The content of the resource of an id. -/
def read? (b : Bundle) (id : String) : Option ByteArray := (b.resource? id).map (·.content)

/-- The wording of an id that no resource has. -/
def noResource (id : String) : String := s!"no resource {id}"

/-- The name of the file that a resource comes from, if it says so. -/
def fileName (b : Bundle) (id : String) : Except FileNamesUnsupported (Option String) :=
  if b.restricted then .error ⟨⟩ else .ok ((b.resource? id).bind (·.fileName))

end Bundle

/-! ## Components -/

/-- A class in a bundle. -/
structure Component where
  fullName : String
  bundle : Bundle

namespace Component

/-- The name without the namespace in front. -/
def name (c : Component) : String := Text.afterLast '.' c.fullName

/-- The component with the bundle that it is in. -/
def text (c : Component) : String := c.fullName ++ " (" ++ c.bundle.name ++ ")"

end Component

/-! ## Directories -/

/-- A file below a directory. -/
structure File where
  /-- The parts of the path. -/
  path : List String
  content : ByteArray

namespace Bundle

/-- The id of a file in the bundle of a directory. -/
def fileId (name : String) (f : File) : String := ".".intercalate (name :: f.path)

/-- The resource that a file is. -/
def ofFile (name : String) (f : File) : Resource :=
  ⟨fileId name f, f.path.getLast?, f.content⟩

/-- The bundle of the files below a directory. Of files with one id the last one listed
counts. -/
def ofFiles (name : String) (files : List File) : Bundle :=
  let byId : Table String Resource := .ofList (files.map fun f => (fileId name f, ofFile name f))
  ⟨name, byId.values.mergeSort fun a b => !decide (b.id < a.id), false⟩

end Bundle

end MarkupLoader
