/-!
# Format versions
-/

namespace BlockGraph

/-- The format versions of documents that can be read and written. -/
def supportedVersions : List String := ["3.0", "3.1"]

/-- The version of programs that come from no document. -/
def currentVersion : String := "3.1"

end BlockGraph
