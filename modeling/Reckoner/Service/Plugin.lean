import Reckoner.Json.Value

/-!
# Plugins

The service finds its plugins as packages below a directory. `packagesIn` lists the packages directly below
a directory of the installation, and `manifest` describes the calculator to the callers of the service; a
configuration may replace its summary and add a link to documents.
-/

namespace Reckoner.Service

set_option autoImplicit false

/-- The name under which the calculator is configured and served. -/
def pluginName : String := "scientific_calculator"

/-- The packages of the installation, each as the path of its directory. -/
def packagePaths : List (List String) :=
  [["app"], ["plugins", pluginName], ["plugins", pluginName, "api"],
    ["plugins", pluginName, "core"]]

/-- The steps of a relative path without its empty and its single-dot steps. -/
def pathSteps (path : String) : List String :=
  (path.splitOn "/").filter fun step => step != "" && step != "."

/-- The names of the packages directly below a directory; an absolute path lies outside the installation. -/
def packagesIn (directory : String) : List String :=
  if directory.toList.head? == some '/' then []
  else packagePaths.filterMap fun steps =>
    match steps.reverse with
    | name :: parents =>
      if parents.reverse = pathSteps directory then some (directory ++ "." ++ name) else none
    | [] => none

def basicManifest : Json.Fields :=
  [("title", .text "Scientific Calculator"),
    ("summary", .text ("Evaluate calculator expressions in degrees or radians, "
      ++ "format results and sample curves for plotting.")),
    ("category", .text "General Utilities"),
    ("blueprint", .text pluginName),
    ("icon", .text "img/GeneralUtilityTools_icon.png")]

/-- Takes a field over from a configuration unless it is missing or void. -/
def takeOver (configured : Json.Fields) (manifest : Json.Fields) (name : String) : Json.Fields :=
  match configured.get? name with
  | some value => if value.isVoid then manifest else manifest.set name value
  | none => manifest

def manifest (configured : Json.Fields) : Json.Fields :=
  (["summary", "docs"].foldl (takeOver configured) basicManifest).set "api"
    (.text ("/api/" ++ pluginName))

end Reckoner.Service
