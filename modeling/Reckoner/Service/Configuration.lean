import Reckoner.Service.Plugin
import Reckoner.Settings

/-!
# The configuration of the service

A configuration document has a site section, which is shown to callers and may bound the size of request
bodies, and a plugin section with the calculator's defaults and limits. Sections that are void count as
empty; a section that should hold fields and does not keeps the service from starting. The calculator's
limits and defaults are read anew for every request.
-/

namespace Reckoner.Service

set_option autoImplicit false

/-- A service that has started. -/
structure Configuration where
  site : Json.Value
  plugin : Json.Fields
  manifest : Json.Fields
  /-- The most bytes that a request body may have. -/
  maxBody : Int

namespace Configuration

def mebibyte : Int := 1024 * 1024

/-- The fields of a section; a void section has none. -/
def sectionFields (v : Json.Value) : Except Fault Json.Fields :=
  if v.isVoid then .ok []
  else
    match v with
    | .object fields => .ok fields
    | _ => .error .notMapping

/-- A section of a document; a missing or void one is an empty object. -/
def sectionOf (fields : Json.Fields) (name : String) : Json.Value :=
  match fields.get? name with
  | some v => if v.isVoid then .object [] else v
  | none => .object []

/-- A number of mebibytes in bytes, rounded toward zero. -/
def bytesOf (v : Json.Value) : Except Fault Int := do
  let mebibytes ← (Datum.value v).toFloat
  Datum.truncated (mebibytes * 1024 * 1024)

/-- The bound on bodies that a site section sets. A malformed bound is ignored. -/
def bodyLimit (site : Json.Value) : Except Fault Int :=
  match site with
  | .object fields =>
    match (Json.Fields.get? fields "max_content_length_mb").map bytesOf with
    | some (.ok bytes) => .ok bytes
    | some (.error .tooLarge) => .error .tooLarge
    | _ => .ok mebibyte
  | .text _ | .unpaired | .list _ => .ok mebibyte
  | _ => .error .wrongKind

/-- The names of the setups that reset the bound on bodies. -/
def setups : List String := ["BaseConfig", "TestingConfig"]

/-- Starts the service with a document, if there is one, and a named setup. -/
def start (document : Option Json.Value) (setup : Option String) : Except Fault Configuration := do
  let fields ← sectionFields (document.getD .null)
  let site : Json.Value := sectionOf fields "site"
  let configured ← bodyLimit site
  let maxBody : Int :=
    if (setup.map setups.contains).getD false then mebibyte else configured
  let plugins ←
    match sectionOf fields "plugins" with
    | .object entries => .ok entries
    | _ => .error .notMapping
  let plugin ←
    match (Json.Fields.get? plugins pluginName).getD (.object []) with
    | .object entries => .ok entries
    | _ => .error .notMapping
  return { site, plugin, manifest := Service.manifest plugin, maxBody }

/-! ## What a request reads -/

def defaultMaxExpression : Int := 1024

def defaultMaxSamples : Int := 5000

/-- A limit of at least one; a malformed one falls back to the default. -/
def limit (c : Configuration) (name : String) (default : Int) : Except Fault Int :=
  match (c.plugin.get? name).map fun v => (Datum.value v).toInt with
  | none => .ok (max default 1)
  | some (.ok n) => .ok (max n 1)
  | some (.error .tooLarge) => .error .tooLarge
  | some (.error _) => .ok default

def maxExpression (c : Configuration) : Except Fault Int :=
  c.limit "max_expression_length" defaultMaxExpression

def maxSamples (c : Configuration) : Except Fault Int :=
  c.limit "max_samples" defaultMaxSamples

/-- Settings from the fields of a document, if it has fields. -/
def settingsOf (defaults : Json.Value) : Except Fault Settings := do
  let fields ← sectionFields defaults
  Settings.load (fields.map fun field => (field.1, .value field.2))

/-- The configured settings with the overrides of a request. -/
def settings (c : Configuration) (overrides : Overrides) : Except Fault Settings :=
  (settingsOf ((c.plugin.get? "defaults").getD .null)).map fun s => s.merge overrides

end Configuration

def installedDocument : Json.Value :=
  .object
    [("site", .object
        [("title", .text "ScanCal"),
          ("tagline", .text "Safe calculator expressions, formatting and curve sampling"),
          ("max_content_length_mb", .int 1)]),
      ("plugins", .object
        [(pluginName, .object
          [("summary", .text ("Evaluate calculator expressions in degrees or radians, "
              ++ "format results and sample curves for plotting.")),
            ("defaults", .object
              [("angle_unit", .text "deg"), ("precision", .int 8), ("thousands_sep", .bool true)]),
            ("max_expression_length", .int 1024),
            ("max_samples", .int 5000)])])]

end Reckoner.Service
