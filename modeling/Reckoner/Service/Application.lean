import Reckoner.Json.Reader
import Reckoner.Service.Endpoint
import Reckoner.Service.Envelope

/-!
# Answering requests

`respond` finds the endpoint of a path, checks the method, reads the body as a document and puts the answer
into its envelope. A body that is no document counts as null, a body beyond the limit is refused. Every
response names the request and carries the headers that keep browsers from using it for anything else.
-/

namespace Reckoner.Service

set_option autoImplicit false

/-- A request of the Hypertext Transfer Protocol. -/
structure Request where
  method : String
  target : String
  contentType : String
  body : Option String
  deriving DecidableEq, Repr

/-- A response; some methods leave the body out. -/
structure Response where
  status : Int
  contentType : String
  headers : List (String × String)
  body : Option Json.Value

/-! ## Paths -/

inductive Route where
  | home
  | evaluate
  | format
  | plot
  | bases
  | functions
  /-- A file of the site; there are none. -/
  | file
  deriving DecidableEq, Repr

def apiPath : String := "/api/" ++ pluginName

def fixedPaths : List (String × Route) :=
  [("/", .home), (apiPath ++ "/evaluate", .evaluate), (apiPath ++ "/format", .format),
    (apiPath ++ "/plot", .plot), (apiPath ++ "/bases", .bases), (apiPath ++ "/functions", .functions)]

/-- Replaces the percent escapes of a path by the characters with these codes. -/
def unescapePath : List Char → List Char
  | '%' :: a :: b :: rest =>
    match Json.hexDigit? a, Json.hexDigit? b with
    | some high, some low => Char.ofNat (16 * high + low) :: unescapePath rest
    | _, _ => '%' :: unescapePath (a :: b :: rest)
  | c :: rest => c :: unescapePath rest
  | [] => []

/-- The path of a target without query and fragment. -/
def pathOf (target : String) : List Char :=
  unescapePath (target.toList.takeWhile fun c => c != '?' && c != '#')

def isFilePath (path : List Char) : Bool :=
  "/static/".toList.isPrefixOf path &&
    match path.drop "/static/".length with
    | [] => false
    | c :: _ => c != '/'

def routeOf (path : List Char) : Option Route :=
  match fixedPaths.lookup (String.ofList path) with
  | some route => some route
  | none => if isFilePath path then some .file else none

/-- Whether a route only gives information, so that it is read and never written to. -/
def Route.isReadOnly : Route → Bool
  | .home | .functions | .file => true
  | _ => false

def Route.methods (r : Route) : List String :=
  if r.isReadOnly then ["GET", "HEAD", "OPTIONS"] else ["POST", "OPTIONS"]

/-! ## Bodies -/

def announcesDocument (contentType : String) : Bool :=
  let kind : List Char :=
    Text.lower (Text.trim (contentType.toList.takeWhile (· != ';')))
  kind == "application/json".toList
    || ("application/".toList.isPrefixOf kind && "+json".toList.isSuffixOf kind)

def withoutMark : List Char → List Char
  | '\uFEFF' :: rest => rest
  | text => text

def bodyTooLarge : Trouble :=
  .refusal (some 413) (some "The data value transmitted exceeds the capacity limit.")

def pathUnknown : Trouble :=
  .refusal (some 404) (some ("The requested URL was not found on the server. "
    ++ "If you entered the URL manually please check your spelling and try again."))

def methodRefused : Trouble :=
  .refusal (some 405) (some "The method is not allowed for the requested URL.")

/-- The document in the body of a request; null when there is none. -/
def documentOf (c : Configuration) (r : Request) : Except Trouble Json.Value :=
  match r.body with
  | none => .ok .null
  | some text =>
    if !announcesDocument r.contentType || text.isEmpty then .ok .null
    else if c.maxBody < text.utf8ByteSize then .error bodyTooLarge
    else
      match Json.read (withoutMark text.toList) with
      | .ok v => .ok v
      | .error .malformed => .ok .null
      | .error .tooDeep => .error .unexpected

/-! ## Responses -/

def protectiveHeaders : List (String × String) :=
  [("X-Content-Type-Options", "nosniff"), ("X-Frame-Options", "DENY"),
    ("Content-Security-Policy", "default-src 'none'; frame-ancestors 'none'"),
    ("Referrer-Policy", "no-referrer")]

def requestHeader : String := "X-Request-ID"

/-- An unusable configuration is unexpected, an error for the caller is settled. -/
def settle (outcome : Except Fault Reply) : Except Trouble Json.Value :=
  match outcome with
  | .error _ => .error .unexpected
  | .ok (.error e) => .error (.settled e)
  | .ok (.ok data) => .ok data

def withDocument (c : Configuration) (r : Request)
    (endpoint : Configuration → Json.Value → Except Fault Reply) : Except Trouble Json.Value := do
  let body ← documentOf c r
  settle (endpoint c body)

def answerRoute (c : Configuration) (r : Request) : Route → Except Trouble Json.Value
  | .home => settle (homeEndpoint c)
  | .functions => .ok functionsValue
  | .file => .error pathUnknown
  | .evaluate => withDocument c r evaluateEndpoint
  | .format => withDocument c r formatEndpoint
  | .plot => withDocument c r plotEndpoint
  | .bases => withDocument c r basesEndpoint

def fallbackCode : String := "internal_error"

def answer (c : Configuration) (requestId : String) (r : Request) : Answer :=
  let outcome : Except Trouble Json.Value :=
    match routeOf (pathOf r.target) with
    | none => .error pathUnknown
    | some route =>
      if route.methods.contains r.method then answerRoute c r route else .error methodRefused
  match outcome with
  | .ok data => .success 200 data
  | .error trouble => .failure (some requestId) (.ofTrouble fallbackCode trouble)

/-- Whether a request only asks for the methods of a path that exists. -/
def asksForMethods (r : Request) : Bool :=
  r.method == "OPTIONS" && (routeOf (pathOf r.target)).isSome

def respond (c : Configuration) (requestId : String) (r : Request) : Response :=
  let headers : List (String × String) := (requestHeader, requestId) :: protectiveHeaders
  if asksForMethods r then
    { status := 200, contentType := "text/html; charset=utf-8", headers, body := none }
  else
    let a : Answer := answer c requestId r
    { status := a.status, contentType := "application/json", headers
      body := if r.method == "HEAD" then none else some a.body }

end Reckoner.Service
