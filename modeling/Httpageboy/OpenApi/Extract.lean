import Httpageboy.Lib.Search
import Httpageboy.Lib.Sorting
import Httpageboy.Lib.Str
import Mathlib.Data.Char
import Mathlib.Data.List.Lex

set_option relaxedAutoImplicit false
set_option autoImplicit false

/-!
# Extracting routes from source text

The reading half of `openapi_from_code.rs`: a file is read line by line, comment lines are kept for
the route behind them, and a line that contains `route!(` begins a statement that goes on until its
parenthesis closes. Texts are searched for first occurrences, so that a search and the slices
around its result are one `cut` or `splitOnce` here. `char::to_uppercase` is a parameter.

## Main definitions

* `Httpageboy.OpenApi.RouteDoc` — what is documented of a route.
* `Httpageboy.OpenApi.parseDocComments` — the fields that comments set.
* `Httpageboy.OpenApi.parseRoute` — the route of a statement.
* `Httpageboy.OpenApi.parseText` — the routes of a file.
-/

namespace Httpageboy

namespace OpenApi

open Search

/-- A documented route. -/
structure RouteDoc where
  method : Str
  path : Str
  handler : Str
  summary : Str
  headers : List Str
  permission : Option Str
  requestBody : Option Str
  responses : List (Str × Str)
deriving DecidableEq

/-! ## Statements -/

/-- `"route!("`. -/
def routeCall : Str := "route!(".toList

/-- `"Rt::"`. -/
def methodMark : Str := "Rt::".toList

/-- `extract_between`: the text between the first `start` and the first `stop` behind it. -/
def extractBetween (text start stop : Str) : Option Str := do
  let (_, rest) ← cut start text
  let (between, _) ← cut stop rest
  return between

/-- `route_call_start`: the index behind the first `route!(`. -/
def routeCallStart (statement : Str) : Option ℕ :=
  (position routeCall statement).map (· + routeCall.length)

/-- `extract_route_path`: the quoted text that stands first behind `route!(`. -/
def extractRoutePath (statement : Str) : Option Str := do
  let start ← routeCallStart statement
  match Str.trimStart (statement.drop start) with
  | '"' :: rest =>
    let (path, _) ← Str.splitOnce '"' rest
    return path
  | _ => none

/-- `extract_route_handler`: the text behind the first comma that follows the first `Rt::`, up to
the next comma or closing parenthesis. -/
def extractRouteHandler (statement : Str) : Option Str := do
  let (_, afterMethod) ← cut methodMark statement
  let (_, rest) ← Str.splitOnce ',' afterMethod
  let handler := Str.trimStart rest
  let stop ← match position [','] handler, position [')'] handler with
    | some comma, some paren => some (min comma paren)
    | some comma, none => some comma
    | none, some paren => some paren
    | none, none => none
  return Str.trim (handler.take stop)

/-- `is_route_statement`. -/
def isRouteStatement (statement : Str) : Bool := (position routeCall statement).isSome

/-- The loop of `route_statement_complete`: whether the parentheses that are open close. -/
def closes : ℕ → Str → Bool
  | _, [] => false
  | depth, c :: s =>
    if c = '(' then closes (depth + 1) s
    else if c = ')' then
      if depth - 1 = 0 then true else closes (depth - 1) s
    else closes depth s

/-- `route_statement_complete`: whether the parenthesis of the first `route!(` closes. -/
def routeStatementComplete (statement : Str) : Bool :=
  match routeCallStart statement with
  | none => false
  | some start => closes 1 (statement.drop start)

/-! ## Comments -/

/-- `split_csv`: the trimmed entries of a comma-separated list that are not empty. -/
def splitCsv (value : Str) : List Str := ((value.splitOn ',').map Str.trim).filter (· ≠ [])

/-- `trim_matches('&')`. -/
def trimAmpersands (s : Str) : Str := (s.dropWhile (· = '&')).rdropWhile (· = '&')

/-- `humanize_handler`: the words of the name, each with a capital. -/
def humanizeHandler (upper : Char → Str) (handler : Str) : Str :=
  let spaced := (trimAmpersands (Str.trim handler)).map fun c => if c = '_' then ' ' else c
  let words := (Str.splitWhitespace spaced).map fun word =>
    match word with
    | first :: rest => upper first ++ rest
    | [] => []
  List.intercalate [' '] words

/-- What the comments of a route set. -/
structure DocComments where
  summary : Str
  headers : List Str
  permission : Option Str
  requestBody : Option Str
  responses : List (Str × Str)

/-- The status and the description of a `response` comment: `splitn` at the first space. -/
def parseResponse (value : Str) : Str × Str :=
  match Str.splitOnce ' ' value with
  | some (status, description) => (Str.trim status, Str.trim description)
  | none => (Str.trim value, "OK".toList)

/-- One turn of the loop of `parse_doc_comments`. -/
def docComment (docs : DocComments) (comment : Str) : DocComments :=
  match Str.splitOnce ':' comment with
  | none => docs
  | some (key, value) =>
    let key := Str.toAsciiLowercase (Str.trim key)
    let value := Str.trim value
    if key = "openapi".toList ∨ key = "summary".toList then { docs with summary := value }
    else if key = "auth".toList ∨ key = "headers".toList then
      { docs with headers := docs.headers ++ splitCsv value }
    else if key = "permission".toList then { docs with permission := some value }
    else if key = "request".toList ∨ key = "requestbody".toList ∨ key = "body".toList then
      { docs with requestBody := some value }
    else if key = "response".toList then
      { docs with responses := docs.responses ++ [parseResponse value] }
    else if key = "errors".toList then
      { docs with
        responses := docs.responses ++ (splitCsv value).map fun error => ("400".toList, error) }
    else docs

/-- `parse_doc_comments`. -/
def parseDocComments (upper : Char → Str) (comments : List Str) (handler : Str) : DocComments :=
  let docs := comments.foldl docComment ⟨[], [], none, none, []⟩
  { docs with
    summary := if docs.summary = [] then humanizeHandler upper handler else docs.summary
    headers := Sorting.dedupBy id (Sorting.sortBy id docs.headers) }

/-- `parse_route`. -/
def parseRoute (upper : Char → Str) (statement : Str) (comments : List Str) : Option RouteDoc := do
  if !isRouteStatement statement then none
  let path ← extractRoutePath statement
  let method ← extractBetween statement methodMark [',']
  let handler ← extractRouteHandler statement
  let docs := parseDocComments upper comments handler
  return {
    method := Str.toAsciiLowercase (Str.trim method)
    path := path
    handler := handler
    summary := docs.summary
    headers := docs.headers
    permission := docs.permission
    requestBody := docs.requestBody
    responses := docs.responses }

/-! ## Files -/

/-- The text of a comment line, if the trimmed line is one. -/
def commentText : Str → Option Str
  | '/' :: '/' :: '/' :: comment => some (Str.trim comment)
  | '/' :: '/' :: comment => some (Str.trim comment)
  | _ => none

/-- The variables of the loop of `parse_file`. -/
structure Scan where
  routes : List RouteDoc
  comments : List Str
  statement : Str
  statementComments : List Str
  readingRoute : Bool

/-- One turn of the loop of `parse_file`. -/
def parseLine (upper : Char → Str) (scan : Scan) (line : Str) : Scan :=
  let trimmed := Str.trim line
  if scan.readingRoute then
    let statement := scan.statement ++ ' ' :: trimmed
    if routeStatementComplete statement then
      { scan with
        routes := scan.routes ++ (parseRoute upper statement scan.statementComments).toList
        statement := []
        statementComments := []
        readingRoute := false }
    else { scan with statement := statement }
  else
    match commentText trimmed with
    | some comment => { scan with comments := scan.comments ++ [comment] }
    | none =>
      if isRouteStatement trimmed then
        if routeStatementComplete trimmed then
          { scan with
            routes := scan.routes ++ (parseRoute upper trimmed scan.comments).toList
            comments := []
            statement := []
            statementComments := [] }
        else
          { scan with
            comments := []
            statement := trimmed
            statementComments := scan.comments
            readingRoute := true }
      else if trimmed ≠ [] then { scan with comments := [] }
      else scan

/-- `parse_file` behind reading the file: the routes of its text. -/
def parseText (upper : Char → Str) (content : Str) : List RouteDoc :=
  ((Str.lines content).foldl (parseLine upper) ⟨[], [], [], [], false⟩).routes

end OpenApi

end Httpageboy
