import Mathlib.Data.List.AList
import Httpageboy.Core.StatusCode

set_option relaxedAutoImplicit false
set_option autoImplicit false

/-!
# Requests, responses and routes

The data types of `request_type.rs`, `request.rs`, `response.rs` and `route.rs`. A `HashMap` is
an association list with distinct keys, whose order is the iteration order of the map; the
theorems quantify over the list, so they hold for every iteration order. Handlers and upgrade
handlers are trait objects of the application: two type parameters `H` and `U`.

## Main definitions

* `Httpageboy.RequestType`, `Httpageboy.Request`, `Httpageboy.Response`.
* `Httpageboy.RouteEntry`, `Httpageboy.Routes` — the route table.
* `Httpageboy.RequestLimits` — the limits of one connection.
-/

namespace Httpageboy

/-- A Rust `HashMap`, with its iteration order. -/
abbrev HashMap (K V : Type) := AList fun _ : K => V

/-- `Vec<u8>`. -/
abbrev Bytes := List UInt8

/-- The line terminator `b"\r\n"`. -/
def crlf : Bytes := [13, 10]

/-- The head terminator `b"\r\n\r\n"`. -/
def crlfcrlf : Bytes := [13, 10, 13, 10]

/-- `RequestType`, also called `Rt`. -/
inductive RequestType where
  | get
  | post
  | put
  | delete
  | head
  | options
  | connect
  | patch
  | trace
  | query
  deriving DecidableEq, Repr

namespace RequestType

/-- The token `Display` writes. -/
def name : RequestType → Str
  | .get => "GET".toList
  | .post => "POST".toList
  | .put => "PUT".toList
  | .delete => "DELETE".toList
  | .head => "HEAD".toList
  | .options => "OPTIONS".toList
  | .connect => "CONNECT".toList
  | .patch => "PATCH".toList
  | .trace => "TRACE".toList
  | .query => "QUERY".toList

/-- The ten methods in the order of the tokens `parse_raw_only` allows. -/
def all : List RequestType :=
  [.get, .post, .put, .delete, .options, .head, .patch, .connect, .trace, .query]

/-- `from_str`: the method with the upper-cased token, `GET` for any other text. The parser
only calls it on the ten allowed tokens, where Unicode and ASCII upper-casing agree. -/
def fromStr (s : Str) : RequestType :=
  (all.find? fun method => method.name = s.map Char.toUpper).getD .get

/-- No method is missing from the list. -/
lemma mem_all (method : RequestType) : method ∈ all := by
  cases method <;> decide

/-- The name of a method is read as that method. -/
lemma fromStr_name (method : RequestType) : fromStr method.name = method := by
  cases method <;> decide

end RequestType

/-- `Response`, with the bytes of its `Body`. -/
structure Response where
  status : StatusCode
  headers : List (Str × Str)
  body : Bytes
  deriving DecidableEq

/-- `Response::new`, the answer of the file server to an unknown path. -/
def Response.new : Response where
  status := .notFound
  headers := [("Content-Type".toList, "text/plain".toList)]
  body := Utf8.encode "404 Not Found".toList

/-- `error_response`: a status without headers and body. -/
def errorResponse (status : StatusCode) : Response where
  status := status
  headers := []
  body := []

/-- `Request`. -/
structure Request where
  method : RequestType
  path : Str
  version : Str
  headers : List (Str × Str)
  body : Bytes
  params : HashMap Str Str
  deriving DecidableEq

/-- `Request::default`. -/
def Request.default : Request where
  method := .get
  path := []
  version := []
  headers := []
  body := []
  params := ∅

/-- `RouteEntry`: a handler and, for a route of an extension protocol, the handler the
connection is handed to after a `101` response. -/
structure RouteEntry (H U : Type) where
  handler : H
  upgrade : Option U
  deriving DecidableEq

/-- The route table. -/
abbrev Routes (H U : Type) := HashMap (RequestType × Str) (RouteEntry H U)

/-! ## Machine words and limits -/

/-- `usize::MAX` on a 64-bit target. -/
def usizeMax : ℕ := 2 ^ 64 - 1

/-- `u64::MAX`. -/
def u64Max : ℕ := 2 ^ 64 - 1

/-- `usize::saturating_add`. -/
def saturatingAdd (a b : ℕ) : ℕ := min (a + b) usizeMax

/-- `usize::checked_add`. -/
def checkedAdd (a b : ℕ) : Option ℕ := if a + b ≤ usizeMax then some (a + b) else none

/-- A checked addition has a result exactly when the sum fits a word. -/
lemma checkedAdd_eq_some_iff {a b c : ℕ} :
    checkedAdd a b = some c ↔ a + b = c ∧ c ≤ usizeMax := by
  unfold checkedAdd
  split_ifs with h
  · simp only [Option.some.injEq]
    constructor
    · rintro rfl; exact ⟨rfl, h⟩
    · exact And.left
  · simp only [false_iff, not_and]
    rintro rfl
    exact h

/-- `RequestLimits`. Durations and instants are counted in nanoseconds. -/
structure RequestLimits where
  bodyBytes : ℕ
  headerBytes : ℕ
  idleTimeout : ℕ
  requestTimeout : ℕ
  keepAliveTimeout : ℕ
  maxRequests : ℕ

/-- `RequestLimits::default`. -/
def RequestLimits.default : RequestLimits where
  bodyBytes := 8 * 1024 * 1024
  headerBytes := 64 * 1024
  idleTimeout := 500 * 10 ^ 6
  requestTimeout := 30 * 10 ^ 9
  keepAliveTimeout := 3 * 10 ^ 9
  maxRequests := 20

end Httpageboy
