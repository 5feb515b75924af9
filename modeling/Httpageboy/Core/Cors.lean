import Httpageboy.Core.Message

set_option relaxedAutoImplicit false
set_option autoImplicit false

/-!
# Cross-origin policy

`CorsPolicy` of `cors.rs`: the configuration string it is read from, the headers it adds to every
response, and its answer to a preflight request.

## Main definitions

* `Httpageboy.CorsPolicy`, `Httpageboy.CorsPolicy.headerLines`.
* `Httpageboy.CorsPolicy.fromConfigStr` — the policy of a configuration string.
-/

namespace Httpageboy

/-- `CorsPolicy`. -/
structure CorsPolicy where
  allowOrigin : Str
  allowMethods : Str
  allowHeaders : Str
  allowCredentials : Bool
  maxAgeSeconds : Option ℕ

namespace CorsPolicy

/-- `CorsPolicy::default`: everything is allowed from everywhere, without credentials. -/
def default : CorsPolicy where
  allowOrigin := "*".toList
  allowMethods := "GET,POST,PUT,DELETE,HEAD,OPTIONS,CONNECT,PATCH,TRACE,QUERY".toList
  allowHeaders := "Content-Type, Authorization".toList
  allowCredentials := false
  maxAgeSeconds := some 600

/-- The fields a configuration string can set. -/
inductive Field where
  | origin
  | methods
  | headers
  | credentials
  | maxAge
  deriving DecidableEq

/-- The field that a key of `from_config_str` names. -/
def Field.ofKey (key : Str) : Option Field :=
  if key = "origin".toList ∨ key = "allow_origin".toList then some .origin
  else if key = "methods".toList ∨ key = "allow_methods".toList then some .methods
  else if key = "headers".toList ∨ key = "allow_headers".toList then some .headers
  else if key = "credentials".toList ∨ key = "allow_credentials".toList then some .credentials
  else if key = "max_age".toList ∨ key = "max_age_seconds".toList then some .maxAge
  else none

/-- `parse::<u32>().ok()`. -/
def parseAge (value : Str) : Option ℕ := Str.fromStrRadix 10 (2 ^ 32 - 1) value

/-- The assignment of `from_config_str` to one field. -/
def set (policy : CorsPolicy) (field : Field) (value : Str) : CorsPolicy :=
  match field with
  | .origin => { policy with allowOrigin := value }
  | .methods => { policy with allowMethods := value }
  | .headers => { policy with allowHeaders := value }
  | .credentials =>
    { policy with allowCredentials := Str.eqIgnoreAsciiCase value "true".toList }
  | .maxAge => { policy with maxAgeSeconds := parseAge value }

/-- The two parts `splitn(2, '=')` gives of a pair: what is in front of the first `'='` and what
is behind it, nothing when there is none. -/
def pairParts (pair : Str) : Str × Str := (Str.splitOnce '=' pair).getD (pair, [])

/-- One turn of the loop of `from_config_str`: unknown keys are ignored. -/
def setPair (policy : CorsPolicy) (pair : Str) : CorsPolicy :=
  let parts := pairParts pair
  let key := Str.toAsciiLowercase (Str.trim parts.1)
  let value := Str.trim parts.2
  match Field.ofKey key with
  | some field => policy.set field value
  | none => policy

/-- `from_config_str`. -/
def fromConfigStr (config : Str) : CorsPolicy := (config.splitOn ',').foldl setPair default

/-- `allowed_origin`: the origin the response may name, if any. -/
def allowedOrigin (policy : CorsPolicy) (requestOrigin : Option Str) : Option Str :=
  if policy.allowOrigin = "*".toList then some "*".toList
  else do
    let reqOrigin ← requestOrigin
    let allowed := ((policy.allowOrigin.splitOn ',').map Str.trim).filter (· ≠ [])
    (allowed.find? fun o => Str.eqIgnoreAsciiCase o reqOrigin).map fun _ => reqOrigin

/-- `header_lines`. -/
def headerLines (policy : CorsPolicy) (requestOrigin : Option Str) : List (Str × Str) :=
  (match policy.allowedOrigin requestOrigin with
    | some origin =>
      [("Access-Control-Allow-Origin".toList, origin),
        ("Access-Control-Allow-Methods".toList, policy.allowMethods),
        ("Access-Control-Allow-Headers".toList, policy.allowHeaders)]
    | none => []) ++
  (if policy.allowCredentials then
    [("Access-Control-Allow-Credentials".toList, "true".toList)] else []) ++
  (match policy.maxAgeSeconds with
    | some maxAge => [("Access-Control-Max-Age".toList, Nat.toDigits 10 maxAge)]
    | none => [])

/-- `preflight_response`. -/
def preflightResponse (_ : CorsPolicy) : Response where
  status := .noContent
  headers := [("Content-Type".toList, "text/plain".toList)]
  body := []

/-- The names a policy emits. -/
def headerNames : List Str :=
  ["Access-Control-Allow-Origin".toList, "Access-Control-Allow-Methods".toList,
    "Access-Control-Allow-Headers".toList, "Access-Control-Allow-Credentials".toList,
    "Access-Control-Max-Age".toList]

/-- The names have no colon. -/
lemma colon_notMem_of_mem_headerNames : ∀ name ∈ headerNames, ':' ∉ name := by
  unfold headerNames
  rewrite [String.toList_ofList, String.toList_ofList, String.toList_ofList, String.toList_ofList,
    String.toList_ofList]
  decide

/-- The names differ in more than letter case. -/
lemma nodup_toAsciiLowercase_headerNames : (headerNames.map Str.toAsciiLowercase).Nodup := by
  unfold headerNames
  rewrite [String.toList_ofList, String.toList_ofList, String.toList_ofList, String.toList_ofList,
    String.toList_ofList]
  decide

/-- The names of the headers that frame a message and end a connection are not among them. -/
lemma ne_of_mem_headerNames :
    ∀ name ∈ headerNames, Str.eqIgnoreAsciiCase name "content-length".toList = false ∧
      Str.eqIgnoreAsciiCase name "transfer-encoding".toList = false ∧
      Str.eqIgnoreAsciiCase name "connection".toList = false := by
  unfold headerNames
  rewrite [String.toList_ofList, String.toList_ofList, String.toList_ofList, String.toList_ofList,
    String.toList_ofList, String.toList_ofList, String.toList_ofList, String.toList_ofList]
  decide

/-- A policy emits no header under another name. -/
lemma name_mem_headerNames {policy : CorsPolicy} {origin : Option Str} {entry : Str × Str}
    (h : entry ∈ policy.headerLines origin) : entry.1 ∈ headerNames := by
  unfold headerLines at h
  simp only [List.mem_append] at h
  rcases h with (h | h) | h
  · cases ho : policy.allowedOrigin origin with
    | none => simp [ho] at h
    | some o =>
      simp only [ho, List.mem_cons, List.not_mem_nil, or_false] at h
      rcases h with rfl | rfl | rfl <;> simp only [headerNames, List.mem_cons, true_or, or_true]
  · split_ifs at h
    · obtain rfl := List.mem_singleton.1 h
      simp only [headerNames, List.mem_cons, true_or, or_true]
    · simp at h
  · cases hm : policy.maxAgeSeconds with
    | none => simp [hm] at h
    | some maxAge =>
      simp only [hm, List.mem_singleton] at h
      subst h
      simp only [headerNames, List.mem_cons, true_or, or_true]

end CorsPolicy

end Httpageboy
