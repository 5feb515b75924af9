import Httpageboy.Core.CorsConfig
import Httpageboy.Runtime.ResponseFraming

set_option relaxedAutoImplicit false
set_option autoImplicit false

/-!
# Cross-origin headers

The lines a policy adds to a response head: which origin they name, whether they allow
credentials, and how they add up with the headers of a handler.

## Main definitions

* `Httpageboy.CorsPolicy.Lists` — an origin the policy lists.
* `Httpageboy.CorsPolicy.CredentialsNamed` — credentials are allowed to a named origin only.
* `Httpageboy.headFront` — what stands in front of the lines of the policy.
* `Httpageboy.named`, `Httpageboy.Emits` — header lines by name, and those of the policy.

## Main results

* `Httpageboy.CorsPolicy.credentialsNamed_iff` — when credentials go to a named origin only.
* `Httpageboy.corsLines_reflect` — the named origin is that of the request, and it is listed.
* `Httpageboy.corsLines_once_iff` — when each cross-origin header is written once.
-/

namespace Httpageboy

open Search

/-! ## Names -/

/-- The name of the header that names the origin. -/
def originName : Str := "Access-Control-Allow-Origin".toList

/-- The name of the header that allows credentials. -/
def credentialsName : Str := "Access-Control-Allow-Credentials".toList

namespace CorsPolicy

/-- The names are different. -/
lemma headerNames_nodup : headerNames.Nodup :=
  List.Nodup.of_map Str.toAsciiLowercase nodup_toAsciiLowercase_headerNames

/-- The line that names the origin comes first, and its name does not come again. -/
lemma originName_notMem :
    originName ∉ ["Access-Control-Allow-Methods".toList, "Access-Control-Allow-Headers".toList,
      credentialsName, "Access-Control-Max-Age".toList] :=
  (List.nodup_cons.1 headerNames_nodup).1

/-- The name of the line that allows credentials does not come again. -/
lemma credentialsName_notMem :
    credentialsName ∉ [originName, "Access-Control-Allow-Methods".toList,
      "Access-Control-Allow-Headers".toList] ++ ["Access-Control-Max-Age".toList] := by
  have hsplit : headerNames = [originName, "Access-Control-Allow-Methods".toList,
      "Access-Control-Allow-Headers".toList] ++
        credentialsName :: ["Access-Control-Max-Age".toList] := rfl
  have hnodup := headerNames_nodup
  rw [hsplit, List.nodup_middle] at hnodup
  exact (List.nodup_cons.1 hnodup).1

/-! ## The origin that is named -/

/-- The policy lists an origin: it is an entry of the comma-separated `allow_origin`, up to letter
case, and the white space around the entry apart. -/
def Lists (policy : CorsPolicy) (origin : Str) : Prop :=
  ∃ entry ∈ policy.allowOrigin.splitOn ',',
    Str.trim entry ≠ [] ∧ Str.eqIgnoreAsciiCase (Str.trim entry) origin = true

/-- The policy permits an origin: it is open to all, or lists the one there is. -/
def Permits (policy : CorsPolicy) (origin : Option Str) : Prop :=
  policy.allowOrigin = "*".toList ∨ ∃ r, origin = some r ∧ policy.Lists r

/-- A policy that is open to all names no one. -/
lemma allowedOrigin_of_star {policy : CorsPolicy} (h : policy.allowOrigin = "*".toList)
    (origin : Option Str) : policy.allowedOrigin origin = some "*".toList := by
  unfold allowedOrigin
  rw [if_pos h]

/-- Any other policy names the origin of the request, if it lists it. -/
lemma allowedOrigin_eq_some_iff {policy : CorsPolicy} (h : policy.allowOrigin ≠ "*".toList)
    {origin : Option Str} {r : Str} :
    policy.allowedOrigin origin = some r ↔ origin = some r ∧ policy.Lists r := by
  unfold allowedOrigin
  rw [if_neg h]
  cases origin with
  | none => simp
  | some o =>
    show Option.map (fun _ => o) (List.find? _ _) = some r ↔ _
    rw [Option.map_eq_some_iff]
    constructor
    · intro hfind
      obtain ⟨entry, hentry, rfl⟩ := hfind
      obtain ⟨hmem, hne⟩ := List.mem_filter.1 (List.mem_of_find?_eq_some hentry)
      obtain ⟨piece, hpiece, rfl⟩ := List.mem_map.1 hmem
      have heq := List.find?_some hentry
      exact ⟨rfl, piece, hpiece, by simpa using hne, heq⟩
    · intro hlists
      obtain ⟨ho, piece, hpiece, hne, heq⟩ := hlists
      obtain rfl := Option.some.inj ho
      have hmem : Str.trim piece ∈
          ((policy.allowOrigin.splitOn ',').map Str.trim).filter (· ≠ []) :=
        List.mem_filter.2 ⟨List.mem_map_of_mem hpiece, by simpa using hne⟩
      have hsome := (List.find?_isSome (p := fun e => Str.eqIgnoreAsciiCase e o)).2
        ⟨Str.trim piece, hmem, heq⟩
      obtain ⟨entry, hentry⟩ := Option.isSome_iff_exists.1 hsome
      exact ⟨entry, hentry, rfl⟩

/-- An origin is named when the policy permits the one of the request. -/
lemma allowedOrigin_eq_none_iff {policy : CorsPolicy} {origin : Option Str} :
    policy.allowedOrigin origin = none ↔ ¬ policy.Permits origin := by
  unfold Permits
  by_cases h : policy.allowOrigin = "*".toList
  · simp [allowedOrigin_of_star h, h]
  · rw [Option.eq_none_iff_forall_ne_some]
    simp only [h, false_or, not_exists]
    exact forall_congr' fun r => not_congr (allowedOrigin_eq_some_iff h)

/-! ## The lines of a policy -/

/-- The line that names the origin. -/
lemma origin_mem_headerLines {policy : CorsPolicy} {origin : Option Str} {value : Str} :
    (originName, value) ∈ policy.headerLines origin ↔
      policy.allowedOrigin origin = some value := by
  have hnames := originName_notMem
  simp only [List.mem_cons, List.not_mem_nil, or_false, not_or] at hnames
  obtain ⟨hmethods, hheaders, hcredentials, hage⟩ := hnames
  unfold headerLines
  rw [List.mem_append, List.mem_append]
  constructor
  · intro h
    rcases h with (h | h) | h
    · cases ho : policy.allowedOrigin origin with
      | none => simp [ho] at h
      | some o =>
        simp only [ho, List.mem_cons, Prod.mk.injEq, hmethods, hheaders, false_and,
          List.not_mem_nil, or_false] at h
        rw [h.2]
    · split_ifs at h
      · exact absurd (congrArg Prod.fst (List.mem_singleton.1 h)) hcredentials
      · cases h
    · cases hm : policy.maxAgeSeconds with
      | none => simp [hm] at h
      | some age =>
        rw [hm] at h
        exact absurd (congrArg Prod.fst (List.mem_singleton.1 h)) hage
  · intro h
    left
    left
    rw [h]
    exact List.mem_cons_self

/-- The line that allows credentials. -/
lemma credentials_mem_headerLines {policy : CorsPolicy} {origin : Option Str} :
    (credentialsName, "true".toList) ∈ policy.headerLines origin ↔
      policy.allowCredentials = true := by
  have hnames := credentialsName_notMem
  simp only [List.cons_append, List.nil_append, List.mem_cons, List.not_mem_nil, or_false,
    not_or] at hnames
  obtain ⟨horigin, hmethods, hheaders, hage⟩ := hnames
  unfold headerLines
  rw [List.mem_append, List.mem_append]
  constructor
  · intro h
    rcases h with (h | h) | h
    · cases ho : policy.allowedOrigin origin with
      | none => simp [ho] at h
      | some o =>
        rw [ho] at h
        have hname := List.mem_map_of_mem (f := Prod.fst) h
        simp only [List.map_cons, List.map_nil, List.mem_cons, hmethods, hheaders,
          List.not_mem_nil, or_false] at hname
        exact absurd hname horigin
    · by_contra hoff
      rw [if_neg hoff] at h
      cases h
    · cases hm : policy.maxAgeSeconds with
      | none => simp [hm] at h
      | some age =>
        rw [hm] at h
        exact absurd (congrArg Prod.fst (List.mem_singleton.1 h)) hage
  · intro h
    left
    right
    rw [if_pos h]
    exact List.mem_singleton.2 rfl

/-! ## Credentials -/

/-- Credentials are allowed only together with the origin of the request, which is named as it is
and is not the wildcard. -/
def CredentialsNamed (policy : CorsPolicy) (origin : Option Str) : Prop :=
  (credentialsName, "true".toList) ∈ policy.headerLines origin →
    ∃ r, origin = some r ∧ r ≠ "*".toList ∧ (originName, r) ∈ policy.headerLines origin ∧
      ∀ value, (originName, value) ∈ policy.headerLines origin → value = r

/-- **When credentials go to a named origin only**: the policy does not allow them at all, or it is
not open to all and lists the origin of the request, which is not the wildcard itself.

**Proof sketch.** The line that allows credentials is written whenever the policy allows them; the
line that names the origin has the value `allowed_origin`, which is the wildcard for a policy that
is open to all, and otherwise the origin of the request if it is listed. -/
theorem credentialsNamed_iff (policy : CorsPolicy) (origin : Option Str) :
    policy.CredentialsNamed origin ↔
      policy.allowCredentials = false ∨
        policy.allowOrigin ≠ "*".toList ∧
          ∃ r, origin = some r ∧ r ≠ "*".toList ∧ policy.Lists r := by
  unfold CredentialsNamed
  simp only [credentials_mem_headerLines, origin_mem_headerLines]
  cases policy.allowCredentials with
  | false => simp
  | true =>
    by_cases hstar : policy.allowOrigin = "*".toList
    · simp only [allowedOrigin_of_star hstar, hstar, forall_const, Option.some.injEq]
      simp only [ne_eq, not_true_eq_false, false_and, or_false, Bool.true_eq_false, iff_false]
      intro h
      obtain ⟨r, -, hr, hvalue, -⟩ := h
      exact hr hvalue.symm
    · simp only [allowedOrigin_eq_some_iff hstar, forall_const, Bool.true_eq_false, false_or]
      constructor
      · intro h
        obtain ⟨r, ho, hr, hlists, -⟩ := h
        exact ⟨hstar, r, ho, hr, hlists.2⟩
      · intro h
        obtain ⟨-, r, ho, hr, hlists⟩ := h
        refine ⟨r, ho, hr, ⟨ho, hlists⟩, ?_⟩
        intro value hvalue
        exact Option.some.inj (hvalue.1.symm.trans ho)

/-- A configuration of one key allows credentials to every origin. -/
theorem credentials_true_not_named :
    ¬ ∀ (config : Str) (origin : Option Str), (fromConfigStr config).CredentialsNamed origin := by
  intro h
  have hconfig : (fromConfigStr "credentials=true".toList).allowOrigin = "*".toList ∧
      (fromConfigStr "credentials=true".toList).allowCredentials = true := by
    rewrite [String.toList_ofList, String.toList_ofList]
    decide
  obtain ⟨hstar, hcredentials⟩ := hconfig
  have hnamed := h "credentials=true".toList (some "http://app".toList)
  unfold CredentialsNamed at hnamed
  simp only [credentials_mem_headerLines, origin_mem_headerLines,
    allowedOrigin_of_star hstar] at hnamed
  obtain ⟨r, -, hr, hvalue, -⟩ := hnamed hcredentials
  exact hr (Option.some.inj hvalue).symm

end CorsPolicy

/-! ## Reflection -/

/-- The entries of a head in front of those of the policy. -/
def frontEntries (response : Response) (method : Option RequestType) (close : Bool) :
    List (Str × Str) :=
  keptHeaders response close ++ lengthEntries response method ++ closeEntries close

/-- What stands in front of the lines of the policy in a head. -/
def headFront (response : Response) (method : Option RequestType) (close : Bool) : Str :=
  statusLine response.status ++ (frontEntries response method close).flatMap headerLine

/-- The lines of the policy are the last ones of a head. -/
lemma renderHead_front (response : Response) (method : Option RequestType) (close : Bool)
    (cors : Option CorsPolicy) (origin : Option Str) :
    renderHead response.status (headEntries response method close cors origin) =
      headFront response method close ++ (corsLines cors origin).flatMap headerLine ++ newline := by
  unfold renderHead headFront headEntries frontEntries
  rw [List.flatMap_append]
  simp only [List.append_assoc]

/-- **The origin of the request is reflected exactly when it is listed.** Under a policy that is
not open to all, the lines of the policy in a head name an origin exactly when the policy lists
the origin of the request, and then they name that one; and all requests whose origin is not
listed, or that have none, get the same lines, and the same head.

**Proof sketch.** A head ends with the lines of the policy. The line that names the origin has the
value `allowed_origin`, which searches the list and returns its argument; without it, the lines
depend on the policy alone. -/
theorem corsLines_reflect (policy : CorsPolicy) (hpolicy : policy.allowOrigin ≠ "*".toList)
    (response : Response) (method : Option RequestType) (close : Bool) :
    (∀ origin head, responseHead response method close (some policy) origin = some head →
      head = headFront response method close ++
        (corsLines (some policy) origin).flatMap headerLine ++ newline) ∧
    (∀ origin value, (originName, value) ∈ corsLines (some policy) origin ↔
      origin = some value ∧ policy.Lists value) ∧
    ∀ origin origin', (∀ r, origin = some r → ¬ policy.Lists r) →
      (∀ r, origin' = some r → ¬ policy.Lists r) →
      corsLines (some policy) origin = corsLines (some policy) origin' ∧
        responseHead response method close (some policy) origin =
          responseHead response method close (some policy) origin' := by
  refine ⟨?_, ?_, ?_⟩
  · intro origin head hhead
    rw [responseHead_eq] at hhead
    split_ifs at hhead
    rw [← Option.some.inj hhead, renderHead_front]
  · intro origin value
    show (originName, value) ∈ policy.headerLines origin ↔ _
    rw [CorsPolicy.origin_mem_headerLines, CorsPolicy.allowedOrigin_eq_some_iff hpolicy]
  · intro origin origin' h h'
    have hnone : ∀ o : Option Str, (∀ r, o = some r → ¬ policy.Lists r) →
        policy.allowedOrigin o = none := by
      intro o ho
      apply Option.eq_none_iff_forall_ne_some.2
      intro r hr
      obtain ⟨hsome, hlists⟩ := (CorsPolicy.allowedOrigin_eq_some_iff hpolicy).1 hr
      exact ho r hsome hlists
    have hlines : corsLines (some policy) origin = corsLines (some policy) origin' := by
      show policy.headerLines origin = policy.headerLines origin'
      unfold CorsPolicy.headerLines
      rw [hnone origin h, hnone origin' h']
    refine ⟨hlines, ?_⟩
    rw [responseHead_eq, responseHead_eq]
    unfold headValid headEntries
    rw [hlines]

/-- A policy with two origins. -/
def twoOriginPolicy : CorsPolicy :=
  { CorsPolicy.default with allowOrigin := "http://a, http://b".toList }

/-- Of two origins in the list, one that is listed but for case is reflected, and a longer one is
not. -/
theorem twoOriginPolicy_reflect :
    (originName, "HTTP://B".toList) ∈ corsLines (some twoOriginPolicy) (some "HTTP://B".toList) ∧
      corsLines (some twoOriginPolicy) (some "http://b.c".toList) =
        corsLines (some twoOriginPolicy) none := by
  obtain ⟨-, hnames, hsame⟩ :=
    corsLines_reflect twoOriginPolicy (by decide) Response.new none false
  constructor
  · apply (hnames _ _).2
    refine ⟨rfl, " http://b".toList, ?_, ?_, ?_⟩ <;> decide
  · apply (hsame _ _ _ _).1
    · intro r hr hlists
      obtain rfl := Option.some.inj hr
      obtain ⟨entry, hentry, -, heq⟩ := hlists
      revert entry
      decide
    · intro r hr
      cases hr

/-! ## Header lines by name -/

/-- A header line has this name: it stands in front of the first colon, up to letter case. -/
def named (name line : Str) : Bool :=
  match Str.splitOnce ':' line with
  | some (key, _) => Str.eqIgnoreAsciiCase key name
  | none => false

/-- How many header lines of a head have this name. -/
def occurrences (name head : Str) : ℕ := (splitPair '\r' '\n' head).tail.countP (named name)

/-- How many headers of a response are written with this name. -/
def listings (name : Str) (response : Response) : ℕ :=
  (response.headers.map fieldLine).countP (named name)

/-- The policy writes a header with this name: the three that describe what is allowed when it
permits the origin, the one that allows credentials when it does, the age when it has one. -/
def Emits (cors : Option CorsPolicy) (origin : Option Str) (name : Str) : Prop :=
  ∃ policy, cors = some policy ∧
    ((name = originName ∨ name = "Access-Control-Allow-Methods".toList ∨
        name = "Access-Control-Allow-Headers".toList) ∧ policy.Permits origin ∨
      name = credentialsName ∧ policy.allowCredentials = true ∨
      name = "Access-Control-Max-Age".toList ∧ policy.maxAgeSeconds ≠ none)

/-- A key without a colon is the name of its line. -/
lemma named_fieldLine {name : Str} {entry : Str × Str} (h : ':' ∉ entry.1) :
    named name (fieldLine entry) = Str.eqIgnoreAsciiCase entry.1 name := by
  simp only [named, splitOnce_fieldLine h]

/-- A name of a policy is the name of its line alone. -/
lemma named_headerName {name : Str} {entry : Str × Str} (hname : name ∈ CorsPolicy.headerNames)
    (hentry : entry.1 ∈ CorsPolicy.headerNames) :
    named name (fieldLine entry) = (entry.1 == name) := by
  rw [named_fieldLine (CorsPolicy.colon_notMem_of_mem_headerNames _ hentry), Bool.eq_iff_iff,
    Str.eqIgnoreAsciiCase_iff, beq_iff_eq]
  constructor
  · intro hlower
    exact List.inj_on_of_nodup_map CorsPolicy.nodup_toAsciiLowercase_headerNames hentry hname hlower
  · intro heq
    rw [heq]

/-- A key that equals one name, up to letter case, is not another one. -/
lemma named_eq_false {name other : Str} {entry : Str × Str}
    (hcolon : ':' ∉ Str.toAsciiLowercase other) (hne : Str.eqIgnoreAsciiCase name other = false)
    (h : Str.eqIgnoreAsciiCase entry.1 other = true) : named name (fieldLine entry) = false := by
  have hkey : ':' ∉ entry.1 := fun hmem => hcolon (Str.toLower_mem_of_eqIgnoreAsciiCase h hmem)
  rw [named_fieldLine hkey, Bool.eq_false_iff]
  intro hnamed
  have hsame : Str.eqIgnoreAsciiCase name other = true :=
    Str.eqIgnoreAsciiCase_iff.2
      ((Str.eqIgnoreAsciiCase_iff.1 hnamed).symm.trans (Str.eqIgnoreAsciiCase_iff.1 h))
  rw [hne] at hsame
  cases hsame

/-- The headers that a head leaves out are not cross-origin headers. -/
lemma not_named_of_skipped {close : Bool} {name : Str} {entry : Str × Str}
    (hname : name ∈ CorsPolicy.headerNames) (h : skipped close entry.1 = true) :
    named name (fieldLine entry) = false := by
  obtain ⟨hlength, -, hconnection⟩ := CorsPolicy.ne_of_mem_headerNames _ hname
  have hcolons : ':' ∉ Str.toAsciiLowercase "content-length".toList ∧
      ':' ∉ Str.toAsciiLowercase "connection".toList := by
    rewrite [String.toList_ofList, String.toList_ofList]
    decide
  unfold skipped at h
  rcases Bool.or_eq_true_iff.1 h with hskip | hskip
  · exact named_eq_false hcolons.1 hlength hskip
  · exact named_eq_false hcolons.2 hconnection (Bool.and_eq_true_iff.1 hskip).1

/-- The cross-origin headers of a handler are all kept. -/
lemma countP_named_keptHeaders {name : Str} (hname : name ∈ CorsPolicy.headerNames)
    (response : Response) (close : Bool) :
    ((keptHeaders response close).map fieldLine).countP (named name) = listings name response := by
  unfold keptHeaders listings
  rw [List.countP_map, List.countP_map, List.countP_filter]
  congr 1
  funext entry
  show (named name (fieldLine entry) && !skipped close entry.1) = named name (fieldLine entry)
  cases hskip : skipped close entry.1 with
  | false => simp
  | true => simp [not_named_of_skipped hname hskip]

/-- The headers that the head adds itself are not cross-origin headers. -/
lemma countP_named_added {name : Str} (hname : name ∈ CorsPolicy.headerNames) (response : Response)
    (method : Option RequestType) (close : Bool) :
    ((lengthEntries response method ++ closeEntries close).map fieldLine).countP (named name) =
      0 := by
  have hkeys : ∀ key ∈ ["Content-Length".toList, "Connection".toList],
      skipped true key = true := by
    rewrite [String.toList_ofList, String.toList_ofList]
    decide
  apply List.countP_eq_zero.2
  intro line hline
  obtain ⟨entry, hentry, rfl⟩ := List.mem_map.1 hline
  have hkey : entry.1 ∈ ["Content-Length".toList, "Connection".toList] := by
    unfold lengthEntries closeEntries at hentry
    rcases List.mem_append.1 hentry with h | h
    · split_ifs at h
      · rw [List.mem_singleton.1 h]
        exact List.mem_cons_self
      · cases h
    · split_ifs at h
      · rw [List.mem_singleton.1 h]
        exact List.mem_cons_of_mem _ List.mem_cons_self
      · cases h
  rw [not_named_of_skipped hname (hkeys _ hkey)]
  exact Bool.false_ne_true

/-- The names of the lines of a policy, in order. -/
lemma map_fst_headerLines (policy : CorsPolicy) (origin : Option Str) :
    (policy.headerLines origin).map Prod.fst =
      (if (policy.allowedOrigin origin).isSome then
        [originName, "Access-Control-Allow-Methods".toList,
          "Access-Control-Allow-Headers".toList] else []) ++
      (if policy.allowCredentials then [credentialsName] else []) ++
      (if policy.maxAgeSeconds.isSome then ["Access-Control-Max-Age".toList] else []) := by
  unfold CorsPolicy.headerLines
  cases policy.allowedOrigin origin <;> cases policy.allowCredentials <;>
    cases policy.maxAgeSeconds <;> rfl

/-- A policy writes its headers in a fixed order. -/
lemma sublist_headerNames (policy : CorsPolicy) (origin : Option Str) :
    ((policy.headerLines origin).map Prod.fst).Sublist CorsPolicy.headerNames := by
  have hsplit : CorsPolicy.headerNames =
      [originName, "Access-Control-Allow-Methods".toList, "Access-Control-Allow-Headers".toList] ++
        [credentialsName] ++ ["Access-Control-Max-Age".toList] := rfl
  have hif : ∀ (c : Bool) (names : List Str), (if c then names else []).Sublist names := by
    intro c names
    cases c
    · exact List.nil_sublist names
    · exact List.Sublist.refl names
  rw [hsplit, map_fst_headerLines]
  exact ((hif _ _).append (hif _ _)).append (hif _ _)

/-- The names of the lines of a policy are those it emits. -/
lemma mem_map_corsLines_iff {cors : Option CorsPolicy} {origin : Option Str} {name : Str} :
    name ∈ (corsLines cors origin).map Prod.fst ↔ Emits cors origin name := by
  unfold Emits
  cases cors with
  | none => simp [corsLines]
  | some policy =>
    have hpermits : (policy.allowedOrigin origin).isSome = true ↔ policy.Permits origin := by
      rw [Option.isSome_iff_ne_none, ne_eq, CorsPolicy.allowedOrigin_eq_none_iff, not_not]
    show name ∈ (policy.headerLines origin).map Prod.fst ↔ _
    rw [map_fst_headerLines, List.mem_append, List.mem_append, List.mem_ite_nil_right,
      List.mem_ite_nil_right, List.mem_ite_nil_right, hpermits, Option.isSome_iff_ne_none]
    simp only [List.mem_cons, List.not_mem_nil, or_false, Option.some.injEq, exists_eq_left',
      or_assoc, and_comm]

/-- A policy writes each of its headers once, if at all. -/
lemma countP_named_corsLines {name : Str} (hname : name ∈ CorsPolicy.headerNames)
    (cors : Option CorsPolicy) (origin : Option Str) :
    ((corsLines cors origin).map fieldLine).countP (named name) =
      ((corsLines cors origin).map Prod.fst).count name ∧
    ((corsLines cors origin).map Prod.fst).count name ≤ 1 := by
  cases cors with
  | none => simp [corsLines]
  | some policy =>
    have hsublist := sublist_headerNames policy origin
    constructor
    · unfold List.count
      rw [List.countP_map, List.countP_map]
      apply List.countP_congr
      intro entry hentry
      show named name (fieldLine entry) = true ↔ (entry.1 == name) = true
      rw [named_headerName hname (CorsPolicy.name_mem_headerNames hentry)]
    · exact List.nodup_iff_count_le_one.1 (hsublist.nodup CorsPolicy.headerNames_nodup) name

/-- A head has the cross-origin headers that the handler lists and those of the policy. -/
lemma occurrences_eq {response : Response} {method : Option RequestType} {close : Bool}
    {cors : Option CorsPolicy} {origin : Option Str} {head name : Str}
    (hhead : responseHead response method close cors origin = some head)
    (hname : name ∈ CorsPolicy.headerNames) :
    occurrences name head =
      listings name response + ((corsLines cors origin).map Prod.fst).count name := by
  obtain ⟨hvalid, rfl⟩ := responseHead_eq_some_iff.1 hhead
  have hlines : ∀ line ∈ headLines response method close cors origin ++ [[]], '\r' ∉ line := by
    intro line hline
    rcases List.mem_append.1 hline with hline | hline
    · exact (oneLine_headLines hvalid method close line hline).1.1
    · rw [List.mem_singleton.1 hline]
      exact List.not_mem_nil
  have hempty : named name [] = false := rfl
  unfold occurrences
  rw [splitPair_unlines (by decide) hlines, headLines, List.cons_append, List.cons_append,
    List.tail_cons, List.countP_append, List.countP_append, headEntries, List.append_assoc,
    List.append_assoc, ← List.append_assoc (lengthEntries response method), List.map_append,
    List.map_append, List.countP_append, List.countP_append, countP_named_keptHeaders hname,
    countP_named_added hname, (countP_named_corsLines hname cors origin).1]
  simp [hempty]

/-- **When each cross-origin header is written once**: where the handler lists each of them once at
most, exactly when it lists none that the policy writes too.

**Proof sketch.** The head has the lines of the handler and those of the policy. The policy writes
each name once at most, so that a name is written twice exactly when both write it. -/
theorem corsLines_once_iff (response : Response) (method : Option RequestType) (close : Bool)
    (cors : Option CorsPolicy) (origin : Option Str) (head : Str)
    (hhead : responseHead response method close cors origin = some head)
    (honce : ∀ name ∈ CorsPolicy.headerNames, listings name response ≤ 1) :
    (∀ name ∈ CorsPolicy.headerNames, occurrences name head ≤ 1) ↔
      ∀ name ∈ CorsPolicy.headerNames, listings name response = 1 →
        ¬ Emits cors origin name := by
  refine forall₂_congr fun name hname => ?_
  have hlisted := honce name hname
  have hemitted := (countP_named_corsLines hname cors origin).2
  rw [occurrences_eq hhead hname, ← mem_map_corsLines_iff, ← List.count_pos_iff]
  omega

/-- No line of the default policy contains a line break. -/
lemma validEntry_corsLines_default (origin : Option Str) :
    (corsLines (some .default) origin).all validEntry = true := by
  show (CorsPolicy.default.headerLines origin).all validEntry = true
  unfold CorsPolicy.headerLines
  rewrite [CorsPolicy.allowedOrigin_of_star rfl]
  unfold CorsPolicy.default
  rewrite [String.toList_ofList, String.toList_ofList, String.toList_ofList, String.toList_ofList,
    String.toList_ofList, String.toList_ofList, String.toList_ofList]
  decide

/-- A response that names its origin itself. -/
def namedResponse : Response where
  status := .ok
  headers := [("access-control-allow-origin".toList, "http://app".toList)]
  body := []

/-- The origin that a response names itself is in the head twice, once from the policy. -/
theorem namedResponse_twice :
    ¬ ∀ (response : Response) (method : Option RequestType) (close : Bool)
      (cors : Option CorsPolicy) (origin : Option Str) (head : Str),
      responseHead response method close cors origin = some head →
      (∀ name ∈ CorsPolicy.headerNames, listings name response ≤ 1) →
      ∀ name ∈ CorsPolicy.headerNames, occurrences name head ≤ 1 := by
  intro h
  have hvalid : headValid namedResponse (some .default) none = true := by
    unfold headValid namedResponse
    rewrite [validEntry_corsLines_default, String.toList_ofList, String.toList_ofList]
    decide
  obtain ⟨head, hhead⟩ : ∃ head, responseHead namedResponse none false (some .default) none =
      some head := ⟨_, responseHead_eq_some_iff.2 ⟨hvalid, rfl⟩⟩
  have hname : originName ∈ CorsPolicy.headerNames := List.mem_cons_self
  have hlisted : listings originName namedResponse = 1 := by
    unfold listings namedResponse originName
    rewrite [String.toList_ofList, String.toList_ofList, String.toList_ofList]
    decide
  have hemitted : originName ∈ (corsLines (some .default) none).map Prod.fst :=
    mem_map_corsLines_iff.2 ⟨.default, rfl, .inl ⟨.inl rfl, .inl rfl⟩⟩
  have honce := h _ _ _ _ _ _ hhead (fun name _ => List.countP_le_length) originName hname
  rw [occurrences_eq hhead hname, hlisted] at honce
  have hpos := List.count_pos_iff.2 hemitted
  omega

/-- A response without cross-origin headers of its own keeps those of the policy apart. -/
theorem default_corsLines_once :
    ∃ head, responseHead Response.new none false (some .default) none = some head ∧
      ∀ name ∈ CorsPolicy.headerNames, occurrences name head ≤ 1 := by
  have hvalid : headValid Response.new (some .default) none = true := by
    unfold headValid Response.new
    rewrite [validEntry_corsLines_default, String.toList_ofList, String.toList_ofList]
    decide
  obtain ⟨head, hhead⟩ : ∃ head, responseHead Response.new none false (some .default) none =
      some head := ⟨_, responseHead_eq_some_iff.2 ⟨hvalid, rfl⟩⟩
  have hnone : ∀ name ∈ CorsPolicy.headerNames, listings name Response.new = 0 := by
    unfold CorsPolicy.headerNames Response.new
    rewrite [String.toList_ofList, String.toList_ofList, String.toList_ofList,
      String.toList_ofList, String.toList_ofList, String.toList_ofList, String.toList_ofList]
    decide
  refine ⟨head, hhead, (corsLines_once_iff _ _ _ _ _ _ hhead ?_).2 ?_⟩
  · intro name hname
    rw [hnone name hname]
    omega
  · intro name hname hlisted
    rw [hnone name hname] at hlisted
    cases hlisted

end Httpageboy
