import Httpageboy.Runtime.Statuses

set_option relaxedAutoImplicit false
set_option autoImplicit false

/-!
# What a page of another origin learns

A browser lets the script of a page read a response from another origin only when the headers of
the response allow it, and asks with an `OPTIONS` request first when the script wants more than a
plain form may send. Here is a browser, and what it makes of the responses of a server whose
handlers leave the cross-origin headers to the policy: it does what the policy says.

## Main definitions

* `Httpageboy.Page`, `Httpageboy.Page.mayRead`, `Httpageboy.Page.mayAsk` — the browser.
* `Httpageboy.CorsPolicy.Admits`, `Httpageboy.CorsPolicy.Grants` — what the policy says.
* `Httpageboy.Quiet` — a response without cross-origin headers of its own.

## Main results

* `Httpageboy.Reply.mayRead_iff` — who may read a reply.
* `Httpageboy.run_crossOrigin` — who may read the responses of a run, and ask for more.
-/

namespace Httpageboy

open Search

variable {H U : Type}

/-! ## The browser -/

/-- A page with a request that its script makes: the method, the names of the headers that need a
permission, and whether cookies are sent along. -/
structure Page where
  origin : Str
  method : Str
  headers : List Str
  credentials : Bool
  origin_ne : origin ≠ "*".toList

/-- The names of a comma-separated list. -/
def listedNames (value : Str) : List Str := (value.splitOn ',').map trimOws

/-- The value of a field, whose lines are put together. -/
def fieldValue (name : Str) (lines : List Str) : Option Str :=
  match (fieldValues name lines).map trimOws with
  | [] => none
  | value :: values => some ([',', ' '].intercalate (value :: values))

/-- The names that a field lists on all its lines. -/
def fieldNames (name : Str) (lines : List Str) : List Str :=
  (fieldValues name lines).flatMap listedNames

namespace Page

/-- The methods that a form may use. -/
def simpleMethods : List Str := ["GET".toList, "HEAD".toList, "POST".toList]

/-- The script may read a response with these header lines. -/
def mayRead (page : Page) (lines : List Str) : Bool :=
  match fieldValue originName lines with
  | none => false
  | some value =>
    if page.credentials then
      value = page.origin && fieldValue credentialsName lines = some "true".toList
    else value = "*".toList || value = page.origin

/-- The lists name the method and the headers of the request. A wildcard stands for all of them but
`Authorization`, unless cookies are sent along. -/
def covered (page : Page) (methods headers : List Str) : Bool :=
  (simpleMethods.any (· = page.method) || methods.any (· = page.method) ||
    (!page.credentials && methods.any (· = "*".toList))) &&
  page.headers.all fun header =>
    headers.any (Str.eqIgnoreAsciiCase header) ||
      (!page.credentials && headers.any (· = "*".toList) &&
        !Str.eqIgnoreAsciiCase header "authorization".toList)

/-- Without a line that names an origin, nobody may read the response. -/
lemma mayRead_of_none {page : Page} {lines : List Str} (h : fieldValue originName lines = none) :
    page.mayRead lines = false := by
  unfold mayRead
  rw [h]

/-- A response without cookies may be read by everyone, or by the origin that is named. -/
lemma mayRead_of_anonymous {page : Page} {lines : List Str} {value : Str}
    (hpage : page.credentials = false) (h : fieldValue originName lines = some value) :
    page.mayRead lines = true ↔ value = "*".toList ∨ value = page.origin := by
  unfold mayRead
  rw [h]
  simp only [hpage, Bool.false_eq_true, if_false, Bool.or_eq_true, decide_eq_true_eq]

/-- A response with cookies may be read by the origin that is named, if they are allowed. -/
lemma mayRead_of_credentials {page : Page} {lines : List Str} {value : Str}
    (hpage : page.credentials = true) (h : fieldValue originName lines = some value) :
    page.mayRead lines = true ↔
      value = page.origin ∧ fieldValue credentialsName lines = some "true".toList := by
  unfold mayRead
  rw [h]
  simp only [hpage, if_true, Bool.and_eq_true, decide_eq_true_eq]

/-- The request may be made, when the answer to the question has this status and these lines. -/
def mayAsk (page : Page) (status : ℕ) (lines : List Str) : Bool :=
  page.mayRead lines && (200 ≤ status && status < 300) &&
    page.covered (fieldNames "Access-Control-Allow-Methods".toList lines)
      (fieldNames "Access-Control-Allow-Headers".toList lines)

end Page

/-! ## The policy -/

namespace CorsPolicy

/-- The policy lets the page read the responses to requests with this `Origin` header: it is open
to all and no cookies are sent, or it lists the origin of the page, and allows cookies if they are
sent. -/
def Admits (policy : CorsPolicy) (origin : Option Str) (page : Page) : Prop :=
  if policy.allowOrigin = "*".toList then page.credentials = false
  else origin = some page.origin ∧ policy.Lists page.origin ∧
    (page.credentials = true → policy.allowCredentials = true)

/-- The policy lets the page make its request. -/
def Grants (policy : CorsPolicy) (origin : Option Str) (page : Page) : Prop :=
  policy.Admits origin page ∧
    page.covered (listedNames policy.allowMethods) (listedNames policy.allowHeaders) = true

/-- The names that a browser looks for. -/
lemma mem_headerNames :
    originName ∈ headerNames ∧ "Access-Control-Allow-Methods".toList ∈ headerNames ∧
      "Access-Control-Allow-Headers".toList ∈ headerNames ∧ credentialsName ∈ headerNames :=
  ⟨List.mem_cons_self, List.mem_cons_of_mem _ List.mem_cons_self,
    List.mem_cons_of_mem _ (List.mem_cons_of_mem _ List.mem_cons_self),
    List.mem_cons_of_mem _ (List.mem_cons_of_mem _ (List.mem_cons_of_mem _ List.mem_cons_self))⟩

/-- An origin that is listed has no white space around it. -/
lemma Lists.trim_eq {policy : CorsPolicy} {origin : Str} (h : policy.Lists origin) :
    Str.trim origin = origin := by
  obtain ⟨entry, -, -, hequal⟩ := h
  exact Str.trim_eq_of_eqIgnoreAsciiCase hequal

end CorsPolicy

/-! ## Lines of a reply -/

/-- The server leaves the cross-origin headers to the policy. -/
def Quiet (response : Response) : Prop :=
  ∀ name ∈ CorsPolicy.headerNames, listings name response = 0

/-- A text without white space around it has no spaces and tabs around it. -/
lemma trimOws_of_trim {s : Str} (h : Str.trim s = s) : trimOws s = s := by
  have hstart : Str.trimStart s = s := Str.trimStart_of_trim h
  have hend : Str.trimEnd s = s := by
    unfold Str.trim at h
    rwa [hstart] at h
  have hfront : s.dropWhile isOws = s := List.dropWhile_eq_self_iff.2 fun hpos hows =>
    List.dropWhile_eq_self_iff.1 hstart hpos (isWhitespace_of_isOws hows)
  unfold trimOws
  rw [hfront]
  exact List.rdropWhile_eq_self_iff.2 fun hne hows =>
    List.rdropWhile_eq_self_iff.1 hend hne (isWhitespace_of_isOws hows)

/-- The space in front of a value is trimmed. -/
lemma trimOws_space (s : Str) : trimOws (' ' :: s) = trimOws s := by
  unfold trimOws
  rw [List.dropWhile_cons_of_pos (by decide)]

/-- And it does not change a list of names. -/
lemma listedNames_space (value : Str) : listedNames (' ' :: value) = listedNames value := by
  unfold listedNames
  obtain ⟨piece, pieces, hpieces⟩ :=
    List.exists_cons_of_ne_nil (List.splitOn_ne_nil ',' value)
  rw [List.splitOn_cons_eq_if_modifyHead, if_neg (by decide), hpieces]
  show trimOws (' ' :: piece) :: _ = _
  rw [trimOws_space]
  rfl

/-- A field has one value for each of its lines. -/
lemma length_fieldValues (name : Str) (lines : List Str) :
    (fieldValues name lines).length = lines.countP (named name) := by
  unfold fieldValues
  rw [List.length_filterMap_eq_countP]
  refine List.countP_congr fun line _ => ?_
  unfold named
  rcases Str.splitOnce ':' line with _ | ⟨key, value⟩
  · simp
  · cases hkey : Str.eqIgnoreAsciiCase key name <;> simp [hkey]

namespace Reply

variable (reply : Reply)

/-- No line break goes out within an entry. -/
lemma oneLine_entries : ∀ entry ∈ reply.entries, OneLine entry.1 ∧ OneLine entry.2 := by
  unfold entries
  split_ifs with hvalid
  · exact oneLine_headEntries hvalid
  · unfold OneLine
    decide

/-- The head of a reply, as a client cuts it off. -/
lemma exists_head : ∃ head, BlankSplit reply.bytes head reply.body ∧
    headerLines head = reply.entries.map fieldLine := by
  have hstatus := (oneLine_statusText reply.status).1
  have hlines : ∀ line ∈ reply.entries.map fieldLine, '\r' ∉ line ∧ line ≠ [] := by
    intro line hline
    obtain ⟨entry, hentry, rfl⟩ := List.mem_map.1 hline
    obtain ⟨hname, hvalue⟩ := reply.oneLine_entries entry hentry
    exact ⟨cr_notMem_fieldLine hname hvalue, fieldLine_ne_nil entry⟩
  refine ⟨joinPair '\r' '\n' (statusText reply.status) (reply.entries.map fieldLine), ?_, ?_⟩
  · have hbytes : reply.bytes = Utf8.encode
        (joinPair '\r' '\n' (statusText reply.status) (reply.entries.map fieldLine)) ++
          crlfcrlf ++ reply.body := by
      rw [Reply.bytes_eq, renderHead_eq, Utf8.encode_append, Utf8.encode_append, List.append_assoc,
        List.append_assoc, List.append_assoc]
      rfl
    rw [hbytes]
    exact blankSplit_joinPair hstatus hlines reply.body
  · unfold headerLines
    rw [splitPair_joinPair (by decide) hstatus fun line hline => (hlines line hline).1]
    rfl

variable {reply}

/-- The lines with a cross-origin name are those of the policy, none when the fallback goes out. -/
lemma fieldValues_entries {name : Str} (hname : name ∈ CorsPolicy.headerNames)
    (hquiet : Quiet reply.response) :
    fieldValues name (reply.entries.map fieldLine) =
      if reply.valid then fieldValues name ((corsLines reply.cors reply.origin).map fieldLine)
      else [] := by
  have hnone : ∀ {lines : List Str}, lines.countP (named name) = 0 → fieldValues name lines = [] :=
    fun hcount => List.eq_nil_of_length_eq_zero ((length_fieldValues _ _).trans hcount)
  unfold entries
  split_ifs with hvalid
  · have hkept : fieldValues name ((keptHeaders reply.response reply.close).map fieldLine) = [] :=
      hnone ((countP_named_keptHeaders hname _ _).trans (hquiet name hname))
    have hadded := hnone (countP_named_added hname reply.response reply.method reply.close)
    unfold headEntries
    rw [List.append_assoc (keptHeaders _ _), List.map_append, List.map_append, fieldValues_append,
      fieldValues_append, hkept, hadded]
    rfl
  · exact hnone (countP_named_added hname (errorResponse .badRequest) none true)

/-- A line of the policy is the only one of its name. -/
lemma fieldValues_corsLines {cors : Option CorsPolicy} {origin : Option Str} {name value : Str}
    (hname : name ∈ CorsPolicy.headerNames) (hmem : (name, value) ∈ corsLines cors origin) :
    fieldValues name ((corsLines cors origin).map fieldLine) = [' ' :: value] := by
  have hcolon : ':' ∉ name := CorsPolicy.colon_notMem_of_mem_headerNames _ hname
  have hvalue : ' ' :: value ∈ fieldValues name ((corsLines cors origin).map fieldLine) :=
    mem_fieldValues (List.mem_map_of_mem hmem)
      (@splitOnce_fieldLine (name, value) hcolon) (Str.eqIgnoreAsciiCase_iff.2 rfl)
  have hcount := countP_named_corsLines hname cors origin
  have hpos := List.length_pos_of_mem hvalue
  rw [length_fieldValues] at hpos
  obtain ⟨only, honly⟩ := List.length_eq_one_iff.1
    ((length_fieldValues name ((corsLines cors origin).map fieldLine)).trans (by omega))
  rw [honly] at hvalue ⊢
  rw [List.mem_singleton.1 hvalue]

/-- A name that the policy does not emit has no line. -/
lemma fieldValues_corsLines_eq_nil {cors : Option CorsPolicy} {origin : Option Str} {name : Str}
    (hname : name ∈ CorsPolicy.headerNames) (hnot : ¬ Emits cors origin name) :
    fieldValues name ((corsLines cors origin).map fieldLine) = [] := by
  rw [← mem_map_corsLines_iff] at hnot
  apply List.eq_nil_of_length_eq_zero
  rw [length_fieldValues, (countP_named_corsLines hname cors origin).1]
  exact List.count_eq_zero_of_not_mem hnot

/-- The value of a line of the policy, as the browser reads it. -/
lemma fieldValue_corsLines {cors : Option CorsPolicy} {origin : Option Str} {name value : Str}
    (hname : name ∈ CorsPolicy.headerNames) (hmem : (name, value) ∈ corsLines cors origin)
    (htrim : trimOws value = value) :
    fieldValue name ((corsLines cors origin).map fieldLine) = some value := by
  unfold fieldValue
  rw [fieldValues_corsLines hname hmem, List.map_singleton, trimOws_space, htrim]
  exact congrArg some List.intercalate_singleton

/-- The browser reads that credentials are allowed when the policy allows them. -/
lemma fieldValue_credentials (policy : CorsPolicy) (origin : Option Str) :
    fieldValue credentialsName ((corsLines (some policy) origin).map fieldLine) =
      some "true".toList ↔ policy.allowCredentials = true := by
  have hname := CorsPolicy.mem_headerNames.2.2.2
  constructor
  · intro hvalue
    by_contra hnot
    have hnames := CorsPolicy.credentialsName_notMem
    simp only [List.cons_append, List.nil_append, List.mem_cons, List.not_mem_nil, or_false,
      not_or] at hnames
    have hemits : ¬ Emits (some policy) origin credentialsName := by
      rintro ⟨policy', hpolicy, hcase⟩
      obtain rfl := Option.some.inj hpolicy
      rcases hcase with ⟨horigin | hmethods | hheaders, -⟩ | ⟨-, hallowed⟩ | ⟨hage, -⟩
      · exact hnames.1 horigin
      · exact hnames.2.1 hmethods
      · exact hnames.2.2.1 hheaders
      · exact hnot hallowed
      · exact hnames.2.2.2 hage
    unfold fieldValue at hvalue
    rw [fieldValues_corsLines_eq_nil hname hemits] at hvalue
    cases hvalue
  · intro hallowed
    exact fieldValue_corsLines hname (CorsPolicy.credentials_mem_headerLines.2 hallowed) (by decide)

/-- The browser reads the origin that the policy names. -/
lemma fieldValue_origin (policy : CorsPolicy) (origin : Option Str) :
    fieldValue originName ((corsLines (some policy) origin).map fieldLine) =
      policy.allowedOrigin origin := by
  have hname := CorsPolicy.mem_headerNames.1
  cases hallowed : policy.allowedOrigin origin with
  | none =>
    have hemits : ¬ Emits (some policy) origin originName := by
      rw [← mem_map_corsLines_iff, List.mem_map]
      rintro ⟨⟨name, value⟩, hmem, rfl⟩
      have hsome := CorsPolicy.origin_mem_headerLines.1 hmem
      rw [hallowed] at hsome
      cases hsome
    unfold fieldValue
    rw [fieldValues_corsLines_eq_nil hname hemits]
    rfl
  | some value =>
    refine fieldValue_corsLines hname (CorsPolicy.origin_mem_headerLines.2 hallowed) ?_
    by_cases hstar : policy.allowOrigin = "*".toList
    · rw [CorsPolicy.allowedOrigin_of_star hstar, Option.some.injEq] at hallowed
      rw [← hallowed]
      decide
    · exact trimOws_of_trim ((CorsPolicy.allowedOrigin_eq_some_iff hstar).1 hallowed).2.trim_eq

/-- Behind the lines of a policy the browser admits the pages that the policy admits.

**Proof sketch.** The line that names the origin has the value `allowed_origin`, and the one that
allows credentials is there when they are allowed. -/
lemma mayRead_corsLines_iff (policy : CorsPolicy) {origin : Option Str} {page : Page}
    (hpage : ∀ asked, origin = some asked → asked = page.origin) :
    page.mayRead ((corsLines (some policy) origin).map fieldLine) = true ↔
      policy.Admits origin page := by
  have hvalue := fieldValue_origin policy origin
  have hallows := fieldValue_credentials policy origin
  unfold CorsPolicy.Admits
  by_cases hstar : policy.allowOrigin = "*".toList
  · rw [CorsPolicy.allowedOrigin_of_star hstar] at hvalue
    rw [if_pos hstar]
    cases hpage : page.credentials with
    | false => exact iff_of_true ((Page.mayRead_of_anonymous hpage hvalue).2 (.inl rfl)) rfl
    | true =>
      -- no origin is called `*`, and with cookies the browser insists on the origin
      refine iff_of_false (fun hread => ?_) Bool.false_ne_true.symm
      exact page.origin_ne ((Page.mayRead_of_credentials hpage hvalue).1 hread).1.symm
  · rw [if_neg hstar]
    cases hallowed : policy.allowedOrigin origin with
    | none =>
      rw [hallowed] at hvalue
      rw [Page.mayRead_of_none hvalue]
      refine iff_of_false Bool.false_ne_true fun hadmits => ?_
      rw [(CorsPolicy.allowedOrigin_eq_some_iff hstar).2 ⟨hadmits.1, hadmits.2.1⟩] at hallowed
      cases hallowed
    | some value =>
      obtain ⟨hasked, hlisted⟩ := (CorsPolicy.allowedOrigin_eq_some_iff hstar).1 hallowed
      obtain rfl := hpage value hasked
      rw [hallowed] at hvalue
      cases hpage : page.credentials with
      | false =>
        exact iff_of_true ((Page.mayRead_of_anonymous hpage hvalue).2 (.inr rfl))
          ⟨hasked, hlisted, nofun⟩
      | true =>
        rw [Page.mayRead_of_credentials hpage hvalue, hallows]
        exact ⟨fun h => ⟨hasked, hlisted, fun _ => h.2⟩, fun h => ⟨rfl, h.2.2 rfl⟩⟩

/-- **Who may read a reply**: exactly the pages that the policy admits, unless the fallback goes
out. The cross-origin lines are then those of the policy.

**Proof sketch.** The fields of the head are those of the policy, as the handlers set none of their
own; of these the browser reads the origin and the credentials. -/
theorem mayRead_iff (hquiet : Quiet reply.response) {page : Page}
    (hpage : ∀ origin, reply.origin = some origin → origin = page.origin) :
    page.mayRead (reply.entries.map fieldLine) = true ↔ reply.valid = true ∧
      ∃ policy, reply.cors = some policy ∧ policy.Admits reply.origin page := by
  obtain ⟨horigin, -, -, hcredentials⟩ := CorsPolicy.mem_headerNames
  have hread : page.mayRead (reply.entries.map fieldLine) =
      if reply.valid then page.mayRead ((corsLines reply.cors reply.origin).map fieldLine)
      else false := by
    unfold Page.mayRead fieldValue
    rw [fieldValues_entries horigin hquiet, fieldValues_entries hcredentials hquiet]
    cases reply.valid <;> rfl
  rw [hread]
  cases reply.valid with
  | false => simp
  | true =>
    rw [if_pos rfl, eq_self_iff_true, true_and]
    cases hcors : reply.cors with
    | none =>
      rw [Page.mayRead_of_none rfl]
      simp
    | some policy =>
      rw [mayRead_corsLines_iff policy hpage]
      simp

/-- The names that a list of the policy has, as the browser reads them. -/
lemma fieldNames_corsLines {cors : Option CorsPolicy} {origin : Option Str} {name value : Str}
    (hname : name ∈ CorsPolicy.headerNames) (hmem : (name, value) ∈ corsLines cors origin) :
    fieldNames name ((corsLines cors origin).map fieldLine) = listedNames value := by
  unfold fieldNames
  rw [fieldValues_corsLines hname hmem, List.flatMap_singleton, listedNames_space]

/-- **Who may make a request** behind an answer to the question: exactly the pages to which the
policy grants it.

**Proof sketch.** As for reading; the methods and headers of the policy are the values of their
fields, which the browser splits at the commas. -/
theorem mayAsk_iff (hquiet : Quiet reply.response) {page : Page}
    (hpage : ∀ origin, reply.origin = some origin → origin = page.origin)
    (hvalid : reply.valid = true) {policy : CorsPolicy} (hcors : reply.cors = some policy)
    (hstatus : 200 ≤ reply.status.code ∧ reply.status.code < 300) :
    page.mayAsk reply.status.code (reply.entries.map fieldLine) = true ↔
      policy.Grants reply.origin page := by
  have hread := mayRead_iff hquiet hpage
  simp only [hvalid, true_and, hcors, Option.some.injEq, exists_eq_left'] at hread
  unfold Page.mayAsk CorsPolicy.Grants
  rw [Bool.and_eq_true, Bool.and_eq_true, hread, and_assoc]
  refine and_congr_right fun hadmits => ?_
  -- the lists are there, because an origin is named
  obtain ⟨value, hvalue⟩ : ∃ value, policy.allowedOrigin reply.origin = some value := by
    unfold CorsPolicy.Admits at hadmits
    by_cases hstar : policy.allowOrigin = "*".toList
    · exact ⟨_, CorsPolicy.allowedOrigin_of_star hstar _⟩
    · rw [if_neg hstar] at hadmits
      exact ⟨_, (CorsPolicy.allowedOrigin_eq_some_iff hstar).2 ⟨hadmits.1, hadmits.2.1⟩⟩
  have hmem : ("Access-Control-Allow-Methods".toList, policy.allowMethods) ∈
        corsLines reply.cors reply.origin ∧
      ("Access-Control-Allow-Headers".toList, policy.allowHeaders) ∈
        corsLines reply.cors reply.origin := by
    rw [hcors]
    show _ ∈ policy.headerLines _ ∧ _ ∈ policy.headerLines _
    unfold CorsPolicy.headerLines
    simp only [hvalue, List.mem_append, List.mem_cons, true_or, or_true, and_self]
  obtain ⟨-, hmethods, hheaders, -⟩ := CorsPolicy.mem_headerNames
  have hsame : ∀ name ∈ CorsPolicy.headerNames, fieldNames name (reply.entries.map fieldLine) =
      fieldNames name ((corsLines reply.cors reply.origin).map fieldLine) := by
    intro name hname
    unfold fieldNames
    rw [fieldValues_entries hname hquiet, if_pos hvalid]
  rw [hsame _ hmethods, hsame _ hheaders, fieldNames_corsLines hmethods hmem.1,
    fieldNames_corsLines hheaders hmem.2]
  simp only [hstatus, decide_true, Bool.and_self, true_and]

end Reply

/-! ## Responses -/

/-- A response without headers is quiet. -/
lemma quiet_of_nil {response : Response} (h : response.headers = []) : Quiet response := by
  intro name _
  unfold listings
  rw [h]
  rfl

/-- A response that the server makes itself is quiet. -/
lemma OwnResponse.quiet {response : Response} (h : OwnResponse response) : Quiet response := by
  obtain ⟨-, value, -, hheaders⟩ := h
  have hname : ':' ∉ "Content-Type".toList ∧ ∀ name ∈ CorsPolicy.headerNames,
      Str.eqIgnoreAsciiCase "Content-Type".toList name = false := by
    unfold CorsPolicy.headerNames
    rewrite [String.toList_ofList, String.toList_ofList, String.toList_ofList,
      String.toList_ofList, String.toList_ofList, String.toList_ofList]
    decide
  intro name hmem
  unfold listings
  rw [hheaders, List.map_singleton, List.countP_singleton, named_fieldLine hname.1,
    hname.2 name hmem]
  rfl

/-- The handlers of the application leave the cross-origin headers to the policy. -/
def QuietHandlers (server : Server H U) (env : ℕ → Env H) : Prop :=
  ∀ i, ∀ e ∈ server.routes.entries, ∀ request, Quiet ((env i).handle e.2.handler request)

/-- The question of a browser: an `OPTIONS` request that no route serves. -/
def Exchange.IsPreflight (exchange : Exchange H U) : Prop :=
  exchange.request.method = .options ∧ exchange.invoked = []

namespace Server

variable {server : Server H U}

/-- Then every response to a request is quiet. -/
lemma quiet_respond (env env' : Env H) (raw : Bytes)
    (hquiet : ∀ e ∈ server.routes.entries, ∀ request, Quiet (env.handle e.2.handler request)) :
    Quiet (server.respond env' raw
      (parseRaw env raw server.routes server.filesSources)).response := by
  rcases server.respond_cases env env' raw with
    ⟨response, hparse, -, hrespond⟩ | ⟨request, e, -, hselect, -, hrespond⟩ |
      ⟨request, response, hparse, hselect, -, -, -⟩
  · rw [hrespond]
    exact quiet_of_nil (headers_of_parseRawOnly hparse)
  · rw [hrespond]
    exact hquiet e (selectEntry_eq_some hselect).1 _
  · rw [server.respond_unserved env env' hparse hselect]
    by_cases hget : request.method = .get
    · simp only [if_pos hget]
      exact (ownResponse_serveFile _ _ _).quiet
    · simp only [if_neg hget]
      exact (ownResponse_responseOrDefault _ _).quiet

/-- The two passes of a request leave the same request behind. -/
lemma request_respond (server : Server H U) (env env' : Env H) (raw : Bytes) :
    (server.respond env' raw (parseRaw env raw server.routes server.filesSources)).request =
      (parseRaw env raw server.routes server.filesSources).request := by
  rcases server.respond_cases env env' raw with
    ⟨_, -, hrequest, hrespond⟩ | ⟨_, _, -, -, hrequest, hrespond⟩ |
      ⟨_, _, -, -, hrequest, -, hrespond⟩
  all_goals rw [hrespond, hrequest]

/-- The question of a browser is answered by the policy, if there is one. -/
lemma response_of_isPreflight (env env' : Env H) (raw : Bytes)
    (h : (server.respond env' raw
      (parseRaw env raw server.routes server.filesSources)).IsPreflight) :
    (server.respond env' raw (parseRaw env raw server.routes server.filesSources)).response =
      responseOrDefault none .options server.cors := by
  obtain ⟨hmethod, hinvoked⟩ := h
  rcases server.respond_cases env env' raw with
    ⟨response, hparse, -, hrespond⟩ | ⟨request, e, -, hselect, -, hrespond⟩ |
      ⟨request, response, hparse, hselect, -, -, -⟩
  · rw [hrespond] at hmethod
    cases hmethod
  · rw [hrespond] at hinvoked
    cases hinvoked
  · rw [server.respond_unserved env env' hparse hselect] at hmethod ⊢
    have hmethod : request.method = .options := hmethod
    have hget : request.method ≠ .get := by
      rw [hmethod]
      nofun
    show (if request.method = .get then _ else responseOrDefault none request.method _) = _
    rw [if_neg hget, hmethod]

end Server

/-! ## Runs -/

/-- The `Origin` header of the request that an iteration reads. -/
def Turn.origin? (turn : Turn H U) : Option Str :=
  turn.exchange?.bind fun exchange => exchange.1.request.origin

/-- A reply is given the policy of the server, and the origin of the request, if one was read. -/
lemma Server.reply_of_turn {server : Server H U} {env : ℕ → Env H} {conn conn' : Conn}
    {turn : Turn H U} {reply : Reply} (h : server.turn env conn = some (turn, conn'))
    (hreply : turn.reply? = some reply) :
    reply.cors = server.cors ∧ reply.origin = turn.origin? ∧
      ((∃ status, reply.response = errorResponse status) ∨
        ∃ raw, reply.response = (server.respond (env conn.handled) raw
          (parseRaw (env conn.handled) raw server.routes server.filesSources)).response) := by
  rcases Server.turn_cases h with ⟨rfl, -⟩ | ⟨response, rfl, -⟩ | ⟨raw, -, -, rfl⟩
  · cases hreply
  · obtain ⟨response', hread, heq⟩ := Server.turn_rejected h
    cases hreply
    obtain ⟨status, -, rfl⟩ :=
      (readRequest_run server.limits (0 < conn.handled) conn.reader).exists_status hread
    cases heq
    exact ⟨rfl, rfl, .inl ⟨status, rfl⟩⟩
  · have hrequest := server.request_respond (env conn.handled) (env conn.handled) raw
    rcases server.answer_cases (env conn.handled) conn'.handled raw
        (parseRaw (env conn.handled) raw server.routes server.filesSources) conn'.reader.reads with
      ⟨upgrade, hcase, -⟩ | ⟨close, hcase, -⟩
    all_goals
      rw [hcase] at hreply ⊢
      cases hreply
      exact ⟨rfl, (congrArg Request.origin hrequest).symm, .inr ⟨raw, rfl⟩⟩

/-- **What a page of another origin learns.** In every run of a server whose handlers leave the
cross-origin headers to its policy, the browser finds the header lines of every response that goes
out, and lets the script of a page that has made the request read it exactly when the policy admits
the page, unless a header of the response has a line break. The answers to its questions let the
browser make a request exactly when the policy grants it.

**Proof sketch.** The reply of a turn has the policy of the server and the origin of its request
(`Server.reply_of_turn`), and its response is quiet, so that the policy alone decides
(`Reply.mayRead_iff`). A question is answered with `204`, which can be written, and the lists of the
policy come with it (`Reply.mayAsk_iff`). -/
theorem run_crossOrigin {server : Server H U} {env : ℕ → Env H} {n now : ℕ} {reads : List Read}
    (hpolicy : ∀ policy, server.cors = some policy → policy.Writable)
    (hquiet : QuietHandlers server env) {before after : List (Turn H U × Conn)}
    {turn : Turn H U} {conn : Conn}
    (hturns : (server.run env n (.start now reads)).turns = before ++ (turn, conn) :: after)
    {reply : Reply} (hreply : turn.reply? = some reply) :
    ∃ head, BlankSplit reply.bytes head reply.body ∧
      ∀ page : Page, (∀ origin, turn.origin? = some origin → origin = page.origin) →
        (page.mayRead (headerLines head) = true ↔
          reply.response.headers.all validEntry = true ∧
            ∃ policy, server.cors = some policy ∧ policy.Admits turn.origin? page) ∧
        ∀ exchange, turn.exchange? = some (exchange, reply) → exchange.IsPreflight →
          (page.mayAsk reply.status.code (headerLines head) = true ↔
            ∃ policy, server.cors = some policy ∧ policy.Grants turn.origin? page) := by
  obtain ⟨conn₀, -, hturn⟩ := Server.run_turn hturns
  obtain ⟨hcors, horigin, hresponse⟩ := Server.reply_of_turn hturn hreply
  obtain ⟨head, hsplit, hlines⟩ := reply.exists_head
  have hsilent : Quiet reply.response := by
    rcases hresponse with ⟨status, hstatus⟩ | ⟨raw, hraw⟩
    · rw [hstatus]
      exact quiet_of_nil rfl
    · rw [hraw]
      exact Server.quiet_respond _ _ raw (hquiet conn₀.handled)
  have hvalid : reply.valid = reply.response.headers.all validEntry := by
    unfold Reply.valid headValid
    rw [validEntry_corsLines_of_writable (by rwa [hcors]), Bool.and_true]
  refine ⟨head, hsplit, fun page hpage => ?_⟩
  rw [← horigin] at hpage ⊢
  have hread := Reply.mayRead_iff hsilent hpage
  rw [hvalid, hcors] at hread
  rw [hlines]
  refine ⟨hread, fun exchange hexchange hpreflight => ?_⟩
  obtain ⟨raw, rfl, hsame, -⟩ := Server.turn_exchange hturn hexchange
  rw [Server.response_of_isPreflight _ _ _ hpreflight] at hsame
  have hwritten : reply.valid = true := by
    rw [hvalid, hsame]
    exact List.all_eq_true.2 fun entry hentry =>
      ((ownResponse_responseOrDefault _ _).readable.headers entry hentry).1
  cases hserver : server.cors with
  | none =>
    rw [hserver] at hread
    have hnot : page.mayRead (reply.entries.map fieldLine) = false := by
      rw [Bool.eq_false_iff, ne_eq, hread]
      simp
    unfold Page.mayAsk
    rw [hnot]
    simp
  | some policy =>
    have hstatus : reply.status = .noContent := by
      unfold Reply.status
      rw [if_pos hwritten, hsame, hserver]
      rfl
    have hfinal : 200 ≤ reply.status.code ∧ reply.status.code < 300 := by
      rw [hstatus]
      decide
    rw [Reply.mayAsk_iff hsilent hpage hwritten (hcors.trans hserver) hfinal]
    simp

/-- A page whose script puts something on a server that is open to all. -/
def puttingPage : Page where
  origin := "http://a".toList
  method := "PUT".toList
  headers := ["content-type".toList]
  credentials := false
  origin_ne := by decide

/-- The server that is open to all. -/
def openServer : Server Unit Unit := { rootServer none with cors := some .default }

/-- The question of its browser. -/
def putQuestion : Bytes := Utf8.encode "OPTIONS / HTTP/1.1\r\nOrigin: http://a\r\n\r\n".toList

/-- The answer lets the browser make the request. -/
theorem run_crossOrigin_put :
    ∃ turn conn exchange reply head,
      (openServer.run (fun _ => constantEnv Response.new) 20
          (.start 0 [⟨0, .ok putQuestion⟩])).turns = [(turn, conn)] ∧
        turn.exchange? = some (exchange, reply) ∧ BlankSplit reply.bytes head reply.body ∧
        puttingPage.mayAsk reply.status.code (headerLines head) = true := by
  have hrun : (openServer.run (fun _ => constantEnv Response.new) 20
      (.start 0 [⟨0, .ok putQuestion⟩])).turns.map (fun turn => turn.1.exchange?.map fun e =>
        (e.1.request.method, decide (e.1.invoked = []), e.1.request.origin)) =
      [some (.options, true, some "http://a".toList)] := by
    decide +kernel
  obtain ⟨⟨turn, conn⟩, hturns⟩ :=
    List.length_eq_one_iff.1 (by simpa using congrArg List.length hrun)
  rw [hturns] at hrun
  obtain ⟨⟨exchange, reply⟩, hexchange, hobserved⟩ :=
    Option.map_eq_some_iff.1 (List.cons.inj hrun).1
  obtain ⟨hmethod, hrest⟩ := Prod.mk.inj hobserved
  obtain ⟨hinvoked, horigin⟩ := Prod.mk.inj hrest
  have hreply : turn.reply? = some reply := by
    cases turn <;> cases hexchange <;> rfl
  have hturn : turn.origin? = some puttingPage.origin := by
    unfold Turn.origin?
    rw [hexchange]
    exact horigin
  have hpolicy : ∀ policy, openServer.cors = some policy → policy.Writable := by
    intro policy hpolicy
    obtain rfl := Option.some.inj hpolicy
    refine ⟨?_, ?_, ?_⟩ <;> unfold OneLine CorsPolicy.default <;> decide
  obtain ⟨head, hsplit, hpage⟩ := run_crossOrigin hpolicy
    (fun _ _ _ _ => OwnResponse.quiet ownResponse_new)
    (hturns.trans (List.nil_append [(turn, conn)]).symm) hreply
  refine ⟨turn, conn, exchange, reply, head, hturns, hexchange, hsplit, ?_⟩
  have hsame : ∀ origin, turn.origin? = some origin → origin = puttingPage.origin := by
    intro origin h
    rw [hturn] at h
    exact (Option.some.inj h).symm
  refine ((hpage puttingPage hsame).2 exchange hexchange
    ⟨hmethod, of_decide_eq_true hinvoked⟩).2 ⟨.default, rfl, ?_, by decide⟩
  have hstar : CorsPolicy.default.allowOrigin = "*".toList := rfl
  unfold CorsPolicy.Admits
  rw [if_pos hstar]
  rfl

end Httpageboy
