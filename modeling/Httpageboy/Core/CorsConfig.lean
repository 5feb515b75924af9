import Httpageboy.Core.Cors
import Httpageboy.Lib.Writes

set_option relaxedAutoImplicit false
set_option autoImplicit false

/-!
# Configuration strings of a policy

`from_config_str` cuts its argument at every comma, and the values it reads may be lists with
commas of their own. A configuration is a sequence of settings; here is what it should mean, and
when the string of its settings is read that way.

## Main definitions

* `Httpageboy.CorsPolicy.Setting`, `Httpageboy.CorsPolicy.configOf` — settings and their string.
* `Httpageboy.CorsPolicy.configured` — the policy that the settings describe.
* `Httpageboy.CorsPolicy.Setting.strays` — what is read behind a comma inside a value.
* `Httpageboy.CorsPolicy.KeepsLists` — the commas inside the values do no harm.

## Main results

* `Httpageboy.CorsPolicy.fromConfigStr_configOf_iff` — when a string is read as its settings.
-/

namespace Httpageboy

namespace CorsPolicy

/-! ## Settings -/

/-- The values that a field takes, as texts: any text for a list of names, `true` or `false` for
the flag, a number or nothing for the age. -/
def Field.Accepts : Field → Str → Prop
  | .credentials, value =>
    Str.eqIgnoreAsciiCase value "true".toList = true ∨
      Str.eqIgnoreAsciiCase value "false".toList = true
  | .maxAge, value => (∃ age, parseAge value = some age) ∨ value = []
  | _, _ => True

/-- A setting as it is written: a key that names the field, in any letter case and with any white
space around it, and the text of a value the field takes, with any white space around it. -/
structure Setting where
  field : Field
  key : Str
  text : Str
  names : Field.ofKey (Str.toAsciiLowercase (Str.trim key)) = some field
  accepts : field.Accepts (Str.trim text)

namespace Setting

/-- The value of a setting, without the white space around it. -/
def value (setting : Setting) : Str := Str.trim setting.text

/-- The setting as a part of a configuration string. -/
def render (setting : Setting) : Str := setting.key ++ '=' :: setting.text

/-- The write that a setting stands for. -/
def write (setting : Setting) : Field × Str := (setting.field, setting.value)

end Setting

/-- The configuration string of some settings. -/
def configOf (settings : List Setting) : Str := [','].intercalate (settings.map Setting.render)

/-- The value of the last setting of a field. -/
def lastSetting (field : Field) (settings : List Setting) : Option Str :=
  Writes.last field (settings.map Setting.write)

/-- The policy that the settings describe: each field has the full value of its last setting, and
its default without one. -/
def configured (settings : List Setting) : CorsPolicy where
  allowOrigin := (lastSetting .origin settings).getD default.allowOrigin
  allowMethods := (lastSetting .methods settings).getD default.allowMethods
  allowHeaders := (lastSetting .headers settings).getD default.allowHeaders
  allowCredentials := ((lastSetting .credentials settings).map fun value =>
    Str.eqIgnoreAsciiCase value "true".toList).getD default.allowCredentials
  maxAgeSeconds := ((lastSetting .maxAge settings).map parseAge).getD default.maxAgeSeconds

/-! ## Fields of a policy -/

/-- What a field holds. -/
inductive FieldValue where
  | text (s : Str)
  | flag (b : Bool)
  | age (n : Option ℕ)

/-- A field of a policy. -/
def get (policy : CorsPolicy) : Field → FieldValue
  | .origin => .text policy.allowOrigin
  | .methods => .text policy.allowMethods
  | .headers => .text policy.allowHeaders
  | .credentials => .flag policy.allowCredentials
  | .maxAge => .age policy.maxAgeSeconds

/-- What a field makes of the text of a value. -/
def Field.read : Field → Str → FieldValue
  | .credentials, value => .flag (Str.eqIgnoreAsciiCase value "true".toList)
  | .maxAge, value => .age (parseAge value)
  | _, value => .text value

/-- A field that is set has the value that is read of it. -/
@[simp] lemma get_set_same (policy : CorsPolicy) (field : Field) (value : Str) :
    (policy.set field value).get field = field.read value := by
  cases field <;> rfl

/-- Setting a field leaves the others as they are. -/
lemma get_set_other (policy : CorsPolicy) (field other : Field) (value : Str)
    (h : field ≠ other) : (policy.set field value).get other = policy.get other := by
  cases field <;> cases other <;> first | rfl | exact absurd rfl h

/-- A policy is its fields. -/
lemma eq_of_get {policy policy' : CorsPolicy} (h : ∀ field, policy.get field = policy'.get field) :
    policy = policy' := by
  obtain ⟨o, m, hd, c, a⟩ := policy
  obtain ⟨o', m', hd', c', a'⟩ := policy'
  have ho := h .origin
  have hm := h .methods
  have hh := h .headers
  have hc := h .credentials
  have ha := h .maxAge
  simp only [get, FieldValue.text.injEq, FieldValue.flag.injEq, FieldValue.age.injEq]
    at ho hm hh hc ha
  rw [ho, hm, hh, hc, ha]

/-- Setting a field changes nothing exactly when the field holds that value already. -/
lemma set_eq_self_iff {policy : CorsPolicy} {field : Field} {value : Str} :
    policy.set field value = policy ↔ policy.get field = field.read value := by
  constructor
  · intro h
    rw [← get_set_same policy field value, h]
  · intro h
    apply eq_of_get
    intro other
    by_cases hother : field = other
    · subst hother
      rw [get_set_same, h]
    · exact get_set_other policy field other value hother

/-- The fields of the policy that some settings describe. -/
lemma get_configured (settings : List Setting) (field : Field) :
    (configured settings).get field =
      ((lastSetting field settings).map field.read).getD (default.get field) := by
  cases field <;> simp only [configured, get] <;>
    cases lastSetting _ settings <;> rfl

/-! ## Pieces of a configuration string -/

/-- The write that a piece of a configuration string makes, if its key names a field. -/
def pairWrite (pair : Str) : Option (Field × Str) :=
  (Field.ofKey (Str.toAsciiLowercase (Str.trim (pairParts pair).1))).map fun field =>
    (field, Str.trim (pairParts pair).2)

/-- The writes that are made behind the commas inside a value. -/
def Setting.strays (setting : Setting) : List (Field × Str) :=
  (setting.text.splitOn ',').tail.filterMap pairWrite

/-- The writes of a setting as `from_config_str` reads it: its value ends at the first comma. -/
def Setting.writes (setting : Setting) : List (Field × Str) :=
  (setting.field, Str.trim ((setting.text.splitOn ',').headD [])) :: setting.strays

/-- Reading a configuration string is making the writes of its pieces, in order. -/
lemma fromConfigStr_eq (config : Str) :
    fromConfigStr config =
      ((config.splitOn ',').filterMap pairWrite).foldl (fun policy w => policy.set w.1 w.2)
        default := by
  unfold fromConfigStr
  rw [List.foldl_filterMap]
  congr 1
  funext policy pair
  simp only [setPair, pairWrite]
  cases Field.ofKey (Str.toAsciiLowercase (Str.trim (pairParts pair).1)) <;> rfl

/-- The fields of the policy that is read. -/
lemma get_fromConfigStr (config : Str) (field : Field) :
    (fromConfigStr config).get field =
      ((Writes.last field ((config.splitOn ',').filterMap pairWrite)).map field.read).getD
        (default.get field) := by
  rw [fromConfigStr_eq]
  exact Writes.get_foldl set get Field.read get_set_same get_set_other _ _ _

/-- The letters of a key are not separators, whatever its letter case and the white space
around it. -/
lemma notMem_key {setting : Setting} {c : Char} (hspace : Str.isWhitespace c = false)
    (hcase : c.toLower = c) (hsep : c = ',' ∨ c = '=') : c ∉ setting.key := by
  intro hmem
  obtain ⟨a, b, hkey, ha, hb⟩ := Str.exists_trim Str.isWhitespace setting.key
  have htrim : c ∈ Str.trim setting.key := by
    rw [hkey, List.mem_append, List.mem_append] at hmem
    rcases hmem with (hmem | hmem) | hmem
    · exact absurd (ha c hmem) (by simp [hspace])
    · exact hmem
    · exact absurd (hb c hmem) (by simp [hspace])
  have hlower : c ∈ Str.toAsciiLowercase (Str.trim setting.key) := by
    rw [← hcase]
    exact List.mem_map_of_mem htrim
  have hnames := setting.names
  unfold Field.ofKey at hnames
  split_ifs at hnames with h h h h h <;>
    (rcases h with h | h <;> rw [h] at hlower <;> rcases hsep with rfl | rfl <;> revert hlower <;>
      decide)

/-- The value of a field that is not a list of names contains no comma. -/
lemma comma_notMem_of_accepts {field : Field} {value : Str} (h : field.Accepts value)
    (htyped : field = .credentials ∨ field = .maxAge) : ',' ∉ value := by
  have hword : ∀ word : Str, ',' ∉ Str.toAsciiLowercase word →
      Str.eqIgnoreAsciiCase value word = true → ',' ∉ value := by
    intro word hnot heq hmem
    exact hnot (Str.toLower_mem_of_eqIgnoreAsciiCase heq hmem)
  rcases htyped with rfl | rfl
  · rcases h with h | h
    · exact hword _ (by decide) h
    · exact hword _ (by decide) h
  · rcases h with ⟨age, hage⟩ | rfl
    · obtain ⟨hnumeral, -⟩ := (Str.fromStrRadix_eq_some_iff (by omega)).1 hage
      have hcomma : Str.toDigit 10 ',' = none := by decide
      have hdigits : ∀ s : Str, Str.numeral 10 s = some age → ',' ∉ s := by
        intro s hs hmem
        obtain ⟨d, hd⟩ := Str.exists_toDigit_of_numeral hs ',' hmem
        rw [hcomma] at hd
        cases hd
      rcases hnumeral with hplain | ⟨digits, rfl, hplus⟩
      · exact hdigits value hplain
      · simp [hdigits digits hplus]
    · simp

/-- White space at the ends of a text is no comma. -/
lemma comma_mem_trim_iff {text : Str} : ',' ∈ Str.trim text ↔ ',' ∈ text := by
  obtain ⟨a, b, htext, ha, hb⟩ := Str.exists_trim Str.isWhitespace text
  have hcomma : Str.isWhitespace ',' = false := by decide
  constructor
  · intro h
    rw [htext]
    exact List.mem_append_left _ (List.mem_append_right _ h)
  · intro h
    rw [htext, List.mem_append, List.mem_append] at h
    rcases h with (h | h) | h
    · exact absurd (ha ',' h) (by simp [hcomma])
    · exact h
    · exact absurd (hb ',' h) (by simp [hcomma])

/-- The pieces of a setting make its writes. -/
lemma filterMap_render (setting : Setting) :
    (setting.render.splitOn ',').filterMap pairWrite = setting.writes := by
  have hkey : ',' ∉ setting.key := notMem_key (by decide) (by decide) (.inl rfl)
  have hcomma : ',' ∉ setting.key ++ ['='] := by
    simp [hkey]
  have hequals : '=' ∉ setting.key := notMem_key (by decide) (by decide) (.inr rfl)
  obtain ⟨piece, pieces, hsplit⟩ :=
    List.exists_cons_of_ne_nil (List.splitOn_ne_nil ',' setting.text)
  have hrender : setting.render = (setting.key ++ ['=']) ++ setting.text := by
    simp [Setting.render]
  have hparts : pairParts (setting.key ++ '=' :: piece) = (setting.key, piece) := by
    unfold pairParts
    rw [Str.splitOnce_eq_some_iff.2 ⟨rfl, hequals⟩]
    rfl
  have hwrite : pairWrite (setting.key ++ '=' :: piece) =
      some (setting.field, Str.trim piece) := by
    unfold pairWrite
    rw [hparts, setting.names]
    rfl
  unfold Setting.writes Setting.strays
  rw [hrender, Str.splitOn_append hcomma, hsplit, List.modifyHead_cons, List.append_assoc]
  exact List.filterMap_cons_some hwrite

/-- The empty configuration string makes no write. -/
lemma filterMap_configOf_nil : ((configOf []).splitOn ',').filterMap pairWrite = [] := by
  decide

/-- The pieces of a configuration string make the writes of its settings. -/
lemma filterMap_configOf (settings : List Setting) :
    ((configOf settings).splitOn ',').filterMap pairWrite = settings.flatMap Setting.writes := by
  induction settings with
  | nil => exact filterMap_configOf_nil
  | cons setting settings ih =>
    rw [List.flatMap_cons, ← ih, ← filterMap_render, ← List.filterMap_append]
    cases settings with
    | nil =>
      rw [List.filterMap_append, filterMap_configOf_nil, List.append_nil]
      unfold configOf
      rw [List.map_singleton, List.intercalate_singleton]
    | cons next settings =>
      have hjoin : configOf (setting :: next :: settings) =
          setting.render ++ ',' :: configOf (next :: settings) := by
        unfold configOf
        rw [List.map_cons, List.map_cons, List.intercalate_cons_cons]
        simp
      rw [hjoin, List.splitOn_append_cons_self]

/-! ## Strings that are read as their settings -/

/-- The commas inside the values do no harm: the last setting of each field has none in its
value, and where the text behind such a comma reads like a setting of its own, and nothing behind
it sets that field, the field has that value anyway. -/
def KeepsLists (settings : List Setting) : Prop :=
  (∀ before setting after, settings = before ++ setting :: after →
    (∀ later ∈ after, later.field ≠ setting.field) → ',' ∉ setting.value) ∧
  ∀ before setting after, settings = before ++ setting :: after →
    ∀ front field value back, setting.strays = front ++ (field, value) :: back →
      (∀ stray ∈ back, stray.1 ≠ field) →
      (∀ later ∈ after, later.field ≠ field ∧ ∀ stray ∈ later.strays, stray.1 ≠ field) →
      (configured settings).set field value = configured settings

/-- A setting that writes to a field. -/
def Setting.Touches (field : Field) (setting : Setting) : Prop :=
  ∃ w ∈ setting.writes, w.1 = field

/-- A setting leaves a field alone when neither its own entry nor one of the strays in it is for the
field. -/
lemma not_touches_iff {field : Field} {setting : Setting} :
    ¬ setting.Touches field ↔
      setting.field ≠ field ∧ ∀ stray ∈ setting.strays, stray.1 ≠ field := by
  unfold Setting.Touches Setting.writes
  simp only [not_exists, not_and]
  exact List.forall_mem_cons

/-- Settings that do not touch a field write nothing to it. -/
lemma last_flatMap_of_untouched {field : Field} {settings : List Setting}
    (h : ∀ setting ∈ settings, ¬ setting.Touches field) :
    Writes.last field (settings.flatMap Setting.writes) = none := by
  apply Writes.last_eq_none_iff.2
  intro w hw hfield
  obtain ⟨setting, hsetting, hmem⟩ := List.mem_flatMap.1 hw
  exact h setting hsetting ⟨w, hmem, hfield⟩

/-- The last write to a field is one of the last setting that touches it. -/
lemma last_flatMap_of_touched {field : Field} {before after : List Setting} {setting : Setting}
    (htouches : setting.Touches field) (hafter : ∀ later ∈ after, ¬ later.Touches field) :
    Writes.last field ((before ++ setting :: after).flatMap Setting.writes) =
      Writes.last field setting.writes := by
  rw [List.flatMap_append, List.flatMap_cons, Writes.last_append, Writes.last_append,
    last_flatMap_of_untouched hafter, Option.none_or]
  cases hlast : Writes.last field setting.writes with
  | some value => rfl
  | none =>
    obtain ⟨w, hw, hfield⟩ := htouches
    exact absurd hfield (Writes.last_eq_none_iff.1 hlast w hw)

/-- The last setting of a field, among settings that name it. -/
lemma lastSetting_append {field : Field} {before after : List Setting} {setting : Setting}
    (hfield : setting.field = field) (hafter : ∀ later ∈ after, later.field ≠ field) :
    lastSetting field (before ++ setting :: after) = some setting.value := by
  apply Writes.last_eq_some_iff.2
  refine ⟨before.map Setting.write, after.map Setting.write, ?_, ?_⟩
  · rw [List.map_append, List.map_cons, Setting.write, hfield]
  · intro w hw
    obtain ⟨later, hlater, rfl⟩ := List.mem_map.1 hw
    exact hafter later hlater

/-- No write has a comma in its value: the commas are where the pieces end. -/
lemma comma_notMem_of_mem_writes {setting : Setting} {w : Field × Str}
    (h : w ∈ setting.writes) : ',' ∉ w.2 := by
  rw [← filterMap_render] at h
  obtain ⟨piece, hpiece, hwrite⟩ := List.mem_filterMap.1 h
  obtain ⟨field, -, rfl⟩ := Option.map_eq_some_iff.1 hwrite
  intro hmem
  have hvalue : ',' ∈ (pairParts piece).2 := comma_mem_trim_iff.1 hmem
  apply Str.notMem_of_mem_splitOn hpiece
  unfold pairParts at hvalue
  cases hsplit : Str.splitOnce '=' piece with
  | none => simp [hsplit] at hvalue
  | some parts =>
    obtain ⟨key, value⟩ := parts
    obtain ⟨rfl, -⟩ := Str.splitOnce_eq_some_iff.1 hsplit
    rw [hsplit] at hvalue
    exact List.mem_append_right _ (List.mem_cons_of_mem _ hvalue)

/-- A value without a comma is read in full. -/
lemma trim_headD_of_notMem {setting : Setting} (h : ',' ∉ setting.value) :
    Str.trim ((setting.text.splitOn ',').headD []) = setting.value := by
  have htext : ',' ∉ setting.text := fun hmem => h (comma_mem_trim_iff.2 hmem)
  rw [List.splitOn_eq_singleton htext]
  rfl

/-- A field in which a comma may stand is read as the text it is. -/
lemma read_of_comma_mem {setting : Setting} (h : ',' ∈ setting.value) (value : Str) :
    setting.field.read value = .text value := by
  have hlist : ∀ field, setting.field = field → field = .credentials ∨ field = .maxAge → False := by
    intro field hfield htyped
    rw [← hfield] at htyped
    exact comma_notMem_of_accepts setting.accepts htyped h
  cases hfield : setting.field with
  | origin => rfl
  | methods => rfl
  | headers => rfl
  | credentials => exact absurd (.inl rfl) (hlist _ hfield)
  | maxAge => exact absurd (.inr rfl) (hlist _ hfield)

/-- The value that is read for a field has no comma. -/
lemma comma_notMem_of_last {settings : List Setting} {field : Field} {value : Str}
    (h : Writes.last field (settings.flatMap Setting.writes) = some value) : ',' ∉ value := by
  obtain ⟨before, after, hwrites, -⟩ := Writes.last_eq_some_iff.1 h
  have hmem : (field, value) ∈ settings.flatMap Setting.writes := by
    rw [hwrites]
    exact List.mem_append_right _ List.mem_cons_self
  obtain ⟨setting, -, hsetting⟩ := List.mem_flatMap.1 hmem
  exact comma_notMem_of_mem_writes hsetting

/-- The fields of the policy that is read off the string of some settings. -/
lemma get_fromConfigStr_configOf (settings : List Setting) (field : Field) :
    (fromConfigStr (configOf settings)).get field =
      ((Writes.last field (settings.flatMap Setting.writes)).map field.read).getD
        (default.get field) := by
  rw [get_fromConfigStr, filterMap_configOf]

/-- A field is never given a value with a comma. -/
lemma comma_notMem_value {before after : List Setting} {setting : Setting}
    (hafter : ∀ later ∈ after, later.field ≠ setting.field)
    (h : (fromConfigStr (configOf (before ++ setting :: after))).get setting.field =
      (configured (before ++ setting :: after)).get setting.field) : ',' ∉ setting.value := by
  intro hcomma
  rw [get_configured, lastSetting_append rfl hafter, get_fromConfigStr_configOf] at h
  cases hlast : Writes.last setting.field
      ((before ++ setting :: after).flatMap Setting.writes) with
  | none =>
    have hmem : (setting.field, Str.trim ((setting.text.splitOn ',').headD [])) ∈
        (before ++ setting :: after).flatMap Setting.writes :=
      List.mem_flatMap.2 ⟨setting, by simp, List.mem_cons_self⟩
    exact Writes.last_eq_none_iff.1 hlast _ hmem rfl
  | some value =>
    rw [hlast, Option.map_some, Option.map_some, Option.getD_some, Option.getD_some,
      read_of_comma_mem hcomma, read_of_comma_mem hcomma, FieldValue.text.injEq] at h
    rw [← h] at hcomma
    exact comma_notMem_of_last hlast hcomma

/-- **When a configuration string keeps its lists**: the string of some settings is read as the
policy they describe exactly when no value that counts has a comma in it, and no text behind a
comma sets a field to something else.

**Proof sketch.** The string is read as the writes of all its pieces, those behind the commas
inside a value included, and each field holds the value of the last write to it. The last write to
a field has no comma in its value, so that a value with one is never read; and a stray that is the
last to write to a field decides about it. -/
theorem fromConfigStr_configOf_iff (settings : List Setting) :
    fromConfigStr (configOf settings) = configured settings ↔ KeepsLists settings := by
  constructor
  · intro hpolicy
    refine ⟨?_, ?_⟩
    · intro before setting after hsplit hafter
      subst hsplit
      exact comma_notMem_value hafter (by rw [hpolicy])
    · intro before setting after hsplit front field value back hstrays hback hafter
      have htouches : setting.Touches field := by
        refine ⟨(field, value), List.mem_cons_of_mem _ ?_, rfl⟩
        rw [hstrays]
        exact List.mem_append_right _ List.mem_cons_self
      have huntouched : ∀ later ∈ after, ¬ later.Touches field := fun later hlater =>
        not_touches_iff.2 (hafter later hlater)
      have hlast : Writes.last field setting.writes = some value :=
        Writes.last_eq_some_iff.2 ⟨_ :: front, back, congrArg (_ :: ·) hstrays, hback⟩
      apply set_eq_self_iff.2
      rw [← hpolicy, get_fromConfigStr_configOf, hsplit,
        last_flatMap_of_touched htouches huntouched, hlast]
      rfl
  · intro hkeeps
    obtain ⟨hwhole, hstray⟩ := hkeeps
    apply eq_of_get
    intro field
    by_cases htouched : ∃ setting ∈ settings, setting.Touches field
    · obtain ⟨before, setting, after, hsplit, htouches, hafter⟩ := Writes.exists_last htouched
      rw [get_fromConfigStr_configOf, hsplit, last_flatMap_of_touched htouches hafter, ← hsplit,
        Setting.writes, Writes.last_cons]
      cases hlast : Writes.last field setting.strays with
      | some value =>
        -- the setting that touches the field last does so behind a comma
        obtain ⟨front, back, hstrays, hback⟩ := Writes.last_eq_some_iff.1 hlast
        have hself := hstray before setting after hsplit front field value back hstrays hback
          fun later hlater => not_touches_iff.1 (hafter later hlater)
        exact (set_eq_self_iff.1 hself).symm
      | none =>
        have hnot := Writes.last_eq_none_iff.1 hlast
        have hfield : setting.field = field := by
          by_contra hne
          exact not_touches_iff.2 ⟨hne, hnot⟩ htouches
        have hlater : ∀ later ∈ after, later.field ≠ field := fun later hmem =>
          (not_touches_iff.1 (hafter later hmem)).1
        have hcomma := hwhole before setting after hsplit (by rw [hfield]; exact hlater)
        rw [get_configured, hsplit, lastSetting_append hfield hlater, trim_headD_of_notMem hcomma,
          if_pos hfield]
        rfl
    · have hnone : ∀ setting ∈ settings, ¬ setting.Touches field := fun setting hmem htouches =>
        htouched ⟨setting, hmem, htouches⟩
      have hsetting : lastSetting field settings = none := by
        apply Writes.last_eq_none_iff.2
        intro w hw
        obtain ⟨setting, hmem, rfl⟩ := List.mem_map.1 hw
        exact (not_touches_iff.1 (hnone setting hmem)).1
      rw [get_fromConfigStr_configOf, last_flatMap_of_untouched hnone, get_configured, hsetting]

/-- A list of two origins. -/
def twoOrigins : Setting where
  field := .origin
  key := "origin".toList
  text := "http://a,http://b".toList
  names := by
    unfold Field.ofKey
    rewrite [String.toList_ofList, String.toList_ofList]
    decide
  accepts := trivial

/-- Of two origins only the first one is read. -/
theorem fromConfigStr_drops_origin :
    ¬ ∀ settings : List Setting, fromConfigStr (configOf settings) = configured settings := by
  intro h
  have horigin := congrArg allowOrigin (h [twoOrigins])
  revert horigin
  decide

end CorsPolicy

end Httpageboy
