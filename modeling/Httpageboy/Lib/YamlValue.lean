import Httpageboy.Lib.YamlReader
import Mathlib.Data.List.Nodup

set_option relaxedAutoImplicit false
set_option autoImplicit false

/-!
# Reading YAML

A reader for a part of YAML 1.2: block mappings and sequences with two spaces of indentation for
each level, and scalars on one line, plain or in double quotes. The escapes of quoted scalars are
decoded, and plain ones must be such that YAML takes them for their own text. A key is a scalar of
1024 characters at most, and no mapping may have a key twice. A key without a value has the value
null. Comments, aliases, tags and flow style, but for the empty sequence, are not read: a text that
has them is rejected.

## Main definitions

* `Yaml.Value` — what a document says.
* `Yaml.decode` — the value of a node whose keys and scalars are as they are written.
* `Yaml.readDocument` — the value of a text.
* `Yaml.Node.Itemized` — the items of sequences are mappings with entries.

## Main results

* `Yaml.decodeEntries_eq_some_iff` — the values of a mapping, entry by entry.
* `Yaml.readDocument_documentText` — a document that can be decoded is read back from its text.
-/

namespace Yaml

/-! ## Values -/

/-- A value. The scalars that are written plain are apart from those in quotes, which are strings:
which of the plain ones are numbers or truth values is left to whoever uses the document. -/
inductive Value
  | null
  | plain (text : List Char)
  | quoted (text : List Char)
  | mapping (entries : List (List Char × Value))
  | sequence (items : List Value)

/-- The text of a scalar. -/
def Value.text? : Value → Option (List Char)
  | .plain text => some text
  | .quoted text => some text
  | _ => none

/-- The value of a scalar. -/
def decodeScalar (text : List Char) : Option Value :=
  match decodeQuoted text with
  | some value => some (.quoted value)
  | none => if isPlainText text then some (.plain text) else none

/-- The text of a key. -/
def decodeKey (key : List Char) : Option (List Char) :=
  if key.length ≤ 1024 then (decodeScalar key).bind Value.text? else none

mutual

/-- The value of a node. -/
def decode : Node → Option Value
  | .scalar text => decodeScalar text
  | .mapping entries =>
    if entries.isEmpty then some .null
    else
      match decodeEntries entries with
      | some values => if (values.map Prod.fst).Nodup then some (.mapping values) else none
      | none => none
  | .sequence items => (decodeItems items).map .sequence

/-- The keys of a mapping and their values. -/
def decodeEntries : List (List Char × Node) → Option (List (List Char × Value))
  | [] => some []
  | (key, node) :: entries =>
    match decodeKey key, decode node, decodeEntries entries with
    | some key, some value, some values => some ((key, value) :: values)
    | _, _, _ => none

/-- The values of the items of a sequence. -/
def decodeItems : List Node → Option (List Value)
  | [] => some []
  | node :: items =>
    match decode node, decodeItems items with
    | some value, some values => some (value :: values)
    | _, _ => none

end

/-- The value of a text, `none` when it is not in the part of YAML that is read. -/
def readDocument (text : List Char) : Option Value :=
  (parseDocument text).bind fun entries => decode (.mapping entries)

/-! ## Scalars and keys -/

/-- A plain text stands for itself. -/
lemma decodeScalar_plain {text : List Char} (h : isPlainText text = true) :
    decodeScalar text = some (.plain text) := by
  obtain ⟨⟨c, s, rfl, -, hindicator⟩, -, -⟩ := isPlainText_eq_true h
  have hquoted : decodeQuoted (c :: s) = none := by
    unfold decodeQuoted
    split
    · rename_i heq
      obtain ⟨rfl, -⟩ := List.cons.inj heq
      exact absurd (by decide) hindicator
    · rfl
  unfold decodeScalar
  rw [hquoted]
  exact if_pos h

/-- A text in quotes stands for its value. -/
lemma decodeScalar_quoted {text value : List Char} (h : decodeQuoted text = some value) :
    decodeScalar text = some (.quoted value) := by
  unfold decodeScalar
  rw [h]

/-- A short plain text is a key. -/
lemma decodeKey_plain {key : List Char} (h : isPlainText key = true) (hlength : key.length ≤ 1024) :
    decodeKey key = some key := by
  unfold decodeKey
  rw [if_pos hlength, decodeScalar_plain h]
  rfl

/-- A short text in quotes is a key. -/
lemma decodeKey_quoted {key value : List Char} (h : decodeQuoted key = some value)
    (hlength : key.length ≤ 1024) : decodeKey key = some value := by
  unfold decodeKey
  rw [if_pos hlength, decodeScalar_quoted h]
  rfl

/-- What is decoded as a scalar is found as a key. -/
lemma Key.of_decodeScalar {text : List Char} {value : Value}
    (h : decodeScalar text = some value) : Key text := by
  unfold decodeScalar at h
  split at h
  · rename_i hquoted
    exact .of_decodeQuoted hquoted
  · split_ifs at h with hplain
    exact .of_plain hplain

/-- What is decoded as a key is found as one. -/
lemma Key.of_decodeKey {key text : List Char} (h : decodeKey key = some text) : Key key := by
  unfold decodeKey at h
  split_ifs at h
  obtain ⟨value, hvalue, -⟩ := Option.bind_eq_some_iff.1 h
  exact .of_decodeScalar hvalue

/-! ## Mappings and sequences -/

/-- **The values of a mapping**, entry by entry. -/
lemma decodeEntries_eq_some_iff {entries : List (List Char × Node)}
    {values : List (List Char × Value)} :
    decodeEntries entries = some values ↔
      List.Forall₂ (fun e v => decodeKey e.1 = some v.1 ∧ decode e.2 = some v.2)
        entries values := by
  induction entries generalizing values with
  | nil => simp [decodeEntries, eq_comm]
  | cons e entries ih =>
    obtain ⟨key, node⟩ := e
    rw [List.forall₂_cons_left_iff, decodeEntries]
    constructor
    · intro h
      split at h
      · rename_i text value values' hkey hvalue hvalues
        obtain rfl := Option.some.inj h
        exact ⟨(text, value), values', ⟨hkey, hvalue⟩, ih.1 hvalues, rfl⟩
      · cases h
    · rintro ⟨v, values, ⟨hkey, hvalue⟩, hvalues, rfl⟩
      rw [hkey, hvalue, ih.2 hvalues]

/-- The values of a sequence, item by item. -/
lemma decodeItems_eq_some_iff {items : List Node} {values : List Value} :
    decodeItems items = some values ↔
      List.Forall₂ (fun node value => decode node = some value) items values := by
  induction items generalizing values with
  | nil => simp [decodeItems, eq_comm]
  | cons node items ih =>
    rw [List.forall₂_cons_left_iff, decodeItems]
    constructor
    · intro h
      split at h
      · rename_i value values' hvalue hvalues
        obtain rfl := Option.some.inj h
        exact ⟨value, values', hvalue, ih.1 hvalues, rfl⟩
      · cases h
    · rintro ⟨value, values, hvalue, hvalues, rfl⟩
      rw [hvalue, ih.2 hvalues]

/-- A mapping with entries, whose keys are different. -/
lemma decode_mapping {entries : List (List Char × Node)} {values : List (List Char × Value)}
    (hentries : List.Forall₂ (fun e v => decodeKey e.1 = some v.1 ∧ decode e.2 = some v.2)
      entries values)
    (hne : values ≠ []) (hnodup : (values.map Prod.fst).Nodup) :
    decode (.mapping entries) = some (.mapping values) := by
  have hempty : entries.isEmpty = false := by
    cases hentries with
    | nil => exact absurd rfl hne
    | cons => rfl
  rw [decode, hempty, decodeEntries_eq_some_iff.2 hentries]
  exact if_pos hnodup

/-- A sequence. -/
lemma decode_sequence {items : List Node} {values : List Value}
    (hitems : List.Forall₂ (fun node value => decode node = some value) items values) :
    decode (.sequence items) = some (.sequence values) := by
  rw [decode, decodeItems_eq_some_iff.2 hitems]
  rfl

/-- Two lists that are made of one are related where their elements are. -/
lemma forall₂_map_map_iff {α β γ : Type} {R : β → γ → Prop} {f : α → β} {g : α → γ} {l : List α} :
    List.Forall₂ R (l.map f) (l.map g) ↔ ∀ a ∈ l, R (f a) (g a) := by
  rw [List.forall₂_map_left_iff, List.forall₂_map_right_iff, List.forall₂_same]

/-- Each element of the first list is related to one of the second. -/
lemma exists_of_forall₂ {α β : Type} {R : α → β → Prop} {l : List α} {l' : List β}
    (h : List.Forall₂ R l l') : ∀ a ∈ l, ∃ b, R a b :=
  ((@List.forall₂_and_left α β R _ l l').1 (h.imp fun _ b hab => ⟨⟨b, hab⟩, hab⟩)).1

/-- The entries of a mapping that is decoded. -/
lemma forall_of_decode_mapping {entries : List (List Char × Node)} {value : Value}
    (h : decode (.mapping entries) = some value) :
    ∀ e ∈ entries, (∃ text, decodeKey e.1 = some text) ∧ ∃ value, decode e.2 = some value := by
  rw [decode] at h
  split_ifs at h with hempty
  · rw [List.isEmpty_iff.1 hempty]
    exact nofun
  · split at h
    · rename_i values hvalues
      intro e he
      obtain ⟨v, hkey, hvalue⟩ := exists_of_forall₂ (decodeEntries_eq_some_iff.1 hvalues) e he
      exact ⟨⟨_, hkey⟩, _, hvalue⟩
    · cases h

/-- The items of a sequence that is decoded. -/
lemma forall_of_decode_sequence {items : List Node} {value : Value}
    (h : decode (.sequence items) = some value) :
    ∀ item ∈ items, ∃ value, decode item = some value := by
  rw [decode, Option.map_eq_some_iff] at h
  obtain ⟨values, hvalues, -⟩ := h
  exact exists_of_forall₂ (decodeItems_eq_some_iff.1 hvalues)

/-! ## Documents -/

/-- The items of the sequences of a tree are mappings with entries. -/
inductive Node.Itemized : Node → Prop
  | scalar (text : List Char) : Itemized (.scalar text)
  | mapping {entries : List (List Char × Node)} (hentries : ∀ e ∈ entries, Itemized e.2) :
      Itemized (.mapping entries)
  | sequence {items : List Node}
      (hmappings : ∀ item ∈ items, ∃ entries, entries ≠ [] ∧ item = .mapping entries)
      (hitems : ∀ item ∈ items, Itemized item) : Itemized (.sequence items)

/-- A scalar has no items. -/
@[simp]
lemma itemized_scalar (text : List Char) : (Node.scalar text).Itemized := .scalar text

/-- The sequences of a mapping are those of its values. -/
@[simp]
lemma itemized_mapping_iff {entries : List (List Char × Node)} :
    (Node.mapping entries).Itemized ↔ ∀ e ∈ entries, e.2.Itemized := by
  constructor
  · intro h
    cases h with
    | mapping hentries => exact hentries
  · exact .mapping

/-- A scalar that is decoded can be written behind its key. -/
lemma readable_of_decodeScalar {text : List Char} {value : Value}
    (h : decodeScalar text = some value) : (Node.scalar text).Readable := by
  refine .scalar ?_ ?_ (Key.of_decodeScalar h).line
  · rintro rfl
    exact absurd (h.symm.trans (by rfl : decodeScalar [] = none)) (Option.some_ne_none value)
  · rintro rfl
    exact absurd (h.symm.trans (by decide : decodeScalar ['[', ']'] = none))
      (Option.some_ne_none value)

/-- **What can be decoded can be written**, when the items of sequences are mappings.

**Proof sketch.** Induction on the tree. The parts of a node that is decoded are decoded, and a key
or scalar that is decoded ends on its line. -/
lemma Node.Itemized.readable {node : Node} (hnode : node.Itemized) {value : Value}
    (h : decode node = some value) : node.Readable := by
  induction hnode generalizing value with
  | scalar text =>
    rw [decode] at h
    exact readable_of_decodeScalar h
  | @mapping entries hentries ih =>
    rw [readable_mapping_iff]
    intro e he
    obtain ⟨⟨text, hkey⟩, value, hvalue⟩ := forall_of_decode_mapping h e he
    exact ⟨.of_decodeKey hkey, ih e he hvalue⟩
  | @sequence items hmappings hitems ih =>
    refine .sequence_of fun item hitem => ?_
    obtain ⟨value, hvalue⟩ := forall_of_decode_sequence h item hitem
    exact ⟨ih item hitem hvalue, hmappings item hitem⟩

/-- **A document is read back** from its text in block style, whenever it can be decoded. -/
theorem readDocument_documentText {entries : List (List Char × Node)} {value : Value}
    (hne : entries ≠ []) (hitemized : (Node.mapping entries).Itemized)
    (h : decode (.mapping entries) = some value) :
    readDocument (documentText entries) = some value := by
  unfold readDocument
  rw [parseDocument_documentText hne (hitemized.readable h)]
  exact h

end Yaml
