import Mathlib.Data.List.Basic
import Mathlib.Data.Nat.Notation
import Mathlib.Tactic.Common

set_option relaxedAutoImplicit false
set_option autoImplicit false

/-!
# YAML block style and scalars

Documents as trees of mappings and sequences, and their text in block style, with two spaces of
indentation for each level. A mapping must have unique keys. Scalars and keys are given by their
texts, as they are written. For the double-quoted ones here is the decoder, in which an escape
consumes the characters behind the backslash; for the plain ones the rule that says which texts
stand for themselves.

## Main definitions

* `Yaml.Node` — a scalar, a mapping or a sequence.
* `Yaml.entriesLines`, `Yaml.documentText` — the text in block style.
* `Yaml.Node.UniqueKeys` — no mapping of the tree has a key twice.
* `Yaml.decodeQuoted` — the value of a double-quoted scalar on one line.
* `Yaml.isPlainText` — the texts that may be written without quotes.

## Main results

* `Yaml.entriesLines_append`, `Yaml.entriesLines_map` — the text of a mapping, part by part.
-/

namespace Yaml

/-- A node of a document. Scalars are given by their text. -/
inductive Node
  | scalar (text : List Char)
  | mapping (entries : List (List Char × Node))
  | sequence (items : List Node)

/-! ## Block style -/

/-- The indentation of a line. -/
def spaces (indent : ℕ) : List Char := List.replicate indent ' '

/-- The first line of an item has a dash in its indentation. -/
def dash (indent : ℕ) (lines : List (List Char)) : List (List Char) :=
  lines.modifyHead fun line => spaces indent ++ ['-', ' '] ++ line.drop (indent + 2)

mutual

/-- The lines of an entry of a mapping. -/
def entryLines (indent : ℕ) (key : List Char) : Node → List (List Char)
  | .scalar text => [spaces indent ++ key ++ [':', ' '] ++ text]
  | .mapping entries => (spaces indent ++ key ++ [':']) :: entriesLines (indent + 2) entries
  | .sequence [] => [spaces indent ++ key ++ [':', ' ', '[', ']']]
  | .sequence (item :: items) =>
    (spaces indent ++ key ++ [':']) ::
      (itemLines (indent + 2) item ++ itemsLines (indent + 2) items)

/-- The lines of the entries of a mapping. -/
def entriesLines (indent : ℕ) : List (List Char × Node) → List (List Char)
  | [] => []
  | (key, node) :: entries => entryLines indent key node ++ entriesLines indent entries

/-- The lines of an item of a sequence. -/
def itemLines (indent : ℕ) : Node → List (List Char)
  | .scalar text => [spaces indent ++ ['-', ' '] ++ text]
  | .mapping entries => dash indent (entriesLines (indent + 2) entries)
  | .sequence items => dash indent (itemsLines (indent + 2) items)

/-- The lines of the items of a sequence. -/
def itemsLines (indent : ℕ) : List Node → List (List Char)
  | [] => []
  | item :: items => itemLines indent item ++ itemsLines indent items

end

/-- The text of a document that is a mapping: its lines, each with its line feed. -/
def documentText (entries : List (List Char × Node)) : List Char :=
  List.intercalate ['\n'] (entriesLines 0 entries) ++ ['\n']

/-- The lines of a mapping are those of its parts. -/
lemma entriesLines_append (indent : ℕ) (front back : List (List Char × Node)) :
    entriesLines indent (front ++ back) =
      entriesLines indent front ++ entriesLines indent back := by
  induction front with
  | nil => rfl
  | cons entry front ih =>
    obtain ⟨key, node⟩ := entry
    rw [List.cons_append, entriesLines, entriesLines, ih, List.append_assoc]

/-- The lines of a mapping with an entry for each element of a list. -/
lemma entriesLines_map {α : Type} (indent : ℕ) (entry : α → List Char × Node) (l : List α) :
    entriesLines indent (l.map entry) =
      l.flatMap fun a => entryLines indent (entry a).1 (entry a).2 := by
  induction l with
  | nil => rfl
  | cons a l ih => rw [List.map_cons, entriesLines, ih, List.flatMap_cons]

/-- The lines of a sequence with an item for each element of a list. -/
lemma itemsLines_map {α : Type} (indent : ℕ) (item : α → Node) (l : List α) :
    itemsLines indent (l.map item) = l.flatMap fun a => itemLines indent (item a) := by
  induction l with
  | nil => rfl
  | cons a l ih => rw [List.map_cons, itemsLines, ih, List.flatMap_cons]

/-- The lines of a sequence are those of its parts. -/
lemma itemsLines_append (indent : ℕ) (front back : List Node) :
    itemsLines indent (front ++ back) = itemsLines indent front ++ itemsLines indent back := by
  induction front with
  | nil => rfl
  | cons item front ih => rw [List.cons_append, itemsLines, itemsLines, ih, List.append_assoc]

/-- A sequence that is not empty has its items below its key. -/
lemma entryLines_sequence (indent : ℕ) (key : List Char) {items : List Node} (h : items ≠ []) :
    entryLines indent key (.sequence items) =
      (spaces indent ++ key ++ [':']) :: itemsLines (indent + 2) items := by
  obtain ⟨item, items, rfl⟩ := List.exists_cons_of_ne_nil h
  rw [entryLines, itemsLines]

/-! ## Unique keys -/

/-- No mapping of the tree has a key twice. -/
inductive Node.UniqueKeys : Node → Prop
  | scalar (text : List Char) : UniqueKeys (.scalar text)
  | mapping {entries : List (List Char × Node)} (hnodup : (entries.map Prod.fst).Nodup)
      (hentries : ∀ e ∈ entries, UniqueKeys e.2) : UniqueKeys (.mapping entries)
  | sequence {items : List Node} (hitems : ∀ n ∈ items, UniqueKeys n) :
      UniqueKeys (.sequence items)

/-- A scalar has no keys. -/
@[simp]
lemma uniqueKeys_scalar (text : List Char) : (Node.scalar text).UniqueKeys := .scalar text

/-- A mapping has unique keys when they differ and its values have unique keys. -/
@[simp]
lemma uniqueKeys_mapping_iff {entries : List (List Char × Node)} :
    (Node.mapping entries).UniqueKeys ↔
      (entries.map Prod.fst).Nodup ∧ ∀ e ∈ entries, e.2.UniqueKeys := by
  constructor
  · intro h
    cases h with
    | mapping hnodup hentries => exact ⟨hnodup, hentries⟩
  · rintro ⟨hnodup, hentries⟩
    exact .mapping hnodup hentries

/-- A sequence has unique keys when its items have. -/
@[simp]
lemma uniqueKeys_sequence_iff {items : List Node} :
    (Node.sequence items).UniqueKeys ↔ ∀ n ∈ items, n.UniqueKeys := by
  constructor
  · intro h
    cases h with
    | sequence hitems => exact hitems
  · exact .sequence

/-! ## Double-quoted scalars -/

/-- The characters that may stand in a double-quoted scalar on one line: the tab, and everything
from the space on. -/
def isContent (c : Char) : Bool := c = '\t' || 0x20 ≤ c.toNat

/-- The character that an escape of one letter stands for. -/
def simpleEscape : Char → Option Char
  | '0' => some (Char.ofNat 0x00)
  | 'a' => some (Char.ofNat 0x07)
  | 'b' => some (Char.ofNat 0x08)
  | 't' => some '\t'
  | '\t' => some '\t'
  | 'n' => some '\n'
  | 'v' => some (Char.ofNat 0x0B)
  | 'f' => some (Char.ofNat 0x0C)
  | 'r' => some '\r'
  | 'e' => some (Char.ofNat 0x1B)
  | ' ' => some ' '
  | '"' => some '"'
  | '/' => some '/'
  | '\\' => some '\\'
  | 'N' => some (Char.ofNat 0x85)
  | '_' => some (Char.ofNat 0xA0)
  | 'L' => some (Char.ofNat 0x2028)
  | 'P' => some (Char.ofNat 0x2029)
  | _ => none

/-- The number of hexadecimal digits behind the letter of an escape. -/
def hexLength : Char → Option ℕ
  | 'x' => some 2
  | 'u' => some 4
  | 'U' => some 8
  | _ => none

/-- The value of a hexadecimal digit. -/
def hexDigit (c : Char) : Option ℕ :=
  if '0' ≤ c ∧ c ≤ '9' then some (c.toNat - '0'.toNat)
  else if 'a' ≤ c ∧ c ≤ 'f' then some (c.toNat - 'a'.toNat + 10)
  else if 'A' ≤ c ∧ c ≤ 'F' then some (c.toNat - 'A'.toNat + 10)
  else none

/-- Where the decoder is: in the text, behind a backslash, or in a numeric escape with some more
digits to read behind the value so far. -/
inductive Mode
  | text
  | escape
  | digits (more value : ℕ)

/-- The value of a double-quoted scalar, read on behind its opening quote. The closing quote must
be the end of it. -/
def decodeFrom : Mode → List Char → Option (List Char)
  | _, [] => none
  | .text, c :: s =>
    if c = '"' then if s = [] then some [] else none
    else if c = '\\' then decodeFrom .escape s
    else if isContent c then (decodeFrom .text s).map (c :: ·)
    else none
  | .escape, c :: s =>
    match simpleEscape c with
    | some d => (decodeFrom .text s).map (d :: ·)
    | none =>
      match hexLength c with
      | some n => decodeFrom (.digits (n - 1) 0) s
      | none => none
  | .digits more value, c :: s =>
    match hexDigit c with
    | none => none
    | some d =>
      match more with
      | more + 1 => decodeFrom (.digits more (value * 16 + d)) s
      | 0 =>
        if (value * 16 + d).isValidChar then
          (decodeFrom .text s).map (Char.ofNat (value * 16 + d) :: ·)
        else none

/-- The value of a text that is one double-quoted scalar. -/
def decodeQuoted : List Char → Option (List Char)
  | '"' :: s => decodeFrom .text s
  | _ => none

/-! ## Plain scalars -/

/-- The characters that mean something to YAML at the beginning of a scalar. -/
def indicators : List Char := "-?:,[]\x7b\x7d#&*!|>\x27\"%@\x60".toList

/-- The printable characters that do not break a line, but for the tab and the byte order mark. -/
def isPlainChar (c : Char) : Bool :=
  (0x20 ≤ c.toNat && c.toNat ≤ 0x7E) || c.toNat = 0x85 || (0xA0 ≤ c.toNat && c.toNat ≤ 0xD7FF) ||
    (0xE000 ≤ c.toNat && c.toNat ≤ 0xFFFD && c.toNat ≠ 0xFEFF) || 0x10000 ≤ c.toNat

/-- Nothing in the text ends a plain scalar: no colon in front of a space or at the end, no number
sign behind a space, and no space at the end. -/
def isUnbroken : List Char → Bool
  | [] => true
  | [c] => c ≠ ':' && c ≠ ' '
  | c :: d :: s => !(c = ':' && d = ' ') && !(c = ' ' && d = '#') && isUnbroken (d :: s)

/-- A text that may be written without quotes, on one line. YAML allows some more: a dash, a
question mark or a colon in front of a character that is no space, tabs inside, and dots at the
beginning that do not end the document. -/
def isPlainText (text : List Char) : Bool :=
  text.head?.any (fun c => c ≠ ' ' && !indicators.any (· = c)) &&
    !(['.', '.', '.'].isPrefixOf text) && text.all isPlainChar && isUnbroken text

/-- What is known of a text that may be written without quotes. -/
lemma isPlainText_eq_true {text : List Char} (h : isPlainText text = true) :
    (∃ c s, text = c :: s ∧ c ≠ ' ' ∧ c ∉ indicators) ∧ (∀ c ∈ text, isPlainChar c = true) ∧
      isUnbroken text = true := by
  unfold isPlainText at h
  simp only [Bool.and_eq_true, List.all_eq_true] at h
  obtain ⟨⟨⟨hhead, -⟩, hall⟩, hunbroken⟩ := h
  refine ⟨?_, hall, hunbroken⟩
  cases text with
  | nil => cases hhead
  | cons c s =>
    obtain ⟨hspace, hindicator⟩ : c ≠ ' ' ∧ ∀ d ∈ indicators, ¬ d = c := by simpa using hhead
    exact ⟨c, s, rfl, hspace, fun hmem => hindicator c hmem rfl⟩

/-- No colon has a space behind it. -/
lemma not_infix_of_isUnbroken {text : List Char} (h : isUnbroken text = true) :
    ¬ [':', ' '] <:+: text := by
  induction text with
  | nil => simp
  | cons c text ih =>
    rw [List.infix_cons_iff]
    rintro (hstart | hinside)
    · cases text with
      | nil => simp at hstart
      | cons d text =>
        simp only [List.cons_prefix_cons] at hstart
        obtain ⟨rfl, rfl, -⟩ := hstart
        simp [isUnbroken] at h
    · refine ih ?_ hinside
      cases text with
      | nil => rfl
      | cons d text =>
        rw [isUnbroken, Bool.and_eq_true] at h
        exact h.2

/-- A plain text has no line feed. -/
lemma newline_notMem_of_plain {text : List Char} (h : ∀ c ∈ text, isPlainChar c = true) :
    '\n' ∉ text := fun hmem => absurd (h _ hmem) (by decide)

end Yaml
