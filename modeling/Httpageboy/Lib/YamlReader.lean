import Httpageboy.Lib.Yaml

set_option relaxedAutoImplicit false
set_option autoImplicit false

/-!
# The lines of YAML block style

The lines of a text in block style, with two spaces of indentation for each level, as a tree. A key
ends at the first colon with a space or the end of the line behind it, or is in double quotes, where
a backslash takes the next character with it. Behind the colon there is a scalar on the same line,
or a block on the lines below, which may be empty. Keys and scalars are left as they are written:
what they stand for is the matter of `Httpageboy.Lib.YamlValue`.

The reader takes as many lines as belong to a block and leaves the others. Its first argument
bounds the recursion; four times the number of lines are enough.

## Main definitions

* `Yaml.readNode`, `Yaml.readEntries`, `Yaml.readItems` — the reader of a block.
* `Yaml.parseDocument` — the tree of a text that is a mapping.
* `Yaml.Key`, `Yaml.Node.Readable` — the keys and the trees that block style can write.

## Main results

* `Yaml.Key.of_plain`, `Yaml.Key.of_decodeQuoted` — plain texts, and scalars in quotes, are keys.
* `Yaml.Node.Readable.reads` — a block is read back, and nothing else is taken.
* `Yaml.parseDocument_documentText` — a document is read back.
-/

namespace Yaml

/-! ## The reader -/

/-- The text of a line behind its indentation, when this is the given one. -/
def content (indent : ℕ) (line : List Char) : Option (List Char) :=
  if line.take indent = spaces indent ∧ (line.drop indent).head? ≠ some ' ' then
    some (line.drop indent)
  else none

/-- The lines of a text, the last one with its line feed or without. -/
def textLines (text : List Char) : List (List Char) :=
  let pieces := text.splitOn '\n'
  if pieces.getLast? = some [] then pieces.dropLast else pieces

/-- What is behind a key: a colon, and a space with a text or the end of the line. -/
def behindKey : List Char → Option (List Char)
  | [':'] => some []
  | ':' :: ' ' :: text => some text
  | _ => none

/-- A key without quotes, and the text behind it. -/
def splitPlain : List Char → Option (List Char × List Char)
  | [] => none
  | c :: s =>
    match behindKey (c :: s) with
    | some text => some ([], text)
    | none => (splitPlain s).map fun p => (c :: p.1, p.2)

/-- A double-quoted key behind its opening quote, and the text behind it. -/
def splitQuoted : List Char → Option (List Char × List Char)
  | [] => none
  | c :: s =>
    if c = '"' then (behindKey s).map fun text => (['"'], text)
    else if c = '\\' then
      match s with
      | [] => none
      | d :: s => (splitQuoted s).map fun p => ('\\' :: d :: p.1, p.2)
    else (splitQuoted s).map fun p => (c :: p.1, p.2)

/-- The key of a line, and the text behind it. -/
def splitKey : List Char → Option (List Char × List Char)
  | '"' :: s => (splitQuoted s).map fun p => ('"' :: p.1, p.2)
  | s => splitPlain s

/-- A line that begins an item. -/
def startsItem (indent : ℕ) (line : List Char) : Bool :=
  (spaces indent ++ ['-', ' ']).isPrefixOf line

mutual

/-- A block: a sequence when its first line begins an item, else a mapping. -/
def readNode : ℕ → ℕ → List (List Char) → Node × List (List Char)
  | 0, _, lines => (.mapping [], lines)
  | fuel + 1, indent, lines =>
    if lines.head?.any (startsItem indent) then
      let items := readItems fuel indent lines
      (.sequence items.1, items.2)
    else
      let entries := readEntries fuel indent lines
      (.mapping entries.1, entries.2)

/-- The entries of a mapping. -/
def readEntries : ℕ → ℕ → List (List Char) → List (List Char × Node) × List (List Char)
  | 0, _, lines => ([], lines)
  | _ + 1, _, [] => ([], [])
  | fuel + 1, indent, line :: lines =>
    match (content indent line).bind splitKey with
    | none => ([], line :: lines)
    | some (key, []) =>
      let node := readNode fuel (indent + 2) lines
      let entries := readEntries fuel indent node.2
      ((key, node.1) :: entries.1, entries.2)
    | some (key, text) =>
      let entries := readEntries fuel indent lines
      ((key, if text = ['[', ']'] then .sequence [] else .scalar text) :: entries.1, entries.2)

/-- The items of a sequence: the dash of an item counts as indentation. -/
def readItems : ℕ → ℕ → List (List Char) → List Node × List (List Char)
  | 0, _, lines => ([], lines)
  | _ + 1, _, [] => ([], [])
  | fuel + 1, indent, line :: lines =>
    if startsItem indent line then
      let node := readNode fuel (indent + 2)
        ((spaces (indent + 2) ++ line.drop (indent + 2)) :: lines)
      let items := readItems fuel indent node.2
      (node.1 :: items.1, items.2)
    else ([], line :: lines)

end

/-- The entries of a document that is a mapping, `none` when some line is not taken. -/
def parseDocument (text : List Char) : Option (List (List Char × Node)) :=
  let lines := textLines text
  let entries := readEntries (4 * lines.length + 1) 0 lines
  if entries.2 = [] then some entries.1 else none

/-! ## What can be written -/

/-- A key on one line, which is found at the beginning of it. -/
structure Key (key : List Char) : Prop where
  head : key.head? ≠ some ' '
  dash : ¬ ['-', ' '] <+: key
  line : '\n' ∉ key
  split : ∀ tail text, behindKey tail = some text → splitKey (key ++ tail) = some (key, text)

/-- A tree that block style can write: scalars are not empty, do not look like an empty sequence
and stand on one line, and the items of a sequence are mappings with an entry. -/
inductive Node.Readable : Node → Prop
  | scalar {text : List Char} (hne : text ≠ []) (hbrackets : text ≠ ['[', ']'])
      (hline : '\n' ∉ text) : Readable (.scalar text)
  | mapping {entries : List (List Char × Node)} (hkeys : ∀ e ∈ entries, Key e.1)
      (hentries : ∀ e ∈ entries, Readable e.2) : Readable (.mapping entries)
  | sequence {items : List (List (List Char × Node))} (hne : ∀ entries ∈ items, entries ≠ [])
      (hitems : ∀ entries ∈ items, Readable (.mapping entries)) :
      Readable (.sequence (items.map .mapping))

/-- A mapping can be written when its keys and its values can. -/
@[simp]
lemma readable_mapping_iff {entries : List (List Char × Node)} :
    (Node.mapping entries).Readable ↔ ∀ e ∈ entries, Key e.1 ∧ e.2.Readable := by
  constructor
  · intro h e he
    cases h with
    | mapping hkeys hentries => exact ⟨hkeys e he, hentries e he⟩
  · intro h
    exact .mapping (fun e he => (h e he).1) fun e he => (h e he).2

/-- A sequence of mappings with entries that can be written. -/
lemma Node.Readable.sequence_of {items : List Node}
    (hitems : ∀ item ∈ items, item.Readable ∧ ∃ entries, entries ≠ [] ∧ item = .mapping entries) :
    (Node.sequence items).Readable := by
  have hmappings : ∃ l : List (List (List Char × Node)),
      items = l.map .mapping ∧ ∀ entries ∈ l, entries ≠ [] := by
    induction items with
    | nil => exact ⟨[], rfl, nofun⟩
    | cons item items ih =>
      obtain ⟨⟨-, entries, hne, rfl⟩, hrest⟩ := List.forall_mem_cons.1 hitems
      obtain ⟨l, rfl, hl⟩ := ih hrest
      exact ⟨entries :: l, rfl, List.forall_mem_cons.2 ⟨hne, hl⟩⟩
  obtain ⟨l, rfl, hl⟩ := hmappings
  exact .sequence hl fun entries he => (hitems _ (List.mem_map_of_mem he)).1

/-- The next line is indented less. -/
def Ends (indent : ℕ) (rest : List (List Char)) : Prop :=
  ∀ line ∈ rest.head?, ∃ k < indent, ∃ c s, c ≠ ' ' ∧ line = spaces k ++ c :: s

/-- What is said of a node as a block: its lines are taken, and nothing else. -/
def Node.Reads : Node → Prop
  | .scalar _ => True
  | .mapping entries => ∀ {indent fuel : ℕ} {rest : List (List Char)}, Ends indent rest →
      4 * (entriesLines indent entries ++ rest).length + 1 ≤ fuel →
      readEntries fuel indent (entriesLines indent entries ++ rest) = (entries, rest)
  | .sequence items => ∀ {indent fuel : ℕ} {rest : List (List Char)}, Ends indent rest →
      4 * (itemsLines indent items ++ rest).length + 3 ≤ fuel →
      readItems fuel indent (itemsLines indent items ++ rest) = (items, rest)

/-! ## Indentation -/

/-- The indentation is as long as it says. -/
lemma length_spaces (indent : ℕ) : (spaces indent).length = indent := List.length_replicate

/-- A line that is indented more begins with a space where a line that is indented less has its
text. -/
lemma eq_space_of_take {indent k : ℕ} {c : Char} {s : List Char} (hk : k < indent)
    (h : spaces indent <+: spaces k ++ c :: s) : c = ' ' := by
  obtain ⟨tail, htail⟩ := h
  have hchar := congrArg (fun text => text[k]?) htail
  simp only [spaces] at hchar
  rw [List.getElem?_append_left (by simpa using hk),
    List.getElem?_append_right (by simp), List.getElem?_replicate] at hchar
  simpa [hk] using hchar.symm

/-- The text of a line. -/
lemma content_spaces (indent : ℕ) {s : List Char} (hs : s.head? ≠ some ' ') :
    content indent (spaces indent ++ s) = some s := by
  unfold content
  rw [List.take_left' (length_spaces indent), List.drop_left' (length_spaces indent)]
  exact if_pos ⟨rfl, hs⟩

namespace Ends

variable {indent : ℕ} {rest : List (List Char)}

/-- Nothing comes. -/
lemma nil (indent : ℕ) : Ends indent [] := nofun

/-- What is indented less than a block is indented less than the blocks in it. -/
lemma mono {indent' : ℕ} (h : Ends indent rest) (hle : indent ≤ indent') : Ends indent' rest := by
  intro line hline
  obtain ⟨k, hk, c, s, hc, rfl⟩ := h line hline
  exact ⟨k, Nat.lt_of_lt_of_le hk hle, c, s, hc, rfl⟩

/-- A line that is indented less is no entry. -/
lemma content_eq {line : List Char} {lines : List (List Char)} (h : Ends indent (line :: lines)) :
    content indent line = none := by
  obtain ⟨k, hk, c, s, hc, rfl⟩ := h line rfl
  refine if_neg fun hcontent => ?_
  have hprefix := List.take_prefix indent (spaces k ++ c :: s)
  rw [hcontent.1] at hprefix
  exact hc (eq_space_of_take hk hprefix)

/-- A line that is indented less begins no item. -/
lemma startsItem_eq {line : List Char} {lines : List (List Char)}
    (h : Ends indent (line :: lines)) : startsItem indent line = false := by
  obtain ⟨k, hk, c, s, hc, rfl⟩ := h line rfl
  refine Bool.eq_false_iff.2 fun hstarts => ?_
  have hprefix : spaces indent <+: spaces k ++ c :: s :=
    (List.prefix_append _ _).trans (List.isPrefixOf_iff_prefix.1 hstarts)
  exact hc (eq_space_of_take hk hprefix)

end Ends

/-- A line with a text is indented less than a block below it. -/
lemma ends_cons {indent : ℕ} {s : List Char} (hs : s.head? ≠ some ' ') (hne : s ≠ [])
    (lines : List (List Char)) : Ends (indent + 2) ((spaces indent ++ s) :: lines) := by
  intro line hline
  obtain rfl := Option.some.inj hline
  cases s with
  | nil => exact absurd rfl hne
  | cons c s => exact ⟨indent, by omega, c, s, fun hc => hs (by rw [hc]; rfl), rfl⟩

/-! ## Keys -/

namespace Key

variable {key : List Char}

/-- A key does not make a line longer at its beginning. -/
lemma head_append (h : Key key) (tail : List Char) : (key ++ ':' :: tail).head? ≠ some ' ' := by
  cases key with
  | nil => simp
  | cons c key => exact h.head

/-- A line with a key begins no item. -/
lemma not_startsItem (h : Key key) (indent : ℕ) (tail : List Char) :
    startsItem indent (spaces indent ++ (key ++ ':' :: tail)) = false := by
  refine Bool.eq_false_iff.2 fun hstarts => ?_
  have hdash := List.isPrefixOf_iff_prefix.1 hstarts
  rw [List.prefix_append_right_inj] at hdash
  rcases key with _ | ⟨c, _ | ⟨d, key⟩⟩
  · simp at hdash
  · simp at hdash
  · refine h.dash ?_
    simp only [List.cons_append, List.cons_prefix_cons] at hdash ⊢
    exact ⟨hdash.1, hdash.2.1, List.nil_prefix⟩

/-- A plain text is found at the beginning of its line. -/
lemma of_plain (h : isPlainText key = true) : Key key := by
  obtain ⟨⟨c, s, rfl, hspace, hindicator⟩, hplain, hunbroken⟩ := isPlainText_eq_true h
  have hc : c ≠ '"' ∧ c ≠ '-' := by
    constructor <;> rintro rfl <;> exact hindicator (by decide)
  refine ⟨fun hhead => hspace (Option.some.inj hhead),
    fun hdash => hc.2 (List.cons_prefix_cons.1 hdash).1.symm, newline_notMem_of_plain hplain,
    fun tail text htail => ?_⟩
  have hplain : ∀ key : List Char, ¬ [':', ' '] <:+: key →
      splitPlain (key ++ tail) = some (key, text) := by
    intro key hcolon
    induction key with
    | nil =>
      cases tail with
      | nil => cases htail
      | cons c tail =>
        rw [List.nil_append, splitPlain, htail]
    | cons c key ih =>
      have hrest := ih fun hin => hcolon (hin.trans (List.suffix_cons c key).isInfix)
      have hbehind : behindKey (c :: (key ++ tail)) = none := by
        unfold behindKey
        split
        · -- the key cannot end here
          rename_i heq
          obtain ⟨-, hnil⟩ := List.cons.inj heq
          obtain ⟨-, rfl⟩ := List.append_eq_nil_iff.1 hnil
          cases htail
        · rename_i text' heq
          obtain ⟨rfl, hspace⟩ := List.cons.inj heq
          cases key with
          | nil =>
            rw [List.nil_append] at hspace
            rw [hspace] at htail
            cases htail
          | cons d key =>
            obtain ⟨rfl, -⟩ := List.cons.inj hspace
            exact absurd ⟨[], key, rfl⟩ hcolon
        · rfl
      rw [List.cons_append, splitPlain, hbehind, hrest]
      rfl
  unfold splitKey
  split
  · rename_i heq
    exact absurd (List.cons.inj heq).1 hc.1
  · exact hplain (c :: s) (not_infix_of_isUnbroken hunbroken)

/-- The closing quote of a key. -/
lemma splitQuoted_quote (s : List Char) :
    splitQuoted ('"' :: s) = (behindKey s).map fun text => (['"'], text) := by
  rw [splitQuoted.eq_def]
  rfl

/-- A backslash takes the next character with it. -/
lemma splitQuoted_escape (d : Char) (s : List Char) :
    splitQuoted ('\\' :: d :: s) = (splitQuoted s).map fun p => ('\\' :: d :: p.1, p.2) := by
  rw [splitQuoted.eq_def]
  rfl

/-- Any other character stands for itself. -/
lemma splitQuoted_char {c : Char} (hquote : c ≠ '"') (hbackslash : c ≠ '\\') (s : List Char) :
    splitQuoted (c :: s) = (splitQuoted s).map fun p => (c :: p.1, p.2) := by
  rw [splitQuoted.eq_def]
  simp [hquote, hbackslash]

/-- What the decoder does with a character: it is the closing quote, or the decoder goes on behind
it, where only a backslash of the text begins an escape. -/
lemma decodeFrom_cons {mode : Mode} {c : Char} {s value : List Char}
    (h : decodeFrom mode (c :: s) = some value) :
    c ≠ '\n' ∧ (mode = .text ∧ c = '"' ∧ s = [] ∨
      ∃ next value', decodeFrom next s = some value' ∧
        (next = .escape ↔ mode ≠ .escape ∧ c = '\\') ∧ (mode ≠ .escape → c ≠ '"')) := by
  cases mode with
  | text =>
    simp only [decodeFrom] at h
    split_ifs at h with hquote hend hbackslash hcontent
    · exact ⟨by rw [hquote]; decide, .inl ⟨rfl, hquote, hend⟩⟩
    · exact ⟨by rw [hbackslash]; decide,
        .inr ⟨.escape, value, h, by simp [hbackslash], fun _ => hquote⟩⟩
    · obtain ⟨rest, hrest, -⟩ := Option.map_eq_some_iff.1 h
      refine ⟨?_, .inr ⟨.text, rest, hrest, by simp [hbackslash], fun _ => hquote⟩⟩
      rintro rfl
      exact absurd hcontent (by decide)
  | escape =>
    simp only [decodeFrom] at h
    split at h
    · rename_i d hd
      obtain ⟨rest, hrest, -⟩ := Option.map_eq_some_iff.1 h
      refine ⟨?_, .inr ⟨.text, rest, hrest, by simp, fun hne => absurd rfl hne⟩⟩
      rintro rfl
      exact Option.some_ne_none d (hd.symm.trans (by decide))
    · split at h
      · rename_i n hn
        refine ⟨?_, .inr ⟨_, value, h, by simp, fun hne => absurd rfl hne⟩⟩
        rintro rfl
        exact Option.some_ne_none n (hn.symm.trans (by decide))
      · cases h
  | digits more acc =>
    simp only [decodeFrom] at h
    split at h
    · cases h
    · rename_i d hd
      have hc : c ≠ '\n' ∧ c ≠ '"' ∧ c ≠ '\\' := by
        refine ⟨?_, ?_, ?_⟩ <;> rintro rfl <;>
          exact Option.some_ne_none d (hd.symm.trans (by decide))
      split at h
      · exact ⟨hc.1, .inr ⟨_, value, h, by simp [hc.2.2], fun _ => hc.2.1⟩⟩
      · split_ifs at h
        obtain ⟨rest, hrest, -⟩ := Option.map_eq_some_iff.1 h
        exact ⟨hc.1, .inr ⟨.text, rest, hrest, by simp [hc.2.2], fun _ => hc.2.1⟩⟩

/-- What is decoded has no line feed. -/
lemma newline_notMem_of_decodeFrom {mode : Mode} {s value : List Char}
    (h : decodeFrom mode s = some value) : '\n' ∉ s := by
  induction s generalizing mode value with
  | nil => exact List.not_mem_nil
  | cons c s ih =>
    obtain ⟨hc, ⟨-, -, rfl⟩ | ⟨next, value', hrest, -, -⟩⟩ := decodeFrom_cons h
    · simp [Ne.symm hc]
    · simp [Ne.symm hc, ih hrest]

/-- The quote that closes a scalar for the decoder closes it as a key.

**Proof sketch.** Induction on the text: behind a backslash, both pass over the next character. -/
lemma splitQuoted_of_decodeFrom {tail text : List Char} (htail : behindKey tail = some text)
    {mode : Mode} {s value : List Char} (h : decodeFrom mode s = some value) :
    (mode ≠ .escape → splitQuoted (s ++ tail) = some (s, text)) ∧
      (mode = .escape → splitQuoted ('\\' :: (s ++ tail)) = some ('\\' :: s, text)) := by
  induction s generalizing mode value with
  | nil =>
    rw [decodeFrom.eq_def] at h
    cases h
  | cons c s ih =>
    obtain ⟨-, ⟨rfl, rfl, rfl⟩ | ⟨next, value', hrest, hnext, hquote⟩⟩ := decodeFrom_cons h
    · refine ⟨fun _ => ?_, nofun⟩
      show splitQuoted ('"' :: tail) = _
      rw [splitQuoted_quote, htail]
      rfl
    · obtain ⟨hplain, hescaped⟩ := ih hrest
      constructor
      · intro hmode
        by_cases hbackslash : c = '\\'
        · rw [hbackslash]
          exact hescaped (hnext.2 ⟨hmode, hbackslash⟩)
        · rw [List.cons_append, splitQuoted_char (hquote hmode) hbackslash,
            hplain fun hescape => hbackslash (hnext.1 hescape).2]
          rfl
      · intro hmode
        rw [List.cons_append, splitQuoted_escape, hplain fun hescape => (hnext.1 hescape).1 hmode]
        rfl

/-- A scalar in quotes is found at the beginning of its line. -/
lemma of_decodeQuoted {value : List Char} (h : decodeQuoted key = some value) : Key key := by
  unfold decodeQuoted at h
  split at h
  · rename_i s
    refine ⟨by simp, by simp, ?_, fun tail text htail => ?_⟩
    · simp [newline_notMem_of_decodeFrom h]
    · have hsplit := (splitQuoted_of_decodeFrom htail h).1 nofun
      rw [List.cons_append, splitKey, hsplit]
      rfl
  · cases h

end Key

/-! ## Entries -/

/-- A block is over where the lines are indented less. -/
lemma readEntries_ends {indent : ℕ} {rest : List (List Char)} (h : Ends indent rest) (fuel : ℕ) :
    readEntries (fuel + 1) indent rest = ([], rest) := by
  cases rest with
  | nil => rw [readEntries]
  | cons line lines =>
    rw [readEntries, h.content_eq]
    rfl

/-- The line of a key with a text behind it. -/
lemma readEntries_text {key text : List Char} (hkey : Key key) (hne : text ≠ []) (fuel indent : ℕ)
    (lines : List (List Char)) :
    readEntries (fuel + 1) indent ((spaces indent ++ key ++ [':', ' '] ++ text) :: lines) =
      ((key, if text = ['[', ']'] then .sequence [] else .scalar text) ::
        (readEntries fuel indent lines).1, (readEntries fuel indent lines).2) := by
  have hline : (content indent (spaces indent ++ key ++ [':', ' '] ++ text)).bind splitKey =
      some (key, text) := by
    rw [List.append_assoc, List.append_assoc]
    show (content indent (spaces indent ++ (key ++ ':' :: ' ' :: text))).bind splitKey = _
    rw [content_spaces indent (hkey.head_append (' ' :: text)), Option.bind_some]
    exact hkey.split (':' :: ' ' :: text) text rfl
  obtain ⟨c, text, rfl⟩ := List.exists_cons_of_ne_nil hne
  rw [readEntries, hline]

/-- The line of a key with a block below it. -/
lemma readEntries_block {key : List Char} (hkey : Key key) {fuel indent : ℕ}
    {lines rest : List (List Char)} {node : Node}
    (hnode : readNode fuel (indent + 2) lines = (node, rest)) :
    readEntries (fuel + 1) indent ((spaces indent ++ key ++ [':']) :: lines) =
      ((key, node) :: (readEntries fuel indent rest).1, (readEntries fuel indent rest).2) := by
  have hline : (content indent (spaces indent ++ key ++ [':'])).bind splitKey = some (key, []) := by
    rw [List.append_assoc, content_spaces indent (hkey.head_append []), Option.bind_some]
    exact hkey.split [':'] [] rfl
  rw [readEntries, hline]
  simp only [hnode]

/-- The first line of an entry. -/
lemma exists_entryLines (indent : ℕ) (key : List Char) (node : Node) :
    ∃ tail lines, entryLines indent key node =
      (spaces indent ++ (key ++ ':' :: tail)) :: lines := by
  cases node with
  | scalar text => exact ⟨' ' :: text, [], by simp [entryLines]⟩
  | mapping entries => exact ⟨[], entriesLines (indent + 2) entries, by simp [entryLines]⟩
  | sequence items =>
    cases items with
    | nil => exact ⟨[' ', '[', ']'], [], by simp [entryLines]⟩
    | cons item items =>
      exact ⟨[], itemLines (indent + 2) item ++ itemsLines (indent + 2) items,
        by simp [entryLines]⟩

/-- The entries that follow are indented less than the block of the one in front of them. -/
lemma ends_entriesLines {indent : ℕ} {entries : List (List Char × Node)}
    {rest : List (List Char)} (hkeys : ∀ e ∈ entries, Key e.1) (hrest : Ends indent rest) :
    Ends (indent + 2) (entriesLines indent entries ++ rest) := by
  cases entries with
  | nil => exact hrest.mono (by omega)
  | cons entry entries =>
    obtain ⟨key, node⟩ := entry
    obtain ⟨tail, lines, hlines⟩ := exists_entryLines indent key node
    rw [entriesLines, hlines]
    exact ends_cons ((hkeys _ List.mem_cons_self).head_append tail) (by simp) _

/-- The entries of a mapping begin no item. -/
lemma not_startsItem_entriesLines {indent : ℕ} {entries : List (List Char × Node)}
    {rest : List (List Char)} (hkeys : ∀ e ∈ entries, Key e.1) (hrest : Ends indent rest) :
    (entriesLines indent entries ++ rest).head?.any (startsItem indent) = false := by
  cases entries with
  | nil =>
    cases rest with
    | nil => rfl
    | cons line lines => exact hrest.startsItem_eq
  | cons entry entries =>
    obtain ⟨key, node⟩ := entry
    obtain ⟨tail, lines, hlines⟩ := exists_entryLines indent key node
    rw [entriesLines, hlines]
    exact (hkeys _ List.mem_cons_self).not_startsItem indent tail

/-- A block of entries is read as a mapping. -/
lemma readNode_entriesLines {indent fuel : ℕ} {entries : List (List Char × Node)}
    {rest : List (List Char)} (hkeys : ∀ e ∈ entries, Key e.1)
    (hreads : (Node.mapping entries).Reads) (hrest : Ends indent rest)
    (hfuel : 4 * (entriesLines indent entries ++ rest).length + 2 ≤ fuel) :
    readNode fuel indent (entriesLines indent entries ++ rest) = (.mapping entries, rest) := by
  obtain ⟨fuel, rfl⟩ : ∃ m, fuel = m + 1 := ⟨fuel - 1, by omega⟩
  rw [readNode, not_startsItem_entriesLines hkeys hrest, hreads hrest (by omega)]
  rfl

/-! ## Items -/

/-- The first line of an item, and the line it stands for. -/
lemma exists_itemLines (indent : ℕ) {entries : List (List Char × Node)} (hne : entries ≠ []) :
    ∃ s lines, entriesLines (indent + 2) entries = (spaces (indent + 2) ++ s) :: lines ∧
      itemLines indent (.mapping entries) = (spaces indent ++ (['-', ' '] ++ s)) :: lines := by
  obtain ⟨⟨key, node⟩, entries, rfl⟩ := List.exists_cons_of_ne_nil hne
  obtain ⟨tail, lines, hlines⟩ := exists_entryLines (indent + 2) key node
  refine ⟨key ++ ':' :: tail, lines ++ entriesLines (indent + 2) entries, ?_, ?_⟩
  · rw [entriesLines, hlines]
    rfl
  · rw [itemLines, entriesLines, hlines]
    show dash indent (_ :: _) = _
    unfold dash
    rw [List.modifyHead_cons, List.drop_left' (length_spaces (indent + 2)), List.append_assoc]
    rfl

/-- The items that follow are indented less than the block of the one in front of them. -/
lemma ends_itemsLines {indent : ℕ} {items : List (List (List Char × Node))}
    {rest : List (List Char)} (hne : ∀ entries ∈ items, entries ≠ []) (hrest : Ends indent rest) :
    Ends (indent + 2) (itemsLines indent (items.map .mapping) ++ rest) := by
  cases items with
  | nil => exact hrest.mono (by omega)
  | cons entries items =>
    obtain ⟨s, lines, -, hlines⟩ := exists_itemLines indent (hne entries List.mem_cons_self)
    rw [List.map_cons, itemsLines, hlines]
    exact ends_cons (by simp) (by simp) _

/-- A block of items begins with one. -/
lemma startsItem_itemsLines {indent : ℕ} {items : List (List (List Char × Node))}
    (hne : ∀ entries ∈ items, entries ≠ []) (hitems : items ≠ []) (rest : List (List Char)) :
    (itemsLines indent (items.map .mapping) ++ rest).head?.any (startsItem indent) = true := by
  obtain ⟨entries, items, rfl⟩ := List.exists_cons_of_ne_nil hitems
  obtain ⟨s, lines, -, hlines⟩ := exists_itemLines indent (hne entries List.mem_cons_self)
  rw [List.map_cons, itemsLines, hlines]
  show startsItem indent (spaces indent ++ (['-', ' '] ++ s)) = true
  rw [startsItem, List.isPrefixOf_iff_prefix, ← List.append_assoc]
  exact List.prefix_append _ _

/-- A sequence is over where the lines are indented less. -/
lemma readItems_ends {indent : ℕ} {rest : List (List Char)} (h : Ends indent rest) (fuel : ℕ) :
    readItems (fuel + 1) indent rest = ([], rest) := by
  cases rest with
  | nil => rw [readItems]
  | cons line lines =>
    rw [readItems, h.startsItem_eq]
    rfl

/-- An item is the mapping whose first line has the dash. -/
lemma readItems_item {indent fuel : ℕ} {entries : List (List Char × Node)}
    {lines rest : List (List Char)} (hne : entries ≠ [])
    (hnode : readNode fuel (indent + 2) (entriesLines (indent + 2) entries ++ lines) =
      (.mapping entries, rest)) :
    readItems (fuel + 1) indent (itemLines indent (.mapping entries) ++ lines) =
      (.mapping entries :: (readItems fuel indent rest).1, (readItems fuel indent rest).2) := by
  obtain ⟨s, more, hentries, hitem⟩ := exists_itemLines indent hne
  have hstarts : startsItem indent (spaces indent ++ (['-', ' '] ++ s)) = true := by
    rw [startsItem, List.isPrefixOf_iff_prefix, ← List.append_assoc]
    exact List.prefix_append _ _
  have hdrop : (spaces indent ++ (['-', ' '] ++ s)).drop (indent + 2) = s := by
    rw [← List.append_assoc]
    exact List.drop_left' (by simp [spaces])
  rw [hentries] at hnode
  rw [hitem, List.cons_append, readItems, if_pos hstarts, hdrop]
  simp only [← List.cons_append, hnode]

/-! ## Blocks -/

/-- An entry is read back, with whatever block it has. -/
lemma readEntries_entry {fuel indent : ℕ} {key : List Char} {node : Node}
    {rest : List (List Char)} (hkey : Key key) (hnode : node.Readable) (hreads : node.Reads)
    (hrest : Ends (indent + 2) rest)
    (hfuel : 4 * (entryLines indent key node ++ rest).length ≤ fuel) :
    readEntries (fuel + 1) indent (entryLines indent key node ++ rest) =
      ((key, node) :: (readEntries fuel indent rest).1, (readEntries fuel indent rest).2) := by
  cases hnode with
  | scalar hne hbrackets hline =>
    rw [entryLines, List.singleton_append, readEntries_text hkey hne, if_neg hbrackets]
  | @mapping entries hkeys hentries =>
    rw [entryLines, List.cons_append] at hfuel ⊢
    rw [List.length_cons] at hfuel
    exact readEntries_block hkey (readNode_entriesLines hkeys hreads hrest (by omega))
  | @sequence items hne hitems =>
    by_cases hempty : items = []
    · subst hempty
      rw [List.map_nil, entryLines, List.singleton_append]
      have htext := readEntries_text hkey (List.cons_ne_nil '[' [']']) fuel indent rest
      rw [List.append_assoc, List.append_assoc, if_pos rfl] at htext
      rw [List.append_assoc]
      exact htext
    · have hmap : items.map Node.mapping ≠ [] := fun hnil => hempty (List.map_eq_nil_iff.1 hnil)
      rw [entryLines_sequence indent key hmap, List.cons_append] at hfuel ⊢
      rw [List.length_cons] at hfuel
      obtain ⟨fuel, rfl⟩ : ∃ m, fuel = m + 1 := ⟨fuel - 1, by omega⟩
      refine readEntries_block hkey ?_
      rw [readNode, startsItem_itemsLines hne hempty, hreads hrest (by omega)]
      rfl

namespace Node.Readable

/-- **A block is read back, and nothing else is taken.**

**Proof sketch.** Induction on the tree; along the entries of a mapping and the items of a
sequence, each block ends where the next line is indented less. -/
theorem reads {node : Node} (h : node.Readable) : node.Reads := by
  induction h with
  | scalar hne hbrackets hline => trivial
  | @mapping entries hkeys hentries ih =>
    intro indent fuel rest hrest hfuel
    induction entries generalizing fuel with
    | nil =>
      obtain ⟨fuel, rfl⟩ : ∃ m, fuel = m + 1 := ⟨fuel - 1, by omega⟩
      exact readEntries_ends hrest fuel
    | cons entry entries ihe =>
      obtain ⟨key, node⟩ := entry
      obtain ⟨hkey, hkeys⟩ := List.forall_mem_cons.1 hkeys
      obtain ⟨hnode, hentries⟩ := List.forall_mem_cons.1 hentries
      obtain ⟨hreads, ih⟩ := List.forall_mem_cons.1 ih
      obtain ⟨tail, lines, hlines⟩ := exists_entryLines indent key node
      obtain ⟨fuel, rfl⟩ : ∃ m, fuel = m + 1 := ⟨fuel - 1, by omega⟩
      have hlength : 1 ≤ (entryLines indent key node).length := by
        rw [hlines, List.length_cons]
        omega
      rw [entriesLines, List.append_assoc] at hfuel ⊢
      change 4 * (entryLines indent key node ++ _).length + 1 ≤ fuel + 1 at hfuel
      have hentries' : 4 * (entriesLines indent entries ++ rest).length + 1 ≤ fuel := by
        rw [List.length_append] at hfuel
        omega
      have hentry : readEntries (fuel + 1) indent
          (entryLines indent key node ++ (entriesLines indent entries ++ rest)) = _ :=
        readEntries_entry hkey hnode hreads (ends_entriesLines hkeys hrest) (by omega)
      rw [hentry, ihe hkeys hentries ih hentries']
  | @sequence items hne hitems ih =>
    intro indent fuel rest hrest hfuel
    induction items generalizing fuel with
    | nil =>
      obtain ⟨fuel, rfl⟩ : ∃ m, fuel = m + 1 := ⟨fuel - 1, by omega⟩
      exact readItems_ends hrest fuel
    | cons entries items ihi =>
      obtain ⟨hfirst, hne⟩ := List.forall_mem_cons.1 hne
      obtain ⟨hitem, hitems⟩ := List.forall_mem_cons.1 hitems
      obtain ⟨hreads, ih⟩ := List.forall_mem_cons.1 ih
      obtain ⟨s, lines, hentries, hlines⟩ := exists_itemLines indent hfirst
      have hkeys : ∀ e ∈ entries, Key e.1 := by
        cases hitem with
        | mapping hkeys _ => exact hkeys
      obtain ⟨fuel, rfl⟩ : ∃ m, fuel = m + 1 := ⟨fuel - 1, by omega⟩
      rw [List.map_cons, itemsLines, List.append_assoc] at hfuel ⊢
      have hlength : (itemLines indent (.mapping entries)).length =
          (entriesLines (indent + 2) entries).length := by
        rw [hlines, hentries]
        rfl
      have hpos : 1 ≤ (entriesLines (indent + 2) entries).length := by
        rw [hentries, List.length_cons]
        omega
      rw [List.length_append, hlength] at hfuel
      rw [readItems_item hfirst (readNode_entriesLines hkeys hreads (ends_itemsLines hne hrest)
        (by rw [List.length_append]; omega)), ihi hne hitems ih (by omega)]

end Node.Readable

/-! ## Documents -/

/-- The lines of a node as a block have no line feed. -/
def Node.Lined : Node → Prop
  | .scalar text => '\n' ∉ text
  | .mapping entries => ∀ indent, ∀ line ∈ entriesLines indent entries, '\n' ∉ line
  | .sequence items => ∀ indent, ∀ line ∈ itemsLines indent items, '\n' ∉ line

/-- There is no line feed in the indentation. -/
lemma newline_notMem_spaces (indent : ℕ) : '\n' ∉ spaces indent := fun h =>
  absurd (List.eq_of_mem_replicate h) (by decide)

/-- A line that is put together of texts without line feeds. -/
lemma newline_notMem_line {indent : ℕ} {key text : List Char} (hkey : '\n' ∉ key)
    (htext : '\n' ∉ text) : '\n' ∉ spaces indent ++ key ++ [':', ' '] ++ text := by
  simp [newline_notMem_spaces, hkey, htext]

/-- The lines of an entry have no line feed. -/
lemma newline_notMem_entryLines {key : List Char} {node : Node} (hkey : '\n' ∉ key)
    (hnode : node.Lined) {indent : ℕ} {line : List Char}
    (hline : line ∈ entryLines indent key node) : '\n' ∉ line := by
  have hhead : '\n' ∉ spaces indent ++ key ++ [':'] := by
    simp [newline_notMem_spaces, hkey]
  cases node with
  | scalar text =>
    rw [entryLines, List.mem_singleton] at hline
    subst hline
    exact newline_notMem_line hkey hnode
  | mapping entries =>
    rw [entryLines, List.mem_cons] at hline
    rcases hline with rfl | hmem
    · exact hhead
    · exact hnode _ line hmem
  | sequence items =>
    by_cases hitems : items = []
    · subst hitems
      rw [entryLines, List.mem_singleton] at hline
      subst hline
      have hempty : '\n' ∉ spaces indent ++ key ++ [':', ' '] ++ ['[', ']'] :=
        newline_notMem_line hkey (by decide)
      simpa using hempty
    · rw [entryLines_sequence indent key hitems, List.mem_cons] at hline
      rcases hline with rfl | hmem
      · exact hhead
      · exact hnode _ line hmem

/-- The lines of a tree have no line feed.

**Proof sketch.** Induction on the tree; an item has the lines of its mapping, but for the dash in
the first one. -/
lemma Node.Readable.lined {node : Node} (h : node.Readable) : node.Lined := by
  induction h with
  | scalar hne hbrackets hline => exact hline
  | @mapping entries hkeys hentries ih =>
    intro indent line hmem
    induction entries with
    | nil => cases hmem
    | cons entry entries ihe =>
      obtain ⟨hkey, hkeys⟩ := List.forall_mem_cons.1 hkeys
      obtain ⟨-, hentries⟩ := List.forall_mem_cons.1 hentries
      obtain ⟨hlined, ih⟩ := List.forall_mem_cons.1 ih
      rw [entriesLines, List.mem_append] at hmem
      rcases hmem with hmem | hmem
      · exact newline_notMem_entryLines hkey.line hlined hmem
      · exact ihe hkeys hentries ih hmem
  | @sequence items hne hitems ih =>
    intro indent line hmem
    induction items with
    | nil => cases hmem
    | cons entries items ihi =>
      obtain ⟨hfirst, hne⟩ := List.forall_mem_cons.1 hne
      obtain ⟨-, hitems⟩ := List.forall_mem_cons.1 hitems
      obtain ⟨hlined, ih⟩ := List.forall_mem_cons.1 ih
      obtain ⟨s, lines, hentries, hlines⟩ := exists_itemLines indent hfirst
      have hlined : ∀ line ∈ (spaces (indent + 2) ++ s) :: lines, '\n' ∉ line := by
        rw [← hentries]
        exact hlined (indent + 2)
      rw [List.map_cons, itemsLines, hlines, List.mem_append, List.mem_cons] at hmem
      rcases hmem with (rfl | hmem) | hmem
      · have hs : '\n' ∉ s := fun hs =>
          hlined _ List.mem_cons_self (List.mem_append_right _ hs)
        simp [newline_notMem_spaces, hs]
      · exact hlined line (List.mem_cons_of_mem _ hmem)
      · exact ihi hne hitems ih hmem

/-- The text of a document is split into its lines again. -/
lemma textLines_documentText {entries : List (List Char × Node)} (hne : entries ≠ [])
    (hlined : (Node.mapping entries).Lined) :
    textLines (documentText entries) = entriesLines 0 entries := by
  have hlines : entriesLines 0 entries ≠ [] := by
    obtain ⟨⟨key, node⟩, entries, rfl⟩ := List.exists_cons_of_ne_nil hne
    obtain ⟨tail, lines, hlines⟩ := exists_entryLines 0 key node
    rw [entriesLines, hlines]
    exact List.cons_ne_nil _ _
  have hpieces : (documentText entries).splitOn '\n' = entriesLines 0 entries ++ [[]] := by
    unfold documentText
    rw [List.splitOn_append_cons_self, List.splitOn_intercalate '\n' (hlined 0) hlines]
    rfl
  unfold textLines
  simp only [hpieces, List.getLast?_concat, if_true, List.dropLast_concat]

/-- **A document is read back.** -/
theorem parseDocument_documentText {entries : List (List Char × Node)} (hne : entries ≠ [])
    (h : (Node.mapping entries).Readable) :
    parseDocument (documentText entries) = some entries := by
  have hreads := @Node.Readable.reads _ h 0 (4 * (entriesLines 0 entries).length + 1) []
    (Ends.nil 0)
  rw [List.append_nil] at hreads
  unfold parseDocument
  simp only [textLines_documentText hne h.lined, hreads (Nat.le_refl _), if_true]

end Yaml
