import Mathlib.Data.List.Basic
import Mathlib.Data.Nat.Notation
import Mathlib.Tactic.Common

set_option relaxedAutoImplicit false
set_option autoImplicit false

/-!
# UTF-8 on lists

A text is a list of Unicode scalar values, a byte string a list of bytes. The encoder
concatenates the core library's `String.utf8EncodeChar`; the decoder reads one scalar value
at a time with `ByteArray.utf8DecodeChar?` and rejects the whole string at the first
malformed sequence. The lossy decoder puts a replacement character in the place of each.

## Main definitions

* `Utf8.encode`, `Utf8.decode` — the encoding of a text and its partial inverse.
* `Utf8.decodeLossy` — the decoder that accepts every byte string.

## Main results

* `Utf8.decode_eq_some_iff` — the decoder accepts exactly the encodings.
* `Utf8.mem_encode_iff` — an ASCII byte occurs in an encoding exactly when its character
  occurs in the text.
* `Utf8.decodeLossy_of_decode` — on well-formed byte strings the two decoders agree.
-/

namespace Utf8

/-- The UTF-8 encoding of a text. -/
def encode (cs : List Char) : List UInt8 :=
  cs.flatMap String.utf8EncodeChar

/-- The empty text has the empty encoding. -/
@[simp] lemma encode_nil : encode [] = [] := rfl

/-- The bytes of the first character come first. -/
@[simp] lemma encode_cons (c : Char) (cs : List Char) :
    encode (c :: cs) = String.utf8EncodeChar c ++ encode cs := rfl

/-- The encoding of a text is that of its parts. -/
@[simp] lemma encode_append (cs ds : List Char) : encode (cs ++ ds) = encode cs ++ encode ds := by
  simp [encode]

/-- Decode at most `n` scalar values, rejecting what is left over or malformed. -/
def decodeAux : ℕ → List UInt8 → Option (List Char)
  | _, [] => some []
  | 0, _ :: _ => none
  | n + 1, b :: bs => do
    let c ← ByteArray.utf8DecodeChar? (b :: bs).toByteArray 0
    let cs ← decodeAux n ((b :: bs).drop c.utf8Size)
    pure (c :: cs)

/-- Decode a byte string; `none` when it is not well-formed UTF-8. Every scalar value takes
at least one byte, so the length is budget enough. -/
def decode (bs : List UInt8) : Option (List Char) :=
  decodeAux bs.length bs

/-- The core decoder reads back one encoded scalar value in front of any bytes. -/
lemma utf8DecodeChar?_encode (c : Char) (bs : List UInt8) :
    ByteArray.utf8DecodeChar? (String.utf8EncodeChar c ++ bs).toByteArray 0 = some c := by
  rw [List.toByteArray_append]
  exact ByteArray.utf8DecodeChar?_utf8EncodeChar_append

/-- What the core decoder accepts starts with the encoding of its result. -/
lemma exists_of_utf8DecodeChar? {bs : List UInt8} {c : Char}
    (h : ByteArray.utf8DecodeChar? bs.toByteArray 0 = some c) :
    ∃ rest, bs = String.utf8EncodeChar c ++ rest := by
  obtain ⟨l, hl⟩ := ByteArray.exists_of_utf8DecodeChar?_eq_some h
  refine ⟨l.data.toList, ?_⟩
  apply List.toByteArray_inj.1
  rw [hl, List.toByteArray_append]
  congr 1
  apply ByteArray.ext
  simp

/-- With a budget of at least its length, an encoding decodes to its text. -/
lemma decodeAux_encode (cs : List Char) :
    ∀ n, (encode cs).length ≤ n → decodeAux n (encode cs) = some cs := by
  induction cs with
  | nil => intro n _; cases n <;> rfl
  | cons c cs ih =>
    intro n hn
    have hsize : (String.utf8EncodeChar c).length = c.utf8Size := String.length_utf8EncodeChar c
    have hpos : 0 < c.utf8Size := c.utf8Size_pos
    simp only [encode_cons, List.length_append, hsize] at hn ⊢
    obtain ⟨m, rfl⟩ : ∃ m, n = m + 1 := ⟨n - 1, by omega⟩
    have hdrop : (String.utf8EncodeChar c ++ encode cs).drop c.utf8Size = encode cs := by
      rw [← hsize, List.drop_left]
    obtain ⟨b, bs, hb⟩ : ∃ b bs, String.utf8EncodeChar c ++ encode cs = b :: bs := by
      cases hc : String.utf8EncodeChar c with
      | nil => simp [hc] at hsize; omega
      | cons b bs => exact ⟨b, bs ++ encode cs, rfl⟩
    have hchar := utf8DecodeChar?_encode c (encode cs)
    rw [hb] at hdrop hchar ⊢
    simp only [decodeAux, hchar, Option.bind_eq_bind, Option.bind_some, hdrop]
    rw [ih m (by omega)]
    rfl

/-- An accepted byte string is the encoding of the decoded text. -/
lemma encode_of_decodeAux :
    ∀ (n : ℕ) (bs : List UInt8) (cs : List Char), decodeAux n bs = some cs → encode cs = bs := by
  intro n
  induction n with
  | zero =>
    intro bs cs h
    cases bs with
    | nil => simp [decodeAux] at h; subst h; rfl
    | cons b bs => simp [decodeAux] at h
  | succ n ih =>
    intro bs cs h
    cases bs with
    | nil => simp [decodeAux] at h; subst h; rfl
    | cons b bs =>
      simp only [decodeAux, Option.bind_eq_bind, Option.bind_eq_some_iff] at h
      obtain ⟨c, hc, ds, hds, hcs⟩ := h
      obtain rfl : c :: ds = cs := by simpa using hcs
      obtain ⟨rest, hrest⟩ := exists_of_utf8DecodeChar? hc
      have hdrop : (b :: bs).drop c.utf8Size = rest := by
        rw [hrest, ← String.length_utf8EncodeChar c, List.drop_left]
      rw [encode_cons, ih _ _ hds, hdrop, hrest]

/-- What has been encoded is decoded. -/
@[simp] theorem decode_encode (cs : List Char) : decode (encode cs) = some cs :=
  decodeAux_encode cs _ (Nat.le_refl _)

/-- The decoder accepts exactly the encodings, and returns the text that was encoded. -/
theorem decode_eq_some_iff {bs : List UInt8} {cs : List Char} :
    decode bs = some cs ↔ bs = encode cs :=
  ⟨fun h => (encode_of_decodeAux _ _ _ h).symm, fun h => by rw [h, decode_encode]⟩

/-- Different texts have different encodings. -/
lemma encode_injective : Function.Injective encode := fun cs ds h => by
  have := decode_encode cs
  rw [h, decode_encode] at this
  simpa using this.symm

/-- The byte of an ASCII character. -/
def ascii (c : Char) : UInt8 := UInt8.ofNat c.toNat

/-- An ASCII character is encoded by its own byte. -/
lemma utf8EncodeChar_of_ascii {c : Char} (h : c.toNat < 128) :
    String.utf8EncodeChar c = [ascii c] := by
  have h' : c.val.toNat ≤ 0x7f := Nat.lt_succ_iff.1 h
  dsimp only [String.utf8EncodeChar]
  rw [if_pos h']
  rfl

/-- A byte below 128 in an encoded character is that character.

**Proof sketch.** Every byte of a longer encoding is a residue plus 128 or more. -/
lemma eq_of_mem_utf8EncodeChar {c : Char} {b : UInt8} (h : b ∈ String.utf8EncodeChar c)
    (hb : b.toNat < 128) : c.toNat = b.toNat := by
  have hbyte : ∀ k, (UInt8.ofNat k).toNat = k % 256 := fun k => by simp
  change c.val.toNat = b.toNat
  dsimp only [String.utf8EncodeChar] at h
  generalize c.val.toNat = v at h ⊢
  split_ifs at h <;> simp only [List.mem_cons, List.not_mem_nil, or_false] at h
  · subst h; rw [hbyte]; omega
  · rcases h with rfl | rfl <;> rw [hbyte] at hb <;> omega
  · rcases h with rfl | rfl | rfl <;> rw [hbyte] at hb <;> omega
  · rcases h with rfl | rfl | rfl | rfl <;> rw [hbyte] at hb <;> omega

/-- An ASCII byte occurs in an encoding exactly when its character occurs in the text. -/
theorem mem_encode_iff {c : Char} (hc : c.toNat < 128) {cs : List Char} :
    ascii c ∈ encode cs ↔ c ∈ cs := by
  have hbyte : (ascii c).toNat = c.toNat := by
    simp [ascii]; omega
  constructor
  · intro h
    obtain ⟨d, hd, hmem⟩ := List.mem_flatMap.1 h
    have heq : d.toNat = c.toNat := by
      rw [eq_of_mem_utf8EncodeChar hmem (by omega), hbyte]
    have : d = c := Char.ext (UInt32.toNat_inj.1 heq)
    exact this ▸ hd
  · intro h
    exact List.mem_flatMap.2 ⟨c, h, by simp [utf8EncodeChar_of_ascii hc]⟩

/-! ## The lossy decoder -/

/-- The bytes that may follow the first byte of an encoding of three or four bytes. -/
def secondBytes (b : UInt8) : Option (UInt8 × UInt8) :=
  if b = 0xE0 then some (0xA0, 0xBF)
  else if b = 0xED then some (0x80, 0x9F)
  else if 0xE1 ≤ b ∧ b ≤ 0xEF then some (0x80, 0xBF)
  else if b = 0xF0 then some (0x90, 0xBF)
  else if 0xF1 ≤ b ∧ b ≤ 0xF3 then some (0x80, 0xBF)
  else if b = 0xF4 then some (0x80, 0x8F)
  else none

/-- How many bytes behind the first one of a malformed sequence its replacement stands for: those
that an encoding could still start with. -/
def malformedTail (b : UInt8) (bs : List UInt8) : ℕ :=
  match secondBytes b, bs with
  | some (low, high), c :: bs =>
    if low ≤ c ∧ c ≤ high then
      match bs with
      | d :: _ => if 0xF0 ≤ b ∧ 0x80 ≤ d ∧ d ≤ 0xBF then 2 else 1
      | [] => 1
    else 0
  | _, _ => 0

/-- Decode at most `n` scalar values and malformed sequences. -/
def decodeLossyAux : ℕ → List UInt8 → List Char
  | _, [] => []
  | 0, _ :: _ => []
  | n + 1, b :: bs =>
    match ByteArray.utf8DecodeChar? (b :: bs).toByteArray 0 with
    | some c => c :: decodeLossyAux n ((b :: bs).drop c.utf8Size)
    | none => '\uFFFD' :: decodeLossyAux n (bs.drop (malformedTail b bs))

/-- Decode a byte string, with a replacement character for each malformed sequence. -/
def decodeLossy (bs : List UInt8) : List Char :=
  decodeLossyAux bs.length bs

/-- On well-formed byte strings the lossy decoder returns what the other one returns.

**Proof sketch.** What can be decoded has no replacement in it: the decoder goes on character by
character. -/
theorem decodeLossy_of_decode {bs : List UInt8} {cs : List Char} (h : decode bs = some cs) :
    decodeLossy bs = cs := by
  suffices haux : ∀ n bs cs, decodeAux n bs = some cs → decodeLossyAux n bs = cs from
    haux _ _ _ h
  intro n
  induction n with
  | zero =>
    intro bs cs h
    cases bs with
    | nil => simpa [decodeAux, decodeLossyAux] using h.symm
    | cons b bs => simp [decodeAux] at h
  | succ n ih =>
    intro bs cs h
    cases bs with
    | nil => simpa [decodeAux, decodeLossyAux] using h.symm
    | cons b bs =>
      simp only [decodeAux, Option.bind_eq_bind, Option.bind_eq_some_iff] at h
      obtain ⟨c, hc, ds, hds, hcs⟩ := h
      obtain rfl : c :: ds = cs := by simpa using hcs
      simp only [decodeLossyAux, hc]
      rw [ih _ _ hds]

end Utf8
