import RecordCodec.Libraries.Standard
import RecordCodec.Proofs.Charset.RoundTrip
import RecordCodec.Proofs.Value.Exchange

/-!
Blanks in texts with a character set. A text is filled up with one byte that the platform and the
character set decide together, and an empty one is stored as the blank of ASCII. Both are shown as
blanks exactly where the character set has its blank at that byte.
-/
namespace RecordCodec

def Text.OnlyBlanks (s : List Char) : Prop :=
  ∀ c ∈ s, c = ' '

theorem Utf16.ofUnits?_cons_ne_nil (u : Nat) (rest : List Nat) :
    ofUnits? (u :: rest) ≠ some [] := by
  rw [ofUnits?.eq_def]
  dsimp only
  split
  · simp
  · split
    · simp
    · split <;> simp

theorem Utf8.eq_nil_of_decodeLossy {bytes : List UInt8} (h : decodeLossy bytes = []) :
    bytes = [] := by
  cases bytes with
  | nil => rfl
  | cons b rest =>
    simp only [decodeLossy, decodeLossyFrom] at h
    split at h <;> cases h

/-! ### Blanks of a character set -/

theorem CodePage.encode_space (page : CodePage) : page.encode [' '] = .ok [page.space] := by
  cases page <;> decide +kernel

namespace Charset

section

variable [Libraries]

def IsBlank (c : Charset) (b : UInt8) : Prop :=
  c.encode [' '] = .ok [b]

theorem isBlank_utf8 {b : UInt8} : utf8.IsBlank b ↔ b = 0x20 := by
  show Except.ok [(0x20 : UInt8)] = Except.ok [b] ↔ _
  simp [eq_comm]

theorem not_isBlank_utf16 (order : ByteOrder) (b : UInt8) : ¬ (utf16 order).IsBlank b := by
  intro blank
  have one : Utf16.encode order [' '] = [b] := Except.ok.inj blank
  have two : (Utf16.encode order [' ']).length = 2 := by cases order <;> rfl
  rw [one] at two
  cases two

theorem isBlank_page {page : CodePage} {b : UInt8} :
    (Charset.page page).IsBlank b ↔ b = page.space := by
  rw [IsBlank, encode, page.encode_space]
  simp [Except.mapError, eq_comm]

/-- On a platform the byte that fills up a text is a blank: in an EBCDIC page on all of them, in
the other character sets of single bytes on all but a mainframe. -/
def FillsBlank (c : Charset) (platform : Platform) : Prop :=
  c.isEbcdic = true ∨ platform.isMainframe = false ∧ ∀ order, c ≠ .utf16 order

theorem exists_char {c : Charset} (builtIn : c.BuiltIn) (narrow : ∀ order, c ≠ .utf16 order)
    {b : UInt8} (pad : b = 0x20 ∨ b = 0x40) : ∃ char, c.encode [char] = .ok [b] := by
  cases c with
  | utf8 =>
    rcases pad with rfl | rfl
    · exact ⟨' ', rfl⟩
    · exact ⟨'@', rfl⟩
  | utf16 order => exact absurd rfl (narrow order)
  | page page =>
    have encoded : page.encode [page.decodeByte b] = .ok [b] := by
      rcases pad with rfl | rfl <;> cases page <;> decide +kernel
    refine ⟨page.decodeByte b, ?_⟩
    rw [encode, encoded]
    rfl
  | web encoding => exact absurd rfl (builtIn encoding)

end

theorem decodeByte_ascii_blank {page : CodePage} :
    page.decodeByte 0x20 = ' ' ↔ page.isEbcdic = false := by
  cases page <;> decide +kernel

theorem eq_nil_of_decode [Libraries] {c : Charset} (builtIn : c.BuiltIn) {bytes : List UInt8}
    (h : c.decode bytes = .ok []) : bytes = [] := by
  cases c with
  | utf8 =>
    cases bytes with
    | nil => rfl
    | cons b rest =>
      have h := Outcome.mapError_ok.mp h
      simp only [Utf8.decode, Utf8.decodeFrom] at h
      split at h
      · split at h <;> cases h
      · cases h
      · cases h
  | utf16 order =>
    have h := Outcome.mapError_ok.mp h
    unfold Utf16.decode at h
    split at h
    · rename_i even
      split at h
      · rename_i read
        cases h
        cases bytes with
        | nil => rfl
        | cons a bytes =>
          cases bytes with
          | nil => cases even
          | cons b rest => exact absurd read (Utf16.ofUnits?_cons_ne_nil _ _)
      · cases h
    · cases h
  | page page => exact List.map_eq_nil_iff.mp (Except.ok.inj h)
  | web encoding => exact absurd rfl (builtIn encoding)

end Charset

namespace TextField

variable {p : Place} {size : TextSize} {unicode : Bool} {c : Charset} {bytes : List UInt8}

section

variable [Libraries]

theorem text_of_decode (charset : charset? p unicode = some c) {s : List Char}
    (decoded : c.decode bytes = .ok s) : text p unicode bytes = s := by
  rw [text, charset]
  dsimp only
  rw [decoded]

theorem eq_nil_of_text (charset : charset? p unicode = some c) (builtIn : c.BuiltIn)
    (h : text p unicode bytes = []) : bytes = [] := by
  rw [text, charset] at h
  dsimp only at h
  split at h
  · rename_i s decoded
    subst h
    exact Charset.eq_nil_of_decode builtIn decoded
  · exact Utf8.eq_nil_of_decodeLossy h

/-- The blank of ASCII is one in all character sets but EBCDIC. In UTF-16 it is half a character,
which is read as UTF-8. -/
theorem text_blank (charset : charset? p unicode = some c) (builtIn : c.BuiltIn) :
    Text.OnlyBlanks (text p unicode [0x20]) ↔ c.isEbcdic = false := by
  rw [text, charset]
  cases c with
  | utf8 => exact iff_of_true (List.forall_mem_singleton.mpr rfl) rfl
  | utf16 order => exact iff_of_true (List.forall_mem_singleton.mpr rfl) rfl
  | page page => exact List.forall_mem_singleton.trans Charset.decodeByte_ascii_blank
  | web encoding => exact absurd rfl (builtIn encoding)

end

theorem padByte_of_charset (charset : charset? p unicode = some c) :
    padByte p unicode = if c.isEbcdic || p.platform.isMainframe then 0x40 else 0x20 := by
  rw [padByte, charset]
  cases ebcdic : c.isEbcdic <;> simp [ebcdic, Platform.space]

theorem padByte_eq (charset : charset? p unicode = some c) :
    padByte p unicode = 0x20 ∨ padByte p unicode = 0x40 := by
  rw [padByte_of_charset charset]
  split
  · exact .inr rfl
  · exact .inl rfl

theorem isBlank_padByte [Libraries] (charset : charset? p unicode = some c) (builtIn : c.BuiltIn) :
    c.IsBlank (padByte p unicode) ↔ c.FillsBlank p.platform := by
  rw [padByte_of_charset charset]
  cases c with
  | utf8 =>
    rw [Charset.isBlank_utf8]
    cases mainframe : p.platform.isMainframe <;>
      simp [Charset.FillsBlank, Charset.isEbcdic, mainframe]
  | utf16 order => simp [Charset.not_isBlank_utf16, Charset.FillsBlank, Charset.isEbcdic]
  | page page =>
    rw [Charset.isBlank_page, CodePage.space]
    cases ebcdic : page.isEbcdic <;> cases mainframe : p.platform.isMainframe <;>
      simp [Charset.FillsBlank, Charset.isEbcdic, ebcdic, mainframe]
  | web encoding => exact absurd rfl (builtIn encoding)

/-- The bytes that are missing behind a payload. A field restricted to a byte range takes any. -/
def padding (p : Place) (payload : List UInt8) : Nat :=
  if p.type.partialRange.isSome then 0 else p.type.length - payload.length

theorem layout_ok {payload : List UInt8} (laid : layout p size unicode payload = .ok bytes) :
    bytes = payload ++ List.replicate (padding p payload) (padByte p unicode) := by
  unfold layout at laid
  unfold padding
  split at laid
  · rename_i restricted
    cases laid
    rw [if_pos restricted]
    exact (List.append_nil bytes).symm
  · rename_i whole
    obtain ⟨-, same⟩ := Outcome.unless_ok.mp laid
    cases same
    rw [if_neg whole]

/-- The record of a large text is read as its size and as many bytes as a request asks for, which
are missing where it asks for more than one. -/
theorem readStart_blank (r : Request) (announced : Nat) (order : ByteOrder) (taken : List UInt8) :
    (readStart r ⟨[], announced⟩ ⟨order, taken, order.frame 4 0 [0x20]⟩).1 =
      ⟨if r.partialSize = 1 then [0x20] else [], 5⟩ := by
  have counted : 5 < Bytes.capacity 4 := by decide
  have size : ByteQueue.takeNat 4 ⟨order, taken, order.frame 4 0 [0x20]⟩ = _ :=
    (Consumes.takeNat order counted).whole taken [0x20]
  rw [readStart, size]
  dsimp only
  match wanted : r.partialSize with
  | 0 => rfl
  | 1 => rfl
  | n + 2 => simp [ByteQueue.take]

end TextField

namespace Leaf

variable {p : Place} {size : TextSize} {c : Charset}

section

variable [Libraries]

theorem assign_text {l' : Leaf} {before : TextContent} {s : List Char}
    (charset : TextField.charset? p false = some c)
    (assigned : (⟨p, .text size false before⟩ : Leaf).assign (.text s) = .ok l') :
    ∃ payload, c.encode s = .ok payload ∧ ∃ announced,
      l' = ⟨p, .text size false ⟨payload ++ List.replicate (TextField.padding p payload)
        (TextField.padByte p false), announced⟩⟩ := by
  obtain ⟨_, changed, rfl⟩ := Outcome.map_ok.mp assigned
  obtain ⟨content, taken, rfl⟩ := Outcome.map_ok.mp changed
  obtain ⟨payload, encoded, rest⟩ := Outcome.bind_ok.mp taken
  obtain ⟨bytes, laid, same⟩ := Outcome.bind_ok.mp rest
  cases same
  rw [TextField.encode, charset] at encoded
  obtain rfl := TextField.layout_ok laid
  exact ⟨payload, Outcome.mapError_ok.mp encoded, _, rfl⟩

/-- A text is shown with blanks behind it where its bytes fill the field or the byte that fills it
up is a blank, and only there unless characters have two bytes. -/
def PadsBlank (p : Place) (c : Charset) (s shown : List Char) : Prop :=
  ∃ payload, c.encode s = .ok payload ∧
    (TextField.padding p payload = 0 ∨ c.FillsBlank p.platform →
      shown = s ++ List.replicate (TextField.padding p payload) ' ') ∧
    ((∀ order, c ≠ .utf16 order) → (∃ n, shown = s ++ List.replicate n ' ') →
      TextField.padding p payload = 0 ∨ c.FillsBlank p.platform)

theorem padsBlank {before : TextContent} {s : List Char} {l' : Leaf}
    (charset : TextField.charset? p false = some c) (builtIn : c.BuiltIn)
    (assigned : (⟨p, .text size false before⟩ : Leaf).assign (.text s) = .ok l') :
    PadsBlank p c s l'.text := by
  obtain ⟨payload, encoded, announced, rfl⟩ := assign_text charset assigned
  have fills := TextField.isBlank_padByte charset builtIn
  have shown {char : Char} (one : c.encode [char] = .ok [TextField.padByte p false]) :
      TextField.text p false (payload ++ List.replicate (TextField.padding p payload)
        (TextField.padByte p false)) =
        s ++ List.replicate (TextField.padding p payload) char :=
    TextField.text_of_decode charset (Charset.decode_padded builtIn encoded one _)
  refine ⟨payload, encoded, ?_, ?_⟩
  · rintro (full | blank)
    · show TextField.text p false (payload ++ List.replicate (TextField.padding p payload) _) = _
      rw [full, List.replicate_zero, List.replicate_zero, List.append_nil, List.append_nil]
      exact TextField.text_of_decode charset (Charset.decode_encode builtIn encoded)
    · exact shown (fills.mpr blank)
  · rintro narrow ⟨n, blanks⟩
    obtain ⟨char, one⟩ := Charset.exists_char builtIn narrow (TextField.padByte_eq charset)
    have same : List.replicate (TextField.padding p payload) char = List.replicate n ' ' :=
      List.append_cancel_left ((shown one).symm.trans blanks)
    obtain ⟨-, full | rfl⟩ := List.replicate_inj.mp same
    · exact .inl full
    · exact .inr (fills.mp one)

end

/-! ### Empty texts in a record -/

theorem store_empty (varies : p.type.length = 0) (whole : p.type.partialRange = none)
    (announced : Nat) (order : ByteOrder) {r : Request} (first : r.isFollowUp = false) :
    (⟨p, .text size false ⟨[], announced⟩⟩ : Leaf).store order r =
      .ok (.whole (order.frame size.header 0 [0x20])) := by
  have record := TextField.storeWhole_eq order p size []
  rw [varies] at record
  simp [store, TextField.store, whole, first, record, TextField.payload]

theorem store_restricted {range : PartialRange} (restricted : p.type.partialRange = some range)
    (positive : 0 < range.length) (announced : Nat) (order : ByteOrder) {r : Request}
    (first : r.isFollowUp = false) :
    (⟨p, .text size false ⟨[], announced⟩⟩ : Leaf).store order r =
      .error (.partialLength p.shortName range.length 0) := by
  simp [store, TextField.store, restricted, first, positive.ne]

theorem parse_blank (varies : p.type.length = 0) (whole : p.type.partialRange = none)
    (small : size ≠ .large) (before : TextContent) (order : ByteOrder) {r : Request}
    (first : r.isFollowUp = false) (taken rest : List UInt8) :
    (⟨p, .text size false before⟩ : Leaf).parse r
        ⟨order, taken, order.frame size.header 0 [0x20] ++ rest⟩ =
      (⟨p, .text size false (.whole [0x20])⟩,
        .ok (.done ⟨order, (order.frame size.header 0 [0x20]).reverse ++ taken, rest⟩)) := by
  have extent : Occupies size.header p.type.length [(0x20 : UInt8)].length := by
    rw [varies]
    cases size <;> exact occupies_variable.mpr (by decide)
  have read := (TextField.consumes_readWhole extent order).whole taken rest
  rw [varies] at read
  simp [parse, TextField.parse, first, whole, TextField.isLob, small, read]

theorem parse_blank_large (varies : p.type.length = 0) (whole : p.type.partialRange = none)
    (announced : Nat) (order : ByteOrder) {r : Request} (first : r.isFollowUp = false)
    (taken : List UInt8) :
    ((⟨p, .text .large false ⟨[], announced⟩⟩ : Leaf).parse r
        ⟨order, taken, order.frame 4 0 [0x20]⟩).1 =
      ⟨p, .text .large false ⟨if r.partialSize = 1 then [0x20] else [], 5⟩⟩ := by
  have lob : TextField.isLob p .large = true := by simp [TextField.isLob, varies]
  simp [parse, TextField.parse, first, whole, lob, TextField.readStart_blank]

/-- Which blanks of a text field are shown as blanks in a character set: those behind a text, and
the one that an empty text of a variable field is written as. -/
structure Blanks [Libraries] (l : Leaf) (size : TextSize) (c : Charset) : Prop where
  padded : ∀ s l', l.assign (.text s) = .ok l' → PadsBlank l.place c s l'.text
  /-- In a record the blank is that of ASCII. Any field of the same place reads it. -/
  stored : size ≠ .large → l.place.type.length = 0 → l.place.type.partialRange = none →
    l.text = [] → ∀ order, ∃ record,
      (∀ r : Request, r.isFollowUp = false → l.store order r = .ok (.whole record)) ∧
      ∀ target : Leaf, target.Typed → target.place = l.place →
        ∀ (r : Request) (taken rest : List UInt8), r.isFollowUp = false → ∃ read,
          target.parse r ⟨order, taken, record ++ rest⟩ =
            (read, .ok (.done ⟨order, record.reverse ++ taken, rest⟩)) ∧
          (Text.OnlyBlanks read.text ↔ c.isEbcdic = false)
  /-- A large text is read by its size and first bytes, so a request for one byte finds the blank
  and any other request leaves the text empty. -/
  storedLarge : size = .large → l.place.type.length = 0 → l.place.type.partialRange = none →
    l.text = [] → ∀ order, ∃ record,
      (∀ r : Request, r.isFollowUp = false → l.store order r = .ok (.whole record)) ∧
      ∀ target : Leaf, target.Typed → target.place = l.place → target.text = [] →
        ∀ (r : Request) (taken : List UInt8), r.isFollowUp = false →
          (Text.OnlyBlanks (target.parse r ⟨order, taken, record⟩).1.text ↔
            c.isEbcdic = false ∨ r.partialSize ≠ 1)
  restricted : ∀ range, l.place.type.partialRange = some range → 0 < range.length → l.text = [] →
    ∀ order (r : Request), r.isFollowUp = false →
      l.store order r = .error (.partialLength l.place.shortName range.length 0)

theorem exists_content {l : Leaf} (typed : l.Typed) (place : l.place = p)
    (kind : p.type.kind = .text size false) :
    ∃ bytes announced, l = ⟨p, .text size false ⟨bytes, announced⟩⟩ := by
  obtain ⟨p', content⟩ := l
  change p' = p at place
  subst place
  have isText : content.IsOf (.text size false) := kind ▸ typed
  obtain ⟨⟨bytes, announced⟩, rfl⟩ := isText.of_kind
  exact ⟨bytes, announced, rfl⟩

theorem written_blanks [Libraries] {l : Leaf} (typed : l.Typed)
    (kind : l.place.type.kind = .text size false)
    (charset : TextField.charset? l.place false = some c) (builtIn : c.BuiltIn) :
    l.Blanks size c := by
  obtain ⟨bytes, announced, same⟩ := exists_content typed rfl kind
  generalize l.place = p at kind charset same
  subst same
  -- an empty text has no bytes
  have none_of {announced : Nat} {bytes : List UInt8}
      (empty : Leaf.text ⟨p, .text size false ⟨bytes, announced⟩⟩ = []) : bytes = [] :=
    TextField.eq_nil_of_text charset builtIn empty
  constructor
  case padded => exact fun s l' assigned => padsBlank charset builtIn assigned
  case stored =>
    intro small varies whole empty order
    obtain rfl := none_of empty
    refine ⟨_, fun r first => store_empty varies whole announced order first, ?_⟩
    intro target typed place r taken rest first
    obtain ⟨bytes, before, rfl⟩ := exists_content typed place kind
    exact ⟨_, parse_blank varies whole small ⟨bytes, before⟩ order first taken rest,
      TextField.text_blank charset builtIn⟩
  case storedLarge =>
    intro large varies whole empty order
    subst large
    obtain rfl := none_of empty
    refine ⟨_, fun r first => store_empty varies whole announced order first, ?_⟩
    intro target typed place blank r taken first
    obtain ⟨bytes, before, rfl⟩ := exists_content typed place kind
    obtain rfl := none_of blank
    rw [show TextSize.large.header = 4 from rfl,
      parse_blank_large varies whole before order first taken]
    by_cases one : r.partialSize = 1
    · simp only [one, ne_eq, not_true_eq_false, or_false, if_true]
      exact TextField.text_blank charset builtIn
    · rw [if_neg one]
      have shown : Leaf.text ⟨p, .text .large false ⟨[], 5⟩⟩ = [] := blank
      rw [shown]
      exact iff_of_true nofun (.inr one)
  case restricted =>
    intro range restricted positive empty order r first
    obtain rfl := none_of empty
    exact store_restricted restricted positive announced order first

namespace Sample

def label (length : Nat) (platform : Platform) (charset : Charset) : Place :=
  .top { FieldType.ofKind (.text .short false) "AA" with length }
    { platform with charset := some charset }

end Sample

/-- On an open system a text in EBCDIC is filled up with its blanks. On a mainframe an empty text
in UTF-8 is read as a blank. -/
theorem label_blanks :
    (∃ l, (fresh (Sample.label 4 .openSystem (.page .cp037))).assign (.text ['A', 'B']) = .ok l ∧
      l.text = ['A', 'B', ' ', ' ']) ∧
    ∃ read, (fresh (Sample.label 0 .mainframe .utf8)).parse (.ofCall false 0)
        (.ofList .big [0x02, 0x20]) = (read, .ok (.done ⟨.big, [0x20, 0x02], []⟩)) ∧
      Text.OnlyBlanks read.text := by
  constructor
  · refine ⟨⟨_, .text .short false ⟨[0xC1, 0xC2, 0x40, 0x40], 4⟩⟩, rfl, ?_⟩
    have blanks :
        (fresh (Sample.label 4 .openSystem (.page .cp037))).Blanks .short (.page .cp037) :=
      written_blanks (typed_fresh rfl) rfl rfl nofun
    obtain ⟨payload, encoded, shown, -⟩ := blanks.padded ['A', 'B'] _ rfl
    have written : (Charset.page .cp037).encode ['A', 'B'] = .ok [0xC1, 0xC2] := by
      decide +kernel
    cases written.symm.trans encoded
    exact shown (.inr (.inl rfl))
  · have blanks : (fresh (Sample.label 0 .mainframe .utf8)).Blanks .short .utf8 :=
      written_blanks (typed_fresh rfl) rfl rfl nofun
    obtain ⟨record, stored, reads⟩ := blanks.stored (by decide) rfl rfl rfl .big
    cases stored (.ofCall true 0) rfl
    obtain ⟨read, parsed, blank⟩ := reads _ (typed_fresh rfl) rfl (.ofCall false 0) [] [] rfl
    exact ⟨read, parsed, blank.mpr rfl⟩

/-- What fills up a text shows where it is no blank: an at sign in other pages than EBCDIC on a
mainframe, and half of a character in UTF-16. An empty text in EBCDIC reads as a control
character. -/
theorem label_not_blank :
    (∃ l, (fresh (Sample.label 4 .mainframe (.page .cp850))).assign (.text ['A', 'B']) = .ok l ∧
      l.text = ['A', 'B', '@', '@']) ∧
    (∃ l, (fresh (Sample.label 4 .openSystem (.utf16 .big))).assign (.text ['A']) = .ok l ∧
      l.text = ['A', Char.ofNat 0x2020]) ∧
    let empty := fresh (Sample.label 0 .openSystem (.page .cp037))
    empty.store .big (.ofCall true 0) = .ok (.whole [0x02, 0x20]) ∧ empty.text = [] ∧
      (empty.parse (.ofCall false 0) (.ofList .big [0x02, 0x20])).1.text = [Char.ofNat 0x80] := by
  refine ⟨⟨_, rfl, ?_⟩, ⟨_, rfl, ?_⟩, rfl, rfl, ?_⟩
  all_goals decide +kernel

end Leaf

end RecordCodec
