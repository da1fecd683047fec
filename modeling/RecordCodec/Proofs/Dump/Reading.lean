import RecordCodec.Proofs.Bytes.Hexadecimal
import RecordCodec.Proofs.Dump.Lines
import RecordCodec.Text.Number

/-!
Reading dumps. The text is cut into lines; the last line that ends with a size is the end of the
header, and what follows are rows, repetitions and the note about the bytes that are not shown. From
a row only its offset and the hexadecimal columns are read, and a row is read as it was printed.
-/
namespace RecordCodec.Dump

/-! ### Reading -/

def sizeWord (size : Nat) : List Char :=
  "len=".toList ++ (Text.ofNat size ++ ("(0x".toList ++ (Hex.ofNat size ++ ")".toList)))

def sizeNote (size : Nat) : List Char :=
  ": Dump ".toList ++ sizeWord size

def hiddenNote (count : Nat) : List Char :=
  "... ".toList ++ (Text.ofNat count ++ " bytes not shown".toList)

/-- The size at the end of a line: the digits in front of its last parenthesis, if the line ends
with their note. -/
def announcedSize? (line : List Char) : Option Nat :=
  let digits := ((line.reverse.dropWhile (· != '(')).tail.takeWhile Text.isDigit).reverse
  (Text.readNat? digits).filter fun size => (sizeNote size).isSuffixOf line

def hiddenCount? (line : List Char) : Option Nat :=
  let digits := (line.drop 4).takeWhile Text.isDigit
  (Text.readNat? digits).filter fun count => line == hiddenNote count

def columnPlaces : Nat := rowLength / 2 * 5

/-- A row or a repetition behind its offset; the columns behind the hexadecimal ones are passed
over. -/
def readLine? (line : List Char) : Option Line := do
  let offset ← Hex.numberFrom? 0 (line.takeWhile (· != ' '))
  let behind := line.dropWhile (· != ' ')
  if behind = " ...".toList then return .repeats offset
  let bytes ← Hex.decode? ((behind.tail.take columnPlaces).filter (· != ' '))
  return .row offset bytes

def readBody? : List (List Char) → Option (List Line × Option Nat)
  | [] => some ([], none)
  | line :: rest =>
    match hiddenCount? line with
    | some count => if rest.isEmpty then some ([], some count) else none
    | none => do
      let first ← readLine? line
      let (lines, hidden) ← readBody? rest
      return (first :: lines, hidden)

structure Reading where
  header : String
  size : Nat
  shown : List UInt8
  hidden : Option Nat
  deriving DecidableEq, Repr

def inBody (line : List Char) : Bool :=
  (announcedSize? line).isNone

/-- The header with its size, and the lines of the body: those behind the last line that ends with
a size. Every line ends with a line feed. -/
def cutAtHeader? (text : List Char) : Option (List Char × List (List Char)) :=
  match (text.splitOn '\n').reverse with
  | [] :: lines => some (['\n'].intercalate (lines.dropWhile inBody).reverse,
      (lines.takeWhile inBody).reverse)
  | _ => none

def read? (text : String) : Option Reading := do
  let (head, lines) ← cutAtHeader? text.toList
  let size ← announcedSize? head
  let (body, hidden) ← readBody? lines
  let shown ← shownBytes? [] none body
  return ⟨String.ofList (head.take (head.length - (sizeNote size).length)), size, shown, hidden⟩

/-! ### Lines of the body -/

def Line.content (line : Line) : List Char :=
  line.text.tail

theorem Line.text_eq (line : Line) : line.text = '\n' :: line.content := by
  cases line <;> rfl

theorem Line.content_row (offset : Nat) (bytes : List UInt8) :
    (Line.row offset bytes).content = Hex.ofNatPadded 4 offset ++ ' ' ::
      (hexColumns bytes ++ ' ' :: (asciiColumn bytes ++ ' ' :: ebcdicColumn bytes)) := by
  simp [content, text]

theorem Line.content_repeats (offset : Nat) :
    (Line.repeats offset).content = Hex.ofNatPadded 4 offset ++ " ...".toList := rfl

theorem Line.exists_content (line : Line) :
    ∃ offset rest, line.content = Hex.ofNatPadded 4 offset ++ ' ' :: rest := by
  cases line with
  | row offset bytes => exact ⟨offset, _, content_row offset bytes⟩
  | repeats offset => exact ⟨offset, "...".toList, rfl⟩

def Visible (s : List Char) : Prop :=
  ∀ c ∈ s, 32 ≤ c.toNat

theorem visible_digits {s : List Char} (digits : ∀ c ∈ s, ∃ d, Hex.digitValue? c = some d) :
    Visible s := by
  intro c listed
  obtain ⟨d, digit⟩ := digits c listed
  have range := Hex.digit_range digit
  omega

theorem visible_printable (c : Char) : 32 ≤ (printable c).toNat := by
  unfold printable
  split
  · omega
  · decide

theorem visible_hexColumns (bytes : List UInt8) : Visible (hexColumns bytes) := by
  intro c listed
  obtain ⟨i, -, placed⟩ := List.mem_flatMap.mp listed
  rcases List.mem_append.mp placed with digits | blank
  · split at digits
    · exact visible_digits Hex.digit_of_mem_ofByte c digits
    · have same : c = ' ' := by simpa using digits
      rw [same]
      decide
  · split at blank
    · rw [List.mem_singleton.mp blank]
      decide
    · cases blank

theorem Line.visible_content (line : Line) : Visible line.content := by
  have offsets (offset : Nat) : Visible (Hex.ofNatPadded 4 offset) :=
    visible_digits (Hex.digit_of_numberFrom? (Hex.numberFrom?_ofNatPadded 4 offset))
  have ascii (bytes : List UInt8) : Visible (asciiColumn bytes) := by
    intro c listed
    obtain ⟨i, -, rfl⟩ := List.mem_map.mp listed
    split
    · exact visible_printable _
    · decide
  have ebcdic (bytes : List UInt8) : Visible (ebcdicColumn bytes) := by
    intro c listed
    obtain ⟨b, -, rfl⟩ := List.mem_map.mp listed
    exact visible_printable _
  have space : 32 ≤ ' '.toNat := by decide
  cases line with
  | row offset bytes =>
    rw [content_row]
    simp only [Visible, List.forall_mem_append, List.forall_mem_cons]
    exact ⟨offsets offset, space, visible_hexColumns bytes, space, ascii bytes, space, ebcdic bytes⟩
  | repeats offset =>
    rw [content_repeats]
    simp only [Visible, List.forall_mem_append]
    exact ⟨offsets offset, by simp⟩

/-! ### Reading a line -/

theorem Line.no_blank {s : List Char} (digits : ∀ c ∈ s, ∃ d, Hex.digitValue? c = some d) :
    ∀ c ∈ s, (c != ' ') = true := by
  intro c listed
  obtain ⟨d, digit⟩ := digits c listed
  have range := Hex.digit_range digit
  rw [bne_iff_ne]
  rintro rfl
  exact absurd range.1 (by decide)

theorem Line.behind_digits {s : List Char} (digits : ∀ c ∈ s, ∃ d, Hex.digitValue? c = some d)
    (rest : List Char) : (s ++ ' ' :: rest).takeWhile (· != ' ') = s ∧
      (s ++ ' ' :: rest).dropWhile (· != ' ') = ' ' :: rest := by
  have other := Line.no_blank digits
  rw [List.takeWhile_append_of_pos other, List.dropWhile_append_of_pos other]
  simp

def bytePlaces (bytes : List UInt8) (i : Nat) : List Char :=
  (match bytes[i]? with
    | some b => Hex.ofByte b
    | none => [' ', ' ']) ++ if i % 2 = 1 then [' '] else []

theorem hexColumns_eq (bytes : List UInt8) :
    hexColumns bytes = (List.range rowLength).flatMap (bytePlaces bytes) := rfl

theorem length_hexColumns (bytes : List UInt8) : (hexColumns bytes).length = columnPlaces := by
  have places : ∀ i ∈ List.range rowLength,
      (bytePlaces bytes i).length = if i % 2 = 1 then 3 else 2 := by
    intro i _
    unfold bytePlaces
    by_cases odd : i % 2 = 1 <;> cases bytes[i]? <;> simp [odd, Hex.ofByte]
  rw [hexColumns_eq, List.length_flatMap, List.map_congr_left places]
  decide

theorem filter_bytePlaces (bytes : List UInt8) (i : Nat) :
    (bytePlaces bytes i).filter (· != ' ') = bytes[i]?.toList.flatMap Hex.ofByte := by
  have blank : (if i % 2 = 1 then [' '] else []).filter (· != ' ') = [] := by
    split <;> decide
  rw [bytePlaces, List.filter_append, blank, List.append_nil]
  cases bytes[i]? with
  | none => decide
  | some b =>
    show (Hex.ofByte b).filter (· != ' ') = Hex.ofByte b ++ []
    rw [List.append_nil, List.filter_eq_self]
    exact Line.no_blank Hex.digit_of_mem_ofByte

theorem filter_hexColumns {bytes : List UInt8} (short : bytes.length ≤ rowLength) :
    (hexColumns bytes).filter (· != ' ') = Hex.encode bytes := by
  have front (n : Nat) : (List.range n).flatMap (fun i => bytes[i]?.toList.flatMap Hex.ofByte) =
      (bytes.take n).flatMap Hex.ofByte := by
    induction n with
    | zero => rfl
    | succ n ih => simp only [List.range_succ, List.flatMap_append, ih, List.take_add_one,
        List.flatMap_cons, List.flatMap_nil, List.append_nil]
  rw [hexColumns_eq, List.filter_flatMap]
  simp only [filter_bytePlaces, front, List.take_of_length_le short]
  rfl

theorem readLine?_content {line : Line}
    (short : ∀ offset bytes, line = .row offset bytes → bytes.length ≤ rowLength) :
    readLine? line.content = some line := by
  have number (offset : Nat) := Hex.numberFrom?_ofNatPadded 4 offset
  have digits (offset : Nat) := Hex.digit_of_numberFrom? (number offset)
  cases line with
  | row offset bytes =>
    obtain ⟨characters, content⟩ : ∃ characters, (Line.row offset bytes).content =
        Hex.ofNatPadded 4 offset ++ ' ' :: (hexColumns bytes ++ characters) :=
      ⟨_, Line.content_row offset bytes⟩
    obtain ⟨front, behind⟩ := Line.behind_digits (digits offset) (hexColumns bytes ++ characters)
    have columns : (hexColumns bytes ++ characters).take columnPlaces = hexColumns bytes :=
      List.take_left' (length_hexColumns bytes)
    have other : ' ' :: (hexColumns bytes ++ characters) ≠ " ...".toList := by
      intro same
      have length := congrArg List.length same
      have places : columnPlaces = 40 := rfl
      simp [length_hexColumns, places] at length
      omega
    rw [readLine?, content, front, behind, number]
    simp only [if_neg other, List.tail_cons, columns, filter_hexColumns (short offset bytes rfl),
      Hex.decode?_encode]
    rfl
  | repeats offset =>
    obtain ⟨front, behind⟩ := Line.behind_digits (digits offset) "...".toList
    have text : (Line.repeats offset).content = Hex.ofNatPadded 4 offset ++ ' ' :: "...".toList :=
      rfl
    rw [readLine?, text, front, behind, number]
    rfl

end RecordCodec.Dump
