import RecordCodec.Scalar
import RecordCodec.Search.Query

/-!
Operands of predicates. One placeholder stands for the text of its literal; hexadecimal runs,
placeholders and numbers in a row stand for bytes; everything else is the text of a field.
-/
namespace RecordCodec.Operand

/-- The greatest number of bytes up to the end of a hexadecimal run. -/
def maxBytes : Nat := 65535

def unescape : List Char → List Char
  | '\\' :: '\'' :: rest => '\'' :: unescape rest
  | c :: rest => c :: unescape rest
  | [] => []

def constant? (constants : List (List Char)) (inside : List Char) : Option (List Char) :=
  match Text.readUnsigned? (Text.trim inside) with
  | some (n + 1) => constants[n]?
  | _ => none

def placeholder? (s : List Char) : Option (List Char) :=
  match s with
  | '#' :: '{' :: rest => if rest.getLast? = some '}' then some rest.dropLast else none
  | _ => none

def hasPlaceholder : List Char → Bool
  | '#' :: '{' :: _ => true
  | _ :: rest => hasPlaceholder rest
  | [] => false

def isHexDigit (c : Char) : Bool :=
  (Hex.digitValue? c).isSome

def isAsciiBlank (c : Char) : Bool :=
  c == ' ' || c == '\t' || c == '\n' || c == '\x0c' || c == '\r'

def leastBytes (order : ByteOrder) (n : Nat) : List UInt8 :=
  order.encode (n.log2 / 8 + 1) n

def upTo? (c : Char) : List Char → Option (List Char × List Char)
  | [] => none
  | d :: rest => if d = c then some ([], rest) else (upTo? c rest).map fun (a, b) => (d :: a, b)

theorem upTo?_suffix {c : Char} {s a b : List Char} (h : upTo? c s = some (a, b)) : b <:+ s := by
  induction s generalizing a b with
  | nil => simp [upTo?] at h
  | cons d rest ih =>
    simp only [upTo?] at h
    split at h
    · simp only [Option.some.injEq, Prod.mk.injEq] at h
      rw [← h.2]
      exact List.suffix_cons d rest
    · obtain ⟨⟨a', b'⟩, hab, heq⟩ := Option.map_eq_some_iff.1 h
      simp only [Prod.mk.injEq] at heq
      rw [← heq.2]
      exact (ih hab).trans (List.suffix_cons d rest)

def repeatCount (s : List Char) : Except LiteralFault (Nat × List Char) :=
  match s with
  | '(' :: rest =>
    match upTo? ')' rest with
    | none => .error .unterminatedCount
    | some (digits, rest) =>
      match Text.readNatUpTo? (UInt64.size - 1) (Text.trim digits) with
      | some (n + 1) => .ok (n + 1, rest)
      | _ => .error .badCount
  | s => .ok (1, s)

/-- The bytes of the hexadecimal digits and the repeat count behind `0x`. The runs before have
`before` bytes. -/
def hexRun (before : Nat) (s : List Char) : Except LiteralFault (List UInt8 × List Char) :=
  match Hex.decode? (s.takeWhile isHexDigit) with
  | some (b :: more) =>
    match repeatCount (s.dropWhile isHexDigit) with
    | .error fault => .error fault
    | .ok (count, rest) =>
      if maxBytes < (more.length + 1) * count + before then .error .tooLong
      else .ok ((List.replicate count (b :: more)).flatten, rest)
  | _ => .error .badHexRun

def constantRun (constants : List (List Char)) (s : List Char) :
    Except LiteralFault (List UInt8 × List Char) :=
  match upTo? '}' s with
  | none => .error .unterminatedPlaceholder
  | some (inside, rest) =>
    match constant? constants inside with
    | none => .error .unknownPlaceholder
    | some literal => .ok (Utf8.encode (unescape literal), rest)

def numberRun (order : ByteOrder) (s : List Char) : Except LiteralFault (List UInt8 × List Char) :=
  if UInt64.size ≤ Text.digitsFrom 0 (s.takeWhile Text.isDigit) * 10 then .error .numberTooLarge
  else
    .ok (leastBytes order (Text.digitsFrom 0 (s.takeWhile Text.isDigit) * 10),
      s.dropWhile Text.isDigit)

def run (order : ByteOrder) (constants : List (List Char)) (before : Nat) (c : Char)
    (rest : List Char) : Except LiteralFault (List UInt8 × List Char) :=
  if c = '0' ∧ (rest.head? = some 'x' ∨ rest.head? = some 'X') then hexRun before rest.tail
  else if c = '#' ∧ rest.head? = some '{' then constantRun constants rest.tail
  else if Text.isDigit c then numberRun order (c :: rest)
  else if isAsciiBlank c then .ok ([], rest)
  else .error .unexpectedCharacter

theorem repeatCount_suffix {s s' : List Char} {n : Nat} (h : repeatCount s = .ok (n, s')) :
    s' <:+ s := by
  unfold repeatCount at h
  split at h
  · split at h
    · simp at h
    · rename_i hup
      split at h
      · simp only [Except.ok.injEq, Prod.mk.injEq] at h
        rw [← h.2]
        exact (upTo?_suffix hup).trans (List.suffix_cons ..)
      · simp at h
  · simp only [Except.ok.injEq, Prod.mk.injEq] at h
    exact h.2 ▸ List.suffix_refl _

theorem hexRun_suffix {before : Nat} {s s' : List Char} {bytes : List UInt8}
    (h : hexRun before s = .ok (bytes, s')) : s' <:+ s := by
  unfold hexRun at h
  split at h
  · split at h
    · simp at h
    · rename_i hcount
      split at h
      · simp at h
      · simp only [Except.ok.injEq, Prod.mk.injEq] at h
        rw [← h.2]
        exact (repeatCount_suffix hcount).trans (List.dropWhile_suffix isHexDigit)
  · simp at h

theorem constantRun_suffix {constants : List (List Char)} {s s' : List Char} {bytes : List UInt8}
    (h : constantRun constants s = .ok (bytes, s')) : s' <:+ s := by
  unfold constantRun at h
  split at h
  · simp at h
  · rename_i hup
    split at h
    · simp at h
    · simp only [Except.ok.injEq, Prod.mk.injEq] at h
      rw [← h.2]
      exact upTo?_suffix hup

theorem numberRun_suffix {order : ByteOrder} {c : Char} {rest s' : List Char}
    {bytes : List UInt8} (hc : Text.isDigit c = true)
    (h : numberRun order (c :: rest) = .ok (bytes, s')) : s' <:+ rest := by
  unfold numberRun at h
  split at h
  · simp at h
  · simp only [Except.ok.injEq, Prod.mk.injEq] at h
    rw [← h.2, List.dropWhile_cons_of_pos hc]
    exact List.dropWhile_suffix Text.isDigit

theorem run_suffix {order : ByteOrder} {constants : List (List Char)} {before : Nat} {c : Char}
    {rest s : List Char} {bytes : List UInt8}
    (h : run order constants before c rest = .ok (bytes, s)) : s <:+ rest := by
  unfold run at h
  split at h
  · exact (hexRun_suffix h).trans (List.tail_suffix rest)
  · split at h
    · exact (constantRun_suffix h).trans (List.tail_suffix rest)
    · split at h
      · rename_i hdigit
        exact numberRun_suffix hdigit h
      · split at h
        · simp only [Except.ok.injEq, Prod.mk.injEq] at h
          exact h.2 ▸ List.suffix_refl _
        · simp at h

def mixedFrom (order : ByteOrder) (constants : List (List Char)) (before : List UInt8)
    (s : List Char) : Except LiteralFault (List UInt8) :=
  match s with
  | [] => .ok before
  | c :: rest =>
    match _h : run order constants before.length c rest with
    | .error fault => .error fault
    | .ok (bytes, s') => mixedFrom order constants (before ++ bytes) s'
termination_by s.length
decreasing_by
  have := (run_suffix _h).length_le
  simp only [List.length_cons]
  omega

def mixed (order : ByteOrder) (constants : List (List Char)) (s : List Char) :
    Except FieldFault (List UInt8) :=
  (mixedFrom order constants [] s).mapError (.invalidLiteral (String.ofList s))

def startsHex : List Char → Bool
  | '0' :: 'x' :: _ | '0' :: 'X' :: _ => true
  | _ => false

def ofText (order : ByteOrder) (constants : List (List Char)) (s : List Char) :
    Except FieldFault Scalar :=
  let s := Text.trim s
  match (placeholder? s).filter fun inside => !inside.contains '{' with
  | some inside =>
    match constant? constants inside with
    | some literal => .ok (.text (unescape literal))
    | none => .error (.invalidLiteral (String.ofList s) .unknownPlaceholder)
  | none =>
    if hasPlaceholder s || startsHex s then (mixed order constants s).map .bytes
    else .ok (.text s)

end RecordCodec.Operand
