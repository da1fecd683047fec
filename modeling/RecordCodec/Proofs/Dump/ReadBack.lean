import RecordCodec.Proofs.Dump.Reading
import RecordCodec.Proofs.Text.Words

/-!
Dumps are read back as they were made. The header may hold anything, lines that look like a dump
included: no line of the body can be taken for its end, since a row that ended like the header would
have a last byte that is a parenthesis in EBCDIC and a colon or a letter in ASCII.
-/
namespace RecordCodec.Dump

/-! ### The end of the header -/

theorem digits_front {s digits behind : List Char} (decimal : ∀ c ∈ digits, Text.isDigit c = true)
    (free : '(' ∉ behind) :
    (((s ++ '=' :: (digits ++ '(' :: behind)).reverse.dropWhile (· != '(')).tail.takeWhile
      Text.isDigit).reverse = digits := by
  have reversed : (s ++ '=' :: (digits ++ '(' :: behind)).reverse =
      behind.reverse ++ '(' :: (digits.reverse ++ '=' :: s.reverse) := by simp
  have other : ∀ c ∈ behind.reverse, (c != '(') = true := by
    intro c listed
    rw [bne_iff_ne]
    rintro rfl
    exact free (List.mem_reverse.mp listed)
  have decimal' : ∀ c ∈ digits.reverse, Text.isDigit c = true :=
    fun c listed => decimal c (List.mem_reverse.mp listed)
  have stop : Text.isDigit '=' = false := by decide
  rw [reversed, List.dropWhile_append_of_pos other, List.dropWhile_cons_of_neg (by simp),
    List.tail_cons, List.takeWhile_append_of_pos decimal',
    List.takeWhile_cons_of_neg (by simp [stop]), List.append_nil, List.reverse_reverse]

theorem announcedSize?_note (s : List Char) (size : Nat) :
    announcedSize? (s ++ sizeNote size) = some size := by
  have parts : s ++ sizeNote size = (s ++ ": Dump len".toList) ++ '=' ::
      (Text.ofNat size ++ '(' :: ('0' :: 'x' :: (Hex.ofNat size ++ ")".toList))) := by
    rw [List.append_assoc]
    rfl
  have free : '(' ∉ '0' :: 'x' :: (Hex.ofNat size ++ ")".toList) := by
    have digits := Hex.digit_of_numberFrom? (Hex.numberFrom?_ofNat size)
    simp only [List.mem_cons, List.mem_append, not_or]
    refine ⟨by decide, by decide, fun listed => ?_, by decide⟩
    obtain ⟨d, digit⟩ := digits '(' listed
    cases digit
  have found := digits_front (s := s ++ ": Dump len".toList)
    (fun c (listed : c ∈ Text.ofNat size) => Text.isDigit_of_mem_ofNat listed) free
  have ends : (sizeNote size).isSuffixOf (s ++ sizeNote size) = true :=
    List.isSuffixOf_iff_suffix.mpr (List.suffix_append ..)
  unfold announcedSize?
  dsimp only
  rw [← parts] at found
  rw [found, Text.readNat?_ofNat, Option.filter_some, if_pos ends]

theorem inBody_of_free {line : List Char} (free : ∀ size, ¬sizeNote size <:+ line) :
    inBody line = true := by
  refine Option.isNone_iff_eq_none.mpr (Option.filter_eq_none_iff.mpr fun size _ ends => ?_)
  exact free size (List.isSuffixOf_iff_suffix.mp ends)

theorem getLast?_sizeWord (size : Nat) : (sizeWord size).getLast? = some ')' := by
  have parts : sizeWord size =
      ("len=".toList ++ (Text.ofNat size ++ ("(0x".toList ++ Hex.ofNat size))) ++ [')'] := by
    rw [sizeWord, List.append_assoc, List.append_assoc, List.append_assoc]
    rfl
  rw [parts, List.getLast?_concat]

theorem length_sizeWord (size : Nat) : 10 ≤ (sizeWord size).length := by
  have decimal : 0 < (Text.ofNat size).length := List.length_pos_iff.mpr Nat.toDigits_ne_nil
  have hexadecimal : 0 < (Hex.ofNat size).length := List.length_pos_iff.mpr Nat.toDigits_ne_nil
  have parts : (sizeWord size).length =
      4 + ((Text.ofNat size).length + (3 + ((Hex.ofNat size).length + 1))) := by
    rw [sizeWord, List.length_append, List.length_append, List.length_append, List.length_append]
    rfl
  omega

theorem lt_of_mem_sizeWord {size : Nat} : ∀ c ∈ sizeWord size, 32 < c.toNat := by
  have texts : (∀ c ∈ "len=".toList, 32 < c.toNat) ∧ (∀ c ∈ "(0x".toList, 32 < c.toNat) ∧
      ∀ c ∈ ")".toList, 32 < c.toNat := by simp
  have decimal : ∀ c ∈ Text.ofNat size, 32 < c.toNat := by
    intro c listed
    have digit := Text.isDigit_of_mem_ofNat listed
    simp only [Text.isDigit, Bool.and_eq_true, decide_eq_true_eq] at digit
    omega
  have hexadecimal : ∀ c ∈ Hex.ofNat size, 32 < c.toNat := by
    intro c listed
    obtain ⟨d, digit⟩ := Hex.digit_of_numberFrom? (Hex.numberFrom?_ofNat size) c listed
    have range := Hex.digit_range digit
    omega
  simp only [sizeWord, List.forall_mem_append]
  exact ⟨texts.1, decimal, texts.2.1, hexadecimal, texts.2.2⟩

theorem noFeed_sizeNote (size : Nat) : '\n' ∉ sizeNote size := by
  intro listed
  rcases List.mem_append.mp listed with text | word
  · revert text
    decide
  · exact absurd (lt_of_mem_sizeWord _ word) (by decide)

theorem getLast?_behind (s : List Char) {t : List Char} {c : Char} (last : t.getLast? = some c) :
    (s ++ t).getLast? = some c := by
  rw [List.getLast?_append, last]
  rfl

theorem cut_at_blank {first rest front behind : List Char} (free : ' ' ∉ first)
    (parts : first ++ ' ' :: rest = front ++ ' ' :: behind) :
    (front = first ∧ behind = rest) ∨
      ∃ more, front = first ++ ' ' :: more ∧ rest = more ++ ' ' :: behind := by
  rcases List.append_eq_append_iff.mp parts with ⟨more, rfl, same⟩ | ⟨more, rfl, same⟩
  · cases more with
    | nil => exact .inl ⟨List.append_nil _, (List.cons.inj same).2.symm⟩
    | cons c more =>
      obtain ⟨rfl, rest⟩ := List.cons.inj same
      exact .inr ⟨more, rfl, rest⟩
  · cases more with
    | nil => exact .inl ⟨(List.append_nil _).symm, (List.cons.inj same).2⟩
    | cons c more =>
      obtain ⟨rfl, -⟩ := List.cons.inj same
      exact absurd (List.mem_append_right _ (List.mem_cons_self ..)) free

/-- A blank in the note about the size stands behind a colon or behind a `p`, and the note ends
with a parenthesis. -/
theorem blank_in_sizeNote {size : Nat} {front behind : List Char}
    (whole : sizeNote size = front ++ ' ' :: behind) :
    (front.getLast? = some ':' ∨ front.getLast? = some 'p') ∧ behind.getLast? = some ')' := by
  have note : sizeNote size = [':'] ++ ' ' :: ("Dump".toList ++ ' ' :: sizeWord size) := rfl
  have colon : ' ' ∉ [':'] := by decide
  have word : ' ' ∉ "Dump".toList := by decide
  rcases cut_at_blank colon (note.symm.trans whole) with ⟨rfl, rfl⟩ | ⟨more, rfl, parts⟩
  · refine ⟨.inl rfl, ?_⟩
    exact getLast?_behind ("Dump".toList ++ [' ']) (getLast?_sizeWord size)
  · rcases cut_at_blank word parts with ⟨rfl, rfl⟩ | ⟨more', rfl, word⟩
    · exact ⟨.inr rfl, getLast?_sizeWord size⟩
    · have blank : ' ' ∈ more' ++ ' ' :: behind := List.mem_append_right _ (List.mem_cons_self ..)
      exact absurd (lt_of_mem_sizeWord ' ' (word ▸ blank)) (by decide)

theorem getLast?_asciiColumn (bytes : List UInt8) : (asciiColumn bytes).getLast? =
    some (match bytes[15]? with
      | some b => printable (Char.ofNat b.toNat)
      | none => ' ') := rfl

theorem parenthesis_apart : ∀ n < 256,
    printable (Char.ofNat n) = ':' ∨ printable (Char.ofNat n) = 'p' →
      printable (CodePage.cp037.decodeByte (UInt8.ofNat n)) ≠ ')' := by decide +kernel

/-- The last byte of a row is not a parenthesis in EBCDIC if it is a colon or a `p` in ASCII. Only
full rows have something else than a blank there in ASCII. -/
theorem columns_apart {bytes : List UInt8} (short : bytes.length ≤ rowLength)
    (ascii : (asciiColumn bytes).getLast? = some ':' ∨ (asciiColumn bytes).getLast? = some 'p') :
    (ebcdicColumn bytes).getLast? ≠ some ')' := by
  rw [getLast?_asciiColumn, Option.some_inj, Option.some_inj] at ascii
  cases byte : bytes[15]? with
  | none => simp [byte] at ascii
  | some b =>
    have full : bytes.length - 1 = 15 := by
      have := (List.getElem?_eq_some_iff.mp byte).1
      have : bytes.length ≤ 16 := short
      omega
    have last : (ebcdicColumn bytes).getLast? =
        some (printable (CodePage.cp037.decodeByte b)) := by
      rw [ebcdicColumn, List.getLast?_map, List.getLast?_eq_getElem?, full, byte]
      rfl
    rw [byte] at ascii
    have apart := parenthesis_apart b.toNat b.toNat_lt ascii
    rw [UInt8.ofNat_toNat] at apart
    rw [last]
    exact fun same => apart (Option.some.inj same)

/-- A row does not end like the header: the note about the size is longer than the EBCDIC column, so
the blank in front of that column would stand behind a colon or a `p`, the last byte in ASCII, and
the same byte would be a parenthesis in EBCDIC. -/
theorem Line.row_free (offset : Nat) {bytes : List UInt8} (short : bytes.length ≤ rowLength)
    (size : Nat) : ¬sizeNote size <:+ (Line.row offset bytes).content := by
  rintro ⟨before, whole⟩
  have text : (Line.row offset bytes).content = ((Hex.ofNatPadded 4 offset ++ ' ' ::
      (hexColumns bytes ++ [' '])) ++ asciiColumn bytes) ++ ' ' :: ebcdicColumn bytes := by
    simp [content_row]
  rw [text] at whole
  have width : (ebcdicColumn bytes).length ≤ 16 := by
    rw [ebcdicColumn, List.length_map]
    exact short
  have long : 17 ≤ (sizeNote size).length := by
    have word := length_sizeWord size
    have sum : (sizeNote size).length = 7 + (sizeWord size).length := List.length_append
    omega
  rcases List.append_eq_append_iff.mp whole with ⟨front, columns, note⟩ | ⟨front, -, column⟩
  · obtain ⟨ascii, ebcdic⟩ := blank_in_sizeNote note
    have last {c : Char} (found : front.getLast? = some c) :
        (asciiColumn bytes).getLast? = some c := by
      rw [← getLast?_behind before found, ← columns]
      exact (getLast?_behind _ (getLast?_asciiColumn bytes)).symm
    exact columns_apart short (ascii.imp last last) ebcdic
  · have length := congrArg List.length column
    rw [List.length_cons, List.length_append] at length
    have none : front = [] := List.eq_nil_of_length_eq_zero (by omega)
    rw [none] at column
    cases column

theorem free_of_last {line : List Char} {c : Char} (last : line.getLast? = some c) (other : c ≠ ')')
    (size : Nat) : ¬sizeNote size <:+ line := by
  rintro ⟨before, rfl⟩
  have parenthesis := getLast?_behind before
    (getLast?_behind ": Dump ".toList (getLast?_sizeWord size))
  exact other (Option.some.inj (last.symm.trans parenthesis))

theorem Line.free_of_size (line : Line)
    (short : ∀ offset bytes, line = .row offset bytes → bytes.length ≤ rowLength) (size : Nat) :
    ¬sizeNote size <:+ line.content := by
  cases line with
  | row offset bytes => exact row_free offset (short offset bytes rfl) size
  | repeats offset =>
    have last : (Line.repeats offset).content.getLast? = some '.' :=
      getLast?_behind (Hex.ofNatPadded 4 offset) rfl
    exact free_of_last last (by decide) size

/-! ### The body -/

def bodyLines (limit : Nat) (bytes : List UInt8) : List (List Char) :=
  (lines (bytes.take limit)).map Line.content ++
    if limit < bytes.length then [hiddenNote (bytes.length - limit)] else []

theorem hiddenCount?_note (count : Nat) : hiddenCount? (hiddenNote count) = some count := by
  have digits : ((hiddenNote count).drop 4).takeWhile Text.isDigit = Text.ofNat count := by
    have stop : Text.isDigit ' ' = false := by decide
    show (Text.ofNat count ++ ' ' :: "bytes not shown".toList).takeWhile Text.isDigit = _
    rw [List.takeWhile_append_of_pos fun c listed => Text.isDigit_of_mem_ofNat listed,
      List.takeWhile_cons_of_neg (by simp [stop]), List.append_nil]
  rw [hiddenCount?, digits, Text.readNat?_ofNat, Option.filter_some, if_pos (beq_self_eq_true _)]

theorem hiddenCount?_content (line : Line) : hiddenCount? line.content = none := by
  refine Option.filter_eq_none_iff.mpr fun count _ same => ?_
  obtain ⟨offset, rest, parts⟩ := line.exists_content
  have digits := Hex.digit_of_numberFrom? (Hex.numberFrom?_ofNatPadded 4 offset)
  have front := (Line.behind_digits digits rest).1
  rw [← parts, eq_of_beq same] at front
  obtain ⟨d, digit⟩ := digits '.' (front ▸ List.mem_cons_self ..)
  cases digit

theorem readBody?_lines {ls : List Line}
    (short : ∀ offset bytes, Line.row offset bytes ∈ ls → bytes.length ≤ rowLength)
    {rest : List (List Char)} {hidden : Option Nat} (closed : readBody? rest = some ([], hidden)) :
    readBody? (ls.map Line.content ++ rest) = some (ls, hidden) := by
  induction ls with
  | nil => exact closed
  | cons line ls ih =>
    have first : readLine? line.content = some line :=
      readLine?_content fun offset bytes same => short offset bytes (same ▸ List.mem_cons_self ..)
    have later := ih fun offset bytes listed => short offset bytes (List.mem_cons_of_mem _ listed)
    rw [List.map_cons, List.cons_append, readBody?, hiddenCount?_content, first, later]
    rfl

theorem readBody?_bodyLines (limit : Nat) (bytes : List UInt8) :
    readBody? (bodyLines limit bytes) = some (lines (bytes.take limit),
      if limit < bytes.length then some (bytes.length - limit) else none) := by
  refine readBody?_lines (fun offset row printed => length_of_row_mem printed) ?_
  split
  · rw [readBody?, hiddenCount?_note]
    rfl
  · rfl

theorem bodyLines_free {limit : Nat} {bytes : List UInt8} :
    ∀ line ∈ bodyLines limit bytes, '\n' ∉ line ∧ inBody line = true := by
  intro text listed
  rcases List.mem_append.mp listed with content | note
  · obtain ⟨line, printed, rfl⟩ := List.mem_map.mp content
    have short : ∀ offset row, line = .row offset row → row.length ≤ rowLength :=
      fun offset row same => length_of_row_mem (same ▸ printed)
    exact ⟨fun feed => absurd (line.visible_content _ feed) (by decide),
      inBody_of_free (line.free_of_size short)⟩
  · split at note
    · rw [List.mem_singleton.mp note]
      have last : (hiddenNote (bytes.length - limit)).getLast? = some 'n' :=
        getLast?_behind _ (getLast?_behind _ rfl)
      have texts : '\n' ∉ "... ".toList ∧ '\n' ∉ " bytes not shown".toList := by decide
      refine ⟨?_, inBody_of_free (free_of_last last (by decide))⟩
      simp only [hiddenNote, List.mem_append, not_or]
      exact ⟨texts.1, fun digit => absurd (Text.isDigit_of_mem_ofNat digit) (by decide), texts.2⟩
    · cases note

/-! ### The text -/

theorem toList_toString (n : Nat) : (toString n).toList = Text.ofNat n :=
  String.toList_ofList

theorem toList_text (header : String) (limit : Nat) (bytes : List UInt8) :
    (text header limit bytes).toList = header.toList ++ sizeNote bytes.length ++
      (bodyLines limit bytes ++ [[]]).flatMap ('\n' :: ·) := by
  have whole : text header limit bytes = header ++ ": Dump len=" ++ toString bytes.length ++
      "(0x" ++ String.ofList (Hex.ofNat bytes.length) ++ ")" ++
      String.ofList ((lines (bytes.take limit)).flatMap Line.text) ++
      (if limit < bytes.length then
        "\n... " ++ toString (bytes.length - limit) ++ " bytes not shown" else "") ++ "\n" := rfl
  have size : sizeNote bytes.length = ": Dump len=".toList ++ (Text.ofNat bytes.length ++
      ("(0x".toList ++ (Hex.ofNat bytes.length ++ ")".toList))) := rfl
  have digits : (String.ofList (Hex.ofNat bytes.length)).toList = Hex.ofNat bytes.length :=
    String.toList_ofList
  have rows : (String.ofList ((lines (bytes.take limit)).flatMap Line.text)).toList =
      ((lines (bytes.take limit)).map Line.content).flatMap ('\n' :: ·) := by
    rw [String.toList_ofList, List.flatMap_map, funext Line.text_eq]
  have note : (if limit < bytes.length then
      "\n... " ++ toString (bytes.length - limit) ++ " bytes not shown" else "").toList =
      (if limit < bytes.length then [hiddenNote (bytes.length - limit)] else []).flatMap
        ('\n' :: ·) := by
    split
    · rw [String.toList_append, String.toList_append, toList_toString, List.append_assoc,
        List.flatMap_singleton]
      rfl
    · rfl
  have feed : "\n".toList = [[]].flatMap ('\n' :: ·) := rfl
  rw [whole, size, bodyLines, List.flatMap_append, List.flatMap_append]
  simp only [String.toList_append, toList_toString, digits, rows, note, feed, List.append_assoc]

theorem splitOn_lines (front : List Char) {lines : List (List Char)}
    (free : ∀ line ∈ lines, '\n' ∉ line) :
    (front ++ lines.flatMap ('\n' :: ·)).splitOn '\n' = front.splitOn '\n' ++ lines := by
  induction lines generalizing front with
  | nil => simp
  | cons line lines ih =>
    obtain ⟨first, later⟩ := List.forall_mem_cons.mp free
    have single : line.splitOn '\n' = [line] := by
      refine List.splitOnP_eq_singleton fun c listed => ?_
      rw [beq_eq_false_iff_ne]
      rintro rfl
      exact first listed
    have cut : (front ++ '\n' :: (line ++ lines.flatMap ('\n' :: ·))).splitOn '\n' =
        front.splitOn '\n' ++ (line ++ lines.flatMap ('\n' :: ·)).splitOn '\n' :=
      List.splitOnP_append_cons front _ (beq_self_eq_true '\n')
    rw [List.flatMap_cons, List.cons_append, cut, ih line later, single]
    rfl

/-- What is written behind a text without starting a new line belongs to its last line. -/
theorem splitOn_behind (s : List Char) {note : List Char} (free : '\n' ∉ note) :
    ∃ front last, (s ++ note).splitOn '\n' = front ++ [last ++ note] := by
  induction s with
  | nil =>
    refine ⟨[], [], List.splitOnP_eq_singleton fun c listed => ?_⟩
    rw [beq_eq_false_iff_ne]
    rintro rfl
    exact free listed
  | cons c s ih =>
    obtain ⟨front, last, parts⟩ := ih
    have cut : (c :: (s ++ note)).splitOn '\n' =
        if c == '\n' then [] :: (s ++ note).splitOn '\n'
        else ((s ++ note).splitOn '\n').modifyHead (c :: ·) :=
      List.splitOnP_cons_eq_if_modifyHead c _
    rw [List.cons_append, cut, parts]
    split
    · exact ⟨[] :: front, last, rfl⟩
    · cases front with
      | nil => exact ⟨[], c :: last, rfl⟩
      | cons line front => exact ⟨(c :: line) :: front, last, rfl⟩

theorem cutAtHeader?_text (header : String) (limit : Nat) (bytes : List UInt8) :
    cutAtHeader? (text header limit bytes).toList =
      some (header.toList ++ sizeNote bytes.length, bodyLines limit bytes) := by
  obtain ⟨front, last, ending⟩ := splitOn_behind header.toList (noFeed_sizeNote bytes.length)
  have free : ∀ line ∈ bodyLines limit bytes ++ [[]], '\n' ∉ line :=
    List.forall_mem_append.mpr ⟨fun line listed => (bodyLines_free line listed).1, by simp⟩
  have cut : ((text header limit bytes).toList.splitOn '\n').reverse = [] ::
      ((bodyLines limit bytes).reverse ++ (last ++ sizeNote bytes.length) :: front.reverse) := by
    rw [toList_text, splitOn_lines _ free, ending]
    simp
  have body : ∀ line ∈ (bodyLines limit bytes).reverse, inBody line = true :=
    fun line listed => (bodyLines_free line (List.mem_reverse.mp listed)).2
  have stop : ¬inBody (last ++ sizeNote bytes.length) = true := by
    rw [inBody, announcedSize?_note]
    exact nofun
  have head : ((last ++ sizeNote bytes.length) :: front.reverse).reverse =
      (header.toList ++ sizeNote bytes.length).splitOn '\n' := by
    rw [ending, List.reverse_cons, List.reverse_reverse]
  rw [cutAtHeader?, cut]
  dsimp only
  rw [List.takeWhile_append_of_pos body, List.dropWhile_append_of_pos body,
    List.takeWhile_cons_of_neg stop, List.dropWhile_cons_of_neg stop, head,
    List.intercalate_splitOn, List.append_nil, List.reverse_reverse]

/-- A dump is read back as it was made, whatever its header is: with the size of all bytes, the
first ones up to the limit, and the number of those that are not shown if there are any. -/
theorem dump_read_back (header : String) (limit : Nat) (bytes : List UInt8) :
    read? (text header limit bytes) = some ⟨header, bytes.length,
      bytes.take (min limit bytes.length),
      if limit < bytes.length then some (bytes.length - limit) else none⟩ := by
  have title : (header.toList ++ sizeNote bytes.length).take
      ((header.toList ++ sizeNote bytes.length).length - (sizeNote bytes.length).length) =
      header.toList := by
    rw [List.length_append, Nat.add_sub_cancel, List.take_left]
  have shown : bytes.take (min limit bytes.length) = bytes.take limit := by
    rw [← List.take_take, List.take_length]
  rw [read?, cutAtHeader?_text]
  simp only [Option.bind_eq_bind, Option.bind_some, announcedSize?_note, readBody?_bodyLines,
    shownBytes?_lines, title, shown, String.ofList_toList]
  rfl

end RecordCodec.Dump
