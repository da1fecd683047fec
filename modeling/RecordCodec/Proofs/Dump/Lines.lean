import RecordCodec.Dump

/-!
The lines of a dump and the bytes that they show. A row shows its bytes at its offset, and a
repetition shows the row printed before it over and over, up to the row printed next. The last row
is always printed, so every repetition has an end, and no byte is lost between two rows.
-/
namespace RecordCodec.Dump

def copies (row : List UInt8) (length : Nat) : List UInt8 :=
  (List.replicate (length / row.length) row).flatten

/-- The bytes that lines show behind the bytes `shown`; `previous` is the row printed last. Rows and
repetitions have to follow one another without a gap. -/
def shownBytes? (shown : List UInt8) (previous : Option (List UInt8)) :
    List Line → Option (List UInt8)
  | [] => some shown
  | .row offset bytes :: rest =>
    if offset = shown.length then shownBytes? (shown ++ bytes) (some bytes) rest else none
  | .repeats offset :: rest =>
    match previous, rest with
    | some row, .row next _ :: _ =>
      if offset = shown.length then
        shownBytes? (shown ++ copies row (next - offset)) (some row) rest
      else none
    | _, _ => none

/-- Bytes from an offset on, cut into rows: all rows but the last are full, and none is empty. -/
inductive Cut : Nat → List UInt8 → List (Nat × List UInt8) → Prop where
  | nil (offset : Nat) : Cut offset [] []
  | last (offset : Nat) {row : List UInt8} (given : row ≠ []) (short : row.length ≤ rowLength) :
      Cut offset row [(offset, row)]
  | full {offset : Nat} {row bytes : List UInt8} {rows : List (Nat × List UInt8)}
      (full : row.length = rowLength) (given : bytes ≠ [])
      (later : Cut (offset + rowLength) bytes rows) :
      Cut offset (row ++ bytes) ((offset, row) :: rows)

theorem cut_rows {fuel : Nat} (offset : Nat) {bytes : List UInt8} (enough : bytes.length ≤ fuel) :
    Cut offset bytes (rows fuel offset bytes) := by
  induction fuel generalizing offset bytes with
  | zero =>
    cases List.eq_nil_of_length_eq_zero (Nat.le_zero.mp enough)
    exact .nil offset
  | succ fuel ih =>
    cases bytes with
    | nil => exact .nil offset
    | cons b bytes =>
      show Cut offset (b :: bytes) ((offset, (b :: bytes).take rowLength) ::
        rows fuel (offset + rowLength) ((b :: bytes).drop rowLength))
      by_cases short : (b :: bytes).length ≤ rowLength
      · have none : rows fuel (offset + rowLength) [] = [] := by cases fuel <;> rfl
        rw [List.take_of_length_le short, List.drop_of_length_le short, none]
        exact .last offset nofun short
      · have long : rowLength ≤ (b :: bytes).length := Nat.le_of_not_le short
        have given : (b :: bytes).drop rowLength ≠ [] := fun none =>
          short (List.drop_eq_nil_iff.mp none)
        have fewer : ((b :: bytes).drop rowLength).length ≤ fuel := by
          have some : 0 < rowLength := by decide
          rw [List.length_drop]
          omega
        have whole := Cut.full (List.length_take_of_le long) given (ih (offset + rowLength) fewer)
        rwa [List.take_append_drop] at whole

theorem Cut.ne_nil {offset : Nat} {bytes : List UInt8} {rows : List (Nat × List UInt8)}
    (cut : Cut offset bytes rows) (given : bytes ≠ []) : rows ≠ [] := by
  cases cut with
  | nil => exact absurd rfl given
  | last | full => exact nofun

theorem Cut.length_le {offset : Nat} {bytes : List UInt8} {rows : List (Nat × List UInt8)}
    (cut : Cut offset bytes rows) : ∀ r ∈ rows, r.2.length ≤ rowLength := by
  induction cut with
  | nil => exact nofun
  | last offset given short => simpa using short
  | full full given later ih => exact List.forall_mem_cons.mpr ⟨Nat.le_of_eq full, ih⟩

/-! ### Collapsing -/

theorem linesFrom_cons {previous : Option (List UInt8)} {skipping : Bool} {offset : Nat}
    {row : List UInt8} {rows : List (Nat × List UInt8)} (more : rows ≠ []) :
    linesFrom previous skipping ((offset, row) :: rows) =
      if previous = some row then
        if skipping then linesFrom previous true rows
        else .repeats offset :: linesFrom previous true rows
      else .row offset row :: linesFrom (some row) false rows := by
  obtain ⟨next, behind, rfl⟩ := List.exists_cons_of_ne_nil more
  rfl

theorem mem_of_row_mem {previous : Option (List UInt8)} {skipping : Bool}
    {rows : List (Nat × List UInt8)} {offset : Nat} {row : List UInt8}
    (printed : Line.row offset row ∈ linesFrom previous skipping rows) : (offset, row) ∈ rows := by
  induction rows generalizing previous skipping with
  | nil => cases printed
  | cons r rows ih =>
    obtain ⟨first, bytes⟩ := r
    by_cases more : rows = []
    · subst more
      simpa [linesFrom] using printed
    · rw [linesFrom_cons more] at printed
      refine List.mem_cons.mpr ?_
      split at printed
      · split at printed
        · exact .inr (ih printed)
        · exact .inr (ih (by simpa using printed))
      · rcases List.mem_cons.mp printed with same | later
        · cases same
          exact .inl rfl
        · exact .inr (ih later)

/-- A repetition shows as many copies of the row in front of it as fit up to the next row. -/
theorem shownBytes?_repeats {row : List UInt8} (full : row.length = rowLength) {shown : List UInt8}
    {next k : Nat} (position : next = shown.length + k * rowLength) (bytes : List UInt8)
    (rest : List Line) :
    shownBytes? shown (some row) (.repeats shown.length :: .row next bytes :: rest) =
      shownBytes? (shown ++ (List.replicate k row).flatten ++ bytes) (some bytes) rest := by
  have some : 0 < rowLength := by decide
  have times : (next - shown.length) / row.length = k := by
    rw [full, position, Nat.add_sub_cancel_left, Nat.mul_div_cancel _ some]
  have length : next = (shown ++ (List.replicate k row).flatten).length := by
    simp [position, full]
  simp only [shownBytes?, if_true, copies, times, if_pos length]

/-- Lines made of rows show the bytes of the rows: at once, and also where `k` copies of the row
printed last have been skipped already. -/
theorem shownBytes?_linesFrom {offset : Nat} {bytes : List UInt8} {rows : List (Nat × List UInt8)}
    (cut : Cut offset bytes rows) :
    (∀ shown previous, offset = shown.length →
      shownBytes? shown previous (linesFrom previous false rows) = some (shown ++ bytes)) ∧
    (bytes ≠ [] → ∀ shown row k, row.length = rowLength →
      offset = shown.length + k * rowLength →
      shownBytes? shown (some row) (.repeats shown.length :: linesFrom (some row) true rows) =
        some (shown ++ (List.replicate k row).flatten ++ bytes)) := by
  induction cut with
  | nil offset => exact ⟨fun shown previous _ => by simp [linesFrom, shownBytes?], by simp⟩
  | last offset given short =>
    refine ⟨fun shown previous position => ?_, fun _ shown row k full position => ?_⟩
    · simp [linesFrom, shownBytes?, position]
    · rw [linesFrom, shownBytes?_repeats full position, shownBytes?]
  | @full offset current bytes rows full given later ih =>
    obtain ⟨plain, skipped⟩ := ih
    have more := later.ne_nil given
    refine ⟨fun shown previous position => ?_, fun _ shown row k full' position => ?_⟩
    · rw [linesFrom_cons more]
      by_cases same : previous = some current
      · have next : offset + rowLength = shown.length + 1 * rowLength := by omega
        rw [if_pos same, same, position]
        simpa using skipped given shown current 1 full next
      · have next : offset + rowLength = (shown ++ current).length := by
          rw [List.length_append, full, position]
        rw [if_neg same, shownBytes?, if_pos position, plain _ _ next, List.append_assoc]
    · rw [linesFrom_cons more]
      by_cases same : some row = some current
      · cases same
        have next : offset + rowLength = shown.length + (k + 1) * rowLength := by
          rw [position, Nat.succ_mul, Nat.add_assoc]
        have copied : (List.replicate (k + 1) current).flatten =
            (List.replicate k current).flatten ++ current := by simp [List.replicate_succ']
        rw [if_pos rfl, if_pos rfl, skipped given shown current (k + 1) full next, copied]
        simp
      · have next : offset + rowLength =
            (shown ++ (List.replicate k row).flatten ++ current).length := by
          simp [position, full', full, Nat.add_assoc]
        rw [if_neg same, shownBytes?_repeats full' position, plain _ _ next,
          List.append_assoc _ current]

theorem shownBytes?_lines (bytes : List UInt8) : shownBytes? [] none (lines bytes) = some bytes :=
  (shownBytes?_linesFrom (cut_rows 0 (Nat.le_refl bytes.length))).1 [] none rfl

theorem length_of_row_mem {bytes row : List UInt8} {offset : Nat}
    (printed : Line.row offset row ∈ lines bytes) : row.length ≤ rowLength :=
  (cut_rows 0 (Nat.le_refl bytes.length)).length_le (offset, row) (mem_of_row_mem printed)

end RecordCodec.Dump
