import RecordCodec.Proofs.Search.MixedLiterals

/-!
How large a mixed literal becomes. A hexadecimal run is refused where the bytes up to its end are
too many; placeholders and numbers are not. So what stands in front of the end of the last
hexadecimal run is bounded, and what stands behind it is not.
-/
namespace RecordCodec.Operand

open Mark

/-! ### Runs and what stands behind them -/

/-- A text that a run takes for the end of itself where it takes `behind`: it goes on with the same
character, or not at all. -/
def GoesOnLike (behind behind' : List Char) : Prop :=
  behind'.head? = behind.head? ∨ Apart behind'

theorem GoesOnLike.head? {behind behind' : List Char} (like : GoesOnLike behind behind') {c : Char}
    (letter : c ≠ ' ') (first : behind'.head? = some c) : behind.head? = some c := by
  rcases like with same | apart
  · rw [← same, first]
  · exact absurd (apart c first) letter

theorem GoesOnLike.append_front {behind behind' : List Char} (like : GoesOnLike behind behind')
    (front : List Char) : GoesOnLike (front ++ behind) (front ++ behind') := by
  cases front with
  | nil => exact like
  | cons c front => exact .inl rfl

theorem GoesOnLike.stops {behind behind' : List Char} (like : GoesOnLike behind behind')
    {p : Char → Bool} (space : p ' ' = false) (stops : ∀ c ∈ behind.head?, p c = false) :
    ∀ c ∈ behind'.head?, p c = false := by
  intro c first
  rcases like with same | apart
  · exact stops c (same ▸ first)
  · rw [apart c first, space]

theorem goesOnLike_append (behind : List Char) {more : List Char} (apart : Apart more) :
    GoesOnLike behind (behind ++ more) := by
  cases behind with
  | nil => exact .inr apart
  | cons c behind => exact .inl rfl

theorem apart_nil : Apart [] :=
  fun c none => by cases none

theorem head_dropWhile {p : Char → Bool} (s : List Char) :
    ∀ c ∈ (s.dropWhile p).head?, p c = false := by
  intro c first
  have stopped := List.head?_dropWhile_not p s
  rwa [Option.mem_def.mp first] at stopped

theorem eq_of_upTo? {c : Char} {s a b : List Char} (h : upTo? c s = some (a, b)) :
    s = a ++ c :: b ∧ ∀ d ∈ a, d ≠ c := by
  induction s generalizing a b with
  | nil => cases h
  | cons d s ih =>
    rw [upTo?] at h
    split at h
    · rename_i same
      cases h
      exact ⟨by rw [same, List.nil_append], by simp⟩
    · rename_i other
      obtain ⟨⟨front, behind⟩, found, rest⟩ := Option.map_eq_some_iff.mp h
      cases rest
      obtain ⟨rfl, apart⟩ := ih found
      exact ⟨rfl, List.forall_mem_cons.mpr ⟨other, apart⟩⟩

variable {order : ByteOrder} {constants : List (List Char)} {before : Nat} {bytes : List UInt8}
  {s behind : List Char}

theorem repeatCount_front {n : Nat} (h : repeatCount s = .ok (n, behind))
    (stops : ∀ c ∈ s.head?, isHexDigit c = false) : ∃ front, s = front ++ behind ∧
      ∀ behind', GoesOnLike behind behind' → repeatCount (front ++ behind') = .ok (n, behind') ∧
        ∀ c ∈ (front ++ behind').head?, isHexDigit c = false := by
  rcases of_repeatCount h with ⟨rest, digits, m, rfl, found, rfl, count⟩ | ⟨other, rfl, rfl⟩
  · obtain ⟨rfl, noClose⟩ := eq_of_upTo? found
    refine ⟨'(' :: (digits ++ [')']), by simp, fun behind' _ => ⟨?_, ?_⟩⟩
    · have text : '(' :: (digits ++ [')']) ++ behind' = '(' :: (digits ++ ')' :: behind') := by simp
      rw [text]
      exact repeatCount_count (upTo?_append noClose behind') count
    · rintro c ⟨⟩
      rfl
  · refine ⟨[], rfl, fun behind' like =>
      ⟨repeatCount_none fun rest opens => ?_, like.stops rfl stops⟩⟩
    have noCount : ∀ c ∈ behind.head?, (c == '(') = false := by
      rintro c first
      rw [beq_eq_false_iff_ne]
      rintro rfl
      obtain ⟨rest, text⟩ := List.head?_eq_some_iff.mp first
      exact other rest text
    rw [List.nil_append] at opens
    have opening := like.stops (p := (· == '(')) rfl noCount '(' (by rw [opens]; rfl)
    cases opening

theorem hexRun_front (h : hexRun before s = .ok (bytes, behind)) :
    before + bytes.length ≤ maxBytes ∧ ∃ front, s = front ++ behind ∧
      ∀ behind', GoesOnLike behind behind' →
        hexRun before (front ++ behind') = .ok (bytes, behind') := by
  unfold hexRun at h
  split at h
  · rename_i b more decoded
    split at h
    · cases h
    · rename_i count rest counted
      obtain ⟨small, same⟩ := Outcome.unless_ok.mp h
      cases same
      obtain ⟨front, text, local'⟩ := repeatCount_front counted (head_dropWhile s)
      constructor
      · have length : (List.replicate count (b :: more)).flatten.length =
            (more.length + 1) * count := by
          simp [Nat.mul_comm]
        omega
      · refine ⟨s.takeWhile isHexDigit ++ front, ?_, fun behind' like => ?_⟩
        · rw [List.append_assoc, ← text, List.takeWhile_append_dropWhile]
        · obtain ⟨again, stops⟩ := local' behind' like
          have hex : ∀ c ∈ s.takeWhile isHexDigit, isHexDigit c = true := fun c listed =>
            List.mem_takeWhile_imp listed
          obtain ⟨digits, rest⟩ := takeWhile_front hex stops
          rw [List.append_assoc, hexRun, digits, rest, decoded]
          simp only [again]
          exact if_neg small
  · cases h

theorem numberRun_front {c : Char} (digit : Text.isDigit c = true)
    (h : numberRun order (c :: s) = .ok (bytes, behind)) :
    ∃ front, s = front ++ behind ∧ (∀ d ∈ c :: front, Text.isDigit d = true) ∧
      ∀ behind', GoesOnLike behind behind' →
        numberRun order (c :: (front ++ behind')) = .ok (bytes, behind') := by
  obtain ⟨small, same⟩ := Outcome.unless_ok.mp h
  cases same
  have digits : ∀ d ∈ c :: s.takeWhile Text.isDigit, Text.isDigit d = true :=
    List.forall_mem_cons.mpr ⟨digit, fun d listed => List.mem_takeWhile_imp listed⟩
  rw [List.takeWhile_cons_of_pos digit] at small ⊢
  rw [List.dropWhile_cons_of_pos digit]
  refine ⟨s.takeWhile Text.isDigit, (List.takeWhile_append_dropWhile).symm, digits,
    fun behind' like => ?_⟩
  obtain ⟨number, rest⟩ := takeWhile_front digits (like.stops rfl (head_dropWhile s))
  rw [List.cons_append] at number rest
  rw [numberRun, number, rest]
  exact if_neg small

theorem constantRun_front (h : constantRun constants s = .ok (bytes, behind)) :
    ∃ inside, s = inside ++ '}' :: behind ∧ (constant? constants inside).isSome ∧
      ∀ behind', constantRun constants (inside ++ '}' :: behind') = .ok (bytes, behind') := by
  unfold constantRun at h
  split at h
  · cases h
  · rename_i inside rest found
    split at h
    · cases h
    · rename_i literal known
      cases h
      obtain ⟨rfl, noClose⟩ := eq_of_upTo? found
      refine ⟨inside, rfl, known ▸ rfl, fun behind' => ?_⟩
      rw [constantRun, upTo?_append noClose]
      simp only [known]

def OpensHex (c : Char) (rest : List Char) : Prop :=
  c = '0' ∧ (rest.head? = some 'x' ∨ rest.head? = some 'X')

def NoHex (s : List Char) : Prop :=
  'x' ∉ s ∧ 'X' ∉ s

theorem GoesOnLike.opensHex {behind behind' : List Char} (like : GoesOnLike behind behind')
    {c : Char} (opens : OpensHex c behind') : OpensHex c behind :=
  ⟨opens.1, opens.2.imp (like.head? (by decide)) (like.head? (by decide))⟩

theorem noHex_of_digits {s : List Char} (digits : ∀ c ∈ s, Text.isDigit c = true) : NoHex s :=
  ⟨fun listed => absurd (digits _ listed) (by decide),
    fun listed => absurd (digits _ listed) (by decide)⟩

theorem noHex_append {s t : List Char} : NoHex (s ++ t) ↔ NoHex s ∧ NoHex t := by
  simp only [NoHex, List.mem_append, not_or]
  tauto

theorem NoHex.suffix {s t : List Char} (free : NoHex s) (part : t <:+ s) : NoHex t := by
  obtain ⟨front, rfl⟩ := part
  exact (noHex_append.mp free).2

theorem NoHex.not_opensHex {c : Char} {rest : List Char} (free : NoHex (c :: rest)) :
    ¬OpensHex c rest := by
  rintro ⟨-, lower | upper⟩
  · exact free.1 (List.mem_cons_of_mem _ (List.mem_of_head? lower))
  · exact free.2 (List.mem_cons_of_mem _ (List.mem_of_head? upper))

theorem noHex_inside {inside : List Char} (known : (constant? constants inside).isSome) :
    NoHex inside := by
  -- What stands between the braces is read as a number.
  have number : ∀ {c : Char}, Text.isBlank c = false → c ≠ '+' → Text.isDigit c = false →
      c ∉ inside := by
    intro c plain plus other listed
    rw [constant?, Text.readUnsigned?_trim_eq_none listed plain plus other] at known
    cases known
  exact ⟨number (by decide) (by decide) (by decide), number (by decide) (by decide) (by decide)⟩

/-- Where neither digits in hexadecimal nor a placeholder start, none does in a text that goes on
alike. -/
theorem run_like {rest rest' : List Char} (like : GoesOnLike rest rest') {c : Char}
    (noHex : ¬OpensHex c rest) (noMarker : ¬(c = '#' ∧ rest.head? = some '{')) :
    run order constants before c rest' =
      if Text.isDigit c then numberRun order (c :: rest')
      else if isAsciiBlank c then .ok ([], rest')
      else .error .unexpectedCharacter := by
  have noHex' : ¬OpensHex c rest' := fun hex => noHex (like.opensHex hex)
  have noMarker' : ¬(c = '#' ∧ rest'.head? = some '{') := fun marker =>
    noMarker ⟨marker.1, like.head? (by decide) marker.2⟩
  exact (if_neg noHex').trans (if_neg noMarker')

/-- A run is the same wherever the text goes on like behind it. Only a hexadecimal one has an `x`,
and its end is bounded. -/
theorem run_front {c : Char} {rest : List Char}
    (h : run order constants before c rest = .ok (bytes, behind)) :
    ∃ front, rest = front ++ behind ∧
      (∀ behind', GoesOnLike behind behind' →
        run order constants before c (front ++ behind') = .ok (bytes, behind')) ∧
      (NoHex (c :: front) ∨ before + bytes.length ≤ maxBytes) := by
  unfold run at h
  split at h
  · rename_i hex
    obtain ⟨rfl, letter⟩ := hex
    obtain ⟨x, more, rfl⟩ : ∃ x more, rest = x :: more := by
      cases rest with
      | nil => simp at letter
      | cons x more => exact ⟨x, more, rfl⟩
    obtain ⟨bounded, front, rfl, again⟩ := hexRun_front h
    refine ⟨x :: front, rfl, fun behind' like => ?_, .inr bounded⟩
    rw [run, if_pos ⟨rfl, letter⟩]
    exact again behind' like
  · rename_i noHex
    split at h
    · rename_i marker
      obtain ⟨rfl, brace⟩ := marker
      obtain ⟨more, rfl⟩ := List.head?_eq_some_iff.mp brace
      obtain ⟨inside, text, known, again⟩ := constantRun_front h
      rw [List.tail_cons] at text
      refine ⟨'{' :: (inside ++ ['}']), by simp [text], fun behind' _ => ?_, .inl ?_⟩
      · have constant := again behind'
        simpa [run] using constant
      · have free := noHex_inside known
        simpa [NoHex] using free
    · rename_i noMarker
      split at h
      · rename_i digit
        obtain ⟨front, rfl, digits, again⟩ := numberRun_front digit h
        refine ⟨front, rfl, fun behind' like => ?_, .inl (noHex_of_digits digits)⟩
        rw [run_like (like.append_front front) noHex noMarker, if_pos digit]
        exact again behind' like
      · split at h
        · rename_i noDigit blank
          cases h
          refine ⟨[], rfl, fun behind' like => ?_, .inl ?_⟩
          · rw [List.nil_append, run_like like noHex noMarker, if_neg noDigit, if_pos blank]
          · constructor <;>
              · intro listed
                cases List.mem_singleton.mp listed
                cases blank
        · cases h

/-! ### The whole literal -/

theorem mixedFrom_of_run {before : List UInt8} {c : Char} {rest : List Char}
    (ran : run order constants before.length c rest = .ok (bytes, behind)) :
    mixedFrom order constants before (c :: rest) =
      mixedFrom order constants (before ++ bytes) behind := by
  rw [mixedFrom_cons, ran]
  rfl

theorem mixedFrom_append {before out : List UInt8}
    (h : mixedFrom order constants before s = .ok out) {more : List Char} (apart : Apart more) :
    mixedFrom order constants before (s ++ more) = mixedFrom order constants out more := by
  fun_induction mixedFrom order constants before s with
  | case1 before =>
    cases h
    rfl
  | case2 before c rest fault ran => cases h
  | case3 before c rest bytes behind ran ih =>
    obtain ⟨front, rfl, again, -⟩ := run_front ran
    rw [List.cons_append, List.append_assoc,
      mixedFrom_of_run (again _ (goesOnLike_append behind apart)), ih h]

/-- A literal is two: one that ends in a hexadecimal run within the bound, and one without any. -/
theorem exists_parts {before out : List UInt8} (h : mixedFrom order constants before s = .ok out) :
    ∃ front behind middle, s = front ++ behind ∧
      mixedFrom order constants before front = .ok middle ∧
      (front = [] ∨ middle.length ≤ maxBytes) ∧ NoHex behind ∧
      mixedFrom order constants middle behind = .ok out := by
  fun_induction mixedFrom order constants before s with
  | case1 before =>
    cases h
    exact ⟨[], [], _, rfl, mixedFrom.eq_def .., .inl rfl, by simp [NoHex],
      mixedFrom.eq_def ..⟩
  | case2 before c rest fault ran => cases h
  | case3 before c rest bytes behind ran ih =>
    obtain ⟨front, tail, middle, rfl, read, bounded, free, later⟩ := ih h
    obtain ⟨here, rfl, again, kind⟩ := run_front ran
    by_cases ends : front = []
    · subst ends
      obtain rfl : before ++ bytes = middle := by
        rw [mixedFrom] at read
        exact Except.ok.inj read
      rcases kind with plain | bound
      · -- Neither this run nor any behind it is hexadecimal.
        refine ⟨[], (c :: here) ++ tail, before, rfl, mixedFrom.eq_def .., .inl rfl, ?_,
          (mixedFrom_of_run ran).trans h⟩
        exact noHex_append.mpr ⟨plain, free⟩
      · refine ⟨c :: here, tail, before ++ bytes, by simp, ?_, .inr ?_, free, later⟩
        · have alone := mixedFrom_of_run (again [] (.inr apart_nil))
          rw [List.append_nil] at alone
          rw [alone, read]
        · rwa [List.length_append]
    · obtain ⟨d, more, rfl⟩ := List.exists_cons_of_ne_nil ends
      refine ⟨c :: (here ++ d :: more), tail, middle, by simp, ?_,
        .inr (bounded.resolve_left ends), free, later⟩
      rw [mixedFrom_of_run (again (d :: more) (.inl rfl)), read]

theorem run_noHex {c : Char} {rest : List Char} (free : NoHex (c :: rest)) (before before' : Nat) :
    run order constants before c rest = run order constants before' c rest :=
  (if_neg free.not_opensHex).trans (if_neg free.not_opensHex).symm

theorem mixedFrom_noHex {before : List UInt8} (free : NoHex s) (front : List UInt8) :
    mixedFrom order constants (front ++ before) s =
      (mixedFrom order constants before s).map (front ++ ·) := by
  fun_induction mixedFrom order constants before s with
  | case1 before =>
    rw [mixedFrom]
    rfl
  | case2 before c rest fault ran =>
    rw [mixedFrom_cons, run_noHex free _ before.length, ran]
    rfl
  | case3 before c rest bytes behind ran ih =>
    have later : NoHex behind :=
      free.suffix ((run_suffix ran).trans (List.suffix_cons ..))
    rw [run_noHex free _ (front ++ before).length] at ran
    rw [mixedFrom_of_run ran, List.append_assoc, ih later]

/-! ### Operands -/

theorem ofText_bytes_iff : ofText order constants s = .ok (.bytes bytes) ↔
    single? (Text.trim s) = none ∧
      (hasPlaceholder (Text.trim s) || startsHex (Text.trim s)) = true ∧
      mixedFrom order constants [] (Text.trim s) = .ok bytes := by
  rw [ofText, ← single?]
  cases single? (Text.trim s) with
  | some inside =>
    dsimp only
    cases constant? constants inside <;> simp
  | none =>
    dsimp only
    by_cases isMixed : (hasPlaceholder (Text.trim s) || startsHex (Text.trim s)) = true
    · rw [if_pos isMixed, mixed, Outcome.map_ok]
      simp [isMixed, Outcome.mapError_ok]
    · simp [isMixed]

theorem hasPlaceholder_iff : hasPlaceholder s = true ↔ ['#', '{'] <:+: s := by
  induction s with
  | nil => exact iff_of_false Bool.false_ne_true fun inside => by simpa using inside.length_le
  | cons c s ih =>
    rw [List.infix_cons_iff, ← ih, hasPlaceholder.eq_def]
    split
    · rename_i rest same
      exact iff_of_true rfl (.inl (same ▸ List.prefix_append ['#', '{'] rest))
    · rename_i other same
      cases same
      refine (or_iff_right fun opens => ?_).symm
      obtain ⟨rest, text⟩ := opens
      obtain ⟨hash, brace⟩ := List.cons.inj text
      exact other rest hash.symm brace.symm
    · rename_i same
      cases same

theorem startsHex_append (hex : startsHex s = true) (more : List Char) :
    startsHex (s ++ more) = true := by
  unfold startsHex at hex
  split at hex
  · rfl
  · rfl
  · cases hex

/-- A text that ends in a placeholder with a blank in front of it is not one placeholder. -/
theorem single?_blank {b : Char} (blank : Text.isBlank b = true) {last : List Char}
    (given : last ≠ []) (opens : last.getLast? = some '}' → '{' ∈ last.dropLast)
    (front : List Char) : single? (front ++ b :: last) = none := by
  unfold single? placeholder?
  split
  · rename_i rest text
    obtain ⟨more, rfl⟩ : ∃ more, rest = more ++ b :: last := by
      match front with
      | [] =>
        obtain ⟨rfl, -⟩ := List.cons.inj text
        cases blank
      | [_] =>
        obtain ⟨rfl, -⟩ := List.cons.inj (List.cons.inj text).2
        cases blank
      | _ :: _ :: more => exact ⟨more, (List.cons.inj (List.cons.inj text).2).2.symm⟩
    split
    · rename_i closes
      rw [List.getLast?_append_of_ne_nil _ (by simp), List.getLast?_cons_of_ne_nil given] at closes
      have inside : '{' ∈ (more ++ b :: last).dropLast := by
        rw [List.dropLast_append_of_ne_nil (by simp), List.dropLast_cons_of_ne_nil given]
        exact List.mem_append_right _ (List.mem_cons_of_mem _ (opens closes))
      rw [Option.filter_some, List.contains_eq_mem, decide_eq_true inside]
      rfl
    · rfl
  · rfl

theorem head_trim (s : List Char) : ∀ c, (Text.trim s).head? = some c → Text.isBlank c = false := by
  intro c first
  have front : Text.trim s <+: Text.trimStart s := by
    rw [← List.reverse_suffix, Text.trim, Text.trimEnd, List.reverse_reverse]
    exact List.dropWhile_suffix _
  obtain ⟨behind, text⟩ := front
  obtain ⟨rest, whole⟩ := List.head?_eq_some_iff.mp first
  exact head_dropWhile s c (by rw [← Text.trimStart, ← text, whole]; rfl)

/-! ### One more run -/

open Written (Run)
open Outcome (Bounded)

theorem opens_of_closes (r : Run) (n : Nat) (closes : (place (r.marks n)).getLast? = some '}') :
    '{' ∈ (place (r.marks n)).dropLast := by
  have listed := List.mem_of_getLast? closes
  cases r with
  | quoted l =>
    simp [Run.marks, place, placed, Query.placeholder, List.dropLast_cons_of_ne_nil]
  | hex | number =>
    obtain ⟨m, inside, here⟩ := List.mem_flatMap.mp listed
    have plain : ∃ c, m = .char c := by
      obtain ⟨c, -, same⟩ := List.mem_map.mp inside
      exact ⟨c, same.symm⟩
    obtain ⟨c, rfl⟩ := plain
    cases List.mem_singleton.mp here
    cases Run.isRunChar_of_mem inside

theorem trim_behind (s : List Char) (given : Text.trim s ≠ []) (r : Run) (n : Nat) :
    Text.trim (Text.trim s ++ ' ' :: place (r.marks n)) =
      Text.trim s ++ ' ' :: place (r.marks n) := by
  have last := r.place_marks_ne_nil n
  refine Text.trim_of_ends (fun c first => ?_) fun c ends => ?_
  · rw [List.head?_append_of_ne_nil _ given] at first
    exact head_trim s c first
  · rw [List.getLast?_append_of_ne_nil _ (by simp), List.getLast?_cons_of_ne_nil last] at ends
    exact noBlank_place Run.noBlank_marks c (List.mem_of_getLast? ends)

/-- A literal takes one more run behind a space as it is, and only a hexadecimal one is refused for
the bytes that the literal has already. -/
theorem ofText_behind (read : ofText order constants s = .ok (.bytes bytes)) {r : Run} {n : Nat}
    (held : Held constants (r.marks n)) {more : List UInt8} (denotes : r.Denotes order more) :
    Bounded (r.TooLarge bytes.length more) (fun fault => fault.code = 171)
      (ofText order constants (Text.trim s ++ ' ' :: place (r.marks n)))
      (.ok (.bytes (bytes ++ more))) := by
  obtain ⟨-, isMixed, scanned⟩ := ofText_bytes_iff.mp read
  have given : Text.trim s ≠ [] := by
    intro none
    rw [none] at isMixed
    cases isMixed
  have several := single?_blank (by decide : Text.isBlank ' ' = true) (r.place_marks_ne_nil n)
    (opens_of_closes r n) (Text.trim s)
  have isMixed' : (hasPlaceholder (Text.trim s ++ ' ' :: place (r.marks n)) ||
      startsHex (Text.trim s ++ ' ' :: place (r.marks n))) = true := by
    rw [Bool.or_eq_true] at isMixed ⊢
    exact isMixed.imp
      (fun marked => hasPlaceholder_iff.mpr
        ((hasPlaceholder_iff.mp marked).trans (List.prefix_append ..).isInfix))
      (fun hex => startsHex_append hex _)
  have run : Bounded (r.TooLarge bytes.length more) (fun _ => True)
      (mixedFrom order constants [] (Text.trim s ++ ' ' :: place (r.marks n)))
      (.ok (bytes ++ more)) := by
    have apart : Apart (' ' :: place (r.marks n)) := by
      rintro c ⟨⟩
      rfl
    rw [mixedFrom_append scanned apart, mixedFrom_blank]
    have alone : Held constants (r.marks n ++ []) := by rwa [List.append_nil]
    have ends : mixedFrom order constants (bytes ++ more) (place []) = .ok (bytes ++ more) :=
      mixedFrom.eq_def ..
    have taken := mixedFrom_run alone denotes apart_nil bytes
    rwa [List.append_nil, ends] at taken
  rw [ofText, ← single?, trim_behind s given, several]
  dsimp only
  rw [if_pos isMixed', mixed]
  exact (run.mapError (FieldFault.invalidLiteral _) fun _ _ => rfl).map Scalar.bytes

/-- The bytes of a literal up to its last hexadecimal run are at most 65535; placeholders and
numbers behind it add theirs without a bound, and so does each further one. -/
theorem literal_extent (read : ofText order constants s = .ok (.bytes bytes)) :
    (∃ front behind head tail, Text.trim s = front ++ behind ∧ bytes = head ++ tail ∧
      mixed order constants front = .ok head ∧ head.length ≤ 65535 ∧
      mixed order constants behind = .ok tail ∧ NoHex behind) ∧
    ∀ (r : Run) n more, Held constants (r.marks n) → r.Denotes order more →
      Bounded (r.TooLarge bytes.length more) (fun fault => fault.code = 171)
        (ofText order constants (Text.trim s ++ ' ' :: place (r.marks n)))
        (.ok (.bytes (bytes ++ more))) := by
  refine ⟨?_, fun r n more held denotes => ofText_behind read held denotes⟩
  obtain ⟨-, -, scanned⟩ := ofText_bytes_iff.mp read
  obtain ⟨front, behind, middle, parts, head, bounded, free, later⟩ := exists_parts scanned
  have added : mixedFrom order constants (middle ++ []) behind =
      (mixedFrom order constants [] behind).map (middle ++ ·) := mixedFrom_noHex free middle
  rw [List.append_nil, later] at added
  obtain ⟨tail, tailRead, same⟩ := Outcome.map_ok.mp added.symm
  refine ⟨front, behind, middle, tail, parts, same.symm, Outcome.mapError_ok.mpr head, ?_,
    Outcome.mapError_ok.mpr tailRead, free⟩
  rcases bounded with rfl | short
  · rw [mixedFrom] at head
    cases head
    exact Nat.zero_le _
  · exact short

theorem short_literal_extent :
    ofText .big [['A']] "0x41(3) 12 #\x7b1\x7d".toList =
      .ok (.bytes [0x41, 0x41, 0x41, 120, 0x41]) ∧
    ∃ front behind head tail, "0x41(3) 12 #\x7b1\x7d".toList = front ++ behind ∧
      [0x41, 0x41, 0x41, 120, 0x41] = head ++ tail ∧
      mixed .big [['A']] front = .ok head ∧ head.length ≤ 65535 ∧
      mixed .big [['A']] behind = .ok tail ∧ NoHex behind := by
  have read : ofText .big [['A']] "0x41(3) 12 #\x7b1\x7d".toList =
      .ok (.bytes [0x41, 0x41, 0x41, 120, 0x41]) := by
    decide +kernel
  exact ⟨read, (literal_extent read).1⟩

theorem full_read (constants : List (List Char)) :
    ofText .big constants "0x41(65535)".toList = .ok (.bytes (List.replicate 65535 0x41)) := by
  have ran : run .big constants 0 '0' "x41(65535)".toList =
      .ok ((List.replicate 65535 [0x41]).flatten, []) := rfl
  refine ofText_bytes_iff.mpr ⟨rfl, rfl, ?_⟩
  change mixedFrom .big constants [] ('0' :: "x41(65535)".toList) = _
  rw [mixedFrom_of_run ran, List.flatten_replicate_singleton]
  exact mixedFrom.eq_def ..

/-- A literal of one byte behind a run of 65535, which refuses one more byte of its own kind. -/
theorem large_literal : ∃ bytes : List UInt8,
    ofText .big [['A']] "0x41(65535) #\x7b1\x7d".toList = .ok (.bytes bytes) ∧
      bytes.length = 65536 ∧
      ∃ fault, ofText .big [['A']] "0x41(65535) 0x42".toList = .error fault ∧ fault.code = 171 := by
  let quoted : Run := .quoted ⟨['A'], (Query.endsAtQuote_iff ['A']).mp rfl⟩
  let hex : Run := .hex ⟨[('4', '2')], none, by simp, by decide, nofun⟩
  have held : Held [['A']] (quoted.marks 1) := by
    intro number raw listed
    cases List.mem_singleton.mp listed
    exact ⟨0, rfl, rfl⟩
  have added := ofText_behind (full_read [['A']]) held (.quoted _)
  have bare : Held [['A']] (hex.marks 1) := by simp [Held, hex, Run.marks]
  have refused := ofText_behind (full_read [['A']]) bare (.hex _)
  refine ⟨_, added.kept id, ?_, refused.refused ?_⟩
  · rw [List.length_append, List.length_replicate]
    rfl
  · rw [List.length_replicate]
    decide

end RecordCodec.Operand
