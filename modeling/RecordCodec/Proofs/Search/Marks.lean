import RecordCodec.Proofs.Outcome
import RecordCodec.Proofs.Search.Clauses
import RecordCodec.Proofs.Search.Operands

/-!
Queries as they are written: characters outside of literals, and literals with their numbers. The
query with placeholders is what these marks stand for, and its predicates are what stands between
the keywords `AND` and `OR`, which are words of characters.
-/
namespace RecordCodec

/-- A character outside of literals, or a literal with its number and what its quotes enclose. -/
inductive Mark where
  | char (c : Char)
  | literal (number : Nat) (raw : List Char)
  deriving DecidableEq

namespace Mark

def text : Mark → List Char
  | char c => [c]
  | literal _ raw => '\'' :: (raw ++ ['\''])

def placed : Mark → List Char
  | char c => [c]
  | literal number _ => Query.placeholder number

def isBlank : Mark → Bool
  | char c => Text.isBlank c
  | literal .. => false

def isLiteral : Mark → Bool
  | char _ => false
  | literal .. => true

def place (marks : List Mark) : List Char :=
  marks.flatMap placed

def words (marks : List Mark) : List (List Mark) :=
  (marks.splitOnP isBlank).filter fun word => !word.isEmpty

def spells (keyword : List Char) (word : List Mark) : Bool :=
  (word.flatMap text).map Text.upperAscii == keyword

end Mark

namespace Query

mutual

def marksOutside (n : Nat) : List Char → List Mark
  | [] => []
  | c :: rest =>
    if c = '\'' then marksInside (n + 1) [] false rest else .char c :: marksOutside n rest

/-- The marks of a text inside of literal number `n`, of which `literal` was read, reversed. -/
def marksInside (n : Nat) (literal : List Char) (escaped : Bool) : List Char → List Mark
  | [] => []
  | c :: rest =>
    if c = '\'' ∧ escaped = false then .literal n literal.reverse :: marksOutside n rest
    else marksInside n (c :: literal) (c == '\\') rest

end

/-- The words of a list between those that are keywords. A keyword separates two words of one part
from what is behind it: at the end of the list, or where a part begins, it is a word like others. -/
def partsAt {α : Type} (isKeyword : α → Bool) (part : List α) : List α → List (List α)
  | [] => [part]
  | word :: rest =>
    if isKeyword word && !part.isEmpty && !rest.isEmpty then
      part :: partsAt isKeyword [] rest
    else partsAt isKeyword (part ++ [word]) rest

/-- The predicates of a query as they are written, with one space between words. -/
def predicateMarks (s : List Char) : List (List Mark) :=
  ((partsAt (Mark.spells ['A', 'N', 'D']) [] (Mark.words (marksOutside 0 s))).flatMap
    (partsAt (Mark.spells ['O', 'R']) [])).map (List.intercalate [.char ' '])

/-- What marks are to a text whose literals were taken out: they are the text, their placeholders
are in the query, and their literals are held by the constants, of which `n` stand before. -/
structure Marked (n : Nat) (s : List Char) (marks : List Mark) (search : List Char)
    (constants : List (List Char)) : Prop where
  text : marks.flatMap Mark.text = s
  search : search = Mark.place marks
  held : ∀ number raw, .literal number raw ∈ marks →
    ∃ j, number = n + j + 1 ∧ constants[j]? = some raw

mutual

theorem marked_outside {n : Nat} {s search : List Char} {constants : List (List Char)}
    (h : outside n s = .ok (search, constants)) :
    Marked n s (marksOutside n s) search constants := by
  match s with
  | [] =>
    cases h
    exact ⟨rfl, rfl, fun _ _ none => by cases none⟩
  | c :: rest =>
    rw [outside] at h
    rw [marksOutside]
    split at h
    · rename_i quote
      rw [if_pos quote, quote]
      exact marked_inside h
    · rename_i plain
      rw [if_neg plain]
      obtain ⟨⟨search, constants⟩, read, same⟩ := Outcome.map_ok.mp h
      cases same
      obtain ⟨text, placed, held⟩ := marked_outside read
      refine ⟨?_, ?_, fun number raw listed => held number raw ?_⟩
      · rw [List.flatMap_cons, text]
        rfl
      · rw [placed]
        rfl
      · simpa using listed

theorem marked_inside {n : Nat} {opening literal rest search : List Char} {escaped : Bool}
    {constants : List (List Char)}
    (h : inside (n + 1) opening literal escaped rest = .ok (search, constants)) :
    Marked n ('\'' :: (literal.reverse ++ rest)) (marksInside (n + 1) literal escaped rest) search
      constants := by
  match rest with
  | [] => cases h
  | c :: rest =>
    rw [inside] at h
    rw [marksInside]
    split at h
    · rename_i closing
      rw [if_pos closing, closing.1]
      obtain ⟨⟨search, constants⟩, read, same⟩ := Outcome.map_ok.mp h
      cases same
      obtain ⟨text, placed, held⟩ := marked_outside read
      refine ⟨?_, ?_, fun number raw listed => ?_⟩
      · rw [List.flatMap_cons, text]
        simp [Mark.text]
      · rw [placed]
        rfl
      · rcases List.mem_cons.mp listed with same | later
        · cases same
          exact ⟨0, rfl, rfl⟩
        · obtain ⟨j, rfl, found⟩ := held number raw later
          exact ⟨j + 1, by omega, found⟩
    · rename_i more
      rw [if_neg more]
      simpa using marked_inside h

end

theorem marked_of_read {s : List Char} {q : Query} (read : ofText s = .ok q) :
    ∃ search, q.search = Text.collapse search ∧
      Marked 0 s (marksOutside 0 s) search q.constants := by
  obtain ⟨⟨search, constants⟩, taken, rfl⟩ := Outcome.map_ok.mp read
  exact ⟨search, rfl, marked_outside taken⟩

end Query

namespace Text

theorem modifyHead_nil_append (parts : List (List Char)) : parts.modifyHead ([] ++ ·) = parts := by
  cases parts <;> rfl

theorem wordsAfter_eq_splitOnP (word s : List Char) : wordsAfter word s =
    ((s.splitOnP isBlank).modifyHead (word.reverse ++ ·)).filter fun w => !w.isEmpty := by
  induction s generalizing word with
  | nil => cases word <;> simp [wordsAfter]
  | cons c s ih =>
    rw [wordsAfter, List.splitOnP_cons_eq_if_modifyHead]
    split
    · have rest := ih []
      rw [List.reverse_nil, modifyHead_nil_append] at rest
      cases word <;> simp [rest]
    · rw [ih, List.modifyHead_modifyHead]
      congr 2
      funext part
      simp

theorem words_eq_splitOnP (s : List Char) :
    words s = (s.splitOnP isBlank).filter fun w => !w.isEmpty := by
  rw [words, wordsAfter_eq_splitOnP, List.reverse_nil, modifyHead_nil_append]

theorem join_cons (w : List Char) (ws : List (List Char)) :
    join [' '] (w :: ws) = w ++ ws.flatMap fun w => ' ' :: w := by
  induction ws generalizing w with
  | nil => simp [join]
  | cons v ws ih => simp [join, ih]

theorem splitOnP_noBlank {word : List Char} (noBlank : NoBlank word) (s : List Char) :
    (word ++ s).splitOnP isBlank = (s.splitOnP isBlank).modifyHead (word ++ ·) := by
  induction word with
  | nil => exact (modifyHead_nil_append _).symm
  | cons c word ih =>
    have tail : NoBlank word := fun d hd => noBlank d (List.mem_cons_of_mem _ hd)
    rw [List.cons_append, List.splitOnP_cons_eq_if_modifyHead,
      if_neg (by simp [noBlank c (List.mem_cons_self ..)]), ih tail, List.modifyHead_modifyHead]
    rfl

end Text

namespace Mark

theorem place_cons (m : Mark) (marks : List Mark) : place (m :: marks) = m.placed ++ place marks :=
  rfl

theorem place_append (as bs : List Mark) : place (as ++ bs) = place as ++ place bs :=
  List.flatMap_append

theorem placed_ne_nil (m : Mark) : m.placed ≠ [] := by
  cases m <;> simp [placed, Query.placeholder]

theorem place_isEmpty (marks : List Mark) : (place marks).isEmpty = marks.isEmpty := by
  cases marks with
  | nil => rfl
  | cons m marks => simp [place_cons, placed_ne_nil]

theorem noBlank_placed {m : Mark} (plain : m.isBlank = false) : Text.NoBlank m.placed := by
  cases m with
  | char c => exact Text.noBlank_nil.cons plain
  | literal number raw => exact Operand.noBlank_placeholder number

theorem splitOnP_place (marks : List Mark) :
    (place marks).splitOnP Text.isBlank = (marks.splitOnP isBlank).map place := by
  induction marks with
  | nil => rfl
  | cons m marks ih =>
    rw [place_cons, List.splitOnP_cons_eq_if_modifyHead]
    split
    · rename_i blank
      cases m with
      | literal => cases blank
      | char c =>
        have blank : Text.isBlank c = true := blank
        rw [placed, List.singleton_append, List.splitOnP_cons_eq_if_modifyHead, if_pos blank, ih]
        rfl
    · rename_i plain
      rw [Text.splitOnP_noBlank (noBlank_placed (Bool.eq_false_iff.mpr plain)), ih]
      cases marks.splitOnP isBlank <;> rfl

theorem words_place (marks : List Mark) : Text.words (place marks) = (words marks).map place := by
  rw [Text.words_eq_splitOnP, splitOnP_place, words, List.filter_map]
  congr 2
  funext word
  simp [place_isEmpty]

theorem spells_place {keyword : List Char} (noQuote : '\'' ∉ keyword) (noHash : '#' ∉ keyword)
    (word : List Mark) :
    ((place word).map Text.upperAscii == keyword) = spells keyword word := by
  by_cases bare : ∀ m ∈ word, m.text = m.placed
  · rw [place, ← List.flatMap_congr bare]
    rfl
  · simp only [not_forall, exists_prop] at bare
    obtain ⟨m, listed, differ⟩ := bare
    cases m with
    | char c => exact absurd rfl differ
    | literal number raw =>
      have marker : '#' ∈ (place word).map Text.upperAscii :=
        List.mem_map.mpr ⟨'#', List.mem_flatMap.mpr ⟨_, listed, List.mem_cons_self ..⟩, by decide⟩
      have quote : '\'' ∈ (word.flatMap text).map Text.upperAscii :=
        List.mem_map.mpr ⟨'\'', List.mem_flatMap.mpr ⟨_, listed, List.mem_cons_self ..⟩, by decide⟩
      have unplaced : (place word).map Text.upperAscii ≠ keyword := by
        rintro rfl
        exact noHash marker
      have unwritten : (word.flatMap text).map Text.upperAscii ≠ keyword := by
        rintro rfl
        exact noQuote quote
      rw [spells, beq_eq_false_iff_ne.mpr unplaced, beq_eq_false_iff_ne.mpr unwritten]

end Mark

namespace Query

section Parts

variable {α β : Type} {isKeyword : α → Bool}

theorem mem_partsAt {part words p : List α} {w : α} (listed : p ∈ partsAt isKeyword part words)
    (inside : w ∈ p) : w ∈ part ∨ w ∈ words := by
  induction words generalizing part with
  | nil =>
    rw [partsAt, List.mem_singleton] at listed
    exact .inl (listed ▸ inside)
  | cons word rest ih =>
    rw [partsAt] at listed
    split at listed
    · rcases List.mem_cons.mp listed with rfl | later
      · exact .inl inside
      · rcases ih later with none | behind
        · cases none
        · exact .inr (List.mem_cons_of_mem _ behind)
    · rcases ih listed with before | behind
      · rcases List.mem_append.mp before with before | here
        · exact .inl before
        · exact .inr (List.mem_singleton.mp here ▸ List.mem_cons_self ..)
      · exact .inr (List.mem_cons_of_mem _ behind)

theorem partsAt_map {f : α → β} {isKeyword' : β → Bool} {words : List α}
    (same : ∀ w ∈ words, isKeyword' (f w) = isKeyword w) (part : List α) :
    partsAt isKeyword' (part.map f) (words.map f) =
      (partsAt isKeyword part words).map (List.map f) := by
  induction words generalizing part with
  | nil => rfl
  | cons word rest ih =>
    obtain ⟨here, later⟩ := List.forall_mem_cons.mp same
    have first := ih later []
    have more := ih later (part ++ [word])
    rw [List.map_append] at more
    rw [List.map_cons, partsAt, partsAt, here, List.isEmpty_map, List.isEmpty_map]
    split
    · exact congrArg (part.map f :: ·) first
    · exact more

end Parts

section Keywords

variable {keyword : List Char} (noBlank : Text.NoBlank keyword)
include noBlank

/-- In front of a blank or at the end of a text, only the word that spells a keyword matches it. -/
theorem word_of_matches {word behind : List Char} (plain : Text.NoBlank word)
    (apart : behind = [] ∨ ∃ rest, behind = ' ' :: rest)
    (h : Matches (keyword ++ [' ']) (word ++ behind)) :
    word.map Text.upperAscii = keyword ∧ behind ≠ [] := by
  induction keyword generalizing word with
  | nil =>
    cases word with
    | nil =>
      refine ⟨rfl, ?_⟩
      rintro rfl
      simp [Matches] at h
    | cons c word =>
      have space := Text.eq_space_of_upperAscii (matches_cons.mp h).1
      have blank := plain c (List.mem_cons_self ..)
      rw [space] at blank
      cases blank
  | cons k keyword ih =>
    cases word with
    | nil =>
      rcases apart with rfl | ⟨rest, rfl⟩
      · simp [Matches] at h
      · have letter : Text.upperAscii ' ' = k := (matches_cons.mp h).1
        have blank := noBlank k (List.mem_cons_self ..)
        rw [← letter] at blank
        cases blank
    | cons c word =>
      obtain ⟨letter, later⟩ := matches_cons.mp h
      obtain ⟨same, more⟩ := ih (fun d hd => noBlank d (List.mem_cons_of_mem _ hd))
        (fun d hd => plain d (List.mem_cons_of_mem _ hd)) later
      exact ⟨by rw [List.map_cons, letter, same], more⟩

variable {word : List Char} {words : List (List Char)}

omit noBlank in
theorem splitFrom_ending (same : word.map Text.upperAscii = keyword) (behind : words ≠ [])
    (part : List Char) : splitFrom (' ' :: (keyword ++ [' '])) 0 part.reverse
        (' ' :: word ++ words.flatMap fun w => ' ' :: w) =
      part :: splitFrom (' ' :: (keyword ++ [' '])) 0 [] (Text.join [' '] words) := by
  have spelled : (' ' :: (word ++ [' '])).map Text.upperAscii = ' ' :: (keyword ++ [' ']) := by
    rw [List.map_cons, List.map_append, same]
    rfl
  have rest : ' ' :: word ++ (words.flatMap fun w => ' ' :: w) =
      (' ' :: (word ++ [' '])) ++ Text.join [' '] words := by
    cases words with
    | nil => exact absurd rfl behind
    | cons v words => simp [Text.join_cons]
  rw [rest, splitFrom_keyword (by simp) spelled, List.reverse_reverse]

theorem splitFrom_going_on (plain : Text.NoBlank word)
    (other : ¬(word.map Text.upperAscii = keyword ∧ words ≠ []))
    {part : List (List Char)} (given : part ≠ []) :
    splitFrom (' ' :: (keyword ++ [' '])) 0 (Text.join [' '] part).reverse
        (' ' :: word ++ words.flatMap fun w => ' ' :: w) =
      splitFrom (' ' :: (keyword ++ [' '])) 0 (Text.join [' '] (part ++ [word])).reverse
        (words.flatMap fun w => ' ' :: w) := by
  have quiet : Quiet (' ' :: (keyword ++ [' '])) word :=
    quiet_of_noSpace _ fun space => by
      have blank := plain ' ' space
      cases blank
  have apart : (words.flatMap fun w => ' ' :: w) = [] ∨
      ∃ rest, (words.flatMap fun w => ' ' :: w) = ' ' :: rest := by
    cases words with
    | nil => exact .inl rfl
    | cons v words => exact .inr ⟨_, rfl⟩
  have unmatched : ¬Matches (' ' :: (keyword ++ [' ']))
      (' ' :: (word ++ words.flatMap fun w => ' ' :: w)) := by
    intro h
    obtain ⟨same, behind⟩ := word_of_matches noBlank plain apart (matches_cons.mp h).2
    refine other ⟨same, ?_⟩
    rintro rfl
    exact behind rfl
  have longer : word.reverse ++ ' ' :: (Text.join [' '] part).reverse =
      (Text.join [' '] (part ++ [word])).reverse := by
    rw [Text.join_append [' '] given (by simp)]
    simp [Text.join]
  rw [List.cons_append, splitFrom, ← longer]
  exact (if_neg unmatched).trans (splitFrom_quiet quiet _ _)

theorem splitFrom_words (plain : ∀ w ∈ words, w ≠ [] ∧ Text.NoBlank w) :
    splitFrom (' ' :: (keyword ++ [' '])) 0 [] (Text.join [' '] words) =
        (partsAt (fun w => w.map Text.upperAscii == keyword) [] words).map (Text.join [' ']) ∧
      ∀ part, part ≠ [] → splitFrom (' ' :: (keyword ++ [' '])) 0 (Text.join [' '] part).reverse
          (words.flatMap fun w => ' ' :: w) =
        (partsAt (fun w => w.map Text.upperAscii == keyword) part words).map
          (Text.join [' ']) := by
  induction words with
  | nil => exact ⟨rfl, fun part _ => by simp [splitFrom, partsAt]⟩
  | cons w words ih =>
    obtain ⟨⟨-, noBlank'⟩, later⟩ := List.forall_mem_cons.mp plain
    obtain ⟨fresh, more⟩ := ih later
    -- A keyword is found at the blank in front of a word, and the first word of a part has none.
    constructor
    · have quiet : Quiet (' ' :: (keyword ++ [' '])) w :=
        quiet_of_noSpace _ fun space => by
          have blank := noBlank' ' ' space
          cases blank
      rw [Text.join_cons, splitFrom_quiet quiet, List.append_nil, partsAt]
      have first := more [w] (by simp)
      simpa [Text.join] using first
    · intro part given
      rw [List.flatMap_cons, partsAt]
      by_cases ends : w.map Text.upperAscii = keyword ∧ words ≠ []
      · rw [splitFrom_ending ends.1 ends.2, fresh, if_pos]
        · rfl
        · simp [ends.1, given, ends.2]
      · rw [splitFrom_going_on noBlank noBlank' ends given, more _ (by simp), if_neg]
        simpa [given] using ends

theorem split_words (plain : ∀ w ∈ words, w ≠ [] ∧ Text.NoBlank w) :
    split (' ' :: (keyword ++ [' '])) (Text.join [' '] words) =
      (partsAt (fun w => w.map Text.upperAscii == keyword) [] words).map (Text.join [' ']) := by
  rw [split, (splitFrom_words noBlank plain).1, List.map_map]
  refine List.map_congr_left fun part listed => ?_
  have ends := Text.join_ends fun w (inside : w ∈ part) =>
    (mem_partsAt listed inside).elim (fun none => by cases none) (plain w)
  exact Text.trim_of_ends ends.1 ends.2

end Keywords

theorem split_split_words {words : List (List Char)}
    (plain : ∀ w ∈ words, w ≠ [] ∧ Text.NoBlank w) :
    (split conjunctionKeyword (Text.join [' '] words)).map (split disjunctionKeyword) =
      (partsAt (fun w => w.map Text.upperAscii == ['A', 'N', 'D']) [] words).map fun part =>
        (partsAt (fun w => w.map Text.upperAscii == ['O', 'R']) [] part).map (Text.join [' ']) := by
  have conjunction := split_words (by decide : Text.NoBlank ['A', 'N', 'D']) plain
  have disjunction : ∀ part ∈ partsAt (fun w => w.map Text.upperAscii == ['A', 'N', 'D']) [] words,
      split disjunctionKeyword (Text.join [' '] part) =
        (partsAt (fun w => w.map Text.upperAscii == ['O', 'R']) [] part).map (Text.join [' ']) :=
    fun part listed => split_words (by decide : Text.NoBlank ['O', 'R']) fun w inside =>
      (mem_partsAt listed inside).elim (fun none => by cases none) (plain w)
  refine (congrArg (List.map (split disjunctionKeyword)) conjunction).trans ?_
  rw [List.map_map]
  exact List.map_congr_left disjunction

theorem join_place (row : List (List Mark)) :
    Text.join [' '] (row.map Mark.place) = Mark.place (List.intercalate [.char ' '] row) := by
  induction row with
  | nil => rfl
  | cons word row ih =>
    cases row with
    | nil => simp [Text.join, List.intercalate]
    | cons next row =>
      rw [List.intercalate_cons_cons, Mark.place_append, Mark.place_append, ← ih]
      rfl

/-- The predicates of a query as they are written: those between its `OR`s, for each part between
its `AND`s. -/
def groupMarks (s : List Char) : List (List (List Mark)) :=
  (partsAt (Mark.spells ['A', 'N', 'D']) [] (Mark.words (marksOutside 0 s))).map fun part =>
    (partsAt (Mark.spells ['O', 'R']) [] part).map (List.intercalate [.char ' '])

theorem flatten_groupMarks (s : List Char) : (groupMarks s).flatten = predicateMarks s := by
  rw [groupMarks, predicateMarks, List.map_flatMap, List.flatMap_def]

theorem groupTexts_marks {s : List Char} {q : Query} (read : ofText s = .ok q) :
    (split conjunctionKeyword q.search).map (split disjunctionKeyword) =
      (groupMarks s).map (List.map Mark.place) := by
  obtain ⟨search, collapsed, -, placed, -⟩ := marked_of_read read
  have plain : ∀ w ∈ (Mark.words (marksOutside 0 s)).map Mark.place, w ≠ [] ∧ Text.NoBlank w := by
    rw [← Mark.words_place]
    exact fun w listed => Text.noBlank_of_mem_words listed
  have spelled : ∀ keyword : List Char, '\'' ∉ keyword → '#' ∉ keyword → ∀ words,
      partsAt (fun w => w.map Text.upperAscii == keyword) [] (words.map Mark.place) =
        (partsAt (Mark.spells keyword) [] words).map (List.map Mark.place) :=
    fun keyword noQuote noHash words =>
      partsAt_map (fun w _ => Mark.spells_place noQuote noHash w) []
  rw [collapsed, Text.collapse, placed, Mark.words_place, split_split_words plain,
    spelled _ (by decide) (by decide), groupMarks, List.map_map, List.map_map]
  refine List.map_congr_left fun part _ => ?_
  dsimp only [Function.comp_apply]
  rw [spelled _ (by decide) (by decide), List.map_map, List.map_map]
  exact List.map_congr_left fun row _ => join_place row

theorem predicateTexts_marks {s : List Char} {q : Query} (read : ofText s = .ok q) :
    predicateTexts q.search = (predicateMarks s).map Mark.place := by
  rw [predicateTexts, List.flatMap_def, groupTexts_marks read, ← List.map_flatten,
    flatten_groupMarks]

theorem mem_of_splitOnP {α : Type} {p : α → Bool} {as part : List α}
    (listed : part ∈ as.splitOnP p) {a : α} (inside : a ∈ part) : a ∈ as := by
  induction as generalizing part with
  | nil =>
    rw [List.splitOnP_nil, List.mem_singleton] at listed
    exact listed ▸ inside
  | cons b as ih =>
    rw [List.splitOnP_cons_eq_if_modifyHead] at listed
    split at listed
    · rcases List.mem_cons.mp listed with rfl | later
      · cases inside
      · exact List.mem_cons_of_mem _ (ih later inside)
    · cases parts : as.splitOnP p with
      | nil => exact absurd parts (List.splitOnP_ne_nil _ _)
      | cons first rest =>
        rw [parts, List.modifyHead_cons] at listed
        rcases List.mem_cons.mp listed with rfl | later
        · rcases List.mem_cons.mp inside with rfl | inside
          · exact List.mem_cons_self ..
          · exact List.mem_cons_of_mem _ (ih (parts ▸ List.mem_cons_self ..) inside)
        · exact List.mem_cons_of_mem _ (ih (parts ▸ List.mem_cons_of_mem _ later) inside)

theorem mem_intercalate {α : Type} {separator : List α} {parts : List (List α)} {a : α}
    (inside : a ∈ List.intercalate separator parts) : a ∈ separator ∨ ∃ part ∈ parts, a ∈ part := by
  induction parts with
  | nil => cases inside
  | cons part parts ih =>
    cases parts with
    | nil => exact .inr ⟨part, by simp, by simpa [List.intercalate] using inside⟩
    | cons next rest =>
      rw [List.intercalate_cons_cons, List.mem_append, List.mem_append] at inside
      rcases inside with (here | between) | later
      · exact .inr ⟨part, List.mem_cons_self .., here⟩
      · exact .inl between
      · rcases ih later with between | ⟨part, listed, inside⟩
        · exact .inl between
        · exact .inr ⟨part, List.mem_cons_of_mem _ listed, inside⟩

/-- The marks of a predicate are marks of its query, but for the spaces between its words. -/
theorem mem_predicateMarks {s : List Char} {row : List Mark} (listed : row ∈ predicateMarks s)
    {m : Mark} (inside : m ∈ row) : m = .char ' ' ∨ m ∈ marksOutside 0 s := by
  obtain ⟨words, parts, rfl⟩ := List.mem_map.mp listed
  obtain ⟨part, outer, inner⟩ := List.mem_flatMap.mp parts
  rcases mem_intercalate inside with separator | ⟨word, among, inside⟩
  · exact .inl (List.mem_singleton.mp separator)
  · rcases mem_partsAt inner among with none | among
    · cases none
    · rcases mem_partsAt outer among with none | among
      · cases none
      · exact .inr (mem_of_splitOnP (List.mem_filter.mp among).1 inside)

end Query

def Mark.Held (constants : List (List Char)) (marks : List Mark) : Prop :=
  ∀ number raw, .literal number raw ∈ marks →
    ∃ j, number = j + 1 ∧ constants[j]? = some raw

namespace Query

theorem held_marks {s : List Char} {q : Query} (read : ofText s = .ok q) :
    Mark.Held q.constants (marksOutside 0 s) := by
  obtain ⟨search, -, -, -, held⟩ := marked_of_read read
  intro number raw inside
  obtain ⟨j, same, found⟩ := held number raw inside
  exact ⟨j, by omega, found⟩

theorem held_predicateMarks {s : List Char} {q : Query} (read : ofText s = .ok q)
    {row : List Mark} (listed : row ∈ predicateMarks s) : Mark.Held q.constants row := by
  intro number raw inside
  rcases mem_predicateMarks listed inside with space | inside
  · cases space
  · exact held_marks read number raw inside

end Query

end RecordCodec
