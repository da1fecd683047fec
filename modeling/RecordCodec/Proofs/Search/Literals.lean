import RecordCodec.Libraries.Standard
import RecordCodec.Proofs.Search.Compilation

/-!
Quoted literals are opaque. A text whose quotes are escaped comes back as it was, whatever else it
holds, and a query of such texts compiles to one equality for each.
-/
namespace RecordCodec

namespace Operand

def escape (s : List Char) : List Char :=
  s.flatMap fun c => if c = '\'' then ['\\', '\''] else [c]

theorem unescape_cons {c : Char} {s : List Char} (h : c = '\\' → s.head? ≠ some '\'') :
    unescape (c :: s) = c :: unescape s := by
  rw [unescape.eq_def]
  split
  · rename_i same
    cases same
    exact absurd rfl (h rfl)
  · rename_i same
    cases same
    rfl
  · rename_i same
    cases same

theorem escape_head (s : List Char) : (escape s).head? ≠ some '\'' := by
  cases s with
  | nil => simp [escape]
  | cons c s => by_cases quote : c = '\'' <;> simp [escape, quote]

theorem unescape_escape (s : List Char) : unescape (escape s) = s := by
  induction s with
  | nil => rfl
  | cons c s ih =>
    by_cases quote : c = '\''
    · have text : escape (c :: s) = '\\' :: '\'' :: escape s := by simp [escape, quote]
      rw [text, unescape, ih, quote]
    · have text : escape (c :: s) = c :: escape s := by simp [escape, quote]
      rw [text, unescape_cons fun _ => escape_head s, ih]

theorem endsAtQuote_escape {s : List Char} (escaped : Bool) (given : s = [] → escaped = false)
    (last : s.getLast? ≠ some '\\') : Query.endsAtQuote escaped (escape s) = true := by
  induction s generalizing escaped with
  | nil => simp [escape, Query.endsAtQuote, given rfl]
  | cons c s ih =>
    have tail : s ≠ [] → s.getLast? ≠ some '\\' := by
      intro more h
      obtain ⟨d, s', rfl⟩ := List.exists_cons_of_ne_nil more
      exact last (by simpa [List.getLast?_cons_cons] using h)
    have lastTail : s.getLast? ≠ some '\\' := by
      by_cases more : s = []
      · simp [more]
      · exact tail more
    by_cases quote : c = '\''
    · have text : escape (c :: s) = '\\' :: '\'' :: escape s := by simp [escape, quote]
      have rest := ih false (fun _ => rfl) lastTail
      simp [text, Query.endsAtQuote, rest]
    · have text : escape (c :: s) = c :: escape s := by simp [escape, quote]
      have rest := ih (c == '\\') (fun empty => by subst empty; simpa using last) lastTail
      simp [text, Query.endsAtQuote, quote, rest]

theorem wellQuoted_escape {s : List Char} (last : s.getLast? ≠ some '\\') :
    Query.WellQuoted (escape s) :=
  (Query.endsAtQuote_iff _).mp (endsAtQuote_escape false (fun _ => rfl) last)

end Operand

namespace Written

open Query (Piece)
open Query.Piece (placed literals)

/-- A name that a query can hold without quotes around it. -/
structure PlainName (name : List Char) : Prop where
  given : name ≠ []
  single_spaced : Text.collapse name = name
  noQuote : '\'' ∉ name
  noOperator : Comparator.NoOperator name
  noAnd : Query.Lacks (spaced ['A', 'N', 'D']) name
  noOr : Query.Lacks (spaced ['O', 'R']) name

theorem plainName_of_noBlank {name : List Char} (given : name ≠ []) (noBlank : Text.NoBlank name)
    (noQuote : '\'' ∉ name) (noOperator : Comparator.NoOperator name) :
    PlainName name := by
  have noSpace : ' ' ∉ name := by
    intro space
    have notBlank := noBlank ' ' space
    exact absurd notBlank (by decide)
  exact ⟨given, Text.collapse_of_noBlank noBlank, noQuote, noOperator,
    Query.lacks_of_noSpace _ noSpace, Query.lacks_of_noSpace _ noSpace⟩

structure Equality where
  name : List Char
  text : List Char

namespace Equality

def chars (e : Equality) : List Char :=
  e.name ++ '=' :: '\'' :: (Operand.escape e.text ++ ['\''])

def query (es : List Equality) : List Char :=
  Text.join (spaced ['A', 'N', 'D']) (es.map chars)

def leaf [Libraries] (t : SearchTarget) (e : Equality) :
    Except FieldFault RecordCodec.Predicate := do
  let type ← t.definition.field (String.ofList e.name)
  let value ← ((type.element?.getD type).fresh t.platform).assignOperand (.text e.text)
  return ⟨String.ofList e.name, .equal, value⟩

/-- The query of some equalities compiles to one leaf for each of them, in order. -/
def Compiles [Libraries] (t : SearchTarget) (es : List Equality) : Prop :=
  ∃ compiled root, Query.ofText (query es) = .ok compiled ∧
    compiled.compile t.platform t.definition t.byteOrder =
      .ok ⟨root, t.platform.isMainframe, t.byteOrder⟩ ∧
    root.leaves.map .ok = es.map (leaf t)

def pieces (e : Equality) : List Piece :=
  [.plain (e.name ++ ['=']), .literal (Operand.escape e.text)]

def joint : Joint ['A', 'N', 'D'] where
  before := [' ']
  word := ['A', 'N', 'D']
  after := [' ']
  before_given := by simp
  after_given := by simp
  before_blank := by simp [Text.isBlank]
  after_blank := by simp [Text.isBlank]
  same_letters := by decide

def chain (first : Equality) (rest : List Equality) : Chain ['A', 'N', 'D'] Equality :=
  ⟨first, rest.map fun e => (joint, e)⟩

theorem items_chain (first : Equality) (rest : List Equality) :
    (chain first rest).items = first :: rest := by
  simp [chain, Chain.items, Function.comp_def]

theorem query_chain (first : Equality) (rest : List Equality) :
    query (first :: rest) = Piece.textOf ((chain first rest).pieces pieces) := by
  have one : ∀ e : Equality, e.chars = Piece.textOf e.pieces := by
    intro e
    simp [chars, pieces, Piece.textOf, Piece.text]
  have between : spaced ['A', 'N', 'D'] = joint.text := rfl
  induction rest generalizing first with
  | nil => simp [query, Text.join, chain, Chain.pieces, one]
  | cons next rest ih =>
    have step : query (first :: next :: rest) =
        first.chars ++ spaced ['A', 'N', 'D'] ++ query (next :: rest) := rfl
    rw [step, ih, one, between]
    simp [chain, Chain.pieces, Piece.textOf, Piece.text]

theorem text_placed (n : Nat) (e : Equality) :
    placed n e.pieces = e.name ++ '=' :: Query.placeholder (n + 1) := by
  simp [pieces, placed]

theorem noBlank_operand (n : Nat) : Text.NoBlank ('=' :: Query.placeholder n) :=
  (Operand.noBlank_placeholder n).cons (by decide)

theorem collapse_placed (n : Nat) {e : Equality} (name : PlainName e.name) :
    Text.collapse (placed n e.pieces) = placed n e.pieces := by
  rw [e.text_placed]
  exact Text.collapse_append_noBlank name.single_spaced name.given (noBlank_operand _)

theorem quiet_placed {keyword : List Char} (n : Nat) {e : Equality}
    (lacks : Query.Lacks (spaced keyword) e.name)
    (plain : Comparator.NoOperator (spaced keyword)) :
    Query.Quiet (spaced keyword) (placed n e.pieces) := by
  rw [e.text_placed]
  refine lacks.quiet plain (by decide) ?_
  intro space
  have notBlank := noBlank_operand (n + 1) ' ' space
  exact absurd notBlank (by decide)

theorem compile_placed [Libraries] {t : SearchTarget} (n : Nat) {e : Equality}
    (name : PlainName e.name)
    (holds : Holds t.constants n e.pieces) :
    t.disjunction (Text.collapse (placed n e.pieces)) = (e.leaf t).map .leaf := by
  have quiet := quiet_placed n name.noOr (by decide)
  have trimmed : Text.trim (placed n e.pieces) = placed n e.pieces := by
    rw [← collapse_placed n name]
    exact Text.trim_collapse _
  have alone : Query.split (spaced ['O', 'R']) (placed n e.pieces) = [placed n e.pieces] := by
    have noMore : ∀ x ∈ ([] : List (List Char × List Char)),
        x.1.map Text.upperAscii = spaced ['O', 'R'] ∧ Query.Quiet (spaced ['O', 'R']) x.2 := by
      simp
    have h := Query.split_joined (by simp [spaced]) quiet noMore
    rwa [Query.joined_nil, trimmed] at h
  have nameTrimmed : Text.trim e.name = e.name := by
    rw [← name.single_spaced]
    exact Text.trim_collapse _
  have start : Query.placeholder (n + 1) = '#' :: '{' :: (Text.ofNat (n + 1) ++ ['}']) := rfl
  have parts := Query.predicateParts_text .equal name.given nameTrimmed name.noOperator start
    (by decide) (Text.trim_of_noBlank (Operand.noBlank_placeholder _))
  have found : t.constants[n]? = some (Operand.escape e.text) := by
    obtain ⟨rest, h⟩ := holds
    have first : (t.constants.drop n)[0]? = some (Operand.escape e.text) := by
      rw [← h]
      rfl
    simpa using first
  have noRange : Query.isRange (Query.placeholder (n + 1)) = false := by
    simp [Query.isRange, Query.placeholder]
  have read : t.predicate (placed n e.pieces) =
      t.leaf e.name .equal (Query.placeholder (n + 1)) := by
    have h := t.predicate_of_parts parts
    rw [noRange, if_neg (by simp)] at h
    rw [e.text_placed]
    exact h
  rw [collapse_placed n name, disjunction_parts, alone, readParts, trimmed, read]
  rw [SearchTarget.leaf, Operand.ofText_placeholder found, Operand.unescape_escape, leaf]
  cases t.definition.field (String.ofList e.name) with
  | error fault => rfl
  | ok type =>
    cases value : ((type.element?.getD type).fresh t.platform).assignOperand (.text e.text) <;>
      simp [value, bind, Except.bind, Except.map, pure, Except.pure]

theorem valid_pieces {e : Equality} (name : PlainName e.name)
    (last : e.text.getLast? ≠ some '\\') : ∀ x ∈ e.pieces, x.Valid := by
  intro x hx
  rcases List.mem_cons.mp hx with rfl | hx
  · intro quote
    rcases List.mem_append.mp quote with inName | sign
    · exact name.noQuote inName
    · exact absurd sign (by decide)
  · cases List.mem_singleton.mp hx
    exact Operand.wellQuoted_escape last

theorem exists_leaves [Libraries] {t : SearchTarget} {es : List Equality}
    (accepted : ∀ e ∈ es, ∃ p, e.leaf t = .ok p) :
    ∃ ps : List RecordCodec.Predicate, ps.map .ok = es.map (leaf t) ∧
      es.mapM (fun e => (e.leaf t).map SearchNode.leaf) = .ok (ps.map .leaf) := by
  induction es with
  | nil => exact ⟨[], rfl, rfl⟩
  | cons e es ih =>
    obtain ⟨p, hp⟩ := accepted e (List.mem_cons_self ..)
    obtain ⟨ps, same, read⟩ := ih fun e' he' => accepted e' (List.mem_cons_of_mem _ he')
    refine ⟨p :: ps, by simp [hp, same], ?_⟩
    rw [List.mapM_cons, read, hp]
    rfl

theorem leavesOfAll_leaves (ps : List RecordCodec.Predicate) :
    SearchNode.leavesOfAll (ps.map .leaf) = ps := by
  induction ps with
  | nil => rfl
  | cons p ps ih => simp [SearchNode.leavesOfAll, SearchNode.leaves, ih]

end Equality

open Equality in
/-- Quoted texts are opaque: whatever they hold, they reach their fields as they were. -/
theorem quoted_texts_compile [Libraries] (t : SearchTarget) (es : List Equality) (given : es ≠ [])
    (names : ∀ e ∈ es, PlainName e.name)
    (ends : ∀ e ∈ es, e.text.getLast? ≠ some '\\')
    (accepted : ∀ e ∈ es, ∃ p, e.leaf t = .ok p) : Equality.Compiles t es := by
  obtain ⟨first, rest, rfl⟩ := List.exists_cons_of_ne_nil given
  obtain ⟨ps, same, read⟩ := exists_leaves accepted
  have items := items_chain first rest
  have named : ∀ e ∈ (chain first rest).items, PlainName e.name := items ▸ names
  have valid : ∀ x ∈ (chain first rest).pieces pieces, x.Valid := by
    apply Chain.valid_pieces _ (by decide)
    intro e he
    exact valid_pieces (named e he) (ends e (items ▸ he))
  let target : SearchTarget :=
    { t with constants := literals ((chain first rest).pieces pieces) }
  have whole := fun n (e : Equality) (he : e ∈ (chain first rest).items)
      (holds : Holds target.constants n e.pieces) => compile_placed n (named e he) holds
  have compiled : target.conjunction
      (Text.collapse (placed 0 ((chain first rest).pieces pieces))) =
        (chain first rest).node (fun e => (e.leaf t).map .leaf) (.branch .conjunction) := by
    rw [conjunction_parts]
    apply Chain.compile_placed _ 0 (by simp) (by decide) _ _ (by simp [Holds, target]) whole
    · intro alone
      have text : (chain first rest).pieces pieces = (chain first rest).first.pieces := by
        simp [Chain.pieces, alone]
      have holds : Holds target.constants 0 (chain first rest).first.pieces := by
        simp [Holds, target, text]
      rw [text]
      exact whole 0 _ (List.mem_cons_self ..) holds
    · intro nodes _
      rfl
    · intro n e _
      exact ⟨'=', by simp [e.text_placed], by decide⟩
    · intro n e he
      rw [collapse_placed n (named e he)]
      exact quiet_placed n (named e he).noAnd (by decide)
  have root : ∃ root, (chain first rest).node (fun e => (e.leaf t).map .leaf)
      (.branch .conjunction) = .ok root ∧ root.leaves = ps := by
    rw [Chain.node, items, read]
    cases ps with
    | nil => cases same
    | cons p ps =>
      cases ps with
      | nil => exact ⟨.leaf p, rfl, rfl⟩
      | cons q ps => exact ⟨_, rfl, leavesOfAll_leaves (p :: q :: ps)⟩
  obtain ⟨root, tree, leaves⟩ := root
  refine ⟨_, root, query_chain first rest ▸ Query.ofText_textOf valid, ?_, by rw [leaves, same]⟩
  have compile : Query.compile ⟨Text.collapse (placed 0 ((chain first rest).pieces pieces)),
      literals ((chain first rest).pieces pieces)⟩ t.platform t.definition t.byteOrder =
      (target.conjunction (Text.collapse (placed 0 ((chain first rest).pieces pieces)))).map
        fun root => ⟨root, t.platform.isMainframe, t.byteOrder⟩ := rfl
  rw [compile, compiled, tree]
  rfl

/-- Two texts that hold syntax: a keyword behind a quote, and a backslash with a placeholder. -/
def sampleEqualities : List Equality :=
  [⟨['A', 'A'], "O' AND AA=1".toList⟩, ⟨['A', 'A'], "\\'#\x7b1\x7d".toList⟩]

theorem sample_texts_compile :
    sampleEqualities ≠ [] ∧ (∀ e ∈ sampleEqualities, PlainName e.name) ∧
      (∀ e ∈ sampleEqualities, e.text.getLast? ≠ some '\\') ∧
      (∀ e ∈ sampleEqualities, ∃ p, e.leaf sampleTarget = .ok p) ∧
      Equality.Compiles sampleTarget sampleEqualities := by
  have given : sampleEqualities ≠ [] := by simp [sampleEqualities]
  have plain : PlainName ['A', 'A'] :=
    plainName_of_noBlank (by simp) (by decide) (by decide) (by decide)
  have names : ∀ e ∈ sampleEqualities, PlainName e.name := by
    intro e he
    rcases List.mem_cons.mp he with rfl | he
    · exact plain
    · cases List.mem_singleton.mp he
      exact plain
  have ends : ∀ e ∈ sampleEqualities, e.text.getLast? ≠ some '\\' := by
    intro e he
    rcases List.mem_cons.mp he with rfl | he
    · decide
    · cases List.mem_singleton.mp he
      decide
  have accepted : ∀ e ∈ sampleEqualities, ∃ p, e.leaf sampleTarget = .ok p := by
    intro e he
    rcases List.mem_cons.mp he with rfl | he
    · exact ⟨_, rfl⟩
    · cases List.mem_singleton.mp he
      exact ⟨_, rfl⟩
  exact ⟨given, names, ends, accepted,
    quoted_texts_compile sampleTarget sampleEqualities given names ends accepted⟩

/-- A backslash at the end of a text takes the closing quote with it, a name with white space, a
quote, an operator or a keyword is cut there, and without any text there is no query. -/
theorem not_all_quoted_texts_compile :
    (∃ p, (⟨['A', 'A'], ['\\']⟩ : Equality).leaf sampleTarget = .ok p) ∧
      ¬Equality.Compiles sampleTarget [⟨['A', 'A'], ['\\']⟩] ∧
      ¬Equality.Compiles sampleTarget [] ∧
      ∀ name ∈ oddNames, (∃ p, (⟨name.toList, ['X']⟩ : Equality).leaf sampleTarget = .ok p) ∧
        ¬Equality.Compiles sampleTarget [⟨name.toList, ['X']⟩] := by
  refine ⟨⟨_, rfl⟩, ?_, ?_, ?_⟩
  · rintro ⟨_, _, extracted, -⟩
    cases extracted
  · rintro ⟨_, _, extracted, compiled, -⟩
    cases extracted
    cases compiled
  · intro name hname
    simp only [oddNames, List.mem_cons, List.not_mem_nil, or_false] at hname
    rcases hname with rfl | rfl | rfl | rfl | rfl | rfl <;> refine ⟨⟨_, rfl⟩, ?_⟩ <;>
      rintro ⟨_, _, extracted, compiled, -⟩ <;> cases extracted <;> cases compiled

end Written

end RecordCodec
