import RecordCodec.Proofs.Outcome
import RecordCodec.Proofs.Search.Predicates

/-!
Chains of parts joined by a keyword. White space collapses around the keywords, a collapsed chain
splits at them into its parts again, and a chain is read as it means when each part is.
-/
namespace RecordCodec.Written

open Query (Piece)
open Query.Piece (placed literals)

def spaced (keyword : List Char) : List Char :=
  ' ' :: (keyword ++ [' '])

namespace Chain

variable {keyword : List Char} {α : Type} (inner : α → List Piece)

/-- The parts behind the first one as texts with placeholders; `n` literals stand before them. -/
def texts (n : Nat) : List (Joint keyword × α) → List (Joint keyword × List Char)
  | [] => []
  | (j, a) :: rest => (j, placed n (inner a)) :: texts (n + (literals (inner a)).length) rest

theorem mem_texts (n : Nat) (rest : List (Joint keyword × α)) {x : Joint keyword × List Char}
    (h : x ∈ texts inner n rest) : ∃ m, ∃ a ∈ rest.map Prod.snd, x.2 = placed m (inner a) := by
  induction rest generalizing n with
  | nil => cases h
  | cons y rest ih =>
    obtain ⟨j, a⟩ := y
    rcases List.mem_cons.mp h with rfl | later
    · exact ⟨n, a, by simp, rfl⟩
    · obtain ⟨m, b, hb, text⟩ := ih _ later
      exact ⟨m, b, List.mem_cons_of_mem _ hb, text⟩

theorem placed_rest (n : Nat) (rest : List (Joint keyword × α)) :
    placed n (rest.flatMap fun (j, a) => .plain j.text :: inner a) =
      (texts inner n rest).flatMap fun (j, s) => j.text ++ s := by
  induction rest generalizing n with
  | nil => rfl
  | cons x rest ih => simp [texts, placed, Piece.placed_append, ih]

end Chain

theorem Joint.word_text {keyword : List Char} (j : Joint keyword) (given : keyword ≠ [])
    (noBlank : Text.NoBlank keyword) : j.word ≠ [] ∧ Text.NoBlank j.word := by
  refine ⟨?_, Text.noBlank_of_upperAscii noBlank j.same_letters⟩
  intro empty
  have same := j.same_letters
  rw [empty] at same
  exact given same.symm

theorem Joint.spaced_word {keyword : List Char} (j : Joint keyword) :
    (spaced j.word).map Text.upperAscii = spaced keyword := by
  have space : Text.upperAscii ' ' = ' ' := by decide
  simp [spaced, j.same_letters, space]

theorem collapse_joined {keyword : List Char} (given : keyword ≠ [])
    (noBlank : Text.NoBlank keyword) {first : List Char} (hfirst : Text.HasWord first)
    (rest : List (Joint keyword × List Char)) (hrest : ∀ x ∈ rest, Text.HasWord x.2) :
    Text.collapse (first ++ rest.flatMap fun (j, s) => j.text ++ s) =
      Query.joined (Text.collapse first)
        (rest.map fun (j, s) => (spaced j.word, Text.collapse s)) := by
  induction rest generalizing first with
  | nil => simp
  | cons x rest ih =>
    obtain ⟨j, s⟩ := x
    have word := j.word_text given noBlank
    have here : Text.HasWord s := hrest (j, s) (List.mem_cons_self ..)
    have later := fun y hy => hrest y (List.mem_cons_of_mem _ hy)
    have text : first ++ ((j, s) :: rest).flatMap (fun (j, s) => j.text ++ s) =
        first ++ (j.before ++ (j.word ++ (j.after ++
          (s ++ rest.flatMap fun (j, s) => j.text ++ s)))) := by
      simp [Joint.text]
    have behind := here.append (rest.flatMap fun (j, s) => j.text ++ s)
    rw [text, Text.collapse_append_blanks _ _ j.before_given j.before_blank hfirst
        ((word.2.hasWord word.1).append _),
      Text.collapse_append_blanks _ _ j.after_given j.after_blank (word.2.hasWord word.1) behind,
      Text.collapse_of_noBlank word.2, ih here later, List.map_cons, Query.joined_cons]
    simp [spaced]

namespace Chain

variable {keyword : List Char} {α : Type} {inner : α → List Piece}

theorem split_placed (c : Chain keyword α) (n : Nat) (given : keyword ≠ [])
    (noBlank : Text.NoBlank keyword)
    (hasWord : ∀ n, ∀ a ∈ c.items, Text.HasWord (placed n (inner a)))
    (quiet : ∀ n, ∀ a ∈ c.items,
      Query.Quiet (spaced keyword) (Text.collapse (placed n (inner a)))) :
    Query.split (spaced keyword) (Text.collapse (placed n (c.pieces inner))) =
      Text.collapse (placed n (inner c.first)) ::
        (texts inner (n + (literals (inner c.first)).length) c.rest).map
          fun x => Text.collapse x.2 := by
  have first : c.first ∈ c.items := List.mem_cons_self ..
  have text := fun x => @mem_texts _ _ inner (n + (literals (inner c.first)).length) c.rest x
  rw [pieces, Piece.placed_append, placed_rest,
    collapse_joined given noBlank (hasWord n _ first), Query.split_joined]
  · simp [Text.trim_collapse, Function.comp_def]
  · simp [spaced]
  · exact quiet n _ first
  · intro x hx
    obtain ⟨⟨j, s⟩, hjs, rfl⟩ := List.mem_map.mp hx
    obtain ⟨m, a, ha, rfl⟩ := text _ hjs
    exact ⟨j.spaced_word, quiet m a (List.mem_cons_of_mem _ ha)⟩
  · intro x hx
    obtain ⟨m, a, ha, same⟩ := text x hx
    rw [same]
    exact hasWord m a (List.mem_cons_of_mem _ ha)

theorem mapM_texts {read : List Char → Except FieldFault SearchNode}
    {node : α → Except FieldFault SearchNode} {constants : List (List Char)} (n : Nat)
    (rest : List (Joint keyword × α))
    (holds : Holds constants n (rest.flatMap fun (j, a) => .plain j.text :: inner a))
    (agree : ∀ n, ∀ a ∈ rest.map Prod.snd, Holds constants n (inner a) →
      read (Text.collapse (placed n (inner a))) = node a) :
    ((texts inner n rest).map fun x => Text.collapse x.2).mapM read =
      (rest.map Prod.snd).mapM node := by
  induction rest generalizing n with
  | nil => rfl
  | cons x rest ih =>
    obtain ⟨j, a⟩ := x
    have both : Holds constants n (inner a ++
        rest.flatMap fun (j, a) => .plain j.text :: inner a) := holds
    have later := ih _ both.right fun m b hb => agree m b (List.mem_cons_of_mem _ hb)
    have here := agree n a (by simp) both.left
    simp only [texts, List.map_cons, List.mapM_cons, here, later]

end Chain

/-- How the compiler reads the parts of a text: a single one as a whole, several one by one. -/
def readParts (whole : Except FieldFault SearchNode)
    (read : List Char → Except FieldFault SearchNode) (join : List SearchNode → SearchNode) :
    List (List Char) → Except FieldFault SearchNode
  | [] | [_] => whole
  | parts => do
    let nodes ← parts.mapM read
    return join nodes

theorem disjunction_parts [Libraries] (t : SearchTarget) (s : List Char) :
    t.disjunction s = readParts (t.predicate (Text.trim s)) t.predicate
      (fun nodes => .branch
        (if SearchTarget.onOneField nodes then .sameField else .disjunction) nodes)
      (Query.split (spaced ['O', 'R']) s) :=
  rfl

theorem conjunction_parts [Libraries] (t : SearchTarget) (s : List Char) :
    t.conjunction s = readParts (t.disjunction s) t.disjunction (.branch .conjunction)
      (Query.split (spaced ['A', 'N', 'D']) s) :=
  rfl

theorem Chain.compile_placed {keyword : List Char} {α : Type} {inner : α → List Piece}
    {whole : Except FieldFault SearchNode} {read : List Char → Except FieldFault SearchNode}
    {node : α → Except FieldFault SearchNode} {join joinMeant : List SearchNode → SearchNode}
    {constants : List (List Char)} (c : Chain keyword α) (n : Nat) (given : keyword ≠ [])
    (noBlank : Text.NoBlank keyword)
    (hasWord : ∀ n, ∀ a ∈ c.items, Text.HasWord (placed n (inner a)))
    (quiet : ∀ n, ∀ a ∈ c.items,
      Query.Quiet (spaced keyword) (Text.collapse (placed n (inner a))))
    (holds : Holds constants n (c.pieces inner))
    (agree : ∀ n, ∀ a ∈ c.items, Holds constants n (inner a) →
      read (Text.collapse (placed n (inner a))) = node a)
    (single : c.rest = [] → whole = node c.first)
    (joins : ∀ nodes, c.items.mapM node = .ok nodes → join nodes = joinMeant nodes) :
    readParts whole read join
      (Query.split (spaced keyword) (Text.collapse (placed n (c.pieces inner)))) =
      c.node node joinMeant := by
  have here := agree n c.first (List.mem_cons_self ..) holds.left
  have later := mapM_texts _ c.rest holds.right fun m a ha => agree m a (List.mem_cons_of_mem _ ha)
  rw [c.split_placed n given noBlank hasWord quiet, Chain.node]
  cases rest : c.rest with
  | nil =>
    have items : c.items = [c.first] := by simp [Chain.items, rest]
    rw [items, texts, List.map_nil, readParts, single rest, List.mapM_cons, List.mapM_nil]
    cases node c.first <;> rfl
  | cons x rest' =>
    have all : c.items.mapM node = (Text.collapse (placed n (inner c.first)) ::
        (texts inner (n + (literals (inner c.first)).length) c.rest).map
          fun x => Text.collapse x.2).mapM read := by
      rw [List.mapM_cons, here, later, Chain.items, List.mapM_cons]
    rw [rest] at all
    rw [texts, List.map_cons, readParts]
    · rw [texts, List.map_cons] at all
      rw [← all]
      cases result : c.items.mapM node with
      | error fault => rfl
      | ok nodes =>
        have count := Outcome.length_of_mapM result
        have several : ∀ x, nodes ≠ [x] := by
          rintro x rfl
          simp [Chain.items, rest] at count
        have meant := joins nodes result
        cases nodes with
        | nil => exact congrArg Except.ok meant
        | cons x nodes =>
          cases nodes with
          | nil => exact absurd rfl (several x)
          | cons y nodes => exact congrArg Except.ok meant
    · simp
    · simp

theorem Chain.valid_pieces {keyword : List Char} {α : Type} {inner : α → List Piece}
    (c : Chain keyword α) (noQuote : '\'' ∉ keyword)
    (valid : ∀ a ∈ c.items, ∀ x ∈ inner a, x.Valid) :
    ∀ x ∈ c.pieces inner, x.Valid := by
  intro x hx
  rcases List.mem_append.mp hx with first | later
  · exact valid _ (List.mem_cons_self ..) x first
  · obtain ⟨⟨j, a⟩, hja, hx⟩ := List.mem_flatMap.mp later
    rcases List.mem_cons.mp hx with rfl | hx
    · intro quote
      have quoteUpper : Text.upperAscii '\'' = '\'' := by decide
      have blank : Text.isBlank '\'' = false := by decide
      rcases List.mem_append.mp quote with before | quote
      · rw [j.before_blank _ before] at blank
        cases blank
      · rcases List.mem_append.mp quote with word | after
        · refine noQuote ?_
          rw [← j.same_letters]
          exact List.mem_map.mpr ⟨_, word, quoteUpper⟩
        · rw [j.after_blank _ after] at blank
          cases blank
    · exact valid a (List.mem_cons_of_mem _ (List.mem_map.mpr ⟨(j, a), hja, rfl⟩)) x hx

end RecordCodec.Written
