import RecordCodec.Proofs.Search.Extraction
import RecordCodec.Search.Compile

/-!
Queries as they are written and what they mean. A query is a chain of groups joined by `AND`, a
group a chain of predicates joined by `OR`. The text of a part is a row of pieces; its meaning is a
search node, said of the parts and not of their text.
-/
namespace RecordCodec.Written

structure Literal where
  raw : List Char
  wellQuoted : Query.WellQuoted raw

structure Bare where
  chars : List Char
  given : chars ≠ []
  noBlank : Text.NoBlank chars
  noQuote : '\'' ∉ chars
  noHash : '#' ∉ chars
  start : ∀ c, chars.head? = some c → Comparator.isOperatorChar c = false ∧ c ≠ '[' ∧ c ≠ '('

inductive Term where
  | literal (l : Literal)
  | bare (b : Bare)

/-- A bound of a range: outside of quotes it has no colon. -/
structure Bound where
  term : Term
  noColon : ∀ b, term = .bare b → ':' ∉ b.chars

inductive Sign where
  | equal
  | doubleEqual
  | notEqual
  | lessGreater
  | less
  | lessOrEqual
  | greater
  | greaterOrEqual

inductive Comparison where
  | single (sign : Sign) (term : Term)
  /-- A range, behind one equality sign or two. -/
  | range (doubled openLow openHigh : Bool) (low high : Bound)

structure Predicate where
  name : List Char
  comparison : Comparison
  noBlank : Text.NoBlank name
  plain : ∀ c ∈ name, c ≠ '\'' ∧ c ≠ '#' ∧ Comparator.isOperatorChar c = false

/-- A keyword between two parts: in any letter case and with any white space around it. -/
structure Joint (keyword : List Char) where
  before : List Char
  word : List Char
  after : List Char
  before_given : before ≠ []
  after_given : after ≠ []
  before_blank : ∀ c ∈ before, Text.isBlank c = true
  after_blank : ∀ c ∈ after, Text.isBlank c = true
  same_letters : word.map Text.upperAscii = keyword

structure Chain (keyword : List Char) (α : Type) where
  first : α
  rest : List (Joint keyword × α)

abbrev Group := Chain ['O', 'R'] Predicate

abbrev Groups := Chain ['A', 'N', 'D'] Group

open Query (Piece)

namespace Sign

def text : Sign → List Char
  | equal => ['=']
  | doubleEqual => ['=', '=']
  | notEqual => ['!', '=']
  | lessGreater => ['<', '>']
  | less => ['<']
  | lessOrEqual => ['<', '=']
  | greater => ['>']
  | greaterOrEqual => ['>', '=']

def comparator : Sign → Comparator
  | equal | doubleEqual => .equal
  | notEqual | lessGreater => .notEqual
  | less => .less
  | lessOrEqual => .lessOrEqual
  | greater => .greater
  | greaterOrEqual => .greaterOrEqual

end Sign

/-! ### Text -/

def Term.pieces : Term → List Piece
  | literal l => [.literal l.raw]
  | bare b => [.plain b.chars]

namespace Comparison

def sign : Comparison → Sign
  | single sign _ => sign
  | range doubled .. => if doubled then .doubleEqual else .equal

def operand : Comparison → List Piece
  | single _ term => term.pieces
  | range _ openLow openHigh low high =>
    .plain [if openLow then '(' else '['] :: (low.term.pieces ++
      (.plain [':'] :: (high.term.pieces ++ [.plain [if openHigh then ')' else ']']])))

end Comparison

def Predicate.pieces (p : Predicate) : List Piece :=
  .plain p.name :: .plain p.comparison.sign.text :: p.comparison.operand

def Joint.text {keyword : List Char} (j : Joint keyword) : List Char :=
  j.before ++ (j.word ++ j.after)

namespace Chain

variable {keyword : List Char} {α : Type}

def items (c : Chain keyword α) : List α :=
  c.first :: c.rest.map Prod.snd

def pieces (inner : α → List Piece) (c : Chain keyword α) : List Piece :=
  inner c.first ++ c.rest.flatMap fun (j, a) => .plain j.text :: inner a

end Chain

namespace Groups

def pieces (q : Groups) : List Piece :=
  Chain.pieces (Chain.pieces Predicate.pieces) q

def text (q : Groups) : List Char :=
  Piece.textOf q.pieces

def predicates (q : Groups) : List Predicate :=
  q.items.flatMap Chain.items

end Groups

/-! ### Meaning -/

/-- The scalar of an operand: the text of a literal with its quotes bare, the bytes of hexadecimal
runs, or the operand's own text. -/
def Term.scalar (order : ByteOrder) : Term → Except FieldFault Scalar
  | literal l => .ok (.text (Operand.unescape l.raw))
  | bare b =>
    if Operand.startsHex b.chars then (Operand.mixed order [] b.chars).map .bytes
    else .ok (.text b.chars)

def Term.value [Libraries] (t : SearchTarget) (type : FieldType) (term : Term) :
    Except FieldFault Value := do
  let scalar ← term.scalar t.byteOrder
  (type.fresh t.platform).assignOperand scalar

def excluded (name : String) (openLow openHigh : Bool) (low high : Value) : List SearchNode :=
  match openLow, openHigh with
  | true, true =>
    [.branch .exclusion
      [.branch .conjunction [.leaf ⟨name, .bound, low⟩, .leaf ⟨name, .notEqual, high⟩]]]
  | true, false => [.branch .exclusion [.leaf ⟨name, .bound, low⟩]]
  | false, true => [.branch .exclusion [.leaf ⟨name, .bound, high⟩]]
  | false, false => []

def rangeNode (mainframe : Bool) (name : String) (openLow openHigh : Bool) (low high : Value) :
    SearchNode :=
  if mainframe then
    .branch .range (.leaf ⟨name, .bound, low⟩ :: .leaf ⟨name, .bound, high⟩ ::
      excluded name openLow openHigh low high)
  else
    .branch .range
      [.leaf ⟨name, if openLow then .greater else .greaterOrEqual, low⟩,
        .leaf ⟨name, if openHigh then .less else .lessOrEqual, high⟩]

def Comparison.node [Libraries] (t : SearchTarget) (name : List Char) (type : FieldType) :
    Comparison → Except FieldFault SearchNode
  | single sign term => do
    let value ← term.value t type
    return .leaf ⟨String.ofList name, sign.comparator, value⟩
  | range _ openLow openHigh low high => do
    let low ← low.term.value t type
    let high ← high.term.value t type
    return rangeNode t.platform.isMainframe (String.ofList name) openLow openHigh low high

namespace Predicate

/-- The field that a predicate compares: the element of a multiple-value field, else the field. -/
def compared (t : SearchTarget) (p : Predicate) : Except FieldFault FieldType :=
  (t.definition.field (String.ofList p.name)).map fun type => type.element?.getD type

def node [Libraries] (t : SearchTarget) (p : Predicate) : Except FieldFault SearchNode := do
  let type ← p.compared t
  p.comparison.node t p.name type

def terms (p : Predicate) : List Term :=
  match p.comparison with
  | .single _ term => [term]
  | .range _ _ _ low high => [low.term, high.term]

/-- One of the predicate's own operands does not parse, or its field does not take it. -/
def Refused [Libraries] (t : SearchTarget) (p : Predicate) (fault : FieldFault) : Prop :=
  ∃ type, p.compared t = .ok type ∧ ∃ term ∈ p.terms, term.value t type = .error fault

end Predicate

def Chain.node {keyword : List Char} {α : Type} (node : α → Except FieldFault SearchNode)
    (join : List SearchNode → SearchNode) (c : Chain keyword α) : Except FieldFault SearchNode := do
  match ← c.items.mapM node with
  | [single] => return single
  | nodes => return join nodes

namespace Group

/-- Whether all predicates of a group compare the field of the first one. -/
def onOneField (t : SearchTarget) (g : Group) : Bool :=
  g.items.all fun p => (p.compared t).toOption.map FieldType.shortName ==
    (g.first.compared t).toOption.map FieldType.shortName

def node [Libraries] (t : SearchTarget) (g : Group) : Except FieldFault SearchNode :=
  Chain.node (Predicate.node t) (.branch (if onOneField t g then .sameField else .disjunction)) g

end Group

def Groups.node [Libraries] (t : SearchTarget) (q : Groups) : Except FieldFault SearchNode :=
  Chain.node (Group.node t) (.branch .conjunction) q

/-- Compiling the text of a query gives the tree that it means, or fails as one of its operands
does. -/
def Groups.Compiles [Libraries] (t : SearchTarget) (q : Groups) : Prop :=
  ∃ query, Query.ofText q.text = .ok query ∧
    ((∃ p ∈ q.predicates, ∃ fault, p.Refused t fault ∧
        query.compile t.platform t.definition t.byteOrder = .error fault) ∨
      ∃ root, q.node t = .ok root ∧
        query.compile t.platform t.definition t.byteOrder =
          .ok ⟨root, t.platform.isMainframe, t.byteOrder⟩)

end RecordCodec.Written
