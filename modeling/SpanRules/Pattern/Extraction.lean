import SpanRules.Failure
import SpanRules.Pattern.Basic
import SpanRules.Store.Basic

/-! What a pattern extracts from a span. -/
namespace SpanRules

def Test.holds (ds : Dictionaries) (l : Layer) (t : TokenRef) (word : Text) : Test → Bool
  | .any => true
  | .equals w => word = w
  | .equalsLower w => word.lower = w
  | .inDictionary name => ds.holds name word
  | .lowerInDictionary name => ds.holds name word.lower
  | .propertyIs key value => l.tokenProperty? t key = some value
  | .hasProperty key => (l.tokenProperty? t key).isSome
  | .not x => ! x.holds ds l t word
  | .both x y => x.holds ds l t word && y.holds ds l t word

/-- A span in which a pattern is looked for, with what is known of its tokens. -/
structure Field where
  dictionaries : Dictionaries
  layer : Layer
  span : Span
  tokens : Array Token

namespace Field

def of (ds : Dictionaries) (l : Layer) (s : Span) : Field :=
  ⟨ds, l, s, (l.document s.document).tokens.toArray⟩

def passes (f : Field) (t : Test) (i : Nat) : Bool :=
  match f.tokens[i]? with
  | some tok => t.holds f.dictionaries f.layer ⟨f.span.document, i⟩ tok.word
  | none => false

/-- How many of at most `fuel` tokens from a place on pass a test before the first that fails. -/
def passing (f : Field) (t : Test) : (fuel : Nat) → Nat → Nat
  | 0, _ => 0
  | fuel + 1, i => if f.passes t i then passing f t fuel (i + 1) + 1 else 0

end Field

/-- The numbers from `a` up to `b`, without `b`. -/
def OrderedSet.interval (a b : Nat) : OrderedSet Nat :=
  ⟨List.range' a (b - a), List.pairwise_lt_range'⟩

def Run.ends (r : Run) (f : Field) (p : Nat) : OrderedSet Nat :=
  if r.maximalLeft && f.span.start < p && f.passes r.test (p - 1) then .empty
  else
    let room := f.span.stop - p
    let count := f.passing r.test (r.max.elim room (Nat.min room)) p
    (OrderedSet.interval (p + r.min) (p + count + 1)).filter fun q =>
      ! (r.maximalRight && q < f.span.stop && f.passes r.test q)

def Item.ends (f : Field) (p : Nat) : Item → OrderedSet Nat
  | .gap => .interval p (f.span.stop + 1)
  | .labeled type optional =>
    .ofList ((if optional then [p] else []) ++
      ((f.layer.instancesAt type f.span.document p).map (·.stop)).filter (· ≤ f.span.stop))
  | .run r => r.ends f p

def Field.ends (f : Field) (p : Nat) (items : List Item) : OrderedSet Nat :=
  items.foldl (fun ps item => .unionOf ps.toList fun q => item.ends f q) (.singleton p)

def Alternative.extract (f : Field) : Alternative → OrderedSet Span
  | .whole items =>
    if f.span.stop ∈ f.ends f.span.start items then .singleton f.span else .empty
  | .bracketed before inside after =>
    let opens := (f.ends f.span.start before).toList
    let closes := opens.map fun o => (o, f.ends o inside)
    let good := (OrderedSet.unionOf closes (·.2)).filter fun c => f.span.stop ∈ f.ends c after
    .ofList (closes.flatMap fun e =>
      (e.2.filter good.contains).toList.map fun c => ⟨f.span.document, e.1, c⟩)

namespace Pattern

def undefinedDictionary? (p : Pattern) (ds : Dictionaries) : Option Text :=
  p.dictionaries.find? fun name => ! OrderedMap.contains ds name

/-- What the alternatives extract together, in the order of spans. -/
def extraction (p : Pattern) (ds : Dictionaries) (l : Layer) (s : Span) : OrderedSet Span :=
  .unionOf p.alternatives (·.extract (.of ds l s))

/-- What a pattern extracts from a span; it fails if it uses a dictionary that is not defined. -/
def extract (p : Pattern) (ds : Dictionaries) (l : Layer) (s : Span) :
    Except Failure (OrderedSet Span) :=
  match p.undefinedDictionary? ds with
  | some name => .error (.undefinedDictionary name)
  | none => .ok (p.extraction ds l s)

def hasExtraction (p : Pattern) (ds : Dictionaries) (l : Layer) (s : Span) : Except Failure Bool :=
  (p.extract ds l s).map (! ·.isEmpty)

end Pattern

end SpanRules
