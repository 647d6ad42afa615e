import SpanRules.Proofs.Canonical
import SpanRules.Proofs.Layer.WellFormed

/-! Items that stand for each other. What leads from the same positions to the same positions may be
exchanged in every context. Main statement: two runs of one test in a row are one run with the sums
of their bounds, and a gap is a run of any tokens. -/
namespace SpanRules

inductive Alternative.Context where
  | whole (left right : List Item)
  | beforeBrackets (left right inside after : List Item)
  | inBrackets (before left right after : List Item)
  | afterBrackets (before inside left right : List Item)

def Alternative.Context.fill (items : List Item) : Alternative.Context → Alternative
  | .whole left right => .whole (left ++ items ++ right)
  | .beforeBrackets left right inside after => .bracketed (left ++ items ++ right) inside after
  | .inBrackets before left right after => .bracketed before (left ++ items ++ right) after
  | .afterBrackets before inside left right => .bracketed before inside (left ++ items ++ right)

structure Pattern.Context where
  before : List Alternative
  alternative : Alternative.Context
  after : List Alternative

/-- The pattern with items at its place. What its source was has no influence on what it extracts. -/
def Pattern.Context.fill (c : Pattern.Context) (items : List Item) (source : List Text) :
    Pattern :=
  ⟨c.before ++ c.alternative.fill items :: c.after, source⟩

/-- A run without regard to its neighbours. -/
def Item.repeated (t : Test) (min : Nat) (max : Option Nat) : Item :=
  .run ⟨t, min, max, false, false⟩

/-- The sum of two upper bounds; there is none if one of them is missing. -/
def sumOfBounds : Option Nat → Option Nat → Option Nat
  | some m, some n => some (m + n)
  | _, _ => none

def Within (lo : Nat) (hi : Option Nat) (n : Nat) : Prop := lo ≤ n ∧ ∀ m, hi = some m → n ≤ m

def Item.dictionaries : Item → List Text
  | .run r => r.test.dictionaries
  | _ => []

theorem Pattern.dictionaries_eq (p : Pattern) :
    p.dictionaries = p.items.flatMap (·.dictionaries) := by
  unfold dictionaries
  congr 1

theorem Alternative.Context.exists_elements_fill (c : Alternative.Context) :
    ∃ es fs : List Element, ∀ items, (c.fill items).elements = es ++ (items.map .item ++ fs) := by
  cases c with
  | whole left right =>
    exact ⟨left.map .item, right.map .item, fun items => by simp [fill, elements]⟩
  | beforeBrackets left right inside after =>
    exact ⟨left.map .item,
      right.map .item ++ (.opening :: (inside.map .item ++ (.closing :: after.map .item))),
      fun items => by simp [fill, elements]⟩
  | inBrackets before left right after =>
    exact ⟨before.map .item ++ (.opening :: left.map .item),
      right.map .item ++ (.closing :: after.map .item), fun items => by simp [fill, elements]⟩
  | afterBrackets before inside left right =>
    exact ⟨before.map .item ++ (.opening :: (inside.map .item ++ (.closing :: left.map .item))),
      right.map .item, fun items => by simp [fill, elements]⟩

def Element.item? : Element → Option Item
  | .item i => some i
  | _ => none

theorem filterMap_item?_map_item (items : List Item) :
    (items.map Element.item).filterMap Element.item? = items := by
  simp [List.filterMap_map, Function.comp_def, Element.item?]

theorem Alternative.items_eq (a : Alternative) : a.items = a.elements.filterMap Element.item? := by
  cases a with
  | whole items => exact (filterMap_item?_map_item items).symm
  | bracketed before inside after =>
    simp only [items, elements, List.filterMap_append, List.filterMap_cons,
      filterMap_item?_map_item, Element.item?, List.append_assoc]

theorem Pattern.Context.exists_items_fill (c : Pattern.Context) :
    ∃ left right : List Item, ∀ items source,
      (c.fill items source).items = left ++ (items ++ right) := by
  obtain ⟨es, fs, h⟩ := c.alternative.exists_elements_fill
  refine ⟨c.before.flatMap (·.items) ++ es.filterMap Element.item?,
    fs.filterMap Element.item? ++ c.after.flatMap (·.items), fun items source => ?_⟩
  have hfill : (c.alternative.fill items).items =
      es.filterMap Element.item? ++ (items ++ fs.filterMap Element.item?) := by
    rw [Alternative.items_eq, h, List.filterMap_append, List.filterMap_append,
      filterMap_item?_map_item]
  simp [fill, Pattern.items, hfill]

section
variable {ds : Dictionaries} {l : Layer} {s : Span} {i : Item} {p q r : Nat} {b c : Brackets}

/-- Whether items can take the place of others in a span: they lead from the same positions to the
same positions, and lack the same dictionary first. -/
structure Interchangeable (ds : Dictionaries) (l : Layer) (s : Span) (items items' : List Item) :
    Prop where
  leads : ∀ p q b c, q ≤ s.stop →
    (Leads ds l s (items.map .item) p b q c ↔ Leads ds l s (items'.map .item) p b q c)
  undefined : ∀ missing : Text → Bool, (items.flatMap (·.dictionaries)).find? missing =
    (items'.flatMap (·.dictionaries)).find? missing

namespace Interchangeable
variable {items items' : List Item}

theorem extracts_iff (h : Interchangeable ds l s items items') (c : Alternative.Context)
    (t : Span) :
    (c.fill items).Extracts ds l s t ↔ (c.fill items').Extracts ds l s t := by
  obtain ⟨es, fs, helements⟩ := c.exists_elements_fill
  have hleads : ∀ b, Leads ds l s (c.fill items).elements s.start .none s.stop b ↔
      Leads ds l s (c.fill items').elements s.start .none s.stop b := by
    intro b
    simp only [helements, leads_append_iff]
    constructor
    · rintro ⟨p, b₁, hes, q, b₂, hitems, hfs⟩
      exact ⟨p, b₁, hes, q, b₂, (h.leads p q b₁ b₂ hfs.le).1 hitems, hfs⟩
    · rintro ⟨p, b₁, hes, q, b₂, hitems, hfs⟩
      exact ⟨p, b₁, hes, q, b₂, (h.leads p q b₁ b₂ hfs.le).2 hitems, hfs⟩
  simp only [Alternative.Extracts, hleads]

theorem extraction_fill (h : Interchangeable ds l s items items') (c : Pattern.Context)
    (source source' : List Text) :
    (c.fill items source).extraction ds l s = (c.fill items' source').extraction ds l s := by
  refine OrderedSet.ext_mem fun t => ?_
  simp only [Pattern.mem_extraction_iff, Pattern.Context.fill, List.mem_append, List.mem_cons,
    or_and_right, exists_or, exists_eq_left, h.extracts_iff]

theorem undefinedDictionary?_fill (h : Interchangeable ds l s items items') (c : Pattern.Context)
    (source source' : List Text) :
    (c.fill items source).undefinedDictionary? ds =
      (c.fill items' source').undefinedDictionary? ds := by
  obtain ⟨left, right, hitems⟩ := c.exists_items_fill
  simp only [Pattern.undefinedDictionary?, Pattern.dictionaries_eq, hitems, List.flatMap_append,
    List.find?_append, h.undefined]

theorem extract_fill (h : Interchangeable ds l s items items') (c : Pattern.Context)
    (source source' : List Text) :
    (c.fill items source).extract ds l s = (c.fill items' source').extract ds l s := by
  unfold Pattern.extract
  rw [h.extraction_fill c source source', h.undefinedDictionary?_fill c source source']

end Interchangeable

theorem leads_item_nil_iff : Leads ds l s [.item i] p b r c ↔
    p ≤ r ∧ i.Relates ds l s p r ∧ b = c := by
  rw [leads_item_iff]
  constructor
  · rintro ⟨q, hpq, hi, hnil⟩
    obtain ⟨rfl, hbc⟩ := leads_nil_iff.1 hnil
    exact ⟨hpq, hi, hbc⟩
  · rintro ⟨hpr, hi, hbc⟩
    exact ⟨r, hpr, hi, leads_nil_iff.2 ⟨rfl, hbc⟩⟩

theorem Item.relates_repeated_iff {t : Test} {lo : Nat} {hi : Option Nat} :
    (Item.repeated t lo hi).Relates ds l s p q ↔
      Within lo hi (q - p) ∧ ∀ k, p ≤ k → k < q → l.Satisfies ds s.document k t := by
  simp [Item.repeated, Item.Relates, Within]

/-- A number lies within the sums of two pairs of bounds if and only if it is the sum of two that
lie within each. -/
theorem within_sumOfBounds_iff {lo lo' n : Nat} {hi hi' : Option Nat}
    (h : ∀ m, hi = some m → lo ≤ m) (h' : ∀ m, hi' = some m → lo' ≤ m) :
    Within (lo + lo') (sumOfBounds hi hi') n ↔
      ∃ k ≤ n, Within lo hi k ∧ Within lo' hi' (n - k) := by
  constructor
  · rintro ⟨hlo, hhi⟩
    -- The first number is as large as its own bound and the least second one allow.
    cases hi with
    | none =>
      refine ⟨n - lo', Nat.sub_le _ _, ⟨by omega, nofun⟩, by omega, fun m hm => ?_⟩
      have := h' m hm
      omega
    | some m =>
      have hm := h m rfl
      refine ⟨min m (n - lo'), by omega, ⟨by omega, fun _ hk => ?_⟩, by omega, fun m' hm' => ?_⟩
      · cases hk
        exact Nat.min_le_left _ _
      · subst hm'
        have hn := hhi (m + m') rfl
        have hm' := h' m' rfl
        omega
  · rintro ⟨k, hk, ⟨hlo, hhi⟩, hlo', hhi'⟩
    refine ⟨by omega, fun x hx => ?_⟩
    cases hi with
    | none => cases hx
    | some m =>
      cases hi' with
      | none => cases hx
      | some m' =>
        cases hx
        have hm := hhi m rfl
        have hm' := hhi' m' rfl
        omega

/-- Two runs of one test in a row relate what one run with the sums of their bounds does. -/
theorem Item.relates_repeated_add_iff {t : Test} {lo lo' : Nat} {hi hi' : Option Nat}
    (h : ∀ m, hi = some m → lo ≤ m) (h' : ∀ m, hi' = some m → lo' ≤ m) :
    (∃ r, p ≤ r ∧ r ≤ q ∧ (Item.repeated t lo hi).Relates ds l s p r ∧
      (Item.repeated t lo' hi').Relates ds l s r q) ↔
    p ≤ q ∧ (Item.repeated t (lo + lo') (sumOfBounds hi hi')).Relates ds l s p q := by
  simp only [Item.relates_repeated_iff, within_sumOfBounds_iff h h']
  constructor
  · intro hsplit
    obtain ⟨r, hpr, hrq, ⟨hfirst, hall⟩, hsecond, hall'⟩ := hsplit
    have hrest : q - p - (r - p) = q - r := by omega
    have hwithin : ∃ k ≤ q - p, Within lo hi k ∧ Within lo' hi' (q - p - k) :=
      ⟨r - p, by omega, hfirst, hrest.symm ▸ hsecond⟩
    have hboth : ∀ k, p ≤ k → k < q → l.Satisfies ds s.document k t := by
      intro k hk hk'
      by_cases hkr : k < r
      · exact hall k hk hkr
      · exact hall' k (by omega) hk'
    exact ⟨Nat.le_trans hpr hrq, hwithin, hboth⟩
  · intro hrun
    obtain ⟨hpq, ⟨k, hk, hfirst, hsecond⟩, hall⟩ := hrun
    have hlength : p + k - p = k := by omega
    have hrest : q - (p + k) = q - p - k := by omega
    refine ⟨p + k, by omega, by omega, ⟨hlength.symm ▸ hfirst, ?_⟩, hrest.symm ▸ hsecond, ?_⟩
    · intro j hj hj'
      exact hall j hj (by omega)
    · intro j hj hj'
      exact hall j (by omega) hj'

theorem interchangeable_repeated (ds : Dictionaries) (l : Layer) (s : Span) (t : Test)
    {lo lo' : Nat} {hi hi' : Option Nat} (h : ∀ m, hi = some m → lo ≤ m)
    (h' : ∀ m, hi' = some m → lo' ≤ m) :
    Interchangeable ds l s [.repeated t lo hi, .repeated t lo' hi']
      [.repeated t (lo + lo') (sumOfBounds hi hi')] := by
  constructor
  · intro p q b c _
    simp only [List.map_cons, List.map_nil, leads_item_nil_iff]
    rw [leads_item_iff, ← and_assoc, ← Item.relates_repeated_add_iff h h']
    simp only [leads_item_nil_iff]
    constructor
    · intro htwo
      obtain ⟨r, hpr, hfirst, hrq, hsecond, hbc⟩ := htwo
      exact ⟨⟨r, hpr, hrq, hfirst, hsecond⟩, hbc⟩
    · intro hone
      obtain ⟨⟨r, hpr, hrq, hfirst, hsecond⟩, hbc⟩ := hone
      exact ⟨r, hpr, hfirst, hrq, hsecond, hbc⟩
  · intro missing
    simp [Item.repeated, Item.dictionaries, List.find?_append]

/-- A gap is a run of any tokens, as long as there is a token at each place of the span. -/
theorem interchangeable_gap (hs : l.documents.HasSpan s) :
    Interchangeable ds l s [.gap] [.repeated .any 0 none] := by
  refine ⟨fun p q b c hq => ?_, fun _ => rfl⟩
  simp only [List.map_cons, List.map_nil, leads_item_nil_iff, Item.relates_repeated_iff]
  obtain ⟨d, hd, -, hstop⟩ := hs
  have hany : ∀ k, k < q → l.Satisfies ds s.document k .any := by
    intro k hk
    have hlt : k < (l.document s.document).tokens.length := by
      rw [Layer.document_of_getElem? hd]
      omega
    exact ⟨_, List.getElem?_eq_getElem hlt, rfl⟩
  constructor
  · rintro ⟨hpq, -, hbc⟩
    exact ⟨hpq, ⟨⟨Nat.zero_le _, nofun⟩, fun k _ hk => hany k hk⟩, hbc⟩
  · rintro ⟨hpq, -, hbc⟩
    exact ⟨hpq, ⟨hpq, hq⟩, hbc⟩

end

/-- In every context, two runs of one test in a row extract what one run with the sums of their
bounds does, and a gap what a run of any tokens does. Of a test nothing is used but whether it holds
at each token. -/
theorem Pattern.extract_repeats (ds : Dictionaries) (l : Layer) (s : Span) (c : Pattern.Context)
    (source source' : List Text) :
    (∀ (t : Test) (lo lo' : Nat) (hi hi' : Option Nat), (∀ m, hi = some m → lo ≤ m) →
      (∀ m, hi' = some m → lo' ≤ m) →
      (c.fill [.repeated t lo hi, .repeated t lo' hi'] source).extract ds l s =
        (c.fill [.repeated t (lo + lo') (sumOfBounds hi hi')] source').extract ds l s) ∧
    (l.documents.HasSpan s →
      (c.fill [.gap] source).extract ds l s =
        (c.fill [.repeated .any 0 none] source').extract ds l s) := by
  constructor
  · intro t lo lo' hi hi' h h'
    exact (interchangeable_repeated ds l s t h h').extract_fill c source source'
  · intro hs
    exact (interchangeable_gap hs).extract_fill c source source'

theorem Pattern.extract_repeats_in_brackets :
    let x : Test := .equals (ascii "x")
    let c : Pattern.Context := ⟨[], .inBrackets [.gap] [] [] [.gap], []⟩
    let l := Layer.ofCorpus [.ofText (ascii "n") (ascii "x x x y")]
    let s : Span := ⟨0, 0, 4⟩
    (∀ m, some 2 = some m → 1 ≤ m) ∧ (∀ m, some 1 = some m → 1 ≤ m) ∧ l.documents.HasSpan s ∧
      (c.fill [.repeated x 1 (some 2), .repeated x 1 (some 1)] []).extract .empty l s =
        (c.fill [.repeated x 2 (some 3)] []).extract .empty l s ∧
      (c.fill [.gap] []).extract .empty l s =
        (c.fill [.repeated .any 0 none] []).extract .empty l s ∧
      ((c.fill [.repeated x 2 (some 3)] []).extraction .empty l s).toList =
        [⟨0, 0, 2⟩, ⟨0, 0, 3⟩, ⟨0, 1, 3⟩] := by
  intro x c l s
  have h : ∀ m, some 2 = some m → 1 ≤ m := by decide
  have h' : ∀ m, some 1 = some m → 1 ≤ m := by decide
  have hs : l.documents.HasSpan s := by decide
  obtain ⟨hrepeats, hgap⟩ := Pattern.extract_repeats .empty l s c [] []
  exact ⟨h, h', hs, hrepeats x 1 1 (some 2) (some 1) h h', hgap hs, by decide⟩

end SpanRules
