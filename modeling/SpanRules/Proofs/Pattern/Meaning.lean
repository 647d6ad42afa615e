import SpanRules.Pattern.Extraction
import SpanRules.Proofs.Layer.Instances

/-! What a pattern means, by positions: an alternative extracts a span if one position for each of
its parts leads from the start of the input to its end. Main statement: extraction by sets of
positions finds exactly the spans that some alternative extracts in this sense. -/
namespace SpanRules

inductive Element where
  | item (i : Item)
  | opening
  | closing
  deriving DecidableEq, Inhabited

def Alternative.elements : Alternative → List Element
  | .whole items => items.map .item
  | .bracketed before inside after =>
    before.map .item ++ (.opening :: (inside.map .item ++ (.closing :: after.map .item)))

/-- Where the brackets of a sequence stand, as far as they have been met. -/
structure Brackets where
  opening : Option Nat
  closing : Option Nat
  deriving DecidableEq, Inhabited

namespace Brackets

def none : Brackets := ⟨.none, .none⟩

/-- The span between the brackets; all of the input if there are none. -/
def span (b : Brackets) (s : Span) : Span :=
  match b with
  | ⟨some o, some c⟩ => ⟨s.document, o, c⟩
  | _ => s

end Brackets

/-- Whether there is a token at a place of a document that passes a test. -/
def Layer.Satisfies (ds : Dictionaries) (l : Layer) (d i : Nat) (t : Test) : Prop :=
  ∃ tok, (l.document d).tokens[i]? = some tok ∧ t.holds ds l ⟨d, i⟩ tok.word = true

/-- The positions that an item relates within an input span. -/
def Item.Relates (ds : Dictionaries) (l : Layer) (s : Span) (p q : Nat) : Item → Prop
  | .gap => p ≤ q ∧ q ≤ s.stop
  | .labeled type optional =>
    (⟨s.document, p, q⟩ ∈ l.instances type ∧ q ≤ s.stop) ∨ (optional = true ∧ q = p)
  | .run r =>
    (r.min ≤ q - p ∧ ∀ max, r.max = some max → q - p ≤ max) ∧
      (∀ i, p ≤ i → i < q → l.Satisfies ds s.document i r.test) ∧
      (r.maximalLeft = true → p = s.start ∨ ¬ l.Satisfies ds s.document (p - 1) r.test) ∧
      (r.maximalRight = true → q = s.stop ∨ ¬ l.Satisfies ds s.document q r.test)

/-- The parts of a sequence lead from one position to another. Brackets stay in place and record
where they stand. -/
inductive Leads (ds : Dictionaries) (l : Layer) (s : Span) :
    List Element → Nat → Brackets → Nat → Brackets → Prop
  | done (p b) : Leads ds l s [] p b p b
  | item {i es p q b r c} : p ≤ q → i.Relates ds l s p q → Leads ds l s es q b r c →
      Leads ds l s (.item i :: es) p b r c
  | opening {es p b r c} : Leads ds l s es p { b with opening := some p } r c →
      Leads ds l s (.opening :: es) p b r c
  | closing {es p b r c} : Leads ds l s es p { b with closing := some p } r c →
      Leads ds l s (.closing :: es) p b r c

/-- An alternative extracts a span if its parts lead from the start of the input to its end. -/
def Alternative.Extracts (ds : Dictionaries) (l : Layer) (s : Span) (a : Alternative)
    (t : Span) : Prop :=
  ∃ b, Leads ds l s a.elements s.start .none s.stop b ∧ b.span s = t

theorem OrderedSet.mem_interval {a b x : Nat} :
    x ∈ OrderedSet.interval a b ↔ a ≤ x ∧ x < b := by
  rw [OrderedSet.mem_def, OrderedSet.interval, List.mem_range'_1]
  omega

namespace Field

theorem passes_of_iff {ds : Dictionaries} {l : Layer} {s : Span} {t : Test} {i : Nat} :
    (Field.of ds l s).passes t i = true ↔ l.Satisfies ds s.document i t := by
  unfold passes Field.of Layer.Satisfies
  simp only [List.getElem?_toArray]
  cases (l.document s.document).tokens[i]? <;> simp

/-- The scan counts at least `n` tokens if and only if there is a run of `n`. -/
theorem le_passing_iff {f : Field} {t : Test} {fuel n i : Nat} :
    n ≤ f.passing t fuel i ↔ n ≤ fuel ∧ ∀ j, i ≤ j → j < i + n → f.passes t j = true := by
  induction fuel generalizing n i with
  | zero =>
    constructor
    · intro h
      simp only [passing] at h
      exact ⟨h, fun j hj hn => by omega⟩
    · rintro ⟨h, -⟩
      exact h
  | succ fuel ih =>
    cases n with
    | zero => simp only [Nat.zero_le, true_and, true_iff]; omega
    | succ n =>
      unfold passing
      split
      · rename_i hi
        rw [Nat.add_le_add_iff_right, ih, Nat.add_le_add_iff_right]
        apply and_congr_right
        intro _
        constructor
        · intro h j hj hn
          by_cases hji : j = i
          · exact hji ▸ hi
          · exact h j (by omega) (by omega)
        · intro h j hj hn
          exact h j (by omega) (by omega)
      · rename_i hi
        constructor
        · intro h
          omega
        · rintro ⟨-, h⟩
          exact absurd (h i (by omega) (by omega)) hi

theorem mem_foldl_ends {f : Field} {items : List Item} {ps : OrderedSet Nat} {q : Nat} :
    q ∈ items.foldl (fun ps item => .unionOf ps.toList fun q => item.ends f q) ps ↔
      ∃ p ∈ ps, q ∈ f.ends p items := by
  induction items generalizing ps with
  | nil => simp [ends]
  | cons i items ih =>
    have hstep : ∀ p, q ∈ f.ends p (i :: items) ↔ ∃ r ∈ i.ends f p, q ∈ f.ends r items := by
      intro p
      rw [ends, List.foldl_cons, ih]
      simp [OrderedSet.singleton]
    rw [List.foldl_cons, ih]
    simp only [hstep, OrderedSet.mem_unionOf]
    constructor
    · rintro ⟨r, ⟨p, hp, hr⟩, hq⟩
      exact ⟨p, hp, r, hr, hq⟩
    · rintro ⟨p, hp, r, hr, hq⟩
      exact ⟨r, ⟨p, hp, hr⟩, hq⟩

@[simp] theorem mem_ends_nil {f : Field} {p q : Nat} : q ∈ f.ends p [] ↔ q = p := by
  simp [ends]

@[simp] theorem mem_ends_cons {f : Field} {i : Item} {items : List Item} {p q : Nat} :
    q ∈ f.ends p (i :: items) ↔ ∃ r ∈ i.ends f p, q ∈ f.ends r items := by
  rw [ends, List.foldl_cons, mem_foldl_ends]
  simp [OrderedSet.singleton]

end Field

section
variable {ds : Dictionaries} {l : Layer} {s : Span}

/-- The scan is cut off at the end of the input and at the upper bound. -/
theorem Run.le_room_iff {r : Run} {room n : Nat} :
    n ≤ r.max.elim room (Nat.min room) ↔ n ≤ room ∧ ∀ max, r.max = some max → n ≤ max := by
  cases r.max with
  | none => simp
  | some max =>
    simp only [Option.elim_some, Option.some.injEq, forall_eq']
    exact Nat.le_min

theorem Run.mem_ends_iff {r : Run} {p q : Nat} (hp : s.start ≤ p) (hq : q ≤ s.stop) :
    q ∈ r.ends (.of ds l s) p ↔ p ≤ q ∧ (Item.run r).Relates ds l s p q := by
  have hfield : (Field.of ds l s).span = s := rfl
  simp only [Run.ends, Item.Relates, hfield]
  by_cases hleft : r.maximalLeft = true ∧ s.start < p ∧ l.Satisfies ds s.document (p - 1) r.test
  · rw [if_pos (by simpa [Field.passes_of_iff, and_assoc] using hleft)]
    refine iff_of_false OrderedSet.not_mem_empty fun ⟨_, _, _, h, _⟩ => ?_
    rcases h hleft.1 with h | h
    · omega
    · exact h hleft.2.2
  have hl : r.maximalLeft = true → p = s.start ∨ ¬ l.Satisfies ds s.document (p - 1) r.test := by
    intro hm
    by_cases h : p = s.start
    · exact .inl h
    · exact .inr fun hs => hleft ⟨hm, by omega, hs⟩
  have hr : (! (r.maximalRight && decide (q < s.stop) &&
        (Field.of ds l s).passes r.test q)) = true ↔
      (r.maximalRight = true → q = s.stop ∨ ¬ l.Satisfies ds s.document q r.test) := by
    rw [← Field.passes_of_iff]
    cases r.maximalRight <;> cases (Field.of ds l s).passes r.test q <;> simp
    omega
  have hcount : (p + r.min ≤ q ∧ q < p + (Field.of ds l s).passing r.test
        (r.max.elim (s.stop - p) (Nat.min (s.stop - p))) p + 1) ↔
      p ≤ q ∧ (r.min ≤ q - p ∧ ∀ max, r.max = some max → q - p ≤ max) ∧
        ∀ i, p ≤ i → i < q → l.Satisfies ds s.document i r.test := by
    by_cases hmin : p + r.min ≤ q
    · have hlt : ∀ n, q < p + n + 1 ↔ q - p ≤ n := by omega
      rw [hlt, Field.le_passing_iff, Run.le_room_iff, show p + (q - p) = q by omega]
      simp only [Field.passes_of_iff]
      constructor
      · rintro ⟨-, ⟨-, hmax⟩, hall⟩
        exact ⟨by omega, ⟨by omega, hmax⟩, hall⟩
      · rintro ⟨-, ⟨-, hmax⟩, hall⟩
        exact ⟨hmin, ⟨by omega, hmax⟩, hall⟩
    · exact iff_of_false (fun h => hmin h.1) fun h => by omega
  rw [if_neg (by simpa [Field.passes_of_iff, and_assoc] using hleft), OrderedSet.mem_filter,
    OrderedSet.mem_interval, hcount, hr]
  constructor
  · rintro ⟨⟨hpq, hbounds, hall⟩, hright⟩
    exact ⟨hpq, hbounds, hall, hl, hright⟩
  · rintro ⟨hpq, hbounds, hall, -, hright⟩
    exact ⟨⟨hpq, hbounds, hall⟩, hright⟩

theorem Item.mem_ends_iff {i : Item} {p q : Nat} (hp : s.start ≤ p) (hq : q ≤ s.stop) :
    q ∈ i.ends (.of ds l s) p ↔ p ≤ q ∧ i.Relates ds l s p q := by
  cases i with
  | gap =>
    have hfield : (Field.of ds l s).span = s := rfl
    simp only [Item.ends, Item.Relates, hfield, OrderedSet.mem_interval]
    omega
  | labeled type optional =>
    have hfield : (Field.of ds l s).span = s ∧ (Field.of ds l s).layer = l := ⟨rfl, rfl⟩
    simp only [Item.ends, Item.Relates, hfield, OrderedSet.mem_ofList, List.mem_append,
      List.mem_filter, List.mem_map, Layer.mem_instancesAt, decide_eq_true_eq]
    constructor
    · rintro (h | ⟨⟨⟨d, b, e⟩, ⟨ht, rfl, rfl, hle⟩, rfl⟩, hstop⟩)
      · cases optional with
        | false => simp at h
        | true =>
          have h : q = p := by simpa using h
          exact ⟨by omega, .inr ⟨rfl, h⟩⟩
      · exact ⟨hle, .inl ⟨ht, hstop⟩⟩
    · rintro ⟨hle, ⟨ht, hstop⟩ | ⟨rfl, rfl⟩⟩
      · exact .inr ⟨⟨_, ⟨ht, rfl, rfl, hle⟩, rfl⟩, hstop⟩
      · exact .inl (by simp)
  | run r => exact Run.mem_ends_iff hp hq

theorem Item.le_of_mem_ends {f : Field} {i : Item} {p q : Nat} (h : q ∈ i.ends f p) : p ≤ q := by
  cases i with
  | gap => exact (OrderedSet.mem_interval.1 h).1
  | labeled type optional =>
    simp only [Item.ends, OrderedSet.mem_ofList, List.mem_append, List.mem_filter, List.mem_map,
      Layer.mem_instancesAt] at h
    rcases h with h | ⟨⟨t, ⟨_, _, _, hle⟩, rfl⟩, _⟩
    · split at h <;> simp_all
    · exact hle
  | run r =>
    simp only [Item.ends, Run.ends] at h
    split at h
    · exact absurd h OrderedSet.not_mem_empty
    · have := (OrderedSet.mem_interval.1 (OrderedSet.mem_filter.1 h).1).1
      omega

theorem Field.le_of_mem_ends {f : Field} {items : List Item} {p q : Nat}
    (h : q ∈ f.ends p items) : p ≤ q := by
  induction items generalizing p with
  | nil => exact Nat.le_of_eq (Field.mem_ends_nil.1 h).symm
  | cons i items ih =>
    obtain ⟨r, hr, hq⟩ := Field.mem_ends_cons.1 h
    exact Nat.le_trans (Item.le_of_mem_ends hr) (ih hq)

theorem Leads.le {es : List Element} {p r : Nat} {b c : Brackets} (h : Leads ds l s es p b r c) :
    p ≤ r := by
  induction h with
  | done => exact Nat.le_refl _
  | item hpq _ _ ih => exact Nat.le_trans hpq ih
  | opening _ ih => exact ih
  | closing _ ih => exact ih

theorem leads_nil_iff {p r : Nat} {b c : Brackets} :
    Leads ds l s [] p b r c ↔ p = r ∧ b = c := by
  constructor
  · intro h
    cases h
    exact ⟨rfl, rfl⟩
  · rintro ⟨rfl, rfl⟩
    exact .done p b

theorem leads_item_iff {i : Item} {es : List Element} {p r : Nat} {b c : Brackets} :
    Leads ds l s (.item i :: es) p b r c ↔
      ∃ q, p ≤ q ∧ i.Relates ds l s p q ∧ Leads ds l s es q b r c := by
  constructor
  · intro h
    cases h with
    | item hpq hi hrest => exact ⟨_, hpq, hi, hrest⟩
  · rintro ⟨q, hpq, hi, hrest⟩
    exact .item hpq hi hrest

theorem leads_append_iff {es fs : List Element} {p r : Nat} {b d : Brackets} :
    Leads ds l s (es ++ fs) p b r d ↔
      ∃ q c, Leads ds l s es p b q c ∧ Leads ds l s fs q c r d := by
  constructor
  · intro h
    induction es generalizing p b with
    | nil => exact ⟨p, b, .done p b, h⟩
    | cons e es ih =>
      cases h with
      | item hpq hi hrest =>
        obtain ⟨q, c, hes, hfs⟩ := ih hrest
        exact ⟨q, c, .item hpq hi hes, hfs⟩
      | opening hrest =>
        obtain ⟨q, c, hes, hfs⟩ := ih hrest
        exact ⟨q, c, .opening hes, hfs⟩
      | closing hrest =>
        obtain ⟨q, c, hes, hfs⟩ := ih hrest
        exact ⟨q, c, .closing hes, hfs⟩
  · rintro ⟨q, c, hes, hfs⟩
    induction hes with
    | done => exact hfs
    | item hpq hi _ ih => exact .item hpq hi (ih hfs)
    | opening _ ih => exact .opening (ih hfs)
    | closing _ ih => exact .closing (ih hfs)

/-- The position sets of the items stand for all ways through them. -/
theorem leads_items_iff {items : List Item} {p r : Nat} {b c : Brackets} (hp : s.start ≤ p)
    (hr : r ≤ s.stop) :
    Leads ds l s (items.map .item) p b r c ↔ r ∈ (Field.of ds l s).ends p items ∧ b = c := by
  induction items generalizing p with
  | nil => rw [List.map_nil, leads_nil_iff, Field.mem_ends_nil, eq_comm]
  | cons i items ih =>
    rw [List.map_cons, leads_item_iff, Field.mem_ends_cons]
    constructor
    · rintro ⟨q, hpq, hi, hrest⟩
      obtain ⟨hr', hbc⟩ := (ih (by omega)).1 hrest
      exact ⟨⟨q, (Item.mem_ends_iff hp (Nat.le_trans hrest.le hr)).2 ⟨hpq, hi⟩, hr'⟩, hbc⟩
    · rintro ⟨⟨q, hq, hr'⟩, hbc⟩
      have hrest := (ih (Nat.le_trans hp (Item.le_of_mem_ends hq))).2 ⟨hr', hbc⟩
      obtain ⟨hpq, hi⟩ := (Item.mem_ends_iff hp (Nat.le_trans hrest.le hr)).1 hq
      exact ⟨q, hpq, hi, hrest⟩

theorem leads_items_append_iff {items : List Item} {es : List Element} {p r : Nat}
    {b c : Brackets} (hp : s.start ≤ p) (hr : r ≤ s.stop) :
    Leads ds l s (items.map .item ++ es) p b r c ↔
      ∃ q ∈ (Field.of ds l s).ends p items, Leads ds l s es q b r c := by
  rw [leads_append_iff]
  constructor
  · rintro ⟨q, d, hitems, hes⟩
    obtain ⟨hq, rfl⟩ := (leads_items_iff hp (Nat.le_trans hes.le hr)).1 hitems
    exact ⟨q, hq, hes⟩
  · rintro ⟨q, hq, hes⟩
    exact ⟨q, b, (leads_items_iff hp (Nat.le_trans hes.le hr)).2 ⟨hq, rfl⟩, hes⟩

/-- The spans of a bracketed sequence are those between a place where the items before the brackets
can end and one from which the items after them lead to the end. -/
theorem Alternative.mem_extract_bracketed {f : Field} {before inside after : List Item} {t : Span} :
    t ∈ (Alternative.bracketed before inside after).extract f ↔
      ∃ o ∈ f.ends f.span.start before, ∃ c ∈ f.ends o inside, f.span.stop ∈ f.ends c after ∧
        t = ⟨f.span.document, o, c⟩ := by
  have hgood : ∀ o c, o ∈ f.ends f.span.start before → c ∈ f.ends o inside →
      (((OrderedSet.unionOf ((f.ends f.span.start before).toList.map fun o => (o, f.ends o inside))
        (·.2)).filter fun c => decide (f.span.stop ∈ f.ends c after)).contains c = true ↔
        f.span.stop ∈ f.ends c after) := by
    intro o c ho hc
    simp only [OrderedSet.contains, decide_eq_true_eq, OrderedSet.mem_filter,
      OrderedSet.mem_unionOf, List.mem_map]
    exact and_iff_right ⟨_, ⟨o, ho, rfl⟩, hc⟩
  simp only [Alternative.extract, OrderedSet.mem_ofList, List.mem_flatMap, List.mem_map]
  constructor
  · rintro ⟨_, ⟨o, ho, rfl⟩, c, hc, rfl⟩
    obtain ⟨hc, hstop⟩ := OrderedSet.mem_filter.1 (OrderedSet.mem_def.2 hc)
    exact ⟨o, ho, c, hc, (hgood o c ho hc).1 hstop, rfl⟩
  · rintro ⟨o, ho, c, hc, hstop, rfl⟩
    exact ⟨_, ⟨o, ho, rfl⟩, c, OrderedSet.mem_filter.2 ⟨hc, (hgood o c ho hc).2 hstop⟩, rfl⟩

theorem Alternative.mem_extract_whole {f : Field} {items : List Item} {t : Span} :
    t ∈ (Alternative.whole items).extract f ↔
      f.span.stop ∈ f.ends f.span.start items ∧ t = f.span := by
  simp only [Alternative.extract]
  split <;> simp_all

/-- Extraction by position sets finds what the parts of the alternative lead to. -/
theorem Alternative.mem_extract_iff {a : Alternative} {t : Span} :
    t ∈ a.extract (.of ds l s) ↔ a.Extracts ds l s t := by
  have hfield : (Field.of ds l s).span = s := rfl
  cases a with
  | whole items =>
    rw [Alternative.mem_extract_whole, hfield]
    simp only [Alternative.Extracts, Alternative.elements,
      leads_items_iff (Nat.le_refl s.start) (Nat.le_refl s.stop)]
    constructor
    · rintro ⟨h, rfl⟩
      exact ⟨.none, ⟨h, rfl⟩, rfl⟩
    · rintro ⟨_, ⟨h, rfl⟩, rfl⟩
      exact ⟨h, rfl⟩
  | bracketed before inside after =>
    rw [Alternative.mem_extract_bracketed, hfield]
    simp only [Alternative.Extracts, Alternative.elements]
    constructor
    · rintro ⟨o, ho, c, hc, hstop, rfl⟩
      have hso := Field.le_of_mem_ends ho
      have hoc := Field.le_of_mem_ends hc
      have hlast := (leads_items_iff (b := ⟨some o, some c⟩) (by omega) (Nat.le_refl _)).2
        ⟨hstop, rfl⟩
      have hclosing : Leads ds l s (.closing :: after.map .item) c ⟨some o, .none⟩ s.stop
          ⟨some o, some c⟩ := .closing hlast
      have hinside := (leads_items_append_iff hso (Nat.le_refl _)).2 ⟨c, hc, hclosing⟩
      exact ⟨_, (leads_items_append_iff (Nat.le_refl _) (Nat.le_refl _)).2
        ⟨o, ho, .opening hinside⟩, rfl⟩
    · rintro ⟨b, h, rfl⟩
      obtain ⟨o, ho, h⟩ := (leads_items_append_iff (Nat.le_refl _) (Nat.le_refl _)).1 h
      have hso := Field.le_of_mem_ends ho
      cases h with
      | opening h =>
        obtain ⟨c, hc, h⟩ := (leads_items_append_iff hso (Nat.le_refl _)).1 h
        have hoc := Field.le_of_mem_ends hc
        cases h with
        | closing h =>
          obtain ⟨hstop, rfl⟩ := (leads_items_iff (by omega) (Nat.le_refl _)).1 h
          exact ⟨o, ho, c, hc, hstop, rfl⟩

theorem Alternative.bounds_of_mem_extract {a : Alternative} {t : Span}
    (h : t ∈ a.extract (.of ds l s)) : s.contains t = true ∧ t.start ≤ t.stop := by
  have hfield : (Field.of ds l s).span = s := rfl
  cases a with
  | whole items =>
    obtain ⟨h, rfl⟩ := Alternative.mem_extract_whole.1 h
    exact ⟨by simp [Span.contains], Field.le_of_mem_ends h⟩
  | bracketed before inside after =>
    obtain ⟨o, ho, c, hc, hstop, rfl⟩ := Alternative.mem_extract_bracketed.1 h
    rw [hfield] at *
    have hso := Field.le_of_mem_ends ho
    have hcs := Field.le_of_mem_ends hstop
    exact ⟨by simp [Span.contains, hso, hcs], Field.le_of_mem_ends hc⟩

namespace Pattern

theorem mem_extraction_iff {p : Pattern} {t : Span} :
    t ∈ p.extraction ds l s ↔ ∃ a ∈ p.alternatives, a.Extracts ds l s t := by
  simp only [extraction, OrderedSet.mem_unionOf, Alternative.mem_extract_iff]

theorem bounds_of_mem_extraction {p : Pattern} {t : Span} (h : t ∈ p.extraction ds l s) :
    s.contains t = true ∧ t.start ≤ t.stop := by
  obtain ⟨a, _, ha⟩ := OrderedSet.mem_unionOf.1 h
  exact Alternative.bounds_of_mem_extract ha

/-- Whether all dictionaries that a pattern uses are defined. -/
def Defined (p : Pattern) (ds : Dictionaries) : Prop :=
  ∀ name ∈ p.dictionaries, OrderedMap.contains ds name = true

instance (p : Pattern) (ds : Dictionaries) : Decidable (p.Defined ds) :=
  inferInstanceAs (Decidable (∀ _ ∈ _, _))

theorem extract_of_defined {p : Pattern} (h : p.Defined ds) :
    p.extract ds l s = .ok (p.extraction ds l s) := by
  have hnone : p.undefinedDictionary? ds = none :=
    List.find?_eq_none.2 fun name hname => by simp [h name hname]
  simp [extract, hnone]

theorem hasExtraction_of_defined {p : Pattern} (h : p.Defined ds) :
    p.hasExtraction ds l s = .ok (! (p.extraction ds l s).isEmpty) := by
  rw [hasExtraction, extract_of_defined h]
  rfl

/-- With all its dictionaries defined, a pattern extracts the increasing list of the spans that its
alternatives extract by positions. They lie within the input. -/
theorem extract_eq_ok_extracts (p : Pattern) (ds : Dictionaries) (l : Layer) (s : Span)
    (h : p.Defined ds) :
    ∃ found, p.extract ds l s = .ok found ∧ found.toList.Pairwise (· < ·) ∧
      (∀ t, t ∈ found.toList ↔ ∃ a ∈ p.alternatives, a.Extracts ds l s t) ∧
      ∀ t ∈ found.toList, s.contains t = true ∧ t.start ≤ t.stop := by
  have hextract : p.extract ds l s = .ok (p.extraction ds l s) := extract_of_defined h
  have hsorted : (p.extraction ds l s).toList.Pairwise (· < ·) := (p.extraction ds l s).sorted
  exact ⟨_, hextract, hsorted, fun _ => mem_extraction_iff, fun _ => bounds_of_mem_extraction⟩

end Pattern

end

theorem Pattern.extract_eq_ok_extracts_longest_run :
    let p : Pattern := ⟨[.bracketed [.gap] [.run ⟨.inDictionary (ascii "d"), 1, none, true, true⟩]
      [.gap]], []⟩
    let ds : Dictionaries := OrderedMap.empty.insert (ascii "d") ⟨.singleton (ascii "x"), true⟩
    let l := Layer.ofCorpus [.ofText (ascii "n") (ascii "a x X b")]
    let s : Span := ⟨0, 0, 4⟩
    p.Defined ds ∧ (∃ found, p.extract ds l s = .ok found ∧ found.toList.Pairwise (· < ·) ∧
      (∀ t, t ∈ found.toList ↔ ∃ a ∈ p.alternatives, a.Extracts ds l s t) ∧
      ∀ t ∈ found.toList, s.contains t = true ∧ t.start ≤ t.stop) ∧
    (p.extraction ds l s).toList = [⟨0, 1, 3⟩] := by
  intro p ds l s
  have h : p.Defined ds := by decide
  exact ⟨h, p.extract_eq_ok_extracts ds l s h, by decide⟩

end SpanRules
