import SpanRules.Proofs.Layer.Labels
import SpanRules.Proofs.Pattern.Meaning

/-! What a pattern can see of its input: the words of the tokens in it, the properties of these
tokens that its tests name, and the instances in it of the types that its items name. Main
statements: what a pattern extracts depends on nothing else, and further instances take no
extraction away. -/
namespace SpanRules

/-- The properties that a test names, however deeply they are nested. -/
def Test.keys : Test → List Text
  | .propertyIs key _ | .hasProperty key => [key]
  | .not t => t.keys
  | .both t u => t.keys ++ u.keys
  | _ => []

def Item.keys : Item → List Text
  | .run r => r.test.keys
  | _ => []

def Item.types : Item → List Text
  | .labeled type _ => [type]
  | _ => []

def Pattern.keys (p : Pattern) : List Text := p.items.flatMap (·.keys)

def Pattern.types (p : Pattern) : List Text := p.items.flatMap (·.types)

/-- What one layer shows in a span is shown by another: the same words, the same values of some
properties, and at least the instances of some types. -/
structure Layer.ShownIn (keys types : List Text) (s : Span) (l l' : Layer) : Prop where
  tokens : (l'.document s.document).tokens = (l.document s.document).tokens
  properties : ∀ key ∈ keys, ∀ i, s.start ≤ i → i < s.stop →
    l'.tokenProperty? ⟨s.document, i⟩ key = l.tokenProperty? ⟨s.document, i⟩ key
  instances : ∀ type ∈ types, ∀ p q, s.start ≤ p → p ≤ q → q ≤ s.stop →
    ⟨s.document, p, q⟩ ∈ l.instances type → ⟨s.document, p, q⟩ ∈ l'.instances type

variable {keys types : List Text} {ds : Dictionaries} {s : Span} {l l' : Layer}

theorem Layer.ShownIn.mono {keys' types' : List Text} (h : l.ShownIn keys types s l')
    (hkeys : keys' ⊆ keys) (htypes : types' ⊆ types) : l.ShownIn keys' types' s l' :=
  ⟨h.tokens, fun key hkey => h.properties key (hkeys hkey),
    fun type htype => h.instances type (htypes htype)⟩

theorem Layer.ShownIn.of_documents (hdocs : l'.documents = l.documents)
    (hkeys : ∀ key ∈ keys, ∀ t, l'.tokenProperty? t key = l.tokenProperty? t key)
    (htypes : ∀ type ∈ types, ∀ t ∈ l.instances type, t ∈ l'.instances type) :
    l.ShownIn keys types s l' :=
  ⟨by rw [Layer.document, hdocs, Layer.document], fun key hkey _ _ _ => hkeys key hkey _,
    fun type htype _ _ _ _ _ => htypes type htype _⟩

/-- A test reads no property but those that it names. -/
theorem Test.holds_congr {t : Test} {u : TokenRef} {word : Text}
    (h : ∀ key ∈ t.keys, l'.tokenProperty? u key = l.tokenProperty? u key) :
    t.holds ds l' u word = t.holds ds l u word := by
  induction t with
  | propertyIs key value => simp [holds, h key (by simp [keys])]
  | hasProperty key => simp [holds, h key (by simp [keys])]
  | not t ih => simp [holds, ih h]
  | both t u iht ihu =>
    have ht := iht fun key hkey => h key (List.mem_append_left _ hkey)
    have hu := ihu fun key hkey => h key (List.mem_append_right _ hkey)
    simp [holds, ht, hu]
  | _ => rfl

theorem Layer.satisfies_iff_word {d i : Nat} {t : Test} : l.Satisfies ds d i t ↔
    ∃ word, (l.document d).tokens[i]?.map (·.word) = some word ∧
      t.holds ds l ⟨d, i⟩ word = true := by
  simp only [Layer.Satisfies, Option.map_eq_some_iff]
  constructor
  · rintro ⟨tok, htok, hholds⟩
    exact ⟨tok.word, ⟨tok, htok, rfl⟩, hholds⟩
  · rintro ⟨_, ⟨tok, htok, rfl⟩, hholds⟩
    exact ⟨tok, htok, hholds⟩

/-- Whether a test holds of a token depends on its word and on the properties that are named. -/
theorem Layer.satisfies_congr {d i : Nat} {t : Test}
    (hword : (l'.document d).tokens[i]?.map (·.word) = (l.document d).tokens[i]?.map (·.word))
    (hkeys : ∀ key ∈ t.keys, l'.tokenProperty? ⟨d, i⟩ key = l.tokenProperty? ⟨d, i⟩ key) :
    l'.Satisfies ds d i t ↔ l.Satisfies ds d i t := by
  have hholds : ∀ word, t.holds ds l' ⟨d, i⟩ word = t.holds ds l ⟨d, i⟩ word :=
    fun _ => Test.holds_congr hkeys
  simp only [satisfies_iff_word, hword, hholds]

/-- Whether another layer shows all that an item finds in a span: its test holds of the same tokens,
and the instances of its type are there. -/
def Item.CarriesOver (ds : Dictionaries) (s : Span) (l l' : Layer) : Item → Prop
  | .gap => True
  | .labeled type _ => ∀ p q, s.start ≤ p → p ≤ q → q ≤ s.stop →
      ⟨s.document, p, q⟩ ∈ l.instances type → ⟨s.document, p, q⟩ ∈ l'.instances type
  | .run r => ∀ i, s.start ≤ i → i < s.stop →
      (l'.Satisfies ds s.document i r.test ↔ l.Satisfies ds s.document i r.test)

/-- The neighbours of a run at the borders of the span are not looked at. -/
theorem Item.Relates.carryOver {i : Item} {p q : Nat} (hi : i.Relates ds l s p q)
    (h : i.CarriesOver ds s l l') (hp : s.start ≤ p) (hpq : p ≤ q) (hq : q ≤ s.stop) :
    i.Relates ds l' s p q := by
  cases i with
  | gap => exact hi
  | labeled type optional => exact hi.imp_left fun ⟨hmem, hstop⟩ => ⟨h p q hp hpq hq hmem, hstop⟩
  | run r =>
    obtain ⟨hcount, hall, hleft, hright⟩ := hi
    refine ⟨hcount, fun i hpi hiq => ?_, fun hmax => ?_, fun hmax => ?_⟩
    · exact (h i (by omega) (by omega)).2 (hall i hpi hiq)
    · by_cases hps : p = s.start
      · exact .inl hps
      · rw [h (p - 1) (by omega) (by omega)]
        exact hleft hmax
    · by_cases hqs : q = s.stop
      · exact .inl hqs
      · rw [h q (by omega) (by omega)]
        exact hright hmax

theorem Leads.carryOver {es : List Element} {p r : Nat} {b c : Brackets}
    (hes : Leads ds l s es p b r c) (h : ∀ i, .item i ∈ es → i.CarriesOver ds s l l')
    (hp : s.start ≤ p) (hr : r ≤ s.stop) : Leads ds l' s es p b r c := by
  induction hes with
  | done p b => exact .done p b
  | item hpq hi hrest ih =>
    have hqr := hrest.le
    refine .item hpq (hi.carryOver (h _ List.mem_cons_self) hp hpq (by omega)) ?_
    exact ih (fun i hi => h i (List.mem_cons_of_mem _ hi)) (by omega) hr
  | opening _ ih => exact .opening (ih (fun i hi => h i (List.mem_cons_of_mem _ hi)) hp hr)
  | closing _ ih => exact .closing (ih (fun i hi => h i (List.mem_cons_of_mem _ hi)) hp hr)

theorem Layer.ShownIn.carriesOver {i : Item} (h : l.ShownIn i.keys i.types s l') :
    i.CarriesOver ds s l l' := by
  cases i with
  | gap => trivial
  | labeled type optional => exact h.instances type (by simp [Item.types])
  | run r =>
    intro i hstart hstop
    exact satisfies_congr (by rw [h.tokens]) fun key hkey => h.properties key hkey i hstart hstop

/-- Two layers show the same in a span: the words and the properties of its tokens, and the
instances that lie in it. -/
structure Layer.AgreeIn (s : Span) (l l' : Layer) : Prop where
  words : ∀ i, s.start ≤ i → i < s.stop →
    (l'.document s.document).tokens[i]?.map (·.word) =
      (l.document s.document).tokens[i]?.map (·.word)
  properties : ∀ i, s.start ≤ i → i < s.stop → ∀ key,
    l'.tokenProperty? ⟨s.document, i⟩ key = l.tokenProperty? ⟨s.document, i⟩ key
  instances : ∀ type p q, s.start ≤ p → p ≤ q → q ≤ s.stop →
    (⟨s.document, p, q⟩ ∈ l'.instances type ↔ ⟨s.document, p, q⟩ ∈ l.instances type)

theorem Layer.AgreeIn.symm (h : l.AgreeIn s l') : l'.AgreeIn s l :=
  ⟨fun i hstart hstop => (h.words i hstart hstop).symm,
    fun i hstart hstop key => (h.properties i hstart hstop key).symm,
    fun type p q hp hpq hq => (h.instances type p q hp hpq hq).symm⟩

theorem Layer.AgreeIn.carriesOver {i : Item} (h : l.AgreeIn s l') : i.CarriesOver ds s l l' := by
  cases i with
  | gap => trivial
  | labeled type optional => exact fun p q hp hpq hq => (h.instances type p q hp hpq hq).2
  | run r =>
    intro i hstart hstop
    exact satisfies_congr (h.words i hstart hstop) fun key _ => h.properties i hstart hstop key

theorem Alternative.mem_items_of_mem_elements {a : Alternative} {i : Item}
    (h : .item i ∈ a.elements) : i ∈ a.items := by
  cases a with
  | whole items => simpa [elements, Alternative.items] using h
  | bracketed before inside after => simpa [elements, Alternative.items] using h

namespace Pattern
variable {p : Pattern} {t : Span}

theorem mem_extraction_carryOver (h : ∀ i ∈ p.items, i.CarriesOver ds s l l')
    (ht : t ∈ p.extraction ds l s) : t ∈ p.extraction ds l' s := by
  obtain ⟨a, ha, b, hb, rfl⟩ := mem_extraction_iff.1 ht
  refine mem_extraction_iff.2 ⟨a, ha, b, ?_, rfl⟩
  refine hb.carryOver (fun i hi => h i ?_) (Nat.le_refl _) (Nat.le_refl _)
  exact List.mem_flatMap.2 ⟨a, ha, a.mem_items_of_mem_elements hi⟩

/-- Further instances take no extraction away. -/
theorem mem_extraction_mono (h : l.ShownIn p.keys p.types s l') (ht : t ∈ p.extraction ds l s) :
    t ∈ p.extraction ds l' s := by
  refine mem_extraction_carryOver (fun i hi => Layer.ShownIn.carriesOver ?_) ht
  exact h.mono (fun _ hkey => List.mem_flatMap.2 ⟨i, hi, hkey⟩)
    fun _ htype => List.mem_flatMap.2 ⟨i, hi, htype⟩

/-- Layers that look the same to a pattern in a span give the same extraction. -/
theorem extraction_congr (h : l.ShownIn p.keys p.types s l') (h' : l'.ShownIn p.keys p.types s l) :
    p.extraction ds l' s = p.extraction ds l s :=
  OrderedSet.ext_mem fun _ => ⟨mem_extraction_mono h', mem_extraction_mono h⟩

/-- Where instances are added and all else stays, nothing that a pattern extracted is lost, whatever
its tests negate and wherever its runs are maximal. Whether it extracts anything can only change from
no to yes. -/
theorem extract_monotone (p : Pattern) (ds : Dictionaries) (s : Span) (l l' : Layer)
    (htokens : ∀ d, (l'.document d).tokens = (l.document d).tokens)
    (hproperties : ∀ u key, l'.tokenProperty? u key = l.tokenProperty? u key)
    (hinstances : ∀ type, ∀ t ∈ l.instances type, t ∈ l'.instances type) :
    (∀ found, p.extract ds l s = .ok found →
      ∃ found', p.extract ds l' s = .ok found' ∧ ∀ t ∈ found, t ∈ found') ∧
    (p.hasExtraction ds l' s = p.hasExtraction ds l s ∨
      p.hasExtraction ds l s = .ok false ∧ p.hasExtraction ds l' s = .ok true) := by
  have hshown : l.ShownIn p.keys p.types s l' :=
    ⟨htokens s.document, fun key _ _ _ _ => hproperties _ key, fun type _ _ _ _ _ _ =>
      hinstances type _⟩
  have hmono : ∀ t ∈ p.extraction ds l s, t ∈ p.extraction ds l' s :=
    fun _ => mem_extraction_mono hshown
  unfold hasExtraction extract
  cases p.undefinedDictionary? ds with
  | some name => exact ⟨fun _ h => (nomatch h), .inl rfl⟩
  | none =>
    refine ⟨fun found h => ?_, ?_⟩
    · cases h
      exact ⟨_, rfl, hmono⟩
    · simp only [Except.map]
      cases hempty : (p.extraction ds l s).isEmpty with
      | true => cases (p.extraction ds l' s).isEmpty <;> simp
      | false =>
        have hempty' : (p.extraction ds l' s).isEmpty = false := by
          obtain ⟨t, ht⟩ := OrderedSet.isEmpty_eq_false_iff.1 hempty
          exact OrderedSet.isEmpty_eq_false_iff.2 ⟨t, hmono t ht⟩
        simp [hempty']

theorem extract_monotone_maximal_negation :
    let word := ascii "t"
    let p : Pattern := ⟨[.bracketed [] [.run ⟨.not (.equals (ascii "b")), 1, none, true, true⟩]
      [.labeled word false], .bracketed [] [.labeled word false] [.gap]], []⟩
    let l := (Layer.ofCorpus [.ofText (ascii "n") (ascii "x y b")]).addToType word ⟨0, 2, 3⟩
    let l' := l.addToType word ⟨0, 0, 1⟩
    let s : Span := ⟨0, 0, 3⟩
    (∀ d, (l'.document d).tokens = (l.document d).tokens) ∧
      (∀ u key, l'.tokenProperty? u key = l.tokenProperty? u key) ∧
      (∀ type, ∀ t ∈ l.instances type, t ∈ l'.instances type) ∧
      (∃ found', p.extract .empty l' s = .ok found' ∧
        ∀ t ∈ p.extraction .empty l s, t ∈ found') ∧
      (p.extraction .empty l s).toList = [⟨0, 0, 2⟩] := by
  intro word p l l' s
  have hinstances : ∀ type, ∀ t ∈ l.instances type, t ∈ l'.instances type :=
    fun _ _ ht => Layer.mem_instances_addToType.2 (.inr ht)
  have hmono := p.extract_monotone .empty s l l' (fun _ => rfl) (fun _ _ => rfl) hinstances
  exact ⟨fun _ => rfl, fun _ _ => rfl, hinstances, hmono.1 _ (extract_of_defined (by decide)),
    by decide⟩

/-- Nothing outside a span has an influence on what a pattern extracts from it: neither the words
and properties of other tokens, even next to it, nor the instances that reach out of it. -/
theorem extract_local (p : Pattern) (ds : Dictionaries) (s : Span) (l l' : Layer)
    (h : l.AgreeIn s l') : p.extract ds l' s = p.extract ds l s := by
  have hsame : p.extraction ds l' s = p.extraction ds l s :=
    OrderedSet.ext_mem fun _ => ⟨mem_extraction_carryOver fun _ _ => h.symm.carriesOver,
      mem_extraction_carryOver fun _ _ => h.carriesOver⟩
  unfold extract
  rw [hsame]

theorem extract_local_between_neighbours :
    let key := ascii "k"
    let p : Pattern := ⟨[.whole [.run ⟨.hasProperty key, 1, none, true, true⟩,
      .labeled (ascii "t") true]], []⟩
    let l := (Layer.ofCorpus [.ofText (ascii "n") (ascii "a b c")]).setTokenProperty ⟨0, 1⟩ key []
    let l' := (((Layer.ofCorpus [.ofText (ascii "n") (ascii "x b y")]).setTokenProperty ⟨0, 1⟩ key
      []).setTokenProperty ⟨0, 2⟩ key []).addToType (ascii "t") ⟨0, 1, 3⟩
    let s : Span := ⟨0, 1, 2⟩
    l.AgreeIn s l' ∧ p.extract .empty l' s = p.extract .empty l s ∧
      (p.extraction .empty l s).toList = [s] := by
  intro key p l l' s
  have hin : ∀ i, s.start ≤ i → i < s.stop → i = 1 :=
    fun i hi hi' => Nat.le_antisymm (Nat.le_of_lt_succ hi') hi
  have h : l.AgreeIn s l' := by
    refine ⟨fun i hi hi' => ?_, fun i hi hi' k => ?_, fun type p q hp hpq hq => ?_⟩
    · obtain rfl := hin i hi hi'
      decide
    · obtain rfl := hin i hi hi'
      have hfind : l'.tokenProperties.find? ⟨0, 1⟩ = l.tokenProperties.find? ⟨0, 1⟩ := by decide
      exact congrArg (·.bind (·.find? k)) hfind
    · have hne : (⟨0, p, q⟩ : Span) ≠ ⟨0, 1, 3⟩ := by
        intro h
        cases h
        exact absurd hq (by decide)
      exact (Layer.mem_instances_addToType.trans (or_iff_right fun h => hne h.2))
  exact ⟨h, p.extract_local .empty s l l' h, by decide⟩

end Pattern

end SpanRules
