import Mathlib.Data.List.Perm.Basic
import SpanRules.Proofs.Layer.WellFormed

/-! The labels of many spans. What is labeled afterwards depends on the set of the spans alone:
their order does not matter, nor how often each of them is found. -/
namespace SpanRules

section
variable {α β : Type} {f : α → β → β}

/-- A step that has been taken changes nothing when it is taken again. -/
theorem foldr_absorb [LeftCommutative f] (hidem : ∀ a b, f a (f a b) = f a b) {a : α} {xs : List α}
    (h : a ∈ xs) (b : β) : f a (xs.foldr f b) = xs.foldr f b := by
  induction xs with
  | nil => cases h
  | cons x xs ih =>
    rw [List.foldr_cons]
    rcases List.mem_cons.1 h with rfl | h
    · exact hidem _ _
    · rw [@LeftCommutative.left_comm _ _ f, ih h]

theorem foldr_append_of_subset [LeftCommutative f] (hidem : ∀ a b, f a (f a b) = f a b)
    {xs ys : List α} (h : xs ⊆ ys) (b : β) : (xs ++ ys).foldr f b = ys.foldr f b := by
  induction xs with
  | nil => rfl
  | cons x xs ih =>
    obtain ⟨hx, hxs⟩ := List.cons_subset.1 h
    rw [List.cons_append, List.foldr_cons, ih hxs, foldr_absorb hidem hx]

/-- Steps that commute and are taken once and for all lead to the same end for the same set. -/
theorem foldr_congr_of_mem_iff [LeftCommutative f] (hidem : ∀ a b, f a (f a b) = f a b)
    {xs ys : List α} (h : ∀ a, a ∈ xs ↔ a ∈ ys) (b : β) : xs.foldr f b = ys.foldr f b := by
  have hperm : (xs ++ ys).Perm (ys ++ xs) := List.perm_append_comm
  have hcomm := hperm.foldr_eq (f := f) b
  rw [foldr_append_of_subset hidem fun a => (h a).1, foldr_append_of_subset hidem fun a => (h a).2]
    at hcomm
  exact hcomm.symm

end

namespace OrderedMap
variable {κ β : Type} [LT κ] [DecidableLT κ] [StrictTotal κ] [DecidableEq κ]

theorem update_comm (m : OrderedMap κ β) (k k' : κ) (d : β) (f g : β → β)
    (h : k = k' → ∀ b, g (f b) = f (g b)) :
    (m.update k d f).update k' d g = (m.update k' d g).update k d f := by
  apply ext_find?
  intro x
  by_cases hk : k = k'
  · subst hk
    by_cases hx : x = k <;> simp [hx, h rfl]
  · by_cases hx : x = k
    · subst hx
      simp [hk]
    · by_cases hx' : x = k' <;> simp [hx, hx', Ne.symm hk]

theorem update_update (m : OrderedMap κ β) (k : κ) (d : β) (f : β → β) (h : ∀ b, f (f b) = f b) :
    (m.update k d f).update k d f = m.update k d f := by
  apply ext_find?
  intro x
  by_cases hx : x = k <;> simp [hx, h]

theorem insert_insert {m : OrderedMap κ β} {k : κ} {v : β} :
    (m.insert k v).insert k v = m.insert k v := by
  apply ext_find?
  intro x
  by_cases hx : x = k <;> simp [hx]

end OrderedMap

namespace Layer
variable {type key value : Text}

theorem addToType_comm (l : Layer) (s t : Span) :
    (l.addToType type s).addToType type t = (l.addToType type t).addToType type s := by
  have hset : ∀ b : OrderedSet Span, (b.insert s).insert t = (b.insert t).insert s := by
    intro b
    apply OrderedSet.ext_mem
    intro x
    simp [or_left_comm]
  exact congrArg (fun m => { l with types := m })
    (l.types.update_comm type type .empty (·.insert s) (·.insert t) fun _ => hset)

theorem addToType_self (l : Layer) (s : Span) :
    (l.addToType type s).addToType type s = l.addToType type s := by
  have hset : ∀ b : OrderedSet Span, (b.insert s).insert s = b.insert s := by
    intro b
    apply OrderedSet.ext_mem
    intro x
    simp
  exact congrArg (fun m => { l with types := m })
    (l.types.update_update type .empty (·.insert s) hset)

theorem setProperty_comm (l : Layer) (s t : Span) :
    (l.setProperty s key value).setProperty t key value =
      (l.setProperty t key value).setProperty s key value :=
  congrArg (fun m => { l with spanProperties := m })
    (l.spanProperties.update_comm s t .empty (·.insert key value) (·.insert key value)
      fun _ _ => rfl)

theorem setProperty_self (l : Layer) (s : Span) :
    (l.setProperty s key value).setProperty s key value = l.setProperty s key value :=
  congrArg (fun m => { l with spanProperties := m })
    (l.spanProperties.update_update s .empty (·.insert key value) fun _ => OrderedMap.insert_insert)

theorem setTokenProperty_comm (l : Layer) (t u : TokenRef) :
    (l.setTokenProperty t key value).setTokenProperty u key value =
      (l.setTokenProperty u key value).setTokenProperty t key value :=
  congrArg (fun m => { l with tokenProperties := m })
    (l.tokenProperties.update_comm t u .empty (·.insert key value) (·.insert key value)
      fun _ _ => rfl)

theorem setTokenProperty_self (l : Layer) (t : TokenRef) :
    (l.setTokenProperty t key value).setTokenProperty t key value =
      l.setTokenProperty t key value :=
  congrArg (fun m => { l with tokenProperties := m })
    (l.tokenProperties.update_update t .empty (·.insert key value)
      fun _ => OrderedMap.insert_insert)

end Layer

namespace Effect
variable {e : Effect} {l : Layer} {spans spans' : List Span} {type key value k : Text}

@[simp] theorem applyAll_cons {s : Span} :
    e.applyAll l (s :: spans) = e.apply (e.applyAll l spans) s := rfl

theorem applyAll_append :
    e.applyAll l (spans ++ spans') = e.applyAll (e.applyAll l spans') spans := List.foldr_append

/-- Labeling the tokens of spans is labeling one token after the other. -/
theorem applyAll_tokenProperty :
    (Effect.tokenProperty key value).applyAll l spans =
      (spans.flatMap fun s => s.tokenRefs.reverse).foldr
        (fun t l => l.setTokenProperty t key value) l := by
  induction spans with
  | nil => rfl
  | cons s spans ih =>
    rw [applyAll_cons, ih, List.flatMap_cons, List.foldr_append, List.foldr_reverse]
    rfl

/-- The same spans give the same labels. -/
theorem applyAll_congr (h : ∀ t, t ∈ spans ↔ t ∈ spans') :
    e.applyAll l spans = e.applyAll l spans' := by
  cases e with
  | spanType type =>
    have : LeftCommutative fun s l => (Effect.spanType type).apply l s :=
      ⟨fun s t l => l.addToType_comm t s⟩
    exact foldr_congr_of_mem_iff (fun s l => l.addToType_self s) h l
  | spanProperty key value =>
    have : LeftCommutative fun s l => (Effect.spanProperty key value).apply l s :=
      ⟨fun s t l => l.setProperty_comm t s⟩
    exact foldr_congr_of_mem_iff (fun s l => l.setProperty_self s) h l
  | tokenProperty key value =>
    have : LeftCommutative fun t (l : Layer) => l.setTokenProperty t key value :=
      ⟨fun t u l => l.setTokenProperty_comm u t⟩
    rw [applyAll_tokenProperty, applyAll_tokenProperty]
    refine foldr_congr_of_mem_iff (fun t l => l.setTokenProperty_self t) (fun t => ?_) l
    simp only [List.mem_flatMap, h]

theorem exists_applyAll_spanProperty (key value : Text) (l : Layer) (spans : List Span) :
    ∃ ps, (Effect.spanProperty key value).applyAll l spans = { l with spanProperties := ps } := by
  induction spans with
  | nil => exact ⟨l.spanProperties, rfl⟩
  | cons s spans ih =>
    obtain ⟨ps, hps⟩ := ih
    exact ⟨_, by rw [applyAll_cons, hps]; rfl⟩

theorem property?_applyAll_spanProperty {t : Span} :
    ((Effect.spanProperty key value).applyAll l spans).property? t k =
      if t ∈ spans ∧ k = key then some value else l.property? t k := by
  induction spans with
  | nil => simp [applyAll]
  | cons s spans ih =>
    rw [applyAll_cons, apply, Layer.property?_setProperty, ih]
    by_cases ht : t = s <;> by_cases hk : k = key <;> simp [ht, hk]

theorem exists_foldr_setTokenProperty (key value : Text) (l : Layer) (ts : List TokenRef) :
    ∃ ps, ts.foldr (fun t l => l.setTokenProperty t key value) l =
      { l with tokenProperties := ps } := by
  induction ts with
  | nil => exact ⟨l.tokenProperties, rfl⟩
  | cons t ts ih =>
    obtain ⟨ps, hps⟩ := ih
    exact ⟨_, by rw [List.foldr_cons, hps]; rfl⟩

theorem exists_applyAll_tokenProperty (key value : Text) (l : Layer) (spans : List Span) :
    ∃ ps, (Effect.tokenProperty key value).applyAll l spans = { l with tokenProperties := ps } := by
  rw [applyAll_tokenProperty]
  exact exists_foldr_setTokenProperty key value l _

theorem tokenProperty?_foldr {ts : List TokenRef} {u : TokenRef} :
    (ts.foldr (fun t l => l.setTokenProperty t key value) l).tokenProperty? u k =
      if u ∈ ts ∧ k = key then some value else l.tokenProperty? u k := by
  induction ts with
  | nil => simp
  | cons t ts ih =>
    rw [List.foldr_cons, Layer.tokenProperty?_setTokenProperty, ih]
    by_cases hu : u = t <;> by_cases hk : k = key <;> simp [hu, hk]

theorem tokenProperty?_applyAll_tokenProperty {u : TokenRef} :
    ((Effect.tokenProperty key value).applyAll l spans).tokenProperty? u k =
      if (∃ s ∈ spans, u ∈ s.tokenRefs) ∧ k = key then some value else l.tokenProperty? u k := by
  rw [applyAll_tokenProperty, tokenProperty?_foldr]
  simp only [List.mem_flatMap, List.mem_reverse]

end Effect

end SpanRules
