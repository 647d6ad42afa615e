import SpanRules.Layer.Capitals
import SpanRules.Proofs.Labeling.WellFormed
import SpanRules.Store.Level

/-! Layers that only grow. All labels are made by four operations on a layer, and none of these
takes a label away. -/
namespace SpanRules

namespace Layer

/-- A layer that comes from another by declaring types, adding instances and setting properties. -/
inductive Edited (l : Layer) : Layer → Prop
  | refl : Edited l l
  | declareType {l' type} : Edited l l' → Edited l (l'.declareType type)
  | addToType {l' type s} : Edited l l' → Edited l (l'.addToType type s)
  | setProperty {l' s key value} : Edited l l' → Edited l (l'.setProperty s key value)
  | setTokenProperty {l' t key value} : Edited l l' → Edited l (l'.setTokenProperty t key value)

/-- The documents and tokens of a layer are those of another, and so are its types, instances and
properties, among others; a property may have another value. -/
structure Grows (l l' : Layer) : Prop where
  documents : l'.documents = l.documents
  types : ∀ type, l.isDeclared type = true → l'.isDeclared type = true
  instances : ∀ type, ∀ s ∈ l.instances type, s ∈ l'.instances type
  spanProperties : ∀ s key, (l.property? s key).isSome → (l'.property? s key).isSome
  tokenProperties : ∀ t key, (l.tokenProperty? t key).isSome → (l'.tokenProperty? t key).isSome

variable {l l' l'' target source : Layer} {type key value : Text} {s : Span} {t : TokenRef}

theorem Grows.refl (l : Layer) : l.Grows l :=
  ⟨rfl, fun _ => id, fun _ _ => id, fun _ _ => id, fun _ _ => id⟩

theorem Grows.trans (h : l.Grows l') (h' : l'.Grows l'') : l.Grows l'' where
  documents := h'.documents.trans h.documents
  types u hu := h'.types u (h.types u hu)
  instances u s hs := h'.instances u s (h.instances u s hs)
  spanProperties s key hs := h'.spanProperties s key (h.spanProperties s key hs)
  tokenProperties t key ht := h'.tokenProperties t key (h.tokenProperties t key ht)

theorem grows_declareType (l : Layer) (type : Text) : l.Grows (l.declareType type) := by
  refine ⟨rfl, fun u hu => ?_, fun u s hs => by simpa using hs, fun _ _ => id, fun _ _ => id⟩
  rw [isDeclared_iff] at hu ⊢
  rw [instances?_declareType]
  split
  · exact ⟨_, rfl⟩
  · exact hu

theorem grows_addToType (l : Layer) (type : Text) (s : Span) : l.Grows (l.addToType type s) := by
  refine ⟨rfl, fun u hu => ?_, fun u t ht => mem_instances_addToType.2 (.inr ht), fun _ _ => id,
    fun _ _ => id⟩
  rw [isDeclared_iff] at hu ⊢
  rw [instances?_addToType]
  split
  · exact ⟨_, rfl⟩
  · exact hu

theorem grows_setProperty (l : Layer) (s : Span) (key value : Text) :
    l.Grows (l.setProperty s key value) := by
  refine ⟨rfl, fun _ => id, fun _ _ => id, fun t k ht => ?_, fun _ _ => id⟩
  rw [property?_setProperty]
  split
  · rfl
  · exact ht

theorem grows_setTokenProperty (l : Layer) (t : TokenRef) (key value : Text) :
    l.Grows (l.setTokenProperty t key value) := by
  refine ⟨rfl, fun _ => id, fun _ _ => id, fun _ _ => id, fun u k hu => ?_⟩
  rw [tokenProperty?_setTokenProperty]
  split
  · rfl
  · exact hu

namespace Edited

theorem grows (h : l.Edited l') : l.Grows l' := by
  induction h with
  | refl => exact .refl l
  | declareType _ ih => exact ih.trans (grows_declareType _ _)
  | addToType _ ih => exact ih.trans (grows_addToType _ _ _)
  | setProperty _ ih => exact ih.trans (grows_setProperty _ _ _ _)
  | setTokenProperty _ ih => exact ih.trans (grows_setTokenProperty _ _ _ _)

theorem setTokenProperties (h : l.Edited l') : l.Edited (l'.setTokenProperties s key value) :=
  List.foldlRecOn s.tokenRefs _ h fun _ hl _ _ => .setTokenProperty hl

end Edited

theorem keeps_edited (l : Layer) (e : Effect) : e.Keeps l.Edited fun _ => True := by
  cases e with
  | spanType type => exact ⟨fun h _ => .addToType h, .declareType, fun _ _ _ => trivial⟩
  | spanProperty key value => exact ⟨fun h _ => .setProperty h, id, fun _ _ _ => trivial⟩
  | tokenProperty key value => exact ⟨fun h _ => h.setTokenProperties, id, fun _ _ _ => trivial⟩

theorem Edited.addAllToType (spans : List Span) (h : l.Edited l') :
    l.Edited (l'.addAllToType type spans) :=
  Labeling.keeps_applyAll (l.keeps_edited (.spanType type)) h fun _ _ => trivial

theorem edited_importSpans (target source : Layer) (type : Text) (spans : OrderedSet Span) :
    target.Edited (target.importSpans source type spans) :=
  (Edited.declareType .refl).addAllToType _

theorem edited_importToSelf (l : Layer) (type : Text) (spans : OrderedSet Span) :
    l.Edited (l.importToSelf type spans) :=
  Edited.refl.addAllToType _

theorem edited_markCapitals (l : Layer) : l.Edited l.markCapitals := Edited.refl.addAllToType _

end Layer

theorem Labeling.edited_execute {ds : Dictionaries} {l : Layer} (st : Labeling) :
    l.Edited (execute ds st l).layer :=
  keeps_execute (l.keeps_edited st.effect) .refl fun _ _ _ _ => trivial

end SpanRules
