import SpanRules.Layer.Capitals
import SpanRules.Layer.Operation
import SpanRules.Proofs.Document.WellFormed
import SpanRules.Proofs.Layer.Labels
import SpanRules.Proofs.Pattern.Meaning

/-! Layers whose labels belong to spans and tokens of their documents. Whatever adds labels to such
a layer finds spans of its documents, so that the layer stays such. -/
namespace SpanRules

namespace Layer

/-- The documents are well formed, and every instance, every span with a property and every token
with a property belongs to them. -/
structure WellFormed (l : Layer) : Prop where
  documents : ∀ d ∈ l.documents, d.WellFormed
  instances : ∀ type, ∀ s ∈ l.instances type, l.documents.HasSpan s
  spanProperties : ∀ s key value, l.property? s key = some value → l.documents.HasSpan s
  tokenProperties : ∀ t key value, l.tokenProperty? t key = some value → l.documents.HasToken t

/-- What a step makes of a layer: another one with the same documents, well formed if the old one
was. -/
structure Sound (l l' : Layer) : Prop where
  documents : l'.documents = l.documents
  wellFormed : l.WellFormed → l'.WellFormed

variable {l l' l'' : Layer}

theorem Sound.refl (l : Layer) : l.Sound l := ⟨rfl, id⟩

theorem Sound.trans (h : l.Sound l') (h' : l'.Sound l'') : l.Sound l'' :=
  ⟨h'.documents.trans h.documents, h'.wellFormed ∘ h.wellFormed⟩

theorem ofCorpus_wellFormed {c : Corpus} (h : ∀ d ∈ c, d.WellFormed) : (ofCorpus c).WellFormed :=
  ⟨h, fun _ _ hs => absurd hs OrderedSet.not_mem_empty, fun _ _ _ hs => (nomatch hs),
    fun _ _ _ ht => (nomatch ht)⟩

section
variable {s u : Span} {t v : TokenRef} {key k value : Text}

@[simp] theorem property?_setProperty : (l.setProperty s key value).property? u k =
    if u = s ∧ k = key then some value else l.property? u k := by
  by_cases hu : u = s
  · subst hu
    by_cases hk : k = key
    · simp [setProperty, property?, hk]
    · cases h : l.spanProperties.find? u <;> simp [setProperty, property?, hk, h]
  · simp [setProperty, property?, hu]

@[simp] theorem tokenProperty?_setTokenProperty :
    (l.setTokenProperty t key value).tokenProperty? v k =
      if v = t ∧ k = key then some value else l.tokenProperty? v k := by
  by_cases hv : v = t
  · subst hv
    by_cases hk : k = key
    · simp [setTokenProperty, tokenProperty?, hk]
    · cases h : l.tokenProperties.find? v <;> simp [setTokenProperty, tokenProperty?, hk, h]
  · simp [setTokenProperty, tokenProperty?, hv]

theorem sound_declareType (l : Layer) (type : Text) : l.Sound (l.declareType type) :=
  ⟨rfl, fun h => ⟨h.documents, fun u s hs => h.instances u s (by simpa using hs),
    h.spanProperties, h.tokenProperties⟩⟩

theorem sound_addToType (type : Text) (hs : l.documents.HasSpan s) :
    l.Sound (l.addToType type s) := by
  refine ⟨rfl, fun h => ⟨h.documents, fun u v hv => ?_, h.spanProperties, h.tokenProperties⟩⟩
  rcases mem_instances_addToType.1 hv with ⟨_, rfl⟩ | hv
  · exact hs
  · exact h.instances u v hv

theorem sound_setProperty (key value : Text) (hs : l.documents.HasSpan s) :
    l.Sound (l.setProperty s key value) := by
  refine ⟨rfl, fun h => ⟨h.documents, h.instances, fun u k v hv => ?_, h.tokenProperties⟩⟩
  rw [property?_setProperty] at hv
  split at hv
  · rename_i hu
    exact hu.1 ▸ hs
  · exact h.spanProperties u k v hv

theorem sound_setTokenProperty (key value : Text) (ht : l.documents.HasToken t) :
    l.Sound (l.setTokenProperty t key value) := by
  refine ⟨rfl, fun h => ⟨h.documents, h.instances, h.spanProperties, fun u k v hv => ?_⟩⟩
  rw [tokenProperty?_setTokenProperty] at hv
  split at hv
  · rename_i hu
    exact hu.1 ▸ ht
  · exact h.tokenProperties u k v hv

theorem sound_setTokenProperties (key value : Text) (hs : l.documents.HasSpan s) :
    l.Sound (l.setTokenProperties s key value) :=
  List.foldlRecOn s.tokenRefs _ (.refl l) fun _ hl _ ht =>
    hl.trans (sound_setTokenProperty key value (hl.documents ▸ hs.hasToken ht))

end

theorem sound_apply (e : Effect) {s : Span} (hs : l.documents.HasSpan s) :
    l.Sound (e.apply l s) := by
  cases e with
  | spanType type => exact sound_addToType type hs
  | spanProperty key value => exact sound_setProperty key value hs
  | tokenProperty key value => exact sound_setTokenProperties key value hs

theorem sound_declare (e : Effect) : l.Sound (e.declare l) := by
  cases e with
  | spanType type => exact sound_declareType l type
  | spanProperty | tokenProperty => exact .refl l

theorem sound_applyAll (e : Effect) {spans : List Span}
    (h : ∀ s ∈ spans, l.documents.HasSpan s) : l.Sound (e.applyAll l spans) :=
  List.foldrRecOn spans _ (.refl l) fun _ hl s hs =>
    hl.trans (sound_apply e (hl.documents ▸ h s hs))

theorem sound_addAllToType (type : Text) {spans : List Span}
    (h : ∀ s ∈ spans, l.documents.HasSpan s) : l.Sound (l.addAllToType type spans) :=
  sound_applyAll (.spanType type) h

theorem sound_markCapitals (l : Layer) : l.Sound l.markCapitals := by
  apply sound_addAllToType _
  intro s hs
  simp only [capitalSpans, List.mem_flatten, List.mem_mapIdx] at hs
  obtain ⟨_, ⟨i, hi, rfl⟩, hs⟩ := hs
  obtain ⟨⟨tok, j⟩, hj, rfl⟩ := List.mem_map.1 hs
  have hlt : j < l.documents[i].tokens.length := by
    simpa using List.snd_lt_of_mem_zipIdx (List.mem_filter.1 hj).1
  exact ⟨l.documents[i], by simp, Nat.le_succ _, hlt⟩

theorem document_of_getElem? {i : Nat} {d : Document} (h : l.documents[i]? = some d) :
    l.document i = d := by
  rw [document, List.getD_eq_getElem?_getD, h, Option.getD_some]

theorem sound_loadLine (l : Layer) (file : Text) (number : Nat) (line : Text) :
    l.Sound (l.loadLine file number line).layer := by
  unfold loadLine
  split
  · exact .refl l
  · rename_i o _
    split
    · exact .refl l
    · rename_i i hi
      have hlt : i < l.documents.length := (List.findIdx?_eq_some_iff_getElem.1 hi).1
      have hd : l.documents[i]? = some (l.document i) := by
        simp [document, hlt]
      simp only
      split
      · exact .refl l
      · split
        · rename_i s hs
          exact sound_addToType _ (Corpus.hasSpan_of_properSubspan? hd hs)
        · exact .refl l

theorem sound_loadLines (file : Text) (number : Nat) (lines : List Text) (l : Layer) :
    l.Sound (loadLines file l number lines).layer := by
  induction lines generalizing number l with
  | nil => exact .refl l
  | cons line lines ih =>
    simp only [loadLines]
    split
    · exact ih (number + 1) l
    · have hfirst := sound_loadLine l file number line.strip
      split
      · exact hfirst
      · exact hfirst.trans (ih (number + 1) _)

theorem sound_loadOperations (l : Layer) (files : FileSystem) (file : Text) :
    l.Sound (l.loadOperations files file).layer := by
  unfold loadOperations
  split
  · exact .refl l
  · exact sound_loadLines file 1 _ l

end Layer

end SpanRules
