import SpanRules.Labeling
import SpanRules.Proofs.Canonical

/-! What labels are there after some were added: each operation seen through the instances and
properties that it adds, and everything that it leaves as it was. -/
namespace SpanRules

namespace Layer
variable {l : Layer}

section
variable {type u : Text} {s : Span}

theorem isDeclared_iff : l.isDeclared u = true ↔ ∃ spans, l.instances? u = some spans :=
  OrderedMap.contains_iff

@[simp] theorem instances?_declareType : (l.declareType type).instances? u =
    if u = type then some (l.instances type) else l.instances? u :=
  OrderedMap.find?_update

@[simp] theorem instances?_addToType : (l.addToType type s).instances? u =
    if u = type then some ((l.instances type).insert s) else l.instances? u :=
  OrderedMap.find?_update

@[simp] theorem isDeclared_addToType : (l.addToType type s).isDeclared u = true ↔
    u = type ∨ l.isDeclared u = true := by
  rw [isDeclared_iff, isDeclared_iff, instances?_addToType]
  by_cases h : u = type <;> simp [h]

theorem instances?_of_isDeclared (h : l.isDeclared u = true) :
    l.instances? u = some (l.instances u) := by
  obtain ⟨spans, hspans⟩ := isDeclared_iff.1 h
  rw [instances, hspans, Option.getD_some]

theorem instances?_eq_none (h : l.isDeclared u = false) : l.instances? u = none := by
  simpa [isDeclared, OrderedMap.contains, instances?] using h

theorem isDeclared_of_mem_instances (h : s ∈ l.instances u) : l.isDeclared u = true := by
  rw [instances] at h
  cases hspans : l.instances? u with
  | none =>
    rw [hspans] at h
    exact absurd h OrderedSet.not_mem_empty
  | some spans => exact isDeclared_iff.2 ⟨spans, hspans⟩

@[simp] theorem instances_declareType : (l.declareType type).instances u = l.instances u := by
  by_cases h : u = type <;> simp [instances, h]

@[simp] theorem mem_instances_addToType {t : Span} : t ∈ (l.addToType type s).instances u ↔
    (u = type ∧ t = s) ∨ t ∈ l.instances u := by
  by_cases h : u = type
  · subst h
    simp [instances]
  · simp [instances, h]

end

/-- Two layers that differ at most in the instances of one type. -/
structure AgreeBut (type : Text) (l l' : Layer) : Prop where
  documents : l'.documents = l.documents
  spanProperties : l'.spanProperties = l.spanProperties
  tokenProperties : l'.tokenProperties = l.tokenProperties
  instances? : ∀ u, u ≠ type → l'.instances? u = l.instances? u

namespace AgreeBut
variable {type : Text} {l' l'' : Layer}

theorem refl (type : Text) (l : Layer) : AgreeBut type l l := ⟨rfl, rfl, rfl, fun _ _ => rfl⟩

theorem trans (h : AgreeBut type l l') (h' : AgreeBut type l' l'') : AgreeBut type l l'' :=
  ⟨h'.documents.trans h.documents, h'.spanProperties.trans h.spanProperties,
    h'.tokenProperties.trans h.tokenProperties,
    fun u hu => (h'.instances? u hu).trans (h.instances? u hu)⟩

theorem instances_eq {u : Text} (h : AgreeBut type l l') (hu : u ≠ type) :
    l'.instances u = l.instances u := by
  rw [instances, h.instances? u hu, instances]

theorem isDeclared_eq {u : Text} (h : AgreeBut type l l') (hu : u ≠ type) :
    l'.isDeclared u = l.isDeclared u := by
  rw [Bool.eq_iff_iff, isDeclared_iff, isDeclared_iff, h.instances? u hu]

theorem declareType (type : Text) (l : Layer) : AgreeBut type l (l.declareType type) :=
  ⟨rfl, rfl, rfl, fun u hu => by simp [hu]⟩

theorem addToType (type : Text) (l : Layer) (s : Span) : AgreeBut type l (l.addToType type s) :=
  ⟨rfl, rfl, rfl, fun u hu => by simp [hu]⟩

end AgreeBut

end Layer

namespace Effect
variable {l : Layer} {type : Text} {spans : List Span}

theorem agreeBut_applyAll_spanType :
    l.AgreeBut type ((Effect.spanType type).applyAll l spans) := by
  induction spans with
  | nil => exact .refl type l
  | cons s spans ih => exact ih.trans (.addToType type _ s)

theorem mem_instances_applyAll_spanType {t : Span} :
    t ∈ ((Effect.spanType type).applyAll l spans).instances type ↔
      t ∈ spans ∨ t ∈ l.instances type := by
  induction spans with
  | nil => simp [applyAll]
  | cons s spans ih =>
    have hstep : (Effect.spanType type).applyAll l (s :: spans) =
        ((Effect.spanType type).applyAll l spans).addToType type s := rfl
    rw [hstep, Layer.mem_instances_addToType, ih, List.mem_cons]
    simp [or_assoc]

end Effect

namespace Store
variable {s : Store} {level k : Text} {l : Layer}

@[simp] theorem layer?_setLayer :
    (s.setLayer level l).layer? k = if k = level then some l else s.layer? k :=
  OrderedMap.find?_insert

theorem layer_of_layer? (h : s.layer? level = some l) : s.layer level = l := by
  simp [layer, h]

/-- Two stores that differ at most in one level. -/
structure AgreeBut (level : Text) (s s' : Store) : Prop where
  layer? : ∀ k, k ≠ level → s'.layer? k = s.layer? k
  dictionaries : s'.dictionaries = s.dictionaries
  annotated : s'.annotated = s.annotated

theorem agreeBut_setLayer : s.AgreeBut level (s.setLayer level l) :=
  ⟨fun k hk => by simp [hk], rfl, rfl⟩

end Store

end SpanRules
