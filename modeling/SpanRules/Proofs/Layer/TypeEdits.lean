import SpanRules.Proofs.Layer.Instances
import SpanRules.Proofs.Layer.Labels

/-! Layers that are made by declaring types and adding instances. Main statement: the scan for the
instances that start at a token, which begins at the place of the empty span there and ends at the
first span of another place, finds what a test of every instance finds, by increasing end. -/
namespace SpanRules

inductive TypeEdit where
  | declare (type : Text)
  | add (type : Text) (s : Span)
  deriving DecidableEq

namespace TypeEdit

/-- The type that a step is about. It is declared afterwards in either case. -/
def type : TypeEdit → Text
  | declare type | add type _ => type

def apply (l : Layer) : TypeEdit → Layer
  | declare type => l.declareType type
  | add type s => l.addToType type s

/-- Whether a span that is added does not end before it starts. It may be empty. -/
def Ordered : TypeEdit → Prop
  | declare _ => True
  | add _ s => s.start ≤ s.stop

instance : DecidablePred Ordered
  | declare _ => inferInstanceAs (Decidable True)
  | add _ s => inferInstanceAs (Decidable (s.start ≤ s.stop))

end TypeEdit

namespace Layer

def edit (l : Layer) (edits : List TypeEdit) : Layer := edits.foldl TypeEdit.apply l

variable {l : Layer} {type : Text} {e : TypeEdit} {edits : List TypeEdit} {d b : Nat} {s : Span}

theorem isDeclared_apply :
    (e.apply l).isDeclared type = true ↔ e.type = type ∨ l.isDeclared type = true := by
  cases e with
  | declare u =>
    rw [isDeclared_iff, isDeclared_iff, TypeEdit.apply, instances?_declareType, TypeEdit.type]
    by_cases h : type = u
    · simp [h]
    · simp [h, Ne.symm h]
  | add u s =>
    rw [TypeEdit.apply, isDeclared_addToType, TypeEdit.type, eq_comm]

theorem mem_instances_apply :
    s ∈ (e.apply l).instances type ↔ e = .add type s ∨ s ∈ l.instances type := by
  cases e with
  | declare u => simp [TypeEdit.apply]
  | add u t =>
    rw [TypeEdit.apply, mem_instances_addToType, TypeEdit.add.injEq, eq_comm, @eq_comm _ t]

theorem isDeclared_edit : (l.edit edits).isDeclared type = true ↔
    (∃ e ∈ edits, e.type = type) ∨ l.isDeclared type = true := by
  induction edits generalizing l with
  | nil => simp [edit]
  | cons e edits ih =>
    have hstep : l.edit (e :: edits) = (e.apply l).edit edits := rfl
    simp only [hstep, ih, isDeclared_apply, List.mem_cons, exists_eq_or_imp]
    rw [or_left_comm, or_assoc]

theorem mem_instances_edit : s ∈ (l.edit edits).instances type ↔
    .add type s ∈ edits ∨ s ∈ l.instances type := by
  induction edits generalizing l with
  | nil => simp [edit]
  | cons e edits ih =>
    have hstep : l.edit (e :: edits) = (e.apply l).edit edits := rfl
    rw [hstep, ih, mem_instances_apply, List.mem_cons, @eq_comm _ e, or_left_comm, or_assoc]

/-- Where no instance ends before it starts, none lies before the empty span of its place. -/
theorem instancesAt_eq_filter_of_forall_le (h : ∀ s ∈ l.instances type, s.start ≤ s.stop)
    (d b : Nat) : l.instancesAt type d b =
      (l.instances type).toList.filter fun s => s.document = d ∧ s.start = b := by
  rw [instancesAt_eq_filter]
  apply List.filter_congr
  intro s hs
  have hle := h s hs
  rw [Bool.eq_iff_iff]
  simp only [Bool.and_eq_true, beq_iff_eq, decide_eq_true_eq]
  constructor
  · rintro ⟨hplace, -⟩
    exact hplace
  · rintro ⟨rfl, rfl⟩
    exact ⟨⟨rfl, rfl⟩, hle⟩

/-- Of two spans at one place the one that ends first comes first. -/
theorem pairwise_stop_instancesAt (l : Layer) (type : Text) (d b : Nat) :
    (l.instancesAt type d b).Pairwise fun s t => s.stop < t.stop := by
  have hsorted : (l.instancesAt type d b).Pairwise (· < ·) := by
    rw [instancesAt_eq_filter]
    exact (l.instances type).sorted.filter _
  refine hsorted.imp_of_mem fun hs ht hlt => ?_
  obtain ⟨-, hdocument, hstart, -⟩ := mem_instancesAt.1 hs
  obtain ⟨-, hdocument', hstart', -⟩ := mem_instancesAt.1 ht
  rw [Span.lt_def] at hlt
  omega

theorem instancesAt_of_undeclared (h : l.isDeclared type = false) (d b : Nat) :
    l.instancesAt type d b = [] := by
  rw [instancesAt, instances, instances?_eq_none h]
  rfl

/-- A layer that comes from declaring types and adding spans that do not end before they start. The
types that were named are declared and have the spans that were added. The scan for a token finds
the instances that start there, each once and by increasing end, and nothing for a type that is not
declared. -/
theorem instancesAt_edit (c : Corpus) (edits : List TypeEdit) (type : Text) (d b : Nat)
    (ordered : ∀ e ∈ edits, e.Ordered) :
    let l := (ofCorpus c).edit edits
    (l.isDeclared type = true ↔ ∃ e ∈ edits, e.type = type) ∧
      (∀ s, s ∈ l.instances type ↔ .add type s ∈ edits) ∧
      l.instancesAt type d b =
        (l.instances type).toList.filter (fun s => s.document = d ∧ s.start = b) ∧
      (∀ s, s ∈ l.instancesAt type d b ↔ .add type s ∈ edits ∧ s.document = d ∧ s.start = b) ∧
      (l.instancesAt type d b).Pairwise (fun s t => s.stop < t.stop) ∧
      (l.isDeclared type = false → l.instancesAt type d b = []) := by
  intro l
  have hdeclared : l.isDeclared type = true ↔ ∃ e ∈ edits, e.type = type := by
    rw [isDeclared_edit, or_iff_left]
    exact Bool.false_ne_true
  have hmem : ∀ s, s ∈ l.instances type ↔ .add type s ∈ edits := by
    intro s
    rw [mem_instances_edit, or_iff_left]
    exact OrderedSet.not_mem_empty
  have hscan := instancesAt_eq_filter_of_forall_le
    (fun s hs => ordered _ ((hmem s).1 hs)) d b
  refine ⟨hdeclared, hmem, hscan, fun s => ?_, pairwise_stop_instancesAt l type d b,
    fun hundeclared => instancesAt_of_undeclared hundeclared d b⟩
  rw [hscan, List.mem_filter, ← OrderedSet.mem_def, hmem, decide_eq_true_eq]

/-- An empty instance, one that is added twice, and others that start at the tokens beside it or at
the same place of another document; a type that is only declared, and one that is not. -/
theorem instancesAt_edit_among_neighbours :
    let c : Corpus := [.ofText (ascii "d") (ascii "a b c"), .ofText (ascii "e") (ascii "a b")]
    let type := ascii "T"
    let edits : List TypeEdit := [.add type ⟨0, 1, 3⟩, .add type ⟨0, 1, 2⟩, .add type ⟨1, 1, 2⟩,
      .add type ⟨0, 0, 3⟩, .add type ⟨0, 2, 2⟩, .declare (ascii "U"), .add type ⟨0, 1, 1⟩,
      .add (ascii "V") ⟨0, 1, 2⟩, .add type ⟨0, 1, 2⟩, .declare type]
    let l := (ofCorpus c).edit edits
    (∀ e ∈ edits, e.Ordered) ∧
      l.instancesAt type 0 1 = [⟨0, 1, 1⟩, ⟨0, 1, 2⟩, ⟨0, 1, 3⟩] ∧
      (∀ s, s ∈ l.instancesAt type 0 1 ↔ .add type s ∈ edits ∧ s.document = 0 ∧ s.start = 1) ∧
      (l.isDeclared (ascii "U") = true ∧ l.instancesAt (ascii "U") 0 1 = []) ∧
      (l.isDeclared (ascii "W") = false ∧ l.instancesAt (ascii "W") 0 1 = []) := by
  intro c type edits l
  have hordered : ∀ e ∈ edits, e.Ordered := by decide
  obtain ⟨-, -, hscan, hmem, -, -⟩ := instancesAt_edit c edits type 0 1 hordered
  obtain ⟨hdeclared, -, hnone, -⟩ := instancesAt_edit c edits (ascii "U") 0 1 hordered
  obtain ⟨-, -, -, -, -, hundeclared⟩ := instancesAt_edit c edits (ascii "W") 0 1 hordered
  have hunknown : l.isDeclared (ascii "W") = false := by decide
  refine ⟨hordered, hscan.trans (by decide), hmem, ⟨hdeclared.2 ?_, hnone.trans (by decide)⟩,
    hunknown, hundeclared hunknown⟩
  exact ⟨.declare (ascii "U"), by decide, rfl⟩

end Layer

end SpanRules
