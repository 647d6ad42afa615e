import SpanRules.Evaluation
import SpanRules.Proofs.Layer.Growth
import SpanRules.Proofs.Source.Reading

/-! Stores that only grow. Main statement: no sequence of programs, whether they succeed or not and
whatever programs they run as annotators, takes a level, a document or token, a type, an instance, a
property, the mark of a type or a dictionary away. -/
namespace SpanRules

namespace Store

/-- Every level of a store is a level of another, where it has grown, and what is marked or defined
in the one is so in the other; a dictionary may have other words. -/
structure Grows (s s' : Store) : Prop where
  levels : ∀ level l, s.layer? level = some l → ∃ l', s'.layer? level = some l' ∧ l.Grows l'
  annotated : ∀ type ∈ s.annotated, type ∈ s'.annotated
  dictionaries : ∀ name, s.dictionaries.contains name = true → s'.dictionaries.contains name = true

variable {s s' s'' : Store} {level type : Text} {l l' : Layer}

theorem Grows.refl (s : Store) : s.Grows s :=
  ⟨fun _ l hl => ⟨l, hl, .refl l⟩, fun _ => id, fun _ => id⟩

theorem Grows.trans (h : s.Grows s') (h' : s'.Grows s'') : s.Grows s'' := by
  refine ⟨fun level l hl => ?_, fun type ht => h'.annotated type (h.annotated type ht),
    fun name hd => h'.dictionaries name (h.dictionaries name hd)⟩
  obtain ⟨l', hl', hgrows⟩ := h.levels level l hl
  obtain ⟨l'', hl'', hgrows'⟩ := h'.levels level l' hl'
  exact ⟨l'', hl'', hgrows.trans hgrows'⟩

theorem grows_setLayer (h : ∀ l, s.layer? level = some l → l.Grows l') :
    s.Grows (s.setLayer level l') := by
  refine ⟨fun k l hl => ?_, fun _ => id, fun _ => id⟩
  by_cases hk : k = level
  · subst hk
    exact ⟨l', by simp, h l hl⟩
  · exact ⟨l, by simp [hk, hl], .refl l⟩

theorem grows_setLayer_of_edited (h : (s.layer level).Edited l') :
    s.Grows (s.setLayer level l') :=
  grows_setLayer fun _ hl => layer_of_layer? hl ▸ h.grows

theorem grows_markAnnotated (s : Store) (type : Text) : s.Grows (s.markAnnotated type) :=
  ⟨fun _ l hl => ⟨l, hl, .refl l⟩, fun _ ht => OrderedSet.mem_insert.2 (.inr ht), fun _ => id⟩

theorem grows_defineDictionary (s : Store) (name : Text) (d : Dictionary) :
    s.Grows (s.defineDictionary name d) := by
  refine ⟨fun _ l hl => ⟨l, hl, .refl l⟩, fun _ => id, fun n hn => ?_⟩
  rw [OrderedMap.contains_iff] at hn ⊢
  rw [defineDictionary, OrderedMap.find?_insert]
  split
  · exact ⟨d, rfl⟩
  · exact hn

theorem grows_createLevel {strategy pattern : Text}
    (h : s.createLevel level strategy pattern l = .ok s') : s.Grows s' := by
  unfold createLevel at h
  split at h
  · cases h
  · rename_i hnew
    split at h
    · cases h
    · rename_i st _
      obtain ⟨c, _, h⟩ := Reading.bind_eq_ok_iff.1 h
      cases h
      exact grows_setLayer fun l hl => absurd (OrderedMap.contains_iff.2 ⟨l, hl⟩) hnew

theorem grows_importFromLevel {source oldType newType : Text}
    (h : s.importFromLevel source oldType level newType = .ok s') : s.Grows s' := by
  unfold importFromLevel at h
  split at h
  · cases h
  · rename_i m hm
    split at h
    · cases h
    · cases h
      apply grows_setLayer_of_edited
      split
      · rename_i heq
        rw [heq.1] at hm
        rw [layer_of_layer? hm]
        exact Layer.edited_importToSelf m newType _
      · exact Layer.edited_importSpans _ m newType _

theorem isAnnotated_iff : s.isAnnotated type l = true ↔
    type ∈ s.annotated ∨ ∃ t, t ∈ l.instances type := by
  rw [isAnnotated, Bool.or_eq_true, Bool.not_eq_true', OrderedSet.isEmpty_eq_false_iff,
    OrderedSet.contains, decide_eq_true_eq]

/-- A type that counts as annotated keeps on doing so. -/
theorem Grows.isAnnotated (h : s.Grows s') (hl : s.layer? level = some l)
    (ht : s.isAnnotated type l = true) : s'.isAnnotated type (s'.layer level) = true := by
  obtain ⟨l', hl', hgrows⟩ := h.levels level l hl
  rw [layer_of_layer? hl']
  rcases isAnnotated_iff.1 ht with hmark | ⟨t, ht⟩
  · exact isAnnotated_iff.2 (.inl (h.annotated type hmark))
  · exact isAnnotated_iff.2 (.inr ⟨t, hgrows.instances type t ht⟩)

end Store

def AnnotatorRunner.Grows (annotate : AnnotatorRunner) : Prop :=
  ∀ name level (s : Store), s.Grows (annotate name level s).store

section
variable {annotate : AnnotatorRunner} {s : Store}

theorem Outcome.grows_ofExcept {r : Except Failure Store} (h : ∀ s', r = .ok s' → s.Grows s') :
    s.Grows (ofExcept s r).store := by
  cases r with
  | ok s' => exact h s' rfl
  | error f => exact .refl s

theorem Store.grows_require (ha : annotate.Grows) (s : Store) (type file level : Text) :
    s.Grows (s.require annotate type file level).store := by
  unfold Store.require
  split
  · exact .refl s
  · have hrun := ha (if file = [] then type else file) level s
    simp only
    split
    · exact hrun
    · exact hrun.trans (grows_markAnnotated _ type)

theorem Statement.grows_execute (ha : annotate.Grows) (s : Store) (level : Text) (st : Statement) :
    s.Grows (st.execute annotate s level).1.store := by
  cases st with
  | declareType type => exact Store.grows_setLayer_of_edited (.declareType .refl)
  | provide type => exact s.grows_markAnnotated type
  | require type file => exact s.grows_require ha type file level
  | annotateWith file => exact ha file level s
  | onLevel new =>
    simp only [execute]
    split <;> exact .refl s
  | offLevel => exact .refl s
  | importFromLevel source newType oldType =>
    exact Outcome.grows_ofExcept fun _ h => Store.grows_importFromLevel h
  | defineDictionary d => exact s.grows_defineDictionary d.name _
  | defineLevel new strategy pattern =>
    exact Outcome.grows_ofExcept fun _ h => Store.grows_createLevel h
  | label st => exact Store.grows_setLayer_of_edited (Labeling.edited_execute st)

namespace Program
variable {st : Statement} {p : Program} {level : Text} {f : Failure}

theorem run_of_execute_error (h : (st.execute annotate s level).1.result = .error f) :
    run annotate (st :: p) s level =
      { (st.execute annotate s level).1 with
        log := (st.execute annotate s level).1.log ++ [failureLine st f] } := by
  simp only [run, h]

/-- A program goes on after a statement that succeeds, at the level that is current then. -/
theorem run_of_execute_ok (h : (st.execute annotate s level).1.result = .ok ()) :
    run annotate (st :: p) s level =
      { run annotate p (st.execute annotate s level).1.store (st.execute annotate s level).2 with
        log := (st.execute annotate s level).1.log ++ (run annotate p
          (st.execute annotate s level).1.store (st.execute annotate s level).2).log } := by
  simp only [run, h]

end Program

theorem Program.grows_run (ha : annotate.Grows) (p : Program) (s : Store) (level : Text) :
    s.Grows (p.run annotate s level).store := by
  induction p generalizing s level with
  | nil => exact .refl s
  | cons st p ih =>
    have hstep := st.grows_execute ha s level
    simp only [run]
    split
    · exact hstep
    · exact hstep.trans (ih _ _)

end

namespace Environment
variable {env : Environment} {name : Text} {run : Layer → Layer}

theorem mem_annotators_of_loadAnnotator (h : env.loadAnnotator name = .ok (.builtIn run)) :
    (name.beforeNul, run) ∈ env.annotators := by
  unfold loadAnnotator at h
  split at h
  · rename_i run' hrun
    cases h
    obtain ⟨as, bs, heq, _⟩ := List.lookup_eq_some_iff.1 hrun
    simp [heq]
  · split at h
    · cases h
    · split at h <;> cases h

/-- Whether the annotators that are known without a program change layers by the operations of
layers only. -/
def EditsLayers (env : Environment) : Prop := ∀ e ∈ env.annotators, ∀ l : Layer, l.Edited (e.2 l)

theorem grows_annotate (henv : env.EditsLayers) (bound : Nat) : (env.annotate bound).Grows := by
  induction bound with
  | zero => exact fun _ _ s => .refl s
  | succ bound ih =>
    intro name level s
    unfold annotate
    split
    · exact .refl s
    · rename_i run hrun
      exact Store.grows_setLayer_of_edited (henv _ (mem_annotators_of_loadAnnotator hrun) _)
    · rename_i p _
      exact p.grows_run ih s level

end Environment

structure Job where
  environment : Environment
  bound : Nat
  program : Program
  level : Text

def Store.after (s : Store) (jobs : List Job) : Store :=
  jobs.foldl (fun s j => (j.environment.evaluate j.bound j.program s j.level).store) s

namespace Store

/-- Whatever programs are evaluated, on whatever levels, and whether or not some of them fail: the
store only grows, and a type that counts as annotated on a level keeps on doing so. -/
theorem grows_after (s : Store) (jobs : List Job) (h : ∀ j ∈ jobs, j.environment.EditsLayers) :
    s.Grows (s.after jobs) ∧ ∀ type level l, s.layer? level = some l →
      s.isAnnotated type l = true →
        (s.after jobs).isAnnotated type ((s.after jobs).layer level) = true := by
  have hgrows : s.Grows (s.after jobs) := by
    induction jobs generalizing s with
    | nil => exact .refl s
    | cons j jobs ih =>
      obtain ⟨hj, hjobs⟩ := List.forall_mem_cons.1 h
      have hfirst := j.program.grows_run (Environment.grows_annotate hj j.bound) s j.level
      exact hfirst.trans (ih _ hjobs)
  exact ⟨hgrows, fun _ _ _ => hgrows.isAnnotated⟩

/-- The first program runs another one, which fails after its own annotator has marked a word. The
second gives this word a property. -/
theorem grows_after_of_failing_annotator :
    let files := FileSystem.empty.withFile [ascii "n.prog"]
      (ascii "annotateWith 'test-capitals'; onLevel nowhere;")
    let env : Environment := ⟨⟨files, []⟩, [(Layer.capitalsName, Layer.markCapitals)]⟩
    let pattern : Pattern := ⟨[.whole [.run ⟨.any, 1, some 1, false, false⟩]], []⟩
    let jobs : List Job :=
      [⟨env, 2, [.annotateWith (ascii "n.prog"), .provide (ascii "x")], baseLevel⟩,
        ⟨env, 2, [.label ⟨.tokenProperty (ascii "k") (ascii "v"), ascii "cap",
          .extractions pattern⟩], baseLevel⟩]
    let l := (Layer.ofCorpus [.ofText (ascii "d") (ascii "a B")]).addToType (ascii "T") ⟨0, 0, 1⟩
    let s := (ofCorpus l.documents).setLayer baseLevel l
    (∀ j ∈ jobs, j.environment.EditsLayers) ∧
      (s.layer? baseLevel = some l ∧ s.isAnnotated (ascii "T") l = true) ∧
      (s.Grows (s.after jobs) ∧
        (s.after jobs).isAnnotated (ascii "T") ((s.after jobs).layer baseLevel) = true) ∧
      ((s.after jobs).layer baseLevel).tokenProperty? ⟨0, 1⟩ (ascii "k") = some (ascii "v") ∧
      ascii "x" ∉ (s.after jobs).annotated := by
  intro files env pattern jobs l s
  have henv : env.EditsLayers := by
    intro e he l
    rw [List.mem_singleton.1 he]
    exact Layer.edited_markCapitals l
  have hjobs : ∀ j ∈ jobs, j.environment.EditsLayers := by
    intro j hj
    have : j.environment = env := by
      simp only [jobs, List.mem_cons, List.not_mem_nil, or_false] at hj
      rcases hj with rfl | rfl <;> rfl
    exact this ▸ henv
  have hl : s.layer? baseLevel = some l := by decide
  have ht : s.isAnnotated (ascii "T") l = true := by decide
  obtain ⟨hgrows, hannotated⟩ := grows_after s jobs hjobs
  exact ⟨hjobs, ⟨hl, ht⟩, ⟨hgrows, hannotated _ _ l hl ht⟩, by decide +kernel, by decide +kernel⟩

end Store

end SpanRules
