import SpanRules.Proofs.Labeling.References
import SpanRules.Proofs.Store.Growth
import SpanRules.Proofs.Store.WellFormed

/-! Statements that fail. Main statement: one that runs no annotator leaves the store and the level
as they were, so that a program of such statements leaves what those before the failing one have
made. -/
namespace SpanRules

def Statement.callsAnnotator : Statement → Bool
  | require .. | annotateWith .. => true
  | _ => false

namespace Labeling
variable {ds : Dictionaries} {p : Pattern} {l : Layer} {spans : List Span} {f : Failure}

/-- Whether a dictionary is missing does not depend on the layer, so it is found out at the first
span, before anything is labeled. -/
theorem layer_labelExtractions_of_error {e : Effect}
    (h : (labelExtractions ds p e l spans).result = .error f) :
    (labelExtractions ds p e l spans).layer = l := by
  obtain ⟨-, hf⟩ := result_labelExtractions_eq_error_iff.1 h
  cases spans with
  | nil => rfl
  | cons s spans =>
    have hextract : p.extract ds l s = .error f := Pattern.extract_eq_error_iff.2 hf
    simp only [labelExtractions, hextract]

theorem layer_run_of_error {st : Labeling} (h : (run ds st l spans).result = .error f) :
    (run ds st l spans).layer = l := by
  unfold run at h ⊢
  cases hgen : st.generator with
  | extractions p =>
    rw [hgen] at h
    exact layer_labelExtractions_of_error h
  | rejections p =>
    rw [hgen] at h
    simp only [labelRejections] at h ⊢
    split
    · rfl
    · rename_i hset
      rw [hset] at h
      cases h
  | phrases entries =>
    rw [hgen] at h
    cases h

theorem layer_execute_of_error {st : Labeling} (h : (execute ds st l).result = .error f) :
    (execute ds st l).layer = l := by
  unfold execute at h ⊢
  split
  · rfl
  · rename_i spans hspans
    rw [hspans] at h
    simp only at h ⊢
    split
    · rename_i hrun
      exact layer_run_of_error hrun
    · rename_i hrun
      rw [hrun] at h
      cases h

end Labeling

section
variable {annotate : AnnotatorRunner} {s : Store} {level : Text} {f : Failure}

theorem Store.setLayer_layer (hl : s.HasLevel level) : s.setLayer level (s.layer level) = s := by
  obtain ⟨l, hl⟩ := hl
  have hlevels : s.levels.insert level l = s.levels := by
    apply OrderedMap.ext_find?
    intro k
    rw [OrderedMap.find?_insert]
    split
    · rename_i hk
      rw [hk]
      exact hl.symm
    · rfl
  rw [layer_of_layer? hl, setLayer, hlevels]

namespace Outcome

theorem eq_failure_of_ofExcept {r : Except Failure Store}
    (h : (ofExcept s r).result = .error f) : ofExcept s r = failure s f := by
  cases r with
  | ok s' => cases h
  | error g =>
    cases h
    rfl

end Outcome

namespace Statement
variable {st : Statement}

theorem execute_eq_failure (hst : st.callsAnnotator = false) (hl : s.HasLevel level)
    (h : (st.execute annotate s level).1.result = .error f) :
    st.execute annotate s level = (.failure s f, level) := by
  cases st with
  | declareType | provide | offLevel | defineDictionary => cases h
  | require | annotateWith => cases hst
  | onLevel new =>
    simp only [execute] at h ⊢
    split at h
    · cases h
    · cases h
      rfl
  | importFromLevel source newType oldType =>
    simp only [execute, Outcome.eq_failure_of_ofExcept h]
  | defineLevel new strategy pattern => simp only [execute, Outcome.eq_failure_of_ofExcept h]
  | label st =>
    have hlayer := Labeling.layer_execute_of_error h
    simp only [execute] at h ⊢
    rw [hlayer, Store.setLayer_layer hl, h]
    rfl

theorem execute_congr (hst : st.callsAnnotator = false) (annotate' : AnnotatorRunner) :
    st.execute annotate s level = st.execute annotate' s level := by
  cases st with
  | require | annotateWith => cases hst
  | _ => rfl

/-- The base level and the current level are there after a statement. -/
theorem hasLevel_execute (hst : st.callsAnnotator = false) (hbase : s.HasLevel Store.baseLevel)
    (hl : s.HasLevel level) : (st.execute annotate s level).1.store.HasLevel Store.baseLevel ∧
      (st.execute annotate s level).1.store.HasLevel (st.execute annotate s level).2 := by
  have hgrows : s.Grows (st.execute annotate s level).1.store := by
    rw [execute_congr hst fun _ _ s => .success s]
    exact st.grows_execute (fun _ _ s => .refl s) s level
  have hkeep : ∀ k, s.HasLevel k → (st.execute annotate s level).1.store.HasLevel k := by
    rintro k ⟨l, hl⟩
    obtain ⟨l', hl', _⟩ := hgrows.levels k l hl
    exact ⟨l', hl'⟩
  refine ⟨hkeep _ hbase, ?_⟩
  cases st with
  | onLevel new =>
    simp only [execute] at hkeep ⊢
    split
    · rename_i m hm
      exact ⟨m, hm⟩
    · exact hl
  | offLevel => exact hbase
  | _ => exact hkeep _ hl

end Statement

namespace Program
variable {p q : Program} {st : Statement}

/-- The statements before a statement succeed, and with it they do not. -/
def FailsAt (annotate : AnnotatorRunner) (p : Program) (s : Store) (level : Text) (k : Nat)
    (f : Failure) : Prop :=
  (run annotate (p.take k) s level).result = .ok () ∧
    (run annotate (p.take (k + 1)) s level).result = .error f

/-- After a failure nothing else is carried out. -/
theorem run_append_of_error (h : (run annotate p s level).result = .error f) :
    run annotate (p ++ q) s level = run annotate p s level := by
  induction p generalizing s level with
  | nil => cases h
  | cons st p ih =>
    simp only [List.cons_append, run] at h ⊢
    split at h
    · rename_i g hg
      rw [hg]
    · rename_i hok
      simp only [ih h]

theorem exists_failsAt (h : (run annotate p s level).result = .error f) :
    ∃ k < p.length, p.FailsAt annotate s level k f := by
  induction p generalizing s level with
  | nil => cases h
  | cons st p ih =>
    cases hst : (st.execute annotate s level).1.result with
    | error g =>
      refine ⟨0, Nat.succ_pos _, rfl, ?_⟩
      simpa [run, hst] using h
    | ok =>
      obtain ⟨k, hk, hbefore, hafter⟩ := ih (by simpa [run, hst] using h)
      refine ⟨k + 1, Nat.succ_lt_succ hk, ?_, ?_⟩
      · simpa [run, hst] using hbefore
      · simpa [run, hst] using hafter

/-- A last statement that fails leaves the store that those before it have made. -/
theorem store_run_concat (hp : ∀ u ∈ p ++ [st], u.callsAnnotator = false)
    (hbase : s.HasLevel Store.baseLevel) (hl : s.HasLevel level)
    (hok : (run annotate p s level).result = .ok ())
    (h : (run annotate (p ++ [st]) s level).result = .error f) :
    (run annotate (p ++ [st]) s level).store = (run annotate p s level).store := by
  induction p generalizing s level with
  | nil =>
    have hst : st.callsAnnotator = false := hp st (by simp)
    cases hresult : (st.execute annotate s level).1.result with
    | error g =>
      have hsame := Statement.execute_eq_failure hst hl hresult
      simp only [List.nil_append, run, hsame, Outcome.failure, Outcome.success]
    | ok => simp [run, hresult, Outcome.success] at h
  | cons u p ih =>
    cases hu : (u.execute annotate s level).1.result with
    | error g => simp [run, hu] at hok
    | ok =>
      have hlevels : (u.execute annotate s level).1.store.HasLevel Store.baseLevel ∧
          (u.execute annotate s level).1.store.HasLevel (u.execute annotate s level).2 :=
        Statement.hasLevel_execute (hp u List.mem_cons_self) hbase hl
      have hrest := ih (fun v hv => hp v (List.mem_cons_of_mem _ hv)) hlevels.1 hlevels.2
        (by simpa [run, hu] using hok) (by simpa [run, hu] using h)
      simpa [run, hu] using hrest

end Program

end

namespace Program

/-- On a store that has its base level and the current level: a statement that runs no annotator and
fails changes nothing, and a program of such statements that fails does so at one of them and leaves
the store that those before it have made. -/
theorem run_of_error (annotate : AnnotatorRunner) (s : Store) (level : Text)
    (hbase : s.HasLevel Store.baseLevel) (hl : s.HasLevel level) :
    (∀ (st : Statement) (f : Failure), st.callsAnnotator = false →
      (st.execute annotate s level).1.result = .error f →
        st.execute annotate s level = (.failure s f, level)) ∧
    ∀ (p : Program) (f : Failure), (∀ st ∈ p, st.callsAnnotator = false) →
      ((run annotate p s level).result = .error f →
        ∃ k < p.length, p.FailsAt annotate s level k f) ∧
      ∀ k, p.FailsAt annotate s level k f →
        (run annotate p s level).store = (run annotate (p.take k) s level).store := by
  refine ⟨fun st f hst h => st.execute_eq_failure hst hl h,
    fun p f hp => ⟨exists_failsAt, fun k hk => ?_⟩⟩
  obtain ⟨hok, herror⟩ := hk
  have hlt : k < p.length := by
    by_contra hge
    rw [List.take_of_length_le (by omega), ← List.take_of_length_le (Nat.le_of_not_lt hge), hok]
      at herror
    cases herror
  have htake : p.take (k + 1) = p.take k ++ [p[k]] := List.take_succ_eq_append_getElem hlt
  have hsub : ∀ st ∈ p.take k ++ [p[k]], st.callsAnnotator = false := by
    intro st hst
    rw [← htake] at hst
    exact hp st (List.mem_of_mem_take hst)
  have hrun : run annotate p s level = run annotate (p.take (k + 1)) s level := by
    have happend := run_append_of_error (q := p.drop (k + 1)) herror
    rwa [List.take_append_drop] at happend
  rw [hrun, htake]
  exact store_run_concat hsub hbase hl hok (htake ▸ herror)

/-- The second statement labels with a dictionary that is not defined. -/
theorem run_of_error_undefined_dictionary :
    let c : Corpus := [.ofText (ascii "d") (ascii "a"), .ofText (ascii "e") (ascii "b")]
    let s := Store.ofCorpus c
    let pattern : Pattern :=
      ⟨[.whole [.run ⟨.not (.inDictionary (ascii "w")), 0, none, false, false⟩]], []⟩
    let p : Program := [.declareType (ascii "T"),
      .label ⟨.spanType (ascii "T"), [], .extractions pattern⟩, .provide (ascii "T")]
    let annotate := Environment.annotate default 0
    let f := Failure.undefinedDictionary (ascii "w")
    (s.HasLevel Store.baseLevel ∧ (∀ st ∈ p, st.callsAnnotator = false) ∧
      p.FailsAt annotate s Store.baseLevel 1 f) ∧
    (run annotate p s Store.baseLevel).store =
      (run annotate (p.take 1) s Store.baseLevel).store := by
  intro c s pattern p annotate f
  have hbase : s.HasLevel Store.baseLevel := ⟨_, OrderedMap.find?_insert⟩
  have hp : ∀ st ∈ p, st.callsAnnotator = false := by decide
  have hfails : p.FailsAt annotate s Store.baseLevel 1 f := ⟨by decide, by decide⟩
  exact ⟨⟨hbase, hp, hfails⟩, ((run_of_error annotate s _ hbase hbase).2 p f hp).2 1 hfails⟩

end Program

end SpanRules
