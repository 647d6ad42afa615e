import SpanRules.Proofs.Files.Writing
import SpanRules.Proofs.Program.Atomicity
import SpanRules.Proofs.Store.Reachable

/-! Evaluation without a bound on how deeply programs call each other, and what a bound makes of it.
Main statement: where the references between program files lead downwards, evaluation ends, with one
outcome, and every bound above the ranks of the files gives this outcome. -/
namespace SpanRules

inductive Task where
  | program (p : Program)
  | annotator (name : Text)

namespace Environment

/-- Evaluation, however deeply programs call each other. A statement is carried out with any runner
that gives what the annotator of the statement, if there is one, evaluates to. -/
inductive Evaluates (env : Environment) : Task → Store → (level : Text) → Outcome → Prop
  | unloadable {name s level f} :
      env.loadAnnotator name = .error f → Evaluates env (.annotator name) s level (.failure s f)
  | builtIn {name run s level} : env.loadAnnotator name = .ok (.builtIn run) →
      Evaluates env (.annotator name) s level (.success (s.setLayer level (run (s.layer level))))
  | nested {name p s level o} : env.loadAnnotator name = .ok (.program p) →
      Evaluates env (.program p) s level o → Evaluates env (.annotator name) s level o
  | done {s level} : Evaluates env (.program []) s level (.success s)
  | failed {annotate st p s level f} :
      (∀ name, st.annotator? s level = some name →
        Evaluates env (.annotator name) s level (annotate name level s)) →
      (st.execute annotate s level).1.result = .error f →
      Evaluates env (.program (st :: p)) s level
        { (st.execute annotate s level).1 with
          log := (st.execute annotate s level).1.log ++ [Program.failureLine st f] }
  | step {annotate st p s level o} :
      (∀ name, st.annotator? s level = some name →
        Evaluates env (.annotator name) s level (annotate name level s)) →
      (st.execute annotate s level).1.result = .ok () →
      Evaluates env (.program p) (st.execute annotate s level).1.store
        (st.execute annotate s level).2 o →
      Evaluates env (.program (st :: p)) s level
        { o with log := (st.execute annotate s level).1.log ++ o.log }

/-- A task with a bound on how deeply programs call each other. -/
def perform (env : Environment) (bound : Nat) : Task → Store → (level : Text) → Outcome
  | .program p, s, level => env.evaluate bound p s level
  | .annotator name, s, level => env.annotate bound name level s

end Environment

section
variable {annotate annotate' : AnnotatorRunner} {s : Store} {level name : Text} {f : Failure}

namespace Statement
variable {st : Statement}

/-- Of a runner only what it does with the annotator of the statement matters. -/
theorem execute_congr_annotator (h : ∀ name, st.annotator? s level = some name →
    annotate name level s = annotate' name level s) :
    st.execute annotate s level = st.execute annotate' s level := by
  cases st with
  | require type file =>
    simp only [execute, Store.require]
    split
    · rfl
    · rename_i hannotated
      rw [h _ (if_neg hannotated)]
  | annotateWith file => exact congrArg (·, level) (h file rfl)
  | _ => rfl

/-- A statement that runs an annotator fails exactly if the annotator does. -/
theorem result_execute_of_annotator? (h : st.annotator? s level = some name) :
    (st.execute annotate s level).1.result = (annotate name level s).result := by
  cases st with
  | require type file =>
    obtain ⟨hannotated, hname⟩ := Option.ite_none_left_eq_some.1 h
    cases hname
    simp only [execute, Store.require, if_neg hannotated]
    split
    · rfl
    · rfl
  | annotateWith file =>
    cases h
    rfl
  | _ => cases h

end Statement

/-- What a labeling statement can miss is a type or a dictionary. -/
theorem Labeling.result_execute_ne_tooDeep {ds : Dictionaries} {l : Layer} (st : Labeling) :
    (st.execute ds l).result ≠ .error .nestingTooDeep := by
  intro h
  generalize hdeep : Failure.nestingTooDeep = f at h
  cases result_execute_eq_error_iff.1 h with
  | scope => cases hdeep
  | dictionary _ _ hfailure =>
    obtain ⟨name, rfl, -, -⟩ := Pattern.undefined_of_failure? hfailure
    cases hdeep

theorem Store.createLevel_ne_tooDeep (new strategy pattern : Text) (l : Layer) :
    s.createLevel new strategy pattern l ≠ .error .nestingTooDeep := by
  unfold createLevel
  split
  · rintro ⟨⟩
  · split
    · rintro ⟨⟩
    · rename_i st _
      have hretokenize : retokenize l st pattern ≠ .error .nestingTooDeep := by
        unfold retokenize
        split
        · split <;> rintro ⟨⟩
        · rintro ⟨⟩
      cases h : retokenize l st pattern with
      | ok c => rintro ⟨⟩
      | error f =>
        rintro ⟨⟩
        exact hretokenize h

theorem Store.importFromLevel_ne_tooDeep (source oldType target newType : Text) :
    s.importFromLevel source oldType target newType ≠ .error .nestingTooDeep := by
  unfold importFromLevel
  split
  · exact nofun
  · split <;> exact nofun

theorem Outcome.result_ofExcept_ne {r : Except Failure Store} (h : r ≠ .error f) :
    (ofExcept s r).result ≠ .error f := by
  cases r with
  | ok => exact nofun
  | error g =>
    rintro ⟨⟩
    exact h rfl

/-- Only annotators can find that they are nested too deeply. -/
theorem Statement.result_execute_ne_tooDeep {st : Statement}
    (h : ∀ name, st.annotator? s level = some name →
      (annotate name level s).result ≠ .error .nestingTooDeep) :
    (st.execute annotate s level).1.result ≠ .error .nestingTooDeep := by
  cases hname : st.annotator? s level with
  | some name =>
    rw [result_execute_of_annotator? hname]
    exact h name hname
  | none =>
    cases st with
    | declareType | provide | offLevel | defineDictionary => rintro ⟨⟩
    | require type file =>
      have hannotated : s.isAnnotated type (s.layer level) = true := by
        simpa [annotator?] using hname
      simp only [execute, Store.require, if_pos hannotated]
      rintro ⟨⟩
    | annotateWith => cases hname
    | onLevel new =>
      simp only [execute]
      split <;> rintro ⟨⟩
    | importFromLevel => exact Outcome.result_ofExcept_ne (Store.importFromLevel_ne_tooDeep _ _ _ _)
    | defineLevel => exact Outcome.result_ofExcept_ne (Store.createLevel_ne_tooDeep _ _ _ _)
    | label st => exact st.result_execute_ne_tooDeep

end

namespace Environment
variable {env : Environment} {t : Task} {s : Store} {level : Text} {o o' : Outcome}

theorem loadAnnotator_ne_tooDeep {name : Text} :
    env.loadAnnotator name ≠ .error .nestingTooDeep := by
  unfold loadAnnotator
  split
  · exact nofun
  · split
    · exact nofun
    · split <;> exact nofun

/-- A runner that gives what the annotator of a statement evaluates to does so with any bound from
some on. -/
theorem exists_bound_of_annotator? {annotate : AnnotatorRunner} {st : Statement}
    (h : ∀ name, st.annotator? s level = some name → ∃ least, ∀ bound, least ≤ bound →
      env.annotate bound name level s = annotate name level s) :
    ∃ least, ∀ bound, least ≤ bound →
      st.execute (env.annotate bound) s level = st.execute annotate s level := by
  cases hname : st.annotator? s level with
  | none =>
    refine ⟨0, fun bound _ => Statement.execute_congr_annotator fun name h => ?_⟩
    rw [hname] at h
    cases h
  | some name =>
    obtain ⟨least, hleast⟩ := h name hname
    refine ⟨least, fun bound hbound => Statement.execute_congr_annotator fun name' h => ?_⟩
    rw [hname] at h
    cases h
    exact hleast bound hbound

/-- What an evaluation comes to is found with any bound from some on, and no bound is exceeded
then. -/
theorem Evaluates.exists_bound (h : env.Evaluates t s level o) :
    o.result ≠ .error .nestingTooDeep ∧
      ∃ least, ∀ bound, least ≤ bound → env.perform bound t s level = o := by
  induction h with
  | unloadable hload =>
    refine ⟨?_, 1, fun bound hbound => ?_⟩
    · rintro ⟨⟩
      exact loadAnnotator_ne_tooDeep hload
    · obtain ⟨bound, rfl⟩ := Nat.exists_eq_add_of_le' hbound
      simp only [perform, annotate, hload]
  | builtIn hload =>
    refine ⟨nofun, 1, fun bound hbound => ?_⟩
    obtain ⟨bound, rfl⟩ := Nat.exists_eq_add_of_le' hbound
    simp only [perform, annotate, hload]
  | nested hload _ ih =>
    obtain ⟨hresult, least, hleast⟩ := ih
    refine ⟨hresult, least + 1, fun bound hbound => ?_⟩
    obtain ⟨bound, rfl⟩ := Nat.exists_eq_add_of_le' (Nat.le_trans (Nat.le_add_left 1 least) hbound)
    simp only [perform, annotate, hload]
    exact hleast bound (Nat.le_of_succ_le_succ hbound)
  | done => exact ⟨nofun, 0, fun bound _ => rfl⟩
  | failed _ hresult ih =>
    have hne := Statement.result_execute_ne_tooDeep fun name hname => (ih name hname).1
    obtain ⟨least, hleast⟩ := exists_bound_of_annotator? fun name hname => (ih name hname).2
    refine ⟨hne, least, fun bound hbound => ?_⟩
    have hbound := hleast bound hbound
    rw [perform, evaluate, Program.run_of_execute_error (hbound ▸ hresult), hbound]
  | step _ hresult _ ih ihrest =>
    obtain ⟨least, hleast⟩ := exists_bound_of_annotator? fun name hname => (ih name hname).2
    obtain ⟨hne, least', hleast'⟩ := ihrest
    refine ⟨hne, max least least', fun bound hbound => ?_⟩
    have hrest := hleast' bound (Nat.le_trans (Nat.le_max_right _ _) hbound)
    have hbound := hleast bound (Nat.le_trans (Nat.le_max_left _ _) hbound)
    rw [perform, evaluate, Program.run_of_execute_ok (hbound ▸ hresult), hbound]
    rw [perform, evaluate] at hrest
    rw [hrest]

theorem Evaluates.unique (h : env.Evaluates t s level o) (h' : env.Evaluates t s level o') :
    o = o' := by
  obtain ⟨-, least, hleast⟩ := h.exists_bound
  obtain ⟨-, least', hleast'⟩ := h'.exists_bound
  rw [← hleast (max least least') (Nat.le_max_left _ _),
    ← hleast' (max least least') (Nat.le_max_right _ _)]

/-- A program that does not exceed the bound has been evaluated, if its annotators have been. -/
theorem evaluates_program {bound : Nat}
    (hannotate : ∀ name s level, (env.annotate bound name level s).result ≠ .error .nestingTooDeep →
      env.Evaluates (.annotator name) s level (env.annotate bound name level s))
    {p : Program} (h : (env.evaluate bound p s level).result ≠ .error .nestingTooDeep) :
    env.Evaluates (.program p) s level (env.evaluate bound p s level) := by
  unfold evaluate at h ⊢
  induction p generalizing s level with
  | nil => exact .done
  | cons st p ih =>
    have hasked : (st.execute (env.annotate bound) s level).1.result ≠ .error .nestingTooDeep →
        ∀ name, st.annotator? s level = some name →
          env.Evaluates (.annotator name) s level (env.annotate bound name level s) := by
      intro hresult name hname
      rw [Statement.result_execute_of_annotator? hname] at hresult
      exact hannotate name s level hresult
    cases hresult : (st.execute (env.annotate bound) s level).1.result with
    | error f =>
      rw [Program.run_of_execute_error hresult] at h ⊢
      exact .failed (hasked h) hresult
    | ok =>
      rw [Program.run_of_execute_ok hresult] at h ⊢
      exact .step (hasked (hresult ▸ nofun)) hresult (ih h)

/-- An evaluation that does not exceed the bound is one without a bound. -/
theorem evaluates_annotator (bound : Nat) (name : Text) (s : Store) (level : Text)
    (h : (env.annotate bound name level s).result ≠ .error .nestingTooDeep) :
    env.Evaluates (.annotator name) s level (env.annotate bound name level s) := by
  induction bound generalizing name s level with
  | zero => exact absurd rfl h
  | succ bound ih =>
    unfold annotate at h ⊢
    split
    · rename_i hload
      exact .unloadable hload
    · rename_i hload
      exact .builtIn hload
    · rename_i p hload
      rw [hload] at h
      exact .nested hload (evaluates_program ih h)

theorem evaluates_iff {p : Program} : env.Evaluates (.program p) s level o ↔
    o.result ≠ .error .nestingTooDeep ∧ ∃ bound, env.evaluate bound p s level = o := by
  constructor
  · intro h
    obtain ⟨hresult, least, hleast⟩ := h.exists_bound
    exact ⟨hresult, least, hleast least (Nat.le_refl least)⟩
  · rintro ⟨hresult, bound, rfl⟩
    exact evaluates_program (evaluates_annotator bound) hresult

end Environment

/-- The name of the annotator that a statement may run, whatever the store is. -/
def Statement.reference? : Statement → Option Text
  | require type file => some (if file = [] then type else file)
  | annotateWith file => some file
  | _ => none

theorem Statement.reference?_of_annotator? {st : Statement} {s : Store} {level name : Text}
    (h : st.annotator? s level = some name) : st.reference? = some name := by
  cases st with
  | require type file => exact (Option.ite_none_left_eq_some.1 h).2
  | annotateWith file => exact h
  | _ => cases h

namespace Environment

/-- Every program file to which a program refers, by an annotator or by a type that is required, is
of a rank below the given one. -/
def RefersBelow (env : Environment) (rank : Text → Nat) (r : Nat) (p : Program) : Prop :=
  ∀ st ∈ p, ∀ name, st.reference? = some name → ∀ file q, env.Loads name file q → rank file < r

/-- Program files refer to program files of lower ranks only. -/
def Ranked (env : Environment) (rank : Text → Nat) : Prop :=
  ∀ name file p, env.Loads name file p → env.RefersBelow rank (rank file) p

variable {env : Environment} {rank : Text → Nat} {name : Text} {s : Store} {level : Text}
  {p : Program} {r bound : Nat}

/-- Whatever the ranks are, a program refers to finitely many files. -/
theorem exists_refersBelow (env : Environment) (rank : Text → Nat) (p : Program) :
    ∃ r, env.RefersBelow rank r p := by
  induction p with
  | nil => exact ⟨0, List.forall_mem_nil _⟩
  | cons st p ih =>
    obtain ⟨r, hr⟩ := ih
    have hst : ∃ r', ∀ name, st.reference? = some name → ∀ file q, env.Loads name file q →
        rank file < r' := by
      cases hname : st.reference? with
      | none => exact ⟨0, nofun⟩
      | some name =>
        cases hresolves : env.resources.resolve name with
        | error e =>
          refine ⟨0, ?_⟩
          rintro _ ⟨⟩ file q hload
          cases hresolves.symm.trans hload.resolves
        | ok found =>
          refine ⟨rank found + 1, ?_⟩
          rintro _ ⟨⟩ file q hload
          cases hresolves.symm.trans hload.resolves
          exact Nat.lt_succ_self _
    obtain ⟨r', hr'⟩ := hst
    refine ⟨max r r', List.forall_mem_cons.2 ⟨?_, ?_⟩⟩
    · intro name hname file q hload
      exact Nat.lt_of_lt_of_le (hr' name hname file q hload) (Nat.le_max_right r r')
    · intro st' hst' name hname file q hload
      exact Nat.lt_of_lt_of_le (hr st' hst' name hname file q hload) (Nat.le_max_left r r')

theorem result_run_ne_tooDeep {annotate : AnnotatorRunner}
    (h : ∀ st ∈ p, ∀ name, st.reference? = some name → ∀ s level,
      (annotate name level s).result ≠ .error .nestingTooDeep) :
    (p.run annotate s level).result ≠ .error .nestingTooDeep := by
  induction p generalizing s level with
  | nil => exact nofun
  | cons st p ih =>
    obtain ⟨hst, hp⟩ := List.forall_mem_cons.1 h
    have hne : (st.execute annotate s level).1.result ≠ .error .nestingTooDeep :=
      Statement.result_execute_ne_tooDeep fun name hname =>
        hst name (Statement.reference?_of_annotator? hname) s level
    cases hresult : (st.execute annotate s level).1.result with
    | error f =>
      rw [Program.run_of_execute_error hresult]
      exact hne
    | ok =>
      rw [Program.run_of_execute_ok hresult]
      exact ih hp

/-- The bound has one more level for annotators that are no programs. -/
theorem result_annotate_ne_tooDeep (hranked : env.Ranked rank)
    (h : ∀ file p, env.Loads name file p → rank file + 1 < bound) (hbound : 0 < bound) :
    (env.annotate bound name level s).result ≠ .error .nestingTooDeep := by
  induction bound generalizing name s level with
  | zero => exact absurd hbound (Nat.lt_irrefl 0)
  | succ bound ih =>
    unfold annotate
    split
    · rename_i hload
      rintro ⟨⟩
      exact loadAnnotator_ne_tooDeep hload
    · exact nofun
    · rename_i p hload
      obtain ⟨file, hfile⟩ := exists_loads hload
      have hrank : rank file < bound := Nat.lt_of_succ_lt_succ (h file p hfile)
      refine result_run_ne_tooDeep fun st hst name hname s level => ih ?_ (Nat.zero_lt_of_lt hrank)
      intro file' q hq
      have hbelow := hranked _ _ _ hfile st hst name hname file' q hq
      omega

theorem result_evaluate_ne_tooDeep (hranked : env.Ranked rank) (hp : env.RefersBelow rank r p)
    (hbound : r < bound) : (env.evaluate bound p s level).result ≠ .error .nestingTooDeep := by
  refine result_run_ne_tooDeep fun st hst name hname s level => ?_
  refine result_annotate_ne_tooDeep hranked (fun file q hq => ?_) (Nat.zero_lt_of_lt hbound)
  have hbelow := hp st hst name hname file q hq
  omega

/-- Where the references between program files lead downwards, every program has exactly one
evaluation, which ends, and every bound above the ranks, the one of the program included, finds its
outcome. -/
theorem evaluates_of_ranked (hranked : env.Ranked rank) (p : Program) (s : Store) (level : Text) :
    ∃ o, (∀ o', env.Evaluates (.program p) s level o' ↔ o' = o) ∧
      o.result ≠ .error .nestingTooDeep ∧ (∃ r, env.RefersBelow rank r p) ∧
      ∀ r bound, env.RefersBelow rank r p → r < bound → env.evaluate bound p s level = o := by
  obtain ⟨r, hr⟩ := exists_refersBelow env rank p
  have hevaluates : ∀ r bound, env.RefersBelow rank r p → r < bound →
      env.Evaluates (.program p) s level (env.evaluate bound p s level) := by
    intro r bound hr hbound
    exact evaluates_iff.2 ⟨result_evaluate_ne_tooDeep hranked hr hbound, bound, rfl⟩
  have hone := hevaluates r (r + 1) hr (Nat.lt_succ_self r)
  refine ⟨_, fun o' => ⟨fun h => h.unique hone, fun h => h ▸ hone⟩,
    result_evaluate_ne_tooDeep hranked hr (Nat.lt_succ_self r), ⟨r, hr⟩,
    fun r' bound hr' hbound => ?_⟩
  exact (hevaluates r' bound hr' hbound).unique hone

end Environment

/-- A file that refers to another one twice, which requires a type by the name of a known
annotator. -/
theorem Environment.evaluates_of_ranked_two_files :
    let lower := ascii "require 'test-capitals';"
    let upper := ascii "annotateWith 'lower.prog'; require T, 'lower.prog';"
    let files := (FileSystem.empty.withFile [ascii "lower.prog"] lower).withFile
      [ascii "upper.prog"] upper
    let env : Environment := ⟨⟨files, []⟩, [(Layer.capitalsName, Layer.markCapitals)]⟩
    let rank (file : Text) : Nat := if (env.resources.read file).toOption = some upper then 1 else 0
    let p : Program := [.annotateWith (ascii "upper.prog")]
    let s := Store.ofCorpus [.ofText (ascii "d") (ascii "A b")]
    env.Ranked rank ∧ env.RefersBelow rank 2 p ∧
      ∃ o, (∀ o', env.Evaluates (.program p) s Store.baseLevel o' ↔ o' = o) ∧
        o.result = .ok () ∧ env.evaluate 3 p s Store.baseLevel = o ∧
        env.evaluate 20000 p s Store.baseLevel = o := by
  intro lower upper files env rank p s
  have hfiles : ∀ e ∈ files.nodes, e.2 = .directory ∨ e.2 = .file lower ∨ e.2 = .file upper := by
    decide +kernel
  have hlower : Program.parse? env.resources lower = .ok [.require (ascii "test-capitals") []] := by
    decide +kernel
  have hupper : Program.parse? env.resources upper = .ok [.annotateWith (ascii "lower.prog"),
      .require (ascii "T") (ascii "lower.prog")] := by
    decide +kernel
  have hresolve : env.resources.resolve (ascii "lower.prog") = .ok (ascii "lower.prog") := by
    decide +kernel
  have hrank : rank (ascii "lower.prog") = 0 := by decide +kernel
  have hranked : env.Ranked rank := by
    intro name file q hload st hst name' hname' file' q' hload'
    obtain ⟨contents, hread, hparse⟩ := Program.ofFile?_eq_ok_iff.1 hload.reads
    obtain ⟨path, hnode⟩ := Resources.mem_nodes_of_read hread
    rcases hfiles _ hnode with hdirectory | hcontents | hcontents
    · cases hdirectory
    · obtain rfl := Node.file.inj hcontents
      cases hlower.symm.trans hparse
      obtain rfl := List.mem_singleton.1 hst
      cases hname'
      exact absurd hload'.unknown (by decide +kernel)
    · obtain rfl := Node.file.inj hcontents
      cases hupper.symm.trans hparse
      have hname : name' = ascii "lower.prog" := by
        rcases List.mem_cons.1 hst with rfl | hst
        · exact (Option.some.inj hname').symm
        · obtain rfl := List.mem_singleton.1 hst
          exact (Option.some.inj hname').symm
      subst hname
      cases hresolve.symm.trans hload'.resolves
      have hfile : rank file = 1 := by
        simp only [rank, hread]
        exact if_pos rfl
      rw [hrank, hfile]
      exact Nat.zero_lt_one
  have hp : env.RefersBelow rank 2 p := by
    intro st hst name hname file q hload
    simp only [rank]
    split <;> decide
  obtain ⟨o, honly, -, -, hbounds⟩ := evaluates_of_ranked hranked p s Store.baseLevel
  have hthree : env.evaluate 3 p s Store.baseLevel = o := hbounds 2 3 hp (by decide)
  refine ⟨hranked, hp, o, honly, ?_, hthree, hbounds 2 20000 hp (by decide)⟩
  rw [← hthree]
  decide +kernel

end SpanRules
