import SpanRules.Layer.Capitals
import SpanRules.Proofs.Store.Growth
import SpanRules.Proofs.Store.WellFormed

/-! Every store that programs make out of an unlabeled one, and every store that they pass through
on the way. Main statement: all of them are well formed. -/
namespace SpanRules

/-- Whether the annotator of capitals is the only one that is known without its program. -/
def Environment.KnowsOnlyCapitals (env : Environment) : Prop :=
  ∀ e ∈ env.annotators, e.2 = Layer.markCapitals

theorem Program.ofFile?_eq_ok_iff {r : Resources} {file : Text} {p : Program} :
    ofFile? r file = .ok p ↔ ∃ source, r.read file = .ok source ∧ parse? r source = .ok p := by
  unfold ofFile?
  cases r.read file with
  | error e => exact iff_of_false nofun fun ⟨_, h, _⟩ => nomatch h
  | ok source =>
    constructor
    · intro h
      exact ⟨source, rfl, h⟩
    · rintro ⟨_, ⟨⟩, h⟩
      exact h

/-- A name leads to the program in a file, and not to an annotator that is known by the name. -/
structure Environment.Loads (env : Environment) (name file : Text) (p : Program) : Prop where
  unknown : env.annotators.lookup name.beforeNul = none
  resolves : env.resources.resolve name = .ok file
  reads : Program.ofFile? env.resources file = .ok p

def Statement.annotator? (s : Store) (level : Text) : Statement → Option Text
  | require type file =>
    if s.isAnnotated type (s.layer level) then none
    else some (if file = [] then type else file)
  | annotateWith file => some file
  | _ => none

/-- The stores that a program passes through: before and after each statement, also one that fails,
and within the programs that a statement runs. -/
inductive Program.Visits (env : Environment) :
    (bound : Nat) → Program → Store → (level : Text) → Store → Prop
  | start {bound p s level} : Visits env bound p s level s
  | nested {bound st p q s level name s'} :
      st.annotator? s level = some name → env.loadAnnotator name = .ok (.program q) →
      Visits env bound q s level s' → Visits env (bound + 1) (st :: p) s level s'
  | step {bound st p s level} :
      Visits env bound (st :: p) s level (st.execute (env.annotate bound) s level).1.store
  | later {bound st p s level s'} :
      (st.execute (env.annotate bound) s level).1.result = .ok () →
      Visits env bound p (st.execute (env.annotate bound) s level).1.store
        (st.execute (env.annotate bound) s level).2 s' →
      Visits env bound (st :: p) s level s'

/-- The stores to which labels and programs lead, whether or not the programs succeed. At first
there are only documents. -/
inductive Store.Reachable (texts : List (Text × Text)) : Store → Prop
  | start : Reachable texts (ofCorpus (Corpus.ofTexts texts))
  | load {s : Store} {level l} (files : FileSystem) (file : Text) : Reachable texts s →
      s.layer? level = some l →
      Reachable texts (s.setLayer level (l.loadOperations files file).layer)
  | evaluate {s : Store} {level} {env : Environment} (bound : Nat) (p : Program) :
      Reachable texts s → env.KnowsOnlyCapitals → s.HasLevel level →
      Reachable texts (env.evaluate bound p s level).store

variable {texts : List (Text × Text)} {env : Environment} {s s' : Store} {level : Text}

namespace Environment

theorem eq_markCapitals_of_loadAnnotator {name : Text} {run : Layer → Layer}
    (henv : env.KnowsOnlyCapitals) (h : env.loadAnnotator name = .ok (.builtIn run)) :
    run = Layer.markCapitals :=
  henv _ (mem_annotators_of_loadAnnotator h)

theorem exists_loads {name : Text} {p : Program} (h : env.loadAnnotator name = .ok (.program p)) :
    ∃ file, env.Loads name file p := by
  unfold loadAnnotator at h
  split at h
  · cases h
  · rename_i hunknown
    split at h
    · cases h
    · rename_i file hresolves
      split at h
      · cases h
      · rename_i hreads
        cases h
        exact ⟨file, hunknown, hresolves, hreads⟩

theorem sound_annotate (henv : env.KnowsOnlyCapitals) (bound : Nat) :
    (env.annotate bound).Sound texts := by
  induction bound with
  | zero => exact fun _ _ _ hs _ => hs.refl
  | succ bound ih =>
    intro name level s hs hl
    unfold annotate
    split
    · exact hs.refl
    · rename_i run hrun
      obtain ⟨l, hlayer⟩ := hl
      apply hs.setLayer hlayer
      rw [Store.layer_of_layer? hlayer, eq_markCapitals_of_loadAnnotator henv hrun]
      exact Layer.sound_markCapitals l
    · rename_i p _
      exact Program.sound_run ih p hs hl

end Environment

namespace Program

/-- A program passes through the store that it leaves. -/
theorem visits_evaluate (env : Environment) (bound : Nat) (p : Program) (s : Store)
    (level : Text) : Visits env bound p s level (env.evaluate bound p s level).store := by
  unfold Environment.evaluate
  induction p generalizing s level with
  | nil => exact .start
  | cons st p ih =>
    simp only [run]
    split
    · exact .step
    · rename_i hok
      exact .later hok (ih _ _)

theorem Visits.wellFormed {bound : Nat} {p : Program} (h : Visits env bound p s level s')
    (henv : env.KnowsOnlyCapitals) (hs : s.WellFormed texts) (hl : s.HasLevel level) :
    s'.WellFormed texts := by
  induction h with
  | start => exact hs
  | nested _ _ _ ih => exact ih hs hl
  | @step bound st _ _ _ =>
    exact (st.sound_execute (Environment.sound_annotate henv bound) hs hl).1.wellFormed
  | @later bound st _ _ _ _ _ _ ih =>
    obtain ⟨hstep, hlevel⟩ := st.sound_execute (Environment.sound_annotate henv bound) hs hl
    exact ih hstep.wellFormed hlevel

end Program

namespace Store

/-- Every store that programs lead to is well formed, and so is every store that any further
program passes through, down to the programs that it runs as annotators. -/
theorem reachable_wellFormed (h : s.Reachable texts) : s.WellFormed texts ∧
    ∀ (env : Environment) (bound : Nat) (p : Program) (level : Text) (s' : Store),
      env.KnowsOnlyCapitals → s.HasLevel level → Program.Visits env bound p s level s' →
      s'.WellFormed texts := by
  have hs : s.WellFormed texts := by
    induction h with
    | start => exact ofCorpus_wellFormed texts
    | load files file _ hl ih =>
      exact (ih.setLayer hl (Layer.sound_loadOperations _ files file)).wellFormed
    | evaluate bound p _ henv hl ih =>
      exact (Program.visits_evaluate _ bound p _ _).wellFormed henv ih hl
  exact ⟨hs, fun _ _ _ _ _ henv hl hv => hv.wellFormed henv hs hl⟩

/-- A level whose tokens are the pairs of tokens that a pattern found, with the pairs imported as
instances, is reached by a program that fails later. -/
theorem reachable_wellFormed_pairs :
    let texts := [(ascii "d", ascii "a b c d")]
    let pair : Pattern :=
      ⟨[.bracketed [.gap] [.run ⟨.equals (ascii "b"), 1, none, true, true⟩, .run ⟨.any, 1, some 1,
        false, false⟩] [.gap]], []⟩
    let p : Program := [.label ⟨.spanType (ascii "T"), [], .extractions pair⟩,
      .defineLevel (ascii "p") .pseudotoken (ascii "T"), .onLevel (ascii "p"),
      .importFromLevel Store.baseLevel (ascii "U") (ascii "T"), .onLevel (ascii "q")]
    let o := Environment.evaluate default 0 p (.ofCorpus (Corpus.ofTexts texts)) Store.baseLevel
    o.store.Reachable texts ∧
      ((o.store.layer (ascii "p")).instances (ascii "U")).toList = [⟨0, 1, 2⟩] ∧
      o.store.WellFormed texts := by
  intro texts pair p o
  have hreach : o.store.Reachable texts :=
    .evaluate 0 p .start (fun _ he => nomatch he) ⟨_, OrderedMap.find?_insert⟩
  exact ⟨hreach, by decide, (reachable_wellFormed hreach).1⟩

end Store

end SpanRules
