import SpanRules.Proofs.Store.Reachable

/-! Requirements that were met once. A type counts as annotated on a level if it is marked or has
instances there, and whatever is evaluated afterwards takes neither away. Main statement: after a
requirement has succeeded, the same one, with any file, runs no annotator and changes nothing; one
whose annotator cannot be loaded changes nothing either, and leaves its type unmarked. -/
namespace SpanRules

variable {env : Environment} {s s' s'' : Store} {level type : Text}

/-- Every store that a program passes through, down to the programs that it runs as annotators, is
one into which the first has grown. -/
theorem Program.Visits.grows {bound : Nat} {p : Program} (h : Visits env bound p s level s')
    (henv : env.EditsLayers) : s.Grows s' := by
  induction h with
  | start => exact .refl _
  | nested _ _ _ ih => exact ih
  | @step bound st _ s level =>
    exact st.grows_execute (Environment.grows_annotate henv bound) s level
  | @later bound st _ s level _ _ _ ih =>
    have hfirst := st.grows_execute (Environment.grows_annotate henv bound) s level
    exact hfirst.trans ih

namespace Store

/-- The stores that come after a store: those through which programs pass, one program after
another, each evaluated on any level, and succeeding or not. -/
inductive Later (s : Store) : Store → Prop
  | now : Later s s
  | visit {env : Environment} {bound : Nat} {p : Program} {level : Text} {s' s'' : Store} :
      Later s s' → env.EditsLayers → Program.Visits env bound p s' level s'' → Later s s''

theorem Later.grows (h : s.Later s') : s.Grows s' := by
  induction h with
  | now => exact .refl s
  | visit _ henv hvisits ih => exact ih.trans (hvisits.grows henv)

/-- A type without a mark has instances only on a level that is there. -/
theorem Grows.isAnnotated_layer (h : s.Grows s')
    (ht : s.isAnnotated type (s.layer level) = true) :
    s'.isAnnotated type (s'.layer level) = true := by
  cases hl : s.layer? level with
  | some l =>
    rw [layer_of_layer? hl] at ht
    exact h.isAnnotated hl ht
  | none =>
    have hlayer : s.layer level = default := by rw [layer, hl, Option.getD_none]
    rw [hlayer, isAnnotated_iff] at ht
    have hmark : type ∈ s.annotated := by
      apply ht.resolve_right
      intro hsome
      obtain ⟨t, ht⟩ := hsome
      exact OrderedSet.not_mem_empty ht
    exact isAnnotated_iff.2 (.inl (h.annotated type hmark))

/-- A requirement succeeds because the type counts as annotated before, or because it is marked
then. -/
theorem isAnnotated_require {annotate : AnnotatorRunner} {file : Text}
    (h : (s.require annotate type file level).result = .ok ()) :
    let s' := (s.require annotate type file level).store
    s'.isAnnotated type (s'.layer level) = true := by
  unfold require at h ⊢
  split
  · rename_i hannotated
    exact hannotated
  · rename_i hannotated
    simp only [if_neg hannotated] at h ⊢
    split
    · rename_i f hf
      simp only [hf] at h
      cases h
    · exact isAnnotated_iff.2 (.inl (OrderedSet.mem_insert.2 (.inl rfl)))

/-- An annotator that cannot be loaded is found out about before anything is changed. -/
theorem require_of_unloadable {bound : Nat} {file : Text} {f g : Failure}
    (hload : env.loadAnnotator (if file = [] then type else file) = .error f)
    (h : (s.require (env.annotate bound) type file level).result = .error g) :
    s.require (env.annotate bound) type file level = .failure s g ∧ type ∉ s.annotated ∧
      (0 < bound → g = f) := by
  unfold require at h ⊢
  split
  · rename_i hannotated
    simp only [if_pos hannotated] at h
    cases h
  · rename_i hannotated
    simp only [if_neg hannotated] at h
    have hunmarked : type ∉ s.annotated := fun hmark => hannotated (isAnnotated_iff.2 (.inl hmark))
    cases bound with
    | zero =>
      cases h
      exact ⟨rfl, hunmarked, fun hpos => absurd hpos (Nat.lt_irrefl 0)⟩
    | succ bound =>
      simp only [Environment.annotate, hload] at h ⊢
      cases h
      exact ⟨rfl, hunmarked, fun _ => rfl⟩

/-- Once a requirement has succeeded on a level, it is met there at every later moment, with
whatever file it is stated again: it names no annotator to run, succeeds with any runner of
annotators, and changes nothing. A requirement that fails because its annotator cannot be loaded
changes nothing and leaves the type unmarked. A statement is carried out like a program of one
statement, so that the later moments are those between any statements, also between those of
programs that run as annotators. -/
theorem require_remains_met (env : Environment) (bound : Nat) (s : Store)
    (level type file : Text) :
    let o := ((Statement.require type file).execute (env.annotate bound) s level).1
    (o.result = .ok () → ∀ s', o.store.Later s' → ∀ (annotate : AnnotatorRunner) (file' : Text),
      (Statement.require type file').annotator? s' level = none ∧
        (Statement.require type file').execute annotate s' level = (.success s', level)) ∧
    ∀ f g, env.loadAnnotator (if file = [] then type else file) = .error f →
      o.result = .error g → o = .failure s g ∧ type ∉ s.annotated ∧ (0 < bound → g = f) := by
  intro o
  constructor
  · intro hok s' hlater annotate file'
    have hmet : o.store.isAnnotated type (o.store.layer level) = true := isAnnotated_require hok
    have hannotated : s'.isAnnotated type (s'.layer level) = true :=
      hlater.grows.isAnnotated_layer hmet
    constructor
    · rw [Statement.annotator?, if_pos hannotated]
    · rw [Statement.execute, Store.require, if_pos hannotated]
  · intro f g hload hfails
    exact require_of_unloadable hload hfails

/-- The annotator of the first requirement labels nothing. A program that runs two annotators and
fails then leaves it met, and a requirement of a type without an annotator fails. -/
theorem require_remains_met_without_instances :
    let files := FileSystem.empty.withFile [ascii "n.prog"] (ascii "offLevel;")
    let env : Environment := ⟨⟨files, []⟩, [(Layer.capitalsName, Layer.markCapitals)]⟩
    let s := Store.ofCorpus [.ofText (ascii "d") (ascii "a B")]
    let program : Program := [.annotateWith (ascii "n.prog"), .annotateWith Layer.capitalsName,
      .onLevel (ascii "nowhere")]
    let o := ((Statement.require (ascii "T") (ascii "n.prog")).execute (env.annotate 2) s
      baseLevel).1
    let s' := (env.evaluate 2 program o.store baseLevel).store
    let o' := ((Statement.require (ascii "U") []).execute (env.annotate 2) s' baseLevel).1
    (env.EditsLayers ∧ o.result = .ok () ∧ o.store.Later s') ∧
      (Statement.require (ascii "T") (ascii "missing")).execute (env.annotate 2) s' baseLevel =
        (.success s', baseLevel) ∧
      ∃ g, o' = .failure s' g ∧ ascii "U" ∉ s'.annotated := by
  intro files env s program o s' o'
  have henv : env.EditsLayers := by
    intro e he l
    rw [List.mem_singleton.1 he]
    exact Layer.edited_markCapitals l
  have hok : o.result = .ok () := by decide +kernel
  have hlater : o.store.Later s' := .visit .now henv (program.visits_evaluate env 2 o.store baseLevel)
  have hmet := (require_remains_met env 2 s baseLevel (ascii "T") (ascii "n.prog")).1 hok s' hlater
    (env.annotate 2) (ascii "missing")
  have hfails : o'.result ≠ .ok () := by decide +kernel
  obtain ⟨f, hload⟩ : ∃ f, env.loadAnnotator (ascii "U") = .error f := ⟨_, by rfl⟩
  cases hresult : o'.result with
  | ok => exact absurd hresult hfails
  | error g =>
    obtain ⟨hsame, hunmarked, -⟩ :=
      (require_remains_met env 2 s' baseLevel (ascii "U") []).2 f g hload hresult
    exact ⟨⟨henv, hok, hlater⟩, hmet.2, g, hsame, hunmarked⟩

end Store

end SpanRules
