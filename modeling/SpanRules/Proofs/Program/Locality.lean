import SpanRules.Proofs.Program.Atomicity

/-! Labeling one level. A statement that labels reads the dictionaries and the current level and
changes this level alone. From this alone it follows that the labels of different levels can be made
in any order. -/
namespace SpanRules

/-- Whether a step on a level reads nothing but the dictionaries and this level, whatever its name
is, and changes nothing but this level. -/
structure IsLocal (step : Store → (level : Text) → Outcome) : Prop where
  reads : ∀ {s s' : Store} {level level' : Text}, s.HasLevel level →
    s'.dictionaries = s.dictionaries → s'.layer? level' = s.layer? level →
    (step s' level').result = (step s level).result ∧ (step s' level').log = (step s level).log ∧
      (step s' level').store.layer? level' = (step s level).store.layer? level
  changes : ∀ {s : Store} {level : Text}, s.HasLevel level →
    s.AgreeBut level (step s level).store ∧
      ∀ k, (step s level).store.HasLevel k ↔ s.HasLevel k

namespace Store

theorem ext_layer? {s s' : Store} (hlayer : ∀ k, s.layer? k = s'.layer? k)
    (hdictionaries : s.dictionaries = s'.dictionaries) (hannotated : s.annotated = s'.annotated) :
    s = s' := by
  obtain ⟨levels, dictionaries, annotated⟩ := s
  obtain rfl : levels = s'.levels := OrderedMap.ext_find? hlayer
  obtain rfl : dictionaries = _ := hdictionaries
  obtain rfl : annotated = _ := hannotated
  rfl

end Store

section
variable {f g : Store → (level : Text) → Outcome} {s : Store} {level level' : Text}

/-- A step on another level makes no difference to a local step. -/
theorem IsLocal.of_other (hf : IsLocal f) (hg : IsLocal g) (hne : level ≠ level')
    (hl : s.HasLevel level) (hl' : s.HasLevel level') :
    (f (g s level').store level).result = (f s level).result ∧
      (f (g s level').store level).store.layer? level = (f s level).store.layer? level := by
  obtain ⟨hother, -⟩ := hg.changes hl'
  obtain ⟨hresult, -, hlayer⟩ := hf.reads hl hother.dictionaries (hother.layer? level hne)
  exact ⟨hresult, hlayer⟩

theorem IsLocal.comm (hf : IsLocal f) (hg : IsLocal g) (hne : level ≠ level')
    (hl : s.HasLevel level) (hl' : s.HasLevel level') :
    (g (f s level).store level').store = (f (g s level').store level).store ∧
      (f (g s level').store level).result = (f s level).result ∧
      (g (f s level).store level').result = (g s level').result := by
  obtain ⟨hfresult, hflayer⟩ := hf.of_other hg hne hl hl'
  obtain ⟨hgresult, hglayer⟩ := hg.of_other hf hne.symm hl' hl
  obtain ⟨hfs, hflevels⟩ := hf.changes hl
  obtain ⟨hgs, hglevels⟩ := hg.changes hl'
  obtain ⟨hgf, -⟩ := hg.changes ((hflevels level').2 hl')
  obtain ⟨hfg, -⟩ := hf.changes ((hglevels level).2 hl)
  -- Of the two steps only one can have changed a level, and it did so in both orders alike.
  refine ⟨Store.ext_layer? (fun k => ?_) ?_ ?_, hfresult, hgresult⟩
  · by_cases hk : k = level
    · subst hk
      rw [hgf.layer? k hne, hflayer]
    · rw [hfg.layer? k hk]
      by_cases hk' : k = level'
      · subst hk'
        exact hglayer
      · rw [hgf.layer? k hk', hfs.layer? k hk, hgs.layer? k hk']
  · rw [hgf.dictionaries, hfs.dictionaries, hfg.dictionaries, hgs.dictionaries]
  · rw [hgf.annotated, hfs.annotated, hfg.annotated, hgs.annotated]

end

/-- Whether a statement does nothing but label the current level. -/
def Statement.labels : Statement → Bool
  | declareType _ | label _ => true
  | _ => false

namespace Statement
variable {st : Statement}

/-- A statement that labels makes a layer out of the dictionaries and the layer that is there. -/
theorem exists_labeled (h : st.labels = true) (annotate : AnnotatorRunner) :
    ∃ make : Dictionaries → Layer → Labeled, ∀ s level, st.execute annotate s level =
      (⟨s.setLayer level (make s.dictionaries (s.layer level)).layer, [],
        (make s.dictionaries (s.layer level)).result⟩, level) := by
  cases st with
  | declareType type => exact ⟨fun _ l => ⟨l.declareType type, .ok ()⟩, fun _ _ => rfl⟩
  | label st => exact ⟨st.execute, fun _ _ => rfl⟩
  | _ => cases h

theorem isLocal_execute (annotate : AnnotatorRunner) (h : st.labels = true) :
    IsLocal fun s level => (st.execute annotate s level).1 := by
  obtain ⟨make, hmake⟩ := exists_labeled h annotate
  simp only [hmake]
  constructor
  · intro s s' level level' _ hdictionaries hlayer
    have hsame : s'.layer level' = s.layer level := by rw [Store.layer, hlayer, Store.layer]
    rw [hdictionaries, hsame]
    exact ⟨rfl, rfl, by simp⟩
  · intro s level hl
    exact ⟨Store.agreeBut_setLayer, fun k => Store.hasLevel_setLayer_iff hl⟩

end Statement

namespace Program
variable {p q : Program} {annotate : AnnotatorRunner} {s : Store} {level level' : Text}

/-- A program that only labels is local, too. -/
theorem isLocal_run (hp : ∀ st ∈ p, st.labels = true) : IsLocal (p.run annotate) := by
  induction p with
  | nil =>
    refine ⟨fun _ _ hlayer => ⟨rfl, rfl, hlayer⟩, fun _ => ?_⟩
    exact ⟨⟨fun _ _ => rfl, rfl, rfl⟩, fun _ => Iff.rfl⟩
  | cons st p ih =>
    obtain ⟨hst, hp⟩ := List.forall_mem_cons.1 hp
    have hstep := st.isLocal_execute annotate hst
    have hrest := ih hp
    have hlevel : ∀ s level, (st.execute annotate s level).2 = level := by
      obtain ⟨make, hmake⟩ := st.exists_labeled hst annotate
      intro s level
      rw [hmake]
    constructor
    · intro s s' level level' hl hdictionaries hlayer
      obtain ⟨hresult, hlog, hlayer'⟩ := hstep.reads hl hdictionaries hlayer
      obtain ⟨hs, hlevels⟩ := hstep.changes hl
      have hl' : s'.HasLevel level' := hl.imp fun l hl => hlayer.trans hl
      obtain ⟨hs', -⟩ := hstep.changes hl'
      simp only [run, hlevel, hresult, hlog]
      split
      · exact ⟨rfl, rfl, hlayer'⟩
      · obtain ⟨hresult, hlog, hlayer''⟩ := hrest.reads ((hlevels level).2 hl)
          (hs'.dictionaries.trans (hdictionaries.trans hs.dictionaries.symm)) hlayer'
        exact ⟨hresult, by rw [hlog], hlayer''⟩
    · intro s level hl
      obtain ⟨hs, hlevels⟩ := hstep.changes hl
      simp only [run, hlevel]
      split
      · exact ⟨hs, hlevels⟩
      · obtain ⟨hrun, hrunLevels⟩ := hrest.changes ((hlevels level).2 hl)
        refine ⟨⟨fun k hk => (hrun.layer? k hk).trans (hs.layer? k hk),
          hrun.dictionaries.trans hs.dictionaries, hrun.annotated.trans hs.annotated⟩, fun k => ?_⟩
        exact (hrunLevels k).trans (hlevels k)

/-- Programs that label different levels can be run in any order. -/
theorem store_run_comm (hp : ∀ st ∈ p, st.labels = true) (hq : ∀ st ∈ q, st.labels = true)
    (hne : level ≠ level') (hl : s.HasLevel level) (hl' : s.HasLevel level') :
    (q.run annotate (p.run annotate s level).store level').store =
      (p.run annotate (q.run annotate s level').store level).store :=
  ((isLocal_run hp).comm (isLocal_run hq) hne hl hl').1

/-- A program goes on after a statement at the level that is current then. -/
theorem run_cons_of_ok {st : Statement} (hok : (st.execute annotate s level).1.result = .ok ()) :
    (run annotate (st :: p) s level).store = (p.run annotate (st.execute annotate s level).1.store
        (st.execute annotate s level).2).store ∧
      (run annotate (st :: p) s level).result = (p.run annotate
        (st.execute annotate s level).1.store (st.execute annotate s level).2).result := by
  rw [run_of_execute_ok hok]
  exact ⟨rfl, rfl⟩

end Program

namespace Statement

/-- A statement that labels one level neither reads nor changes another, so that two of them on two
levels can be carried out in any order. No statement changes the documents or tokens of a level that
is there. After one that runs other programs, on whatever levels, the current level is what it was,
and a program goes on there. -/
theorem execute_locality {env : Environment} (henv : env.EditsLayers) (bound : Nat) :
    let execute (s : Store) (level : Text) (st : Statement) : Outcome × Text :=
      st.execute (env.annotate bound) s level
    (∀ st : Statement, st.labels = true → IsLocal fun s level => (execute s level st).1) ∧
    (∀ (st st' : Statement) (s : Store) (level level' : Text), st.labels = true →
      st'.labels = true → level ≠ level' → s.HasLevel level → s.HasLevel level' →
      let first := (execute s level st).1
      let second := (execute first.store level' st').1
      let first' := (execute s level' st').1
      let second' := (execute first'.store level st).1
      second.store = second'.store ∧ second'.result = first.result ∧
        second.result = first'.result) ∧
    (∀ (st : Statement) (s : Store) (level k : Text) (l : Layer), s.layer? k = some l →
      ∃ l', (execute s level st).1.store.layer? k = some l' ∧ l'.documents = l.documents) ∧
    ∀ (st : Statement) (s : Store) (level : Text), st.callsAnnotator = true →
      (execute s level st).2 = level ∧
      ∀ p : Program, (execute s level st).1.result = .ok () →
        (env.evaluate bound (st :: p) s level).store =
            (env.evaluate bound p (execute s level st).1.store level).store ∧
          (env.evaluate bound (st :: p) s level).result =
            (env.evaluate bound p (execute s level st).1.store level).result := by
  refine ⟨fun st hst => isLocal_execute _ hst,
    fun st st' s level level' hst hst' hne hl hl' =>
      (isLocal_execute _ hst).comm (isLocal_execute _ hst') hne hl hl',
    fun st s level k l hl => ?_, fun st s level hst => ?_⟩
  · have hgrows := st.grows_execute (Environment.grows_annotate henv bound) s level
    obtain ⟨l', hl', hlayer⟩ := hgrows.levels k l hl
    exact ⟨l', hl', hlayer.documents⟩
  · have hlevel : (st.execute (env.annotate bound) s level).2 = level := by
      cases st with
      | require | annotateWith => rfl
      | _ => cases hst
    refine ⟨hlevel, fun p hok => ?_⟩
    have hrun := Program.run_cons_of_ok (p := p) hok
    rwa [hlevel] at hrun

/-- The words of a dictionary get a type on the base level, and the documents without such a word a
property on a level of pseudotokens. The annotator makes a level, moves to it and labels it. -/
theorem execute_locality_pseudotokens :
    let files := FileSystem.empty.withFile [ascii "n.prog"]
      (ascii "defLevel q = pseudotoken 'T'; onLevel q; declareSpanType V;")
    let env : Environment := ⟨⟨files, []⟩, [(Layer.capitalsName, Layer.markCapitals)]⟩
    let execute (s : Store) (level : Text) (st : Statement) : Outcome × Text :=
      st.execute (env.annotate 1) s level
    let word : Pattern :=
      ⟨[.bracketed [.gap] [.run ⟨.inDictionary (ascii "w"), 1, some 1, false, false⟩] [.gap]], []⟩
    let st : Statement := .label ⟨.spanType (ascii "U"), [], .extractions word⟩
    let st' : Statement := .label ⟨.spanProperty (ascii "k") (ascii "v"), [], .rejections word⟩
    let call : Statement := .annotateWith (ascii "n.prog")
    let l := (Layer.ofCorpus [.ofText (ascii "d") (ascii "a b c")]).addToType (ascii "T") ⟨0, 0, 2⟩
    let s := (((Store.ofCorpus l.documents).setLayer Store.baseLevel l).setLayer (ascii "p")
      (.ofCorpus (l.pseudotokens (ascii "T")))).defineDictionary (ascii "w")
        ⟨.singleton (ascii "b"), false⟩
    let s' := s.setLayer (ascii "p") default
    (env.EditsLayers ∧ st.labels = true ∧ st'.labels = true ∧ call.callsAnnotator = true ∧
      Store.baseLevel ≠ ascii "p" ∧ s.HasLevel Store.baseLevel ∧ s.HasLevel (ascii "p") ∧
      s'.layer? Store.baseLevel = s.layer? Store.baseLevel) ∧
    ((execute s' Store.baseLevel st).1.store.layer? Store.baseLevel =
        (execute s Store.baseLevel st).1.store.layer? Store.baseLevel ∧
      (execute (execute s Store.baseLevel st).1.store (ascii "p") st').1.store =
        (execute (execute s (ascii "p") st').1.store Store.baseLevel st).1.store) ∧
    (∃ l', (execute s Store.baseLevel call).1.store.layer? (ascii "p") = some l' ∧
      l'.documents = l.pseudotokens (ascii "T")) ∧
    ((execute s Store.baseLevel call).1.store.layer (ascii "q")).isDeclared (ascii "V") = true ∧
    (execute s Store.baseLevel call).2 = Store.baseLevel ∧
    (env.evaluate 1 [call, st] s Store.baseLevel).store =
      (env.evaluate 1 [st] (execute s Store.baseLevel call).1.store Store.baseLevel).store := by
  intro files env execute word st st' call l s s'
  have henv : env.EditsLayers := by
    intro e he l
    rw [List.mem_singleton.1 he]
    exact Layer.edited_markCapitals l
  have hbase : s.HasLevel Store.baseLevel := ⟨l, by decide⟩
  have hp : s.HasLevel (ascii "p") := ⟨_, rfl⟩
  have hne : Store.baseLevel ≠ ascii "p" := by decide
  have hlayer : s'.layer? Store.baseLevel = s.layer? Store.baseLevel := by decide
  obtain ⟨hlocal, hcomm, hdocuments, hcall⟩ := execute_locality henv 1
  have hok : (execute s Store.baseLevel call).1.result = .ok () := by decide +kernel
  obtain ⟨hlevel, hrun⟩ := hcall call s Store.baseLevel rfl
  exact ⟨⟨henv, rfl, rfl, rfl, hne, hbase, hp, hlayer⟩,
    ⟨((hlocal st rfl).reads hbase rfl hlayer).2.2,
      (hcomm st st' s Store.baseLevel (ascii "p") rfl rfl hne hbase hp).1⟩,
    hdocuments call s Store.baseLevel (ascii "p") _ rfl, by decide +kernel, hlevel,
    (hrun [st] hok).1⟩

end Statement

end SpanRules
