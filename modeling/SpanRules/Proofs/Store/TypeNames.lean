import SpanRules.Proofs.Program.RoundTrip
import SpanRules.Proofs.Store.Reachable

/-! Where the names of types come from: from the names in statements, and from the annotator of
capitals. A condition on the names that a program can have is one on the types that it makes. -/
namespace SpanRules

def Layer.TypesAre (P : Text → Prop) (l : Layer) : Prop := ∀ type, l.isDeclared type = true → P type

def Store.TypesAre (P : Text → Prop) (s : Store) : Prop :=
  ∀ level l, s.layer? level = some l → l.TypesAre P

def Program.NamesAre (P : Text → Prop) (p : Program) : Prop := ∀ st ∈ p, ∀ n ∈ st.names, P n

section
variable {P : Text → Prop}

namespace Layer.TypesAre
variable {l : Layer} {type key value : Text} {s : Span}

theorem ofCorpus (c : Corpus) : (Layer.ofCorpus c).TypesAre P := nofun

theorem declareType (h : l.TypesAre P) (htype : P type) : (l.declareType type).TypesAre P := by
  intro u hu
  rw [isDeclared_iff, instances?_declareType] at hu
  split at hu
  · rename_i heq
    exact heq ▸ htype
  · exact h u (isDeclared_iff.2 hu)

theorem addToType (h : l.TypesAre P) (htype : P type) : (l.addToType type s).TypesAre P := by
  intro u hu
  rcases isDeclared_addToType.1 hu with rfl | hu
  · exact htype
  · exact h u hu

theorem setTokenProperties (h : l.TypesAre P) : (l.setTokenProperties s key value).TypesAre P :=
  List.foldlRecOn (motive := Layer.TypesAre P) s.tokenRefs _ h fun _ hl _ _ => hl

theorem keeps {e : Effect} (he : ∀ n ∈ e.names, P n) : e.Keeps (Layer.TypesAre P) fun _ => True := by
  cases e with
  | spanType type =>
    have htype := he type List.mem_cons_self
    exact ⟨fun h _ => h.addToType htype, (·.declareType htype), fun _ _ _ => trivial⟩
  | spanProperty key value => exact ⟨fun h _ => h, id, fun _ _ _ => trivial⟩
  | tokenProperty key value => exact ⟨fun h _ => h.setTokenProperties, id, fun _ _ _ => trivial⟩

theorem addAllToType (h : l.TypesAre P) (htype : P type) (spans : List Span) :
    (l.addAllToType type spans).TypesAre P :=
  Labeling.keeps_applyAll (keeps (e := .spanType type) (List.forall_mem_singleton.2 htype)) h
    fun _ _ => trivial

theorem execute {ds : Dictionaries} {st : Labeling} (h : l.TypesAre P)
    (he : ∀ n ∈ st.effect.names, P n) : (st.execute ds l).layer.TypesAre P :=
  Labeling.keeps_execute (keeps he) h fun _ _ _ _ => trivial

end Layer.TypesAre

namespace Store.TypesAre
variable {s s' : Store} {level type : Text} {l : Layer}

theorem layer (h : s.TypesAre P) (level : Text) : (s.layer level).TypesAre P := by
  unfold Store.layer
  cases hl : s.layer? level with
  | none => exact nofun
  | some l => exact h level l hl

theorem setLayer (h : s.TypesAre P) (hl : l.TypesAre P) : (s.setLayer level l).TypesAre P := by
  intro k m hm
  rw [layer?_setLayer] at hm
  split at hm
  · cases hm
    exact hl
  · exact h k m hm

theorem createLevel {strategy pattern : Text} (h : s.TypesAre P)
    (hcreate : s.createLevel level strategy pattern l = .ok s') : s'.TypesAre P := by
  unfold Store.createLevel at hcreate
  split at hcreate
  · cases hcreate
  · split at hcreate
    · cases hcreate
    · obtain ⟨c, _, hcreate⟩ := Reading.bind_eq_ok_iff.1 hcreate
      cases hcreate
      exact h.setLayer (.ofCorpus c)

theorem importFromLevel {source oldType : Text} (h : s.TypesAre P) (htype : P type)
    (himport : s.importFromLevel source oldType level type = .ok s') : s'.TypesAre P := by
  unfold Store.importFromLevel at himport
  split at himport
  · cases himport
  · rename_i m hm
    split at himport
    · cases himport
    · cases himport
      apply h.setLayer
      split
      · exact (h source m hm).addAllToType htype _
      · exact ((h.layer level).declareType htype).addAllToType htype _

end Store.TypesAre

def AnnotatorRunner.KeepsTypes (P : Text → Prop) (annotate : AnnotatorRunner) : Prop :=
  ∀ name level (s : Store), s.TypesAre P → (annotate name level s).store.TypesAre P

variable {annotate : AnnotatorRunner} {s : Store} {level : Text}

theorem Statement.typesAre_execute {st : Statement} (ha : annotate.KeepsTypes P)
    (hst : ∀ n ∈ st.names, P n) (h : s.TypesAre P) :
    (st.execute annotate s level).1.store.TypesAre P := by
  cases st with
  | declareType type => exact h.setLayer ((h.layer level).declareType (hst type List.mem_cons_self))
  | provide | offLevel | defineDictionary => exact h
  | require type file =>
    simp only [execute, Store.require]
    split
    · exact h
    · split
      · exact ha _ level s h
      · exact ha _ level s h
  | annotateWith file => exact ha file level s h
  | onLevel new =>
    simp only [execute]
    split <;> exact h
  | importFromLevel source newType oldType =>
    simp only [execute]
    cases himport : s.importFromLevel source oldType level newType with
    | error f => exact h
    | ok s' => exact h.importFromLevel (hst newType (by simp [names])) himport
  | defineLevel new strategy pattern =>
    simp only [execute]
    cases hcreate : s.createLevel new strategy.name pattern (s.layer level) with
    | error f => exact h
    | ok s' => exact h.createLevel hcreate
  | label st =>
    exact h.setLayer ((h.layer level).execute fun n hn => hst n (List.mem_append_left _ hn))

theorem Program.typesAre_run {p : Program} (ha : annotate.KeepsTypes P) (hp : p.NamesAre P)
    (h : s.TypesAre P) : (p.run annotate s level).store.TypesAre P := by
  induction p generalizing s level with
  | nil => exact h
  | cons st p ih =>
    obtain ⟨hst, hp⟩ := List.forall_mem_cons.1 hp
    have hstep : (st.execute annotate s level).1.store.TypesAre P := st.typesAre_execute ha hst h
    simp only [run]
    split
    · exact hstep
    · exact ih hp hstep

/-- Annotators keep a condition that programs that can be read meet, and the type of words with a
capital letter. -/
theorem Environment.keepsTypes_annotate {env : Environment} (henv : env.KnowsOnlyCapitals)
    (hcap : P (ascii "cap"))
    (hread : ∀ source p, Program.parse? env.resources source = .ok p → p.NamesAre P)
    (bound : Nat) : (env.annotate bound).KeepsTypes P := by
  induction bound with
  | zero => exact fun _ _ _ h => h
  | succ bound ih =>
    intro name level s h
    unfold annotate
    split
    · exact h
    · rename_i run hrun
      rw [eq_markCapitals_of_loadAnnotator henv hrun]
      exact h.setLayer ((h.layer level).addAllToType hcap _)
    · rename_i p hload
      obtain ⟨file, hfile⟩ := exists_loads hload
      obtain ⟨source, -, hsource⟩ := Program.ofFile?_eq_ok_iff.1 hfile.reads
      exact p.typesAre_run ih (hread source p hsource) h

end

/-- No name in a program that was read has a line feed. -/
theorem Program.feed_not_mem_of_parse? {r : Resources} {source : Text} {p : Program}
    (h : parse? r source = .ok p) : p.NamesAre fun n => byte '\n' ∉ n := by
  intro st hst n hn
  obtain ⟨s, hs, htidy, hsourced⟩ := exists_sourced_of_parse? h hst
  rcases hsourced.names n hn with hname | hquoted
  · exact hname.quiet.feed
  · exact feed_not_mem_of_spellsQuoted htidy hquoted

end SpanRules
