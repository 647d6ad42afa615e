import SpanRules.Proofs.Phrase.Keys
import SpanRules.Proofs.Statement.Sourced
import SpanRules.Proofs.Text.Lower
import SpanRules.Statement.Listing

/-! What is read from the source form of a statement. Words of dictionaries are in the case in which
they are held, and empty phrases are left out. All else is as it was, and so is the source form. -/
namespace SpanRules

namespace DictionaryDefinition
variable (d : DictionaryDefinition)

theorem normal_normal (w : Text) : d.normal (d.normal w) = d.normal w := by
  unfold normal
  split
  · exact Text.lower_lower w
  · rfl

end DictionaryDefinition

/-- An entry with its word in the form in which the dictionary holds it. -/
def DictionaryEntry.relisted (d : DictionaryDefinition) : DictionaryEntry → DictionaryEntry
  | .word w => .word (d.normal w)
  | .file name lines => .file name lines

namespace DictionaryDefinition
variable (d : DictionaryDefinition)

def relisted : DictionaryDefinition := { d with entries := d.entries.map (·.relisted d) }

theorem normal_relisted (w : Text) : d.relisted.normal w = d.normal w := rfl

theorem words_relisted : d.relisted.words = d.words := by
  have hentry : ∀ e : DictionaryEntry,
      (entryWords (e.relisted d)).map d.normal = (entryWords e).map d.normal := by
    intro e
    cases e with
    | word w => simp [DictionaryEntry.relisted, entryWords, normal_normal]
    | file => rfl
  have hwords : (d.relisted.entries.flatMap entryWords).map d.normal =
      (d.entries.flatMap entryWords).map d.normal := by
    simp only [relisted, List.flatMap_map, List.map_flatMap, hentry]
  exact congrArg OrderedSet.ofList hwords

theorem toText_relisted : d.relisted.toText = d.toText := by
  have hentry : ∀ e : DictionaryEntry, (e.relisted d).toText d.relisted = e.toText d := by
    intro e
    cases e with
    | word w => simp [DictionaryEntry.relisted, DictionaryEntry.toText, normal_relisted,
        normal_normal]
    | file => rfl
  have hentries : d.relisted.entries.map (·.toText d.relisted) = d.entries.map (·.toText d) := by
    simp only [relisted, List.map_map, Function.comp_def]
    exact List.map_congr_left fun e _ => hentry e
  rw [toText, toText, hentries]
  rfl

end DictionaryDefinition

namespace PhraseEntry

def isEmpty : PhraseEntry → Bool
  | words _ [] => true
  | _ => false

/-- A phrase at another place in its list. -/
def renumber (number : Nat) : PhraseEntry → PhraseEntry
  | words _ ws => words number ws
  | file name lines => file name lines

variable {e : PhraseEntry} {es : List PhraseEntry}

theorem toText?_renumber (number : Nat) (e : PhraseEntry) :
    (e.renumber number).toText? = e.toText? := by
  cases e with
  | file => rfl
  | words _ ws => cases ws <;> rfl

theorem toText?_eq_none_iff : e.toText? = none ↔ e.isEmpty = true := by
  cases e with
  | file => simp [toText?, isEmpty]
  | words _ ws => cases ws <;> simp [toText?, isEmpty]

/-- The phrases that have a source form, numbered by the places that they have in it. -/
def listed (es : List PhraseEntry) : List PhraseEntry :=
  (es.filter (!·.isEmpty)).zipIdx.map fun e => e.1.renumber e.2

/-- What is read from the source form of phrases. An empty source form is read as one empty
phrase. -/
def relist (es : List PhraseEntry) : List PhraseEntry :=
  if es.filter (!·.isEmpty) = [] then [words 0 []] else listed es

/-- What does not depend on numbers and is nothing for an empty phrase is the same after listing. -/
theorem flatMap_listed {β : Type} {f : PhraseEntry → List β}
    (hf : ∀ number e, f (e.renumber number) = f e) (hempty : ∀ e, e.isEmpty = true → f e = []) :
    (listed es).flatMap f = es.flatMap f := by
  have hfilter : es.flatMap f = (es.filter (!·.isEmpty)).flatMap f := by
    induction es with
    | nil => rfl
    | cons e es ih =>
      by_cases he : e.isEmpty = true
      · rw [List.flatMap_cons, hempty e he, List.nil_append, ih,
          List.filter_cons_of_neg (by simp [he])]
      · rw [List.flatMap_cons, ih, List.filter_cons_of_pos (by simp [he]), List.flatMap_cons]
  rw [hfilter, listed, List.flatMap_map]
  simp only [hf]
  generalize es.filter (!·.isEmpty) = es'
  rw [← List.flatMap_map (f := Prod.fst), List.zipIdx_map_fst]

theorem flatMap_relist {β : Type} {f : PhraseEntry → List β}
    (hf : ∀ number e, f (e.renumber number) = f e) (hempty : ∀ e, e.isEmpty = true → f e = []) :
    (relist es).flatMap f = es.flatMap f := by
  refine Eq.trans ?_ (flatMap_listed hf hempty)
  unfold relist
  split
  · rename_i hnil
    rw [listed, hnil, List.flatMap_singleton, hempty _ rfl]
    rfl
  · rfl

theorem filterMap_relist {β : Type} {f : PhraseEntry → Option β}
    (hf : ∀ number e, f (e.renumber number) = f e) (hempty : ∀ e, e.isEmpty = true → f e = none) :
    (relist es).filterMap f = es.filterMap f := by
  rw [List.filterMap_eq_flatMap_toList, List.filterMap_eq_flatMap_toList]
  apply flatMap_relist (fun number e => by rw [hf])
  intro e he
  rw [hempty e he]
  rfl

/-- The words or the file of a phrase, whatever its number is; nothing for an empty phrase. -/
def contents? (e : PhraseEntry) : Option PhraseEntry :=
  if e.isEmpty then none else some (e.renumber 0)

theorem contents?_renumber (number : Nat) (e : PhraseEntry) :
    (e.renumber number).contents? = e.contents? := by
  cases e with
  | file => rfl
  | words _ ws => cases ws <;> rfl

theorem filterMap_contents?_listed :
    (listed es).filterMap (·.contents?) = es.filterMap (·.contents?) := by
  rw [List.filterMap_eq_flatMap_toList, List.filterMap_eq_flatMap_toList]
  refine flatMap_listed (fun number e => by rw [contents?_renumber]) fun e he => ?_
  rw [contents?, if_pos he]
  rfl

theorem filterMap_contents?_relist :
    (relist es).filterMap (·.contents?) = es.filterMap (·.contents?) :=
  filterMap_relist contents?_renumber fun _ he => if_pos he

/-- Phrases occur where they did before. -/
theorem lookup_relist (d : Document) (s : Span) :
    (collect (relist es)).lookup d s = (collect es).lookup d s := by
  refine PhraseSet.lookup_congr ?_ d s
  rw [List.map_flatMap, List.map_flatMap]
  refine flatMap_relist (fun number e => ?_) fun e he => ?_
  · cases e with
    | file => rfl
    | words _ ws => cases ws <;> rfl
  · cases e with
    | file => cases he
    | words _ ws =>
      cases ws with
      | nil => rfl
      | cons => cases he

end PhraseEntry

namespace Generator

def relisted : Generator → Generator
  | extractions p => extractions p
  | rejections p => rejections p
  | phrases entries => phrases (PhraseEntry.relist entries)

theorem toText_relisted (g : Generator) : g.relisted.toText = g.toText := by
  cases g with
  | extractions | rejections => rfl
  | phrases entries =>
    have hsame : (PhraseEntry.relist entries).filterMap (·.toText?) =
        entries.filterMap (·.toText?) :=
      PhraseEntry.filterMap_relist PhraseEntry.toText?_renumber
        fun _ he => PhraseEntry.toText?_eq_none_iff.2 he
    rw [relisted, toText, toText, hsame]

/-- Generators with the same pattern, or with the same sequence of non-empty phrases, which occur
at the same places of every document. -/
def Alike : Generator → Generator → Prop
  | extractions p, extractions q => p = q
  | rejections p, rejections q => p = q
  | phrases es, phrases es' => es.filterMap (·.contents?) = es'.filterMap (·.contents?) ∧
      ∀ d s, (PhraseEntry.collect es).lookup d s = (PhraseEntry.collect es').lookup d s
  | _, _ => False

theorem alike_relisted (g : Generator) : g.Alike g.relisted := by
  cases g with
  | extractions | rejections => rfl
  | phrases es =>
    exact ⟨PhraseEntry.filterMap_contents?_relist.symm,
      fun d s => (PhraseEntry.lookup_relist d s).symm⟩

end Generator

namespace Statement

/-- The statement as which the source form of a statement is read. -/
def relisted : Statement → Statement
  | defineDictionary d => defineDictionary d.relisted
  | label l => label { l with generator := l.generator.relisted }
  | st => st

theorem toText_relisted (st : Statement) : st.relisted.toText = st.toText := by
  cases st with
  | defineDictionary d => exact d.toText_relisted
  | label l =>
    simp only [relisted, toText, Labeling.toText, Generator.toText_relisted]
  | _ => rfl

/-- Statements of one kind with equal names, types, values, scopes, levels and files, of which
dictionaries hold the same words in the same case, and generators are alike. -/
def Alike : Statement → Statement → Prop
  | defineDictionary d, defineDictionary d' =>
    d.name = d'.name ∧ d.ignoreCase = d'.ignoreCase ∧ d.words = d'.words ∧
      d.entries.filterMap (·.file?) = d'.entries.filterMap (·.file?)
  | label l, label l' => l.effect = l'.effect ∧ l.scope = l'.scope ∧ l.generator.Alike l'.generator
  | st, st' => st = st'

theorem alike_relisted (st : Statement) : st.Alike st.relisted := by
  cases st with
  | defineDictionary d =>
    refine ⟨rfl, rfl, d.words_relisted.symm, ?_⟩
    simp only [DictionaryDefinition.relisted, List.filterMap_map]
    apply List.filterMap_congr
    intro e _
    cases e <;> rfl
  | label l => exact ⟨rfl, rfl, l.generator.alike_relisted⟩
  | _ => rfl

end Statement

end SpanRules
