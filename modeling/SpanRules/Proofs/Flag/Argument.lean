import Mathlib.Data.List.TakeWhile
import SpanRules.Flag.CommandLine

/-! The arguments that set flags. Which flag an argument sets, and from what text, is a relation
that knows of the flags only what they are declared as; it is what the program finds out by name. -/
namespace SpanRules

namespace Argument

/-- A single dash is like an argument without dashes. -/
def IsPlain (arg : Text) : Prop := arg.head? ≠ some (byte '-') ∨ arg = ascii "-"

instance (arg : Text) : Decidable (IsPlain arg) := inferInstanceAs (Decidable (_ ∨ _))

/-- A flag is what follows one dash or two. -/
inductive Dashed : Text → Text → Prop
  | one {flag : Text} (nonempty : flag ≠ []) (undashed : flag.head? ≠ some (byte '-')) :
      Dashed (byte '-' :: flag) flag
  | two {flag : Text} (nonempty : flag ≠ []) : Dashed (byte '-' :: byte '-' :: flag) flag

/-- A name, with the text after an equals sign if there is one. -/
def written (name : Text) : Option Text → Text
  | none => name
  | some text => name ++ byte '=' :: text

variable {arg flag name : Text} {text : Option Text}

theorem ofText_of_isPlain (h : IsPlain arg) : ofText arg = .plain := by
  match arg with
  | [] | [_] => rfl
  | a :: b :: t =>
    have hdash : a ≠ byte '-' := by
      rcases h with h | h
      · simpa using h
      · simp [ascii] at h
    simp only [ofText, hdash, ne_eq, not_false_eq_true, if_true]

theorem ofText_of_dashed (h : Dashed arg flag) : ofText arg = ofFlag flag := by
  cases h with
  | one nonempty undashed =>
    obtain ⟨b, t, rfl⟩ := List.exists_cons_of_ne_nil nonempty
    have hdash : b ≠ byte '-' := by simpa using undashed
    simp only [ofText, hdash, ne_eq, not_true_eq_false, not_false_eq_true, if_false, if_true]
  | two nonempty =>
    simp only [ofText, nonempty, ne_eq, not_true_eq_false, if_false]

theorem isPlain_or_dashed (arg : Text) :
    IsPlain arg ∨ arg = ascii "--" ∨ ∃ flag, Dashed arg flag := by
  match arg with
  | [] => exact .inl (.inl (by simp))
  | [a] =>
    by_cases ha : a = byte '-'
    · exact .inl (.inr (by rw [ha]; rfl))
    · exact .inl (.inl (by simpa using ha))
  | a :: b :: t =>
    by_cases ha : a = byte '-'
    · subst ha
      by_cases hb : b = byte '-'
      · subst hb
        by_cases ht : t = []
        · exact .inr (.inl (by rw [ht]; rfl))
        · exact .inr (.inr ⟨t, .two ht⟩)
      · exact .inr (.inr ⟨b :: t, .one (by simp) (by simpa using hb)⟩)
    · exact .inl (.inl (by simpa using ha))

/-- A name without equals sign is read back. -/
theorem ofFlag_written (hname : byte '=' ∉ name) (text : Option Text) :
    ofFlag (written name text) = .flag name text := by
  have hall : ∀ b ∈ name, (b != byte '=') = true := fun b hb => by
    simpa using fun h : b = byte '=' => hname (h ▸ hb)
  unfold ofFlag written
  cases text with
  | none =>
    simp only [List.dropWhile_eq_nil_iff.2 hall]
  | some text =>
    simp only [List.dropWhile_append_of_pos hall, List.takeWhile_append_of_pos hall,
      List.dropWhile_cons, List.takeWhile_cons, bne_self_eq_false, Bool.false_eq_true, if_false,
      List.append_nil]

theorem exists_written (flag : Text) :
    ∃ name text, byte '=' ∉ name ∧ flag = written name text := by
  by_cases h : byte '=' ∈ flag
  · obtain ⟨name, text, hflag, hname⟩ := List.eq_append_cons_of_mem h
    exact ⟨name, some text, hname, hflag⟩
  · exact ⟨flag, none, h, rfl⟩

/-- The three kinds of arguments, with what they are read as. -/
theorem ofText_cases (arg : Text) :
    (IsPlain arg ∧ ofText arg = .plain) ∨ (arg = ascii "--" ∧ ofText arg = .terminator) ∨
      ∃ name text, Dashed arg (written name text) ∧ byte '=' ∉ name ∧
        ofText arg = .flag name text := by
  rcases isPlain_or_dashed arg with hplain | rfl | ⟨flag, hflag⟩
  · exact .inl ⟨hplain, ofText_of_isPlain hplain⟩
  · exact .inr (.inl ⟨rfl, rfl⟩)
  · obtain ⟨name, text, hname, rfl⟩ := exists_written flag
    have hread := (ofText_of_dashed hflag).trans (ofFlag_written hname text)
    exact .inr (.inr ⟨name, text, hflag, hname, hread⟩)

theorem isPlain_of_ofText (h : ofText arg = .plain) : IsPlain arg := by
  rcases ofText_cases arg with ⟨hplain, -⟩ | ⟨-, h'⟩ | ⟨_, _, -, -, h'⟩
  · exact hplain
  · cases h.symm.trans h'
  · cases h.symm.trans h'

theorem eq_dashes_of_ofText (h : ofText arg = .terminator) : arg = ascii "--" := by
  rcases ofText_cases arg with ⟨-, h'⟩ | ⟨hdashes, -⟩ | ⟨_, _, -, -, h'⟩
  · cases h.symm.trans h'
  · exact hdashes
  · cases h.symm.trans h'

theorem dashed_of_ofText (h : ofText arg = .flag name text) :
    Dashed arg (written name text) ∧ byte '=' ∉ name := by
  rcases ofText_cases arg with ⟨-, h'⟩ | ⟨-, h'⟩ | ⟨_, _, hdashed, hname, h'⟩
  · cases h.symm.trans h'
  · cases h.symm.trans h'
  · cases h.symm.trans h'
    exact ⟨hdashed, hname⟩

end Argument

/-- The names and the types of flags, which stay as their values change. -/
abbrev Declarations := List (Text × FlagType)

/-- The first declaration of a name is at a place. -/
structure Declares (ds : Declarations) (name : Text) (type : FlagType) (place : Nat) : Prop where
  at_place : ds[place]? = some (name, type)
  first : ∀ j < place, ∀ d, ds[j]? = some d → d.1 ≠ name

theorem Declares.unique {ds : Declarations} {name : Text} {type type' : FlagType}
    {place place' : Nat} (h : Declares ds name type place)
    (h' : Declares ds name type' place') : place = place' ∧ type = type' := by
  have hplace : place = place' := by
    rcases Nat.lt_trichotomy place place' with hlt | heq | hgt
    · exact absurd rfl (h'.first place hlt _ h.at_place)
    · exact heq
    · exact absurd rfl (h.first place' hgt _ h'.at_place)
  subst hplace
  have htype := h.at_place.symm.trans h'.at_place
  simp only [Option.some.injEq, Prod.mk.injEq, true_and] at htype
  exact ⟨rfl, htype⟩

namespace Flags

open Argument

def declarations (flags : Flags) : Declarations := flags.map fun f => (f.name, f.type)

/-- An argument sets the flag at a place to what its type makes of a text. The name of a truth value
may have `no` before it, unless this makes the name of another flag. -/
inductive Spells (ds : Declarations) : Text → Nat → FlagType → Option Text → Prop
  | named {arg name text place type} (dashed : Dashed arg (written name text))
      (whole : byte '=' ∉ name) (declares : Declares ds name type place) :
      Spells ds arg place type text
  | negated {arg name place} (dashed : Dashed arg (ascii "no" ++ name)) (whole : byte '=' ∉ name)
      (other : ∀ d ∈ ds, d.1 ≠ ascii "no" ++ name) (declares : Declares ds name .bool place) :
      Spells ds arg place .bool (some (ascii "false"))

variable {flags : Flags} {ds : Declarations} {arg name : Text} {f : Flag} {type : FlagType}
  {place : Nat} {text given : Option Text}

theorem getElem?_declarations (flags : Flags) (i : Nat) :
    flags.declarations[i]? = flags[i]?.map fun f => (f.name, f.type) := List.getElem?_map

theorem find?_eq_some_iff :
    flags.find? name = some f ↔ f.name = name ∧
      ∃ place, flags[place]? = some f ∧ Declares flags.declarations name f.type place := by
  unfold find?
  rw [List.find?_eq_some_iff_getElem]
  constructor
  · rintro ⟨hname, place, hplace, hf, hfirst⟩
    have hname : f.name = name := by simpa using hname
    have hat : flags[place]? = some f := hf ▸ List.getElem?_eq_getElem hplace
    refine ⟨hname, place, hat, ?_, ?_⟩
    · rw [getElem?_declarations, hat, ← hname]
      rfl
    · intro j hj d hd
      rw [getElem?_declarations, List.getElem?_eq_getElem (hj.trans hplace)] at hd
      have hother : flags[j].name ≠ name := by simpa using hfirst j hj
      rw [← Option.some.inj hd]
      exact hother
  · rintro ⟨hname, place, hat, h⟩
    obtain ⟨hplace, hf⟩ := List.getElem?_eq_some_iff.1 hat
    refine ⟨by simpa using hname, place, hplace, hf, fun j hj => ?_⟩
    have hother : flags[j].name ≠ name := by
      refine h.first j hj (flags[j].name, flags[j].type) ?_
      rw [getElem?_declarations, List.getElem?_eq_getElem (hj.trans hplace)]
      rfl
    simpa using hother

theorem find?_of_declares (h : Declares flags.declarations name type place) :
    ∃ f, flags.find? name = some f ∧ f.name = name ∧ f.type = type := by
  have hat := h.at_place
  rw [getElem?_declarations, Option.map_eq_some_iff] at hat
  obtain ⟨f, hf, hd⟩ := hat
  simp only [Prod.mk.injEq] at hd
  obtain ⟨hname, htype⟩ := hd
  exact ⟨f, find?_eq_some_iff.2 ⟨hname, place, hf, htype ▸ h⟩, hname, htype⟩

theorem find?_eq_none_iff :
    flags.find? name = none ↔ ∀ d ∈ flags.declarations, d.1 ≠ name := by
  unfold find? declarations
  simp only [List.find?_eq_none, List.forall_mem_map, beq_iff_eq, ne_eq]

theorem resolve?_of_find?_eq_some (h : flags.find? name = some f) (text : Option Text) :
    flags.resolve? name text = some (f, false) := by
  simp only [resolve?, h]

theorem resolve?_of_find?_eq_none (hno : flags.find? (ascii "no" ++ name) = none)
    (h : flags.find? name = some f) (htype : f.type = .bool) :
    flags.resolve? (ascii "no" ++ name) none = some (f, true) := by
  have hpre : (ascii "no").isPrefixOf (ascii "no" ++ name) = true :=
    List.isPrefixOf_iff_prefix.2 (List.prefix_append _ _)
  have hdrop : (ascii "no" ++ name).drop 2 = name := rfl
  simp only [resolve?, hno, hpre, hdrop, h, htype, and_self, if_true]

theorem resolve?_eq_some {negated : Bool} (h : flags.resolve? name text = some (f, negated)) :
    (negated = false ∧ flags.find? name = some f) ∨
    (negated = true ∧ text = none ∧ f.type = .bool ∧ flags.find? name = none ∧
      ∃ rest, name = ascii "no" ++ rest ∧ flags.find? rest = some f) := by
  unfold resolve? at h
  split at h
  · rename_i g hfind
    simp only [Option.some.injEq, Prod.mk.injEq] at h
    exact .inl ⟨h.2.symm, h.1 ▸ hfind⟩
  · rename_i hfind
    split at h
    · rename_i hno
      obtain ⟨hpre, htext⟩ := hno
      obtain ⟨rest, rfl⟩ := List.isPrefixOf_iff_prefix.1 hpre
      have hdrop : (ascii "no" ++ rest).drop 2 = rest := rfl
      rw [hdrop] at h
      split at h
      · rename_i g hrest
        split at h
        · rename_i hbool
          simp only [Option.some.injEq, Prod.mk.injEq] at h
          obtain ⟨rfl, rfl⟩ := h
          exact .inr ⟨rfl, htext, hbool, hfind, rest, rfl, hrest⟩
        · cases h
      · cases h
    · cases h

/-- What an argument that spells a flag is taken for. -/
theorem resolve?_of_spells (h : Spells flags.declarations arg place type given) :
    ∃ name text f negated, ofText arg = .flag name text ∧
      flags.resolve? name text = some (f, negated) ∧
      Declares flags.declarations f.name type place ∧ f.type = type ∧
      (negated = true → type = .bool) ∧
      (if negated then some (ascii "false") else text) = given := by
  cases h with
  | named dashed whole declares =>
    obtain ⟨f, hfind, rfl, htype⟩ := find?_of_declares declares
    refine ⟨f.name, given, f, false, ?_, resolve?_of_find?_eq_some hfind given, declares, htype,
      by simp, rfl⟩
    rw [ofText_of_dashed dashed, ofFlag_written whole]
  | negated dashed whole other declares =>
    obtain ⟨f, hfind, rfl, htype⟩ := find?_of_declares declares
    have hwhole : byte '=' ∉ ascii "no" ++ f.name := by
      rw [List.mem_append, not_or]
      exact ⟨by decide, whole⟩
    refine ⟨ascii "no" ++ f.name, none, f, true, ?_,
      resolve?_of_find?_eq_none (find?_eq_none_iff.2 other) hfind htype, declares, htype,
      fun _ => rfl, rfl⟩
    rw [ofText_of_dashed dashed]
    exact ofFlag_written hwhole none

theorem spells_of_resolve? {negated : Bool} (hdashed : Dashed arg (written name text))
    (hwhole : byte '=' ∉ name) (h : flags.resolve? name text = some (f, negated)) :
    (negated = true → f.type = .bool) ∧
      ∃ place, Declares flags.declarations f.name f.type place ∧
        Spells flags.declarations arg place f.type
          (if negated then some (ascii "false") else text) := by
  rcases resolve?_eq_some h with ⟨rfl, hfind⟩ | ⟨rfl, rfl, htype, hnone, rest, rfl, hfind⟩
  · obtain ⟨rfl, place, -, hdeclares⟩ := find?_eq_some_iff.1 hfind
    exact ⟨by simp, place, hdeclares, .named hdashed hwhole hdeclares⟩
  · obtain ⟨rfl, place, -, hdeclares⟩ := find?_eq_some_iff.1 hfind
    have hrest : byte '=' ∉ f.name := fun hmem => hwhole (List.mem_append_right _ hmem)
    rw [htype] at hdeclares ⊢
    have hother := find?_eq_none_iff.1 hnone
    exact ⟨fun _ => rfl, place, hdeclares, .negated hdashed hrest hother hdeclares⟩

theorem Spells.declares (h : Spells ds arg place type given) :
    ∃ name, Declares ds name type place := by
  cases h with
  | named _ _ declares | negated _ _ _ declares => exact ⟨_, declares⟩

theorem Spells.not_isPlain (h : Spells flags.declarations arg place type given) :
    ¬ IsPlain arg := by
  obtain ⟨name, text, f, negated, harg, -⟩ := resolve?_of_spells h
  intro hplain
  cases harg.symm.trans (ofText_of_isPlain hplain)

theorem Spells.ne_dashes (h : Spells flags.declarations arg place type given) :
    arg ≠ ascii "--" := by
  obtain ⟨name, text, f, negated, harg, -⟩ := resolve?_of_spells h
  rintro rfl
  cases harg

theorem Spells.unique {place' : Nat} {type' : FlagType} {given' : Option Text}
    (h : Spells flags.declarations arg place type given)
    (h' : Spells flags.declarations arg place' type' given') :
    place = place' ∧ type = type' ∧ given = given' := by
  obtain ⟨name, text, f, negated, harg, hresolve, hdeclares, rfl, -, rfl⟩ := resolve?_of_spells h
  obtain ⟨name', text', f', negated', harg', hresolve', hdeclares', rfl, -, rfl⟩ :=
    resolve?_of_spells h'
  cases harg.symm.trans harg'
  cases hresolve.symm.trans hresolve'
  exact ⟨(hdeclares.unique hdeclares').1, rfl, rfl⟩

end Flags

end SpanRules
