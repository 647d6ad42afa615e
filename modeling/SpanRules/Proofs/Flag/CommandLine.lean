import SpanRules.Command
import SpanRules.Proofs.Flag.Argument

/-! A command line divides into flags, their values and other arguments. The division is a relation
on the roles of the arguments, which knows of the flags only what they are declared as. Main
statement: a command line without fault divides in one way; the arguments that are left are those
that the division keeps, and each flag has the value that it was last set to. -/
namespace SpanRules

namespace Argument

inductive Role where
  | kept
  /-- It sets the flag at a place of the list of all flags. -/
  | setting (place : Nat) (value : FlagValue)
  /-- It is the value of the flag before it. -/
  | value
  | terminator
  deriving DecidableEq

/-- The value that an argument gives to the flag at a place. -/
def Role.valueAt? (place : Nat) : Role → Option FlagValue
  | setting p v => if p = place then some v else none
  | _ => none

def lastValue? (roles : List Role) (place : Nat) : Option FlagValue :=
  (roles.filterMap (Role.valueAt? place)).getLast?

def keptArguments (args : List Text) (roles : List Role) : List Text :=
  ((args.zip roles).filter fun e => e.2 = .kept).map (·.1)

theorem lastValue?_cons (role : Role) (roles : List Role) (place : Nat) :
    lastValue? (role :: roles) place = (lastValue? roles place).or (role.valueAt? place) := by
  unfold lastValue?
  cases h : role.valueAt? place with
  | none => rw [List.filterMap_cons_none h, Option.or_none]
  | some v =>
    rw [List.filterMap_cons_some h, List.getLast?_cons]
    cases (roles.filterMap (Role.valueAt? place)).getLast? <;> rfl

theorem keptArguments_map_kept (args : List Text) :
    keptArguments args (args.map fun _ => .kept) = args := by
  induction args with
  | nil => rfl
  | cons arg args ih => exact congrArg (arg :: ·) ih

end Argument

namespace Flags

open Argument

def setAt (flags : Flags) (place : Nat) (v : FlagValue) : Flags :=
  flags.modify place fun f => { f with value := v }

/-- The flags with the values that arguments give last; the others are as before. -/
def settled (flags : Flags) (roles : List Role) : Flags :=
  flags.mapIdx fun place f => { f with value := (lastValue? roles place).getD f.value }

/-- The roles of the arguments. A value may be an argument of its own, whatever it looks like; a
flag for a truth value takes none. All is kept after two dashes alone. -/
inductive Divides (ds : Declarations) : List Text → List Role → Prop
  | nil : Divides ds [] []
  | kept {arg args roles} (plain : IsPlain arg) (rest : Divides ds args roles) :
      Divides ds (arg :: args) (.kept :: roles)
  | terminator (args : List Text) :
      Divides ds (ascii "--" :: args) (.terminator :: args.map fun _ => .kept)
  | setting {arg args roles place type given v} (spells : Spells ds arg place type given)
      (reads : type.read? given = some v) (rest : Divides ds args roles) :
      Divides ds (arg :: args) (.setting place v :: roles)
  | separate {arg value args roles place type v} (spells : Spells ds arg place type none)
      (wanting : type ≠ .bool) (reads : type.read? (some value) = some v)
      (rest : Divides ds args roles) :
      Divides ds (arg :: value :: args) (.setting place v :: .value :: roles)

variable {flags : Flags} {ds : Declarations} {arg name : Text} {args : List Text} {f : Flag}
  {type : FlagType} {place : Nat} {text given : Option Text} {v : FlagValue} {roles : List Role}

theorem type_of_read? (h : type.read? given = some v) : v.type = type := by
  cases type <;> cases given <;> simp only [FlagType.read?, Option.map_eq_some_iff, reduceCtorEq,
    Option.some.injEq] at h
  · exact h ▸ rfl
  · obtain ⟨-, -, rfl⟩ := h
    rfl
  · obtain ⟨-, -, rfl⟩ := h
    rfl
  · exact h ▸ rfl

theorem setValue_eq_setAt (h : Declares flags.declarations name type place) (v : FlagValue) :
    flags.setValue name v = flags.setAt place v := by
  induction flags generalizing place with
  | nil =>
    have hat := h.at_place
    cases hat
  | cons f flags ih =>
    obtain ⟨hat, hfirst⟩ := h
    cases place with
    | zero =>
      have hname : f.name = name := by
        simp only [declarations, List.map_cons, List.getElem?_cons_zero, Option.some.injEq,
          Prod.mk.injEq] at hat
        exact hat.1
      simp only [setValue, hname, if_true, setAt, List.modify_zero_cons]
    | succ place =>
      have hname : f.name ≠ name := hfirst 0 (by omega) _ rfl
      have htail : Declares (declarations flags) name type place :=
        ⟨hat, fun j hj d hd => hfirst (j + 1) (by omega) d hd⟩
      simp only [setValue, hname, if_false, ih htail, setAt, List.modify_succ_cons]

theorem getElem?_setAt (flags : Flags) (place : Nat) (v : FlagValue) (i : Nat) :
    (flags.setAt place v)[i]? =
      flags[i]?.map fun f => if place = i then { f with value := v } else f :=
  List.getElem?_modify _ _ _ _

theorem declarations_setAt (h : Spells flags.declarations arg place type given)
    (hv : v.type = type) : (flags.setAt place v).declarations = flags.declarations := by
  obtain ⟨name, hdeclares⟩ := h.declares
  refine List.ext_getElem? fun i => ?_
  rw [getElem?_declarations, getElem?_declarations, getElem?_setAt, Option.map_map]
  by_cases hi : place = i
  · subst hi
    have hat := hdeclares.at_place
    rw [getElem?_declarations, Option.map_eq_some_iff] at hat
    obtain ⟨f, hf, hd⟩ := hat
    have htype : f.type = v.type := hv ▸ (Prod.mk.inj hd).2
    simp only [hf, Option.map_some, Function.comp_apply, if_true, htype]
    rfl
  · simp only [hi, if_false]
    rfl

theorem getElem?_settled (flags : Flags) (roles : List Role) (i : Nat) :
    (flags.settled roles)[i]? =
      flags[i]?.map fun f => { f with value := (lastValue? roles i).getD f.value } :=
  List.getElem?_mapIdx

theorem settled_nil (flags : Flags) : flags.settled [] = flags := by
  refine List.ext_getElem? fun i => ?_
  rw [getElem?_settled]
  exact Option.map_id_apply

theorem settled_setting (flags : Flags) (place : Nat) (v : FlagValue) (roles : List Role) :
    flags.settled (.setting place v :: roles) = (flags.setAt place v).settled roles := by
  refine List.ext_getElem? fun i => ?_
  rw [getElem?_settled, getElem?_settled, getElem?_setAt, Option.map_map]
  congr 1
  funext f
  by_cases hi : place = i <;>
    simp only [lastValue?_cons, Role.valueAt?, hi, if_true, if_false, Function.comp_apply] <;>
    cases lastValue? roles i <;> rfl

theorem settled_cons {role : Role} (h : ∀ place, role.valueAt? place = none) :
    flags.settled (role :: roles) = flags.settled roles := by
  unfold settled
  simp only [lastValue?_cons, h, Option.or_none]

theorem settled_map_kept (args : List Text) :
    flags.settled (args.map fun _ => .kept) = flags := by
  induction args with
  | nil => exact settled_nil flags
  | cons arg args ih => exact (settled_cons fun _ => rfl).trans ih

/-! The steps of taking flags out of arguments -/

theorem takeFrom_of_isPlain (h : IsPlain arg) (flags : Flags) (position : Nat) (args : List Text) :
    flags.takeFrom position (arg :: args) =
      { flags.takeFrom (position + 1) args with
        arguments := arg :: (flags.takeFrom (position + 1) args).arguments } := by
  rw [takeFrom, ofText_of_isPlain h]

theorem takeFrom_dashes (flags : Flags) (position : Nat) (args : List Text) :
    flags.takeFrom position (ascii "--" :: args) = ⟨flags, args, none⟩ := by
  have hdashes : ofText (ascii "--") = .terminator := rfl
  rw [takeFrom, hdashes]

theorem read?_none (h : type ≠ .bool) : type.read? none = none := by
  cases type with
  | bool => exact absurd rfl h
  | int32 | string => rfl

theorem takeFrom_of_spells (h : Spells flags.declarations arg place type given)
    (hreads : type.read? given = some v) (position : Nat) (args : List Text) :
    flags.takeFrom position (arg :: args) =
      (flags.setAt place v).takeFrom (position + 1) args := by
  obtain ⟨name, text, f, negated, harg, hresolve, hdeclares, rfl, hbool, rfl⟩ :=
    resolve?_of_spells h
  have hown : ¬ (text = none ∧ f.type ≠ .bool) := by
    rintro ⟨rfl, hwanting⟩
    have hplain : ¬ negated = true := fun hnegated => hwanting (hbool hnegated)
    rw [if_neg hplain, read?_none hwanting] at hreads
    cases hreads
  rw [takeFrom, harg]
  simp only [hresolve, hown, if_false, hreads, setValue_eq_setAt hdeclares]

theorem takeFrom_of_spells_none (h : Spells flags.declarations arg place type none)
    (hwanting : type ≠ .bool) {value : Text} (hreads : type.read? (some value) = some v)
    (position : Nat) (args : List Text) :
    flags.takeFrom position (arg :: value :: args) =
      (flags.setAt place v).takeFrom (position + 2) args := by
  obtain ⟨name, text, f, negated, harg, hresolve, hdeclares, rfl, hbool, hnone⟩ :=
    resolve?_of_spells h
  have hplain : ¬ negated = true := fun hnegated => hwanting (hbool hnegated)
  rw [if_neg hplain] at hnone
  subst hnone
  rw [takeFrom, harg]
  simp only [hresolve, hwanting, ne_eq, not_false_eq_true, and_self, if_true, hreads,
    setValue_eq_setAt hdeclares]

/-- What a division says is what is done, with all that it says of the flags. -/
theorem takeFrom_of_divides (h : Divides ds args roles) (hds : flags.declarations = ds)
    (position : Nat) :
    flags.takeFrom position args = ⟨flags.settled roles, keptArguments args roles, none⟩ := by
  induction h generalizing flags position with
  | nil => rw [settled_nil]; rfl
  | kept plain rest ih =>
    rw [takeFrom_of_isPlain plain, ih hds, settled_cons fun _ => rfl]
    rfl
  | terminator args =>
    rw [takeFrom_dashes, settled_cons fun _ => rfl, settled_map_kept]
    exact congrArg (CommandLine.mk flags · none) (keptArguments_map_kept args).symm
  | setting spells reads rest ih =>
    subst hds
    rw [takeFrom_of_spells spells reads,
      ih (declarations_setAt spells (type_of_read? reads)), settled_setting]
    rfl
  | separate spells wanting reads rest ih =>
    subst hds
    rw [takeFrom_of_spells_none spells wanting reads,
      ih (declarations_setAt spells (type_of_read? reads)), settled_setting,
      settled_cons fun _ => rfl]
    rfl

theorem take_of_divides (h : Divides flags.declarations args roles) :
    flags.take args = ⟨flags.settled roles, keptArguments args roles, none⟩ :=
  takeFrom_of_divides h rfl 1

/-- A command line in which nothing is found at fault has a division. -/
theorem exists_divides {position : Nat} (h : (flags.takeFrom position args).error = none) :
    ∃ roles, Divides flags.declarations args roles := by
  fun_induction takeFrom flags position args with
  | case1 flags position => exact ⟨[], .nil⟩
  | case2 flags position arg args harg rest ih =>
    obtain ⟨roles, hroles⟩ := ih h
    exact ⟨.kept :: roles, .kept (isPlain_of_ofText harg) hroles⟩
  | case3 flags position arg args harg =>
    rw [eq_dashes_of_ofText harg]
    exact ⟨_, .terminator args⟩
  | case7 flags position arg name text harg f negated hresolve hwanting value args v hreads ih =>
    obtain ⟨hdashed, hwhole⟩ := dashed_of_ofText harg
    obtain ⟨hbool, place, hdeclares, hspells⟩ := spells_of_resolve? hdashed hwhole hresolve
    obtain ⟨rfl, hwanting⟩ := hwanting
    have hplain : ¬ negated = true := fun hnegated => hwanting (hbool hnegated)
    rw [if_neg hplain] at hspells
    rw [setValue_eq_setAt hdeclares] at ih h
    obtain ⟨roles, hroles⟩ := ih h
    rw [declarations_setAt hspells (type_of_read? hreads)] at hroles
    exact ⟨_, .separate hspells hwanting hreads hroles⟩
  | case9 flags position arg args name text harg f negated hresolve hown v hreads ih =>
    obtain ⟨hdashed, hwhole⟩ := dashed_of_ofText harg
    obtain ⟨-, place, hdeclares, hspells⟩ := spells_of_resolve? hdashed hwhole hresolve
    rw [setValue_eq_setAt hdeclares] at ih h
    obtain ⟨roles, hroles⟩ := ih h
    rw [declarations_setAt hspells (type_of_read? hreads)] at hroles
    exact ⟨_, .setting hspells hreads hroles⟩
  | case4 | case5 | case6 | case8 => cases h

/-- Nothing is at fault in the command lines that divide, and in no others. -/
theorem error_eq_none_iff :
    (flags.take args).error = none ↔ ∃ roles, Divides flags.declarations args roles := by
  constructor
  · exact exists_divides
  · rintro ⟨roles, hroles⟩
    rw [take_of_divides hroles]

/-! A line divides in one way -/

theorem Divides.unique {roles' : List Role} (h : Divides flags.declarations args roles)
    (h' : Divides flags.declarations args roles') : roles' = roles := by
  induction h generalizing roles' with
  | nil =>
    cases h'
    rfl
  | kept plain rest ih =>
    cases h' with
    | kept _ rest' => rw [ih rest']
    | terminator => cases ofText_of_isPlain plain
    | setting spells' | separate spells' => exact absurd plain spells'.not_isPlain
  | terminator args =>
    cases h' with
    | kept plain' => cases ofText_of_isPlain plain'
    | terminator => rfl
    | setting spells' | separate spells' => exact absurd rfl spells'.ne_dashes
  | setting spells reads rest ih =>
    cases h' with
    | kept plain' => exact absurd plain' spells.not_isPlain
    | terminator => exact absurd rfl spells.ne_dashes
    | setting spells' reads' rest' =>
      obtain ⟨rfl, rfl, rfl⟩ := spells.unique spells'
      cases reads.symm.trans reads'
      rw [ih rest']
    | separate spells' wanting' =>
      obtain ⟨-, rfl, rfl⟩ := spells.unique spells'
      rw [read?_none wanting'] at reads
      cases reads
  | separate spells wanting reads rest ih =>
    cases h' with
    | kept plain' => exact absurd plain' spells.not_isPlain
    | terminator => exact absurd rfl spells.ne_dashes
    | setting spells' reads' =>
      obtain ⟨-, rfl, rfl⟩ := spells.unique spells'
      rw [read?_none wanting] at reads'
      cases reads'
    | separate spells' wanting' reads' rest' =>
      obtain ⟨rfl, rfl, -⟩ := spells.unique spells'
      cases reads.symm.trans reads'
      rw [ih rest']

theorem Divides.length_eq (h : Divides ds args roles) : roles.length = args.length := by
  induction h with
  | nil => rfl
  | kept _ _ ih | setting _ _ _ ih | separate _ _ _ _ ih =>
    simp only [List.length_cons, ih]
  | terminator args => simp only [List.length_cons, List.length_map]

/-- Which arguments are kept. After two dashes alone that are no value all are, and before them
those that look like no flag and are no value. -/
theorem Divides.kept_iff (h : Divides flags.declarations args roles) {k : Nat}
    (harg : args[k]? = some arg) :
    roles[k]? = some .kept ↔
      .terminator ∈ roles.take k ∨ IsPlain arg ∧ roles[k]? ≠ some .value := by
  induction h generalizing k with
  | nil => cases harg
  | kept plain rest ih =>
    cases k with
    | zero =>
      cases harg
      simp [plain]
    | succ k => simpa using ih harg
  | terminator args =>
    cases k with
    | zero =>
      cases harg
      have hdashes : ¬ IsPlain (ascii "--") := by decide
      simp [hdashes]
    | succ k =>
      have hrole : (args.map fun _ => Role.kept)[k]? = some .kept := by
        rw [List.getElem?_cons_succ] at harg
        rw [List.getElem?_map, harg]
        rfl
      exact ⟨fun _ => .inl List.mem_cons_self, fun _ => hrole⟩
  | setting spells reads rest ih =>
    cases k with
    | zero =>
      cases harg
      simp [spells.not_isPlain]
    | succ k => simpa using ih harg
  | separate spells wanting reads rest ih =>
    match k with
    | 0 =>
      cases harg
      simp [spells.not_isPlain]
    | 1 => simp
    | k + 2 => simpa using ih harg

/-- A command line in which nothing is at fault divides in one way. What is left is the program with
the arguments that are kept, in their order. Each flag has the value that it was given last, or else
the one that it had. -/
theorem take_divided (flags : Flags) (program : Text) (args : List Text)
    (accepted : (flags.take args).error = none) :
    ∃ roles, (∀ roles', Divides flags.declarations args roles' ↔ roles' = roles) ∧
      roles.length = args.length ∧
      (∀ k arg, args[k]? = some arg → (roles[k]? = some .kept ↔
        .terminator ∈ roles.take k ∨ IsPlain arg ∧ roles[k]? ≠ some .value)) ∧
      program :: (flags.take args).arguments = keptArguments (program :: args) (.kept :: roles) ∧
      ∀ place, (flags.take args).flags[place]? = flags[place]?.map fun f : Flag =>
        { f with value := (lastValue? roles place).getD f.value } := by
  obtain ⟨roles, hroles⟩ := error_eq_none_iff.1 accepted
  rw [take_of_divides hroles]
  refine ⟨roles, fun roles' => ⟨hroles.unique, fun h => h ▸ hroles⟩, hroles.length_eq,
    fun k arg harg => hroles.kept_iff harg, rfl, getElem?_settled flags roles⟩

/-- A value that looks like the end of the flags, a flag set twice, a negated one, and what looks
like flags after the end. -/
theorem take_divided_around_dashes :
    let args := ["--labels", "--", "x", "-v=3", "-", "--nologtostderr", "--v", "-7", "--", "--v",
      "y"].map ascii
    (Command.flags.take args).error = none ∧
    ∃ roles, Divides Command.flags.declarations args roles ∧
      keptArguments args roles = ["x", "-", "--v", "y"].map ascii ∧
      (lastValue? roles 1).getD (.int32 0) = .int32 (-7) := by
  intro args
  have haccepted : (Command.flags.take args).error = none := by decide
  obtain ⟨roles, hroles, -, -, hkept, hflags⟩ :=
    take_divided Command.flags (ascii "run-program") args haccepted
  have hargs : (Command.flags.take args).arguments = ["x", "-", "--v", "y"].map ascii := by decide
  have hv : (Command.flags.take args).flags[1]?.map (·.value) = some (.int32 (-7)) := by decide
  refine ⟨haccepted, roles, (hroles roles).2 rfl, ?_, ?_⟩
  · exact (List.cons.inj hkept).2.symm.trans hargs
  · rw [hflags 1] at hv
    exact Option.some.inj hv

end Flags

end SpanRules
