import SpanRules.Proofs.Flag.CommandLine
import SpanRules.Proofs.Text.Numeral

/-! Flags whose values are 32-bit integers. Main statement: such a flag takes every numeral after
blanks, of whatever size, when it is set by itself and in each form of its arguments; it keeps the
lowest 32 bits of the nearest 64-bit integer, so that the integer is kept as it is exactly if it has
32 bits; and the text of what is kept sets the flag to the same value again. -/
namespace SpanRules

namespace Text

/-- Whether a text is a numeral of an integer with nothing but blanks before it. -/
def Denotes (t : Text) (k : Int) : Prop := ∃ l u : Text, l.Blank ∧ t = l ++ u ∧ Numeral u k

/-- What 32 bits keep of an integer that is read with 64 bits. -/
def narrowed (k : Int) : Int := wrap32 (clamp64 k)

variable {t : Text} {k n : Int}

theorem denotes_iff : t.Denotes k ↔ integer? (t.dropWhile isBlank) = some k := by
  rw [integer?_eq_some_iff]
  constructor
  · rintro ⟨l, u, hl, rfl, hu⟩
    have hdrop : (l ++ u).dropWhile isBlank = u.dropWhile isBlank := List.dropWhile_append_of_pos hl
    rwa [hdrop, dropWhile_isBlank_of_solid fun b hb => hu.solid (List.mem_of_head? hb)]
  · intro h
    exact ⟨t.takeWhile isBlank, t.dropWhile isBlank, fun b hb => List.mem_takeWhile_imp hb,
      List.takeWhile_append_dropWhile.symm, h⟩

theorem denotes_ofInt (k : Int) : (ofInt k).Denotes k := ⟨[], ofInt k, nofun, rfl, numeral_ofInt k⟩

theorem wrappedInt32?_eq_some_iff :
    t.wrappedInt32? = some n ↔ ∃ k, t.Denotes k ∧ n = narrowed k := by
  rw [wrappedInt32?, Option.map_eq_some_iff]
  simp only [denotes_iff, narrowed, @eq_comm _ n]

theorem wrappedInt32?_eq_none_iff : t.wrappedInt32? = none ↔ ∀ k, ¬ t.Denotes k := by
  simp only [Option.eq_none_iff_forall_ne_some, ne_eq, wrappedInt32?_eq_some_iff, not_exists,
    not_and]
  constructor
  · exact fun h k hk => h _ k hk rfl
  · exact fun h n k hk _ => h k hk

/-- What is kept has 32 bits. -/
theorem isInt32_narrowed (k : Int) : IsInt32 (narrowed k) := by
  have hlow := Int.le_bmod (x := clamp64 k) (m := 4294967296) (by decide)
  have hhigh := Int.bmod_lt (x := clamp64 k) (m := 4294967296) (by decide)
  unfold narrowed wrap32 IsInt32
  omega

theorem narrowed_eq_wrap32 (hlow : -9223372036854775808 ≤ k) (hhigh : k ≤ 9223372036854775807) :
    narrowed k = wrap32 k := by
  have hclamp : clamp64 k = k := by
    unfold clamp64
    omega
  rw [narrowed, hclamp]

/-- Of an integer that has 64 bits the lowest 32 are kept. -/
theorem dvd_sub_narrowed (hlow : -9223372036854775808 ≤ k) (hhigh : k ≤ 9223372036854775807) :
    4294967296 ∣ k - narrowed k := by
  rw [narrowed_eq_wrap32 hlow hhigh]
  exact Int.dvd_self_sub_bmod

/-- An integer is kept as it is exactly if it has 32 bits. -/
theorem narrowed_eq_self_iff : narrowed k = k ↔ IsInt32 k := by
  constructor
  · intro h
    exact h ▸ isInt32_narrowed k
  · intro h
    obtain ⟨hlow, hhigh⟩ := h
    rw [narrowed_eq_wrap32 (by omega) (by omega)]
    exact wrap32_eq_self hlow (by omega)

/-- Above 64 bits all ones are kept. -/
theorem narrowed_of_over (h : 9223372036854775807 < k) : narrowed k = -1 := by
  have hclamp : clamp64 k = 9223372036854775807 := by
    unfold clamp64
    omega
  rw [narrowed, hclamp]
  rfl

/-- Below 64 bits zeros are kept. -/
theorem narrowed_of_under (h : k < -9223372036854775808) : narrowed k = 0 := by
  have hclamp : clamp64 k = -9223372036854775808 := by
    unfold clamp64
    omega
  rw [narrowed, hclamp]
  rfl

end Text

section
variable {f f' : Flag} {given : Option Text} {v : FlagValue}

theorem FlagType.read?_int32_eq_some_iff : FlagType.int32.read? given = some v ↔
    ∃ text k, given = some text ∧ text.Denotes k ∧ v = .int32 (Text.narrowed k) := by
  cases given with
  | none => simp [read?]
  | some text =>
    simp only [read?, Option.map_eq_some_iff, Text.wrappedInt32?_eq_some_iff, Option.some.injEq]
    constructor
    · rintro ⟨n, ⟨k, hk, rfl⟩, rfl⟩
      exact ⟨text, k, rfl, hk, rfl⟩
    · rintro ⟨_, k, rfl, hk, rfl⟩
      exact ⟨_, ⟨k, hk, rfl⟩, rfl⟩

theorem FlagType.read?_int32_eq_none {text : Text} (h : ∀ k, ¬ text.Denotes k) :
    FlagType.int32.read? (some text) = none := by
  rw [read?, Text.wrappedInt32?_eq_none_iff.2 h, Option.map_none]

namespace Flag

theorem set?_int32_eq_some_iff (hf : f.type = .int32) : f.set? given = some f' ↔
    ∃ text k, given = some text ∧ text.Denotes k ∧
      f' = { f with value := .int32 (Text.narrowed k) } := by
  simp only [set?, hf, Option.map_eq_some_iff, FlagType.read?_int32_eq_some_iff]
  constructor
  · rintro ⟨v, ⟨text, k, hgiven, hk, rfl⟩, rfl⟩
    exact ⟨text, k, hgiven, hk, rfl⟩
  · rintro ⟨text, k, hgiven, hk, rfl⟩
    exact ⟨_, ⟨text, k, hgiven, hk, rfl⟩, rfl⟩

/-- A value that was set is set again by its own text. -/
theorem set?_toText (hf : f.type = .int32) (h : f.set? given = some f') :
    f'.set? (some f'.value.toText) = some f' := by
  obtain ⟨text, k, -, -, rfl⟩ := (set?_int32_eq_some_iff hf).1 h
  have hkept : Text.narrowed (Text.narrowed k) = Text.narrowed k :=
    Text.narrowed_eq_self_iff.2 (Text.isInt32_narrowed k)
  refine (set?_int32_eq_some_iff rfl).2 ⟨_, Text.narrowed k, rfl, Text.denotes_ofInt _, ?_⟩
  rw [hkept]

end Flag

end

namespace Flags

open Argument

/-- An argument, and more that may belong to it, set the 32-bit integer at a place from a text. The
text stands after an equals sign, or it is the next argument. -/
inductive Gives (ds : Declarations) : Text → List Text → Nat → Text → Prop
  | own {arg place text} (spells : Spells ds arg place .int32 (some text)) :
      Gives ds arg [] place text
  | next {arg place text} (spells : Spells ds arg place .int32 none) :
      Gives ds arg [text] place text

variable {flags : Flags} {ds : Declarations} {arg text : Text} {more args : List Text}
  {place i : Nat} {v : FlagValue} {type : FlagType} {given : Option Text} {roles : List Role}
  {k : Int}

/-- A numeral sets the flag, of whatever size the integer is. -/
theorem takeFrom_of_denotes (h : Gives flags.declarations arg more place text) (hk : text.Denotes k)
    (position : Nat) (args : List Text) : flags.takeFrom position (arg :: more ++ args) =
      (flags.setAt place (.int32 (Text.narrowed k))).takeFrom (position + (more.length + 1))
        args := by
  have hreads : FlagType.int32.read? (some text) = some (.int32 (Text.narrowed k)) :=
    FlagType.read?_int32_eq_some_iff.2 ⟨text, k, rfl, hk, rfl⟩
  cases h with
  | own spells => exact takeFrom_of_spells spells hreads position args
  | next spells => exact takeFrom_of_spells_none spells nofun hreads position args

/-- A name that is negated names a truth value. -/
theorem resolve?_of_spells_of_ne_bool (h : Spells flags.declarations arg place type given)
    (hwanting : type ≠ .bool) :
    ∃ name f, ofText arg = .flag name given ∧ flags.resolve? name given = some (f, false) ∧
      f.type = type := by
  obtain ⟨name, own, f, negated, harg, hresolve, -, htype, hbool, hgiven⟩ := resolve?_of_spells h
  have hplain : negated = false := Bool.eq_false_iff.2 fun hnegated => hwanting (hbool hnegated)
  subst hplain
  obtain rfl : own = given := hgiven
  exact ⟨name, f, harg, hresolve, htype⟩

/-- Any other text is at fault. No flag is changed then, and nothing is taken but the text after an
equals sign. -/
theorem takeFrom_of_not_denotes (h : Gives flags.declarations arg more place text)
    (hnone : ∀ k, ¬ text.Denotes k) (position : Nat) (args : List Text) :
    let shown := arg.takeWhile (· != byte '=')
    flags.takeFrom position (arg :: more ++ args) =
      ⟨flags, shown :: (more ++ args), some ⟨position, shown, .illegalValue .int32⟩⟩ := by
  have hreads := FlagType.read?_int32_eq_none hnone
  cases h with
  | own spells =>
    obtain ⟨name, f, harg, hresolve, htype⟩ := resolve?_of_spells_of_ne_bool spells nofun
    rw [List.cons_append, takeFrom, harg]
    simp only [hresolve, htype, hreads, reduceCtorEq, false_and, if_false, List.nil_append,
      Bool.false_eq_true]
  | next spells =>
    obtain ⟨name, f, harg, hresolve, htype⟩ := resolve?_of_spells_of_ne_bool spells nofun
    rw [List.cons_append, takeFrom, harg]
    simp only [hresolve, htype, hreads, ne_eq, reduceCtorEq, not_false_eq_true, and_self, if_true,
      List.singleton_append]

theorem Spells.type_eq {d : Text × FlagType} (h : Spells ds arg place type given)
    (hd : ds[place]? = some d) : type = d.2 := by
  obtain ⟨name, hdeclares⟩ := h.declares
  cases hdeclares.at_place.symm.trans hd
  rfl

/-- Each value that a command line gives to such a flag comes from a text in one of the forms. -/
theorem Divides.gives {name : Text} (h : Divides ds args roles)
    (hrole : roles[i]? = some (.setting place v)) (htype : ds[place]? = some (name, .int32)) :
    ∃ arg more text k, arg :: more <+: args.drop i ∧ Gives ds arg more place text ∧
      text.Denotes k ∧ v = .int32 (Text.narrowed k) := by
  induction h generalizing i with
  | nil => cases hrole
  | kept plain rest ih =>
    cases i with
    | zero => cases hrole
    | succ i => exact ih hrole
  | terminator args =>
    cases i with
    | zero => cases hrole
    | succ i =>
      rw [List.getElem?_cons_succ, List.getElem?_map, Option.map_eq_some_iff] at hrole
      obtain ⟨_, -, hkept⟩ := hrole
      cases hkept
  | setting spells reads rest ih =>
    cases i with
    | zero =>
      cases hrole
      obtain rfl := spells.type_eq htype
      obtain ⟨text, k, rfl, hk, rfl⟩ := FlagType.read?_int32_eq_some_iff.1 reads
      exact ⟨_, [], text, k, List.prefix_append [_] _, .own spells, hk, rfl⟩
    | succ i => exact ih hrole
  | separate spells wanting reads rest ih =>
    match i with
    | 0 =>
      cases hrole
      obtain rfl := spells.type_eq htype
      obtain ⟨text, k, htext, hk, rfl⟩ := FlagType.read?_int32_eq_some_iff.1 reads
      cases htext
      exact ⟨_, [_], _, k, List.prefix_append [_, _] _, .next spells, hk, rfl⟩
    | 1 => cases hrole
    | i + 2 => exact ih hrole

/-- A flag for a 32-bit integer, set by itself and in a command line. It takes the numerals after
blanks and nothing else. It keeps the integer as it is exactly if it has 32 bits; of one that has 64
bits it keeps the lowest 32, and one that is out of the range of 64 bits counts as the end of that
range. The text of what is kept sets the flag to the same again. All forms of an argument take these
texts and keep the same of them, and in a command line without fault each value of such a flag comes
from such a text. -/
theorem int32_values_narrowed (flags : Flags) :
    (∀ (f f' : Flag) (given : Option Text), f.type = .int32 →
      (f.set? given = some f' ↔ ∃ text k, given = some text ∧ text.Denotes k ∧
        f' = { f with value := .int32 (Text.narrowed k) }) ∧
      (f.set? given = some f' → f'.set? (some f'.value.toText) = some f')) ∧
    (∀ k, Text.IsInt32 (Text.narrowed k) ∧ (Text.narrowed k = k ↔ Text.IsInt32 k) ∧
      (-9223372036854775808 ≤ k → k ≤ 9223372036854775807 →
        4294967296 ∣ k - Text.narrowed k) ∧
      (9223372036854775807 < k → Text.narrowed k = -1) ∧
      (k < -9223372036854775808 → Text.narrowed k = 0)) ∧
    (∀ arg more place text position args, Gives flags.declarations arg more place text →
      (∀ k, text.Denotes k → flags.takeFrom position (arg :: more ++ args) =
        (flags.setAt place (.int32 (Text.narrowed k))).takeFrom (position + (more.length + 1))
          args) ∧
      ((∀ k, ¬ text.Denotes k) → flags.takeFrom position (arg :: more ++ args) =
        ⟨flags, arg.takeWhile (· != byte '=') :: (more ++ args),
          some ⟨position, arg.takeWhile (· != byte '='), .illegalValue .int32⟩⟩)) ∧
    ∀ args, (flags.take args).error = none → ∃ roles, Divides flags.declarations args roles ∧
      (flags.take args).flags = flags.settled roles ∧
      ∀ i place v f, roles[i]? = some (.setting place v) → flags[place]? = some f →
        f.type = .int32 → ∃ arg more text k, arg :: more <+: args.drop i ∧
          Gives flags.declarations arg more place text ∧ text.Denotes k ∧
          v = .int32 (Text.narrowed k) := by
  refine ⟨fun f f' given hf => ⟨Flag.set?_int32_eq_some_iff hf, Flag.set?_toText hf⟩,
    fun k => ⟨Text.isInt32_narrowed k, Text.narrowed_eq_self_iff,
      Text.dvd_sub_narrowed, Text.narrowed_of_over, Text.narrowed_of_under⟩,
    fun arg more place text position args h =>
      ⟨fun k hk => takeFrom_of_denotes h hk position args,
        fun hnone => takeFrom_of_not_denotes h hnone position args⟩, ?_⟩
  intro args haccepted
  obtain ⟨roles, hroles⟩ := error_eq_none_iff.1 haccepted
  refine ⟨roles, hroles, by rw [take_of_divides hroles], fun i place v f hrole hf htype => ?_⟩
  have hdeclared : flags.declarations[place]? = some (f.name, .int32) := by
    rw [getElem?_declarations, hf, ← htype]
    rfl
  exact hroles.gives hrole hdeclared

/-- Integers that are out of range; a value with a blank and zeros before it, set again from its own
text; values in two forms of arguments, one of an integer that is out of range and one that is no
integer; and a command line that gives two flags their values. -/
theorem int32_values_narrowed_in_forms :
    let f : Flag := ⟨ascii "v", [], .int32 3⟩
    let f' : Flag := ⟨ascii "v", [], .int32 (-42)⟩
    let ds := Command.flags.declarations
    let large := ascii "4294967309"
    let args := ["--v= 12", "x", "--loglevel", "-2147483648"].map ascii
    (Text.narrowed 99999999999999999999 = -1 ∧ Text.narrowed (-99999999999999999999) = 0 ∧
      4294967296 ∣ 4294967309 - Text.narrowed 4294967309) ∧
    (f.type = .int32 ∧ (ascii "\t-0042").Denotes (-42) ∧ Text.narrowed (-42) = -42 ∧
      f.set? (some (ascii "\t-0042")) = some f' ∧ f'.set? (some f'.value.toText) = some f') ∧
    (Gives ds (ascii "-v") [large] 1 large ∧ large.Denotes 4294967309 ∧
      Command.flags.takeFrom 1 [ascii "-v", large, ascii "x"] =
        (Command.flags.setAt 1 (.int32 13)).takeFrom 3 [ascii "x"]) ∧
    (Gives ds (ascii "--v=1x") [] 1 (ascii "1x") ∧ (∀ k, ¬ (ascii "1x").Denotes k) ∧
      Command.flags.takeFrom 1 [ascii "--v=1x"] =
        ⟨Command.flags, [ascii "--v"], some ⟨1, ascii "--v", .illegalValue .int32⟩⟩) ∧
    (Command.flags.take args).error = none ∧ ∃ roles, Divides ds args roles ∧
      ∀ i place v f, roles[i]? = some (.setting place v) → Command.flags[place]? = some f →
        f.type = .int32 → ∃ arg more text k, arg :: more <+: args.drop i ∧
          Gives ds arg more place text ∧ text.Denotes k ∧ v = .int32 (Text.narrowed k) := by
  intro f f' ds large args
  obtain ⟨hset, hkept, hforms, hlines⟩ := int32_values_narrowed Command.flags
  have hsmall : (ascii "\t-0042").Denotes (-42) :=
    ⟨ascii "\t", ascii "-0042", by decide, rfl,
      .minus ⟨[0, 0, 4, 2], by decide, by decide, by decide, by decide⟩⟩
  have hlarge : large.Denotes 4294967309 :=
    ⟨[], large, nofun, rfl,
      .unsigned ⟨[4, 2, 9, 4, 9, 6, 7, 3, 0, 9], by decide, by decide, by decide, by decide⟩⟩
  have hnone : ∀ k, ¬ (ascii "1x").Denotes k := Text.wrappedInt32?_eq_none_iff.1 (by decide)
  have hself : Text.narrowed (-42) = -42 := (hkept (-42)).2.1.2 (by decide)
  have hdeclares : Declares ds (ascii "v") .int32 1 := by
    refine ⟨rfl, fun j hj d hd => ?_⟩
    obtain rfl : j = 0 := by omega
    cases hd
    decide
  have hnext : Gives ds (ascii "-v") [large] 1 large :=
    have hdashed : Dashed (ascii "-v") (written (ascii "v") none) := .one (by decide) (by decide)
    .next (.named hdashed (by decide) hdeclares)
  have hown : Gives ds (ascii "--v=1x") [] 1 (ascii "1x") :=
    have hdashed : Dashed (byte '-' :: byte '-' :: written (ascii "v") (some (ascii "1x")))
      (written (ascii "v") (some (ascii "1x"))) := .two (by decide)
    .own (.named hdashed (by decide) hdeclares)
  have haccepted : (Command.flags.take args).error = none := by decide +kernel
  have hstored : f.set? (some (ascii "\t-0042")) = some f' :=
    (hset f f' _ rfl).1.2 ⟨_, -42, rfl, hsmall, by rw [hself]⟩
  obtain ⟨roles, hroles, -, hvalues⟩ := hlines args haccepted
  have houtside : Text.narrowed 99999999999999999999 = -1 ∧
      Text.narrowed (-99999999999999999999) = 0 ∧
      4294967296 ∣ 4294967309 - Text.narrowed 4294967309 :=
    ⟨(hkept _).2.2.2.1 (by decide), (hkept _).2.2.2.2 (by decide),
      (hkept _).2.2.1 (by decide) (by decide)⟩
  exact ⟨houtside, ⟨rfl, hsmall, hself, hstored, (hset f f' _ rfl).2 hstored⟩,
    ⟨hnext, hlarge, (hforms _ _ _ _ 1 [ascii "x"] hnext).1 _ hlarge⟩,
    ⟨hown, hnone, (hforms _ _ _ _ 1 [] hown).2 hnone⟩, haccepted, roles, hroles, hvalues⟩

/-- An integer that is out of range is accepted in each form, and another one is kept. -/
theorem int32_value_of_out_of_range :
    let text := ascii "4294967297"
    let f : Flag := ⟨ascii "v", [], .int32 3⟩
    (text.Denotes 4294967297 ∧ ¬ Text.IsInt32 4294967297) ∧
      f.set? (some text) = some { f with value := .int32 1 } ∧
      ∀ args ∈ [["--v=4294967297"], ["-v=4294967297"], ["--v", "4294967297"],
        ["-v", "4294967297"]],
        (Command.flags.take (args.map ascii)).error = none ∧
          (Command.flags.take (args.map ascii)).flags.value? (ascii "v") = some (.int32 1) := by
  intro text f
  have htext : text.Denotes 4294967297 :=
    ⟨[], text, nofun, rfl,
      .unsigned ⟨[4, 2, 9, 4, 9, 6, 7, 2, 9, 7], by decide, by decide, by decide, by decide⟩⟩
  exact ⟨⟨htext, by decide⟩, by decide +kernel, by decide +kernel⟩

end Flags

end SpanRules
