import Mathlib.Data.List.TakeWhile
import Mathlib.Data.Nat.Digits.Defs
import SpanRules.Proofs.Text.Fields

/-! The numerals of 32-bit integers. Main statement: a text is read as an integer exactly if,
without the blanks around it, it is a sign or none and then digits, however many, and the integer is
within the range; and a machine that reads it digit by digit into a number of 64 bits comes to the
same end and never leaves the range of these. -/
namespace SpanRules.Text

def digit (d : Nat) : UInt8 := (48 + d).toUInt8

/-- Whether a text consists of the digits of a number, the highest first. There may be zeros before
them. -/
def Digits (t : Text) (n : Nat) : Prop :=
  ∃ ds : List Nat, ds ≠ [] ∧ (∀ d ∈ ds, d < 10) ∧ t = ds.map digit ∧ n = Nat.ofDigits 10 ds.reverse

/-- Whether a text is written as an integer. -/
inductive Numeral : Text → Int → Prop
  | unsigned {t : Text} {n : Nat} : t.Digits n → Numeral t n
  | plus {t : Text} {n : Nat} : t.Digits n → Numeral (byte '+' :: t) n
  | minus {t : Text} {n : Nat} : t.Digits n → Numeral (byte '-' :: t) (-n)

/-- One turn in reading digits into a number of 64 bits. It ends the reading at a byte that is no
digit, and as soon as the number is over the limit. -/
def extend? (limit n : Int64) (b : UInt8) : Option Int64 :=
  if isDigit b then
    let next := n * 10 + Int64.ofNat (b.toNat - 48)
    if next ≤ limit then some next else none
  else none

/-- Reads digits turn by turn, from zero on. -/
def bounded? (limit : Int64) (t : Text) : Option Int64 := t.foldlM (extend? limit) 0

/-- Reads a 32-bit integer between blanks as a machine does it. What is read is made negative with
64 bits, and is then cut to 32. -/
def word? (t : Text) : Option Int32 :=
  match t.strip with
  | [] => none
  | b :: t =>
    if b = byte '-' then
      if t = [] then none else (bounded? 2147483648 t).map fun n => (-n).toInt32
    else if b = byte '+' then
      if t = [] then none else (bounded? 2147483647 t).map (·.toInt32)
    else (bounded? 2147483647 (b :: t)).map (·.toInt32)

variable {t u l r : Text} {b : UInt8} {n : Nat} {k : Int}

theorem isDigit_iff : isDigit b = true ↔ 48 ≤ b.toNat ∧ b.toNat ≤ 57 := by
  simp only [isDigit, Bool.and_eq_true, decide_eq_true_eq, UInt8.le_iff_toNat_le,
    UInt8.reduceToNat]

theorem toNat_digit {d : Nat} (hd : d < 10) : (digit d).toNat = 48 + d := by
  rw [digit, Nat.toUInt8, UInt8.toNat_ofNat']
  omega

theorem digit_toNat (hb : isDigit b = true) : digit (b.toNat - 48) = b := by
  have hbounds := isDigit_iff.1 hb
  apply UInt8.toNat_inj.1
  rw [toNat_digit (by omega)]
  omega

theorem isDigit_digit {d : Nat} (hd : d < 10) : isDigit (digit d) = true := by
  rw [isDigit_iff, toNat_digit hd]
  omega

theorem digitsValue_concat (t : Text) (b : UInt8) :
    digitsValue (t ++ [b]) = digitsValue t * 10 + (b.toNat - 48) := by
  simp only [digitsValue, List.foldl_append, List.foldl_cons, List.foldl_nil]

theorem digitsValue_map_digit {ds : List Nat} (hds : ∀ d ∈ ds, d < 10) :
    digitsValue (ds.map digit) = Nat.ofDigits 10 ds.reverse := by
  induction ds using List.reverseRecOn with
  | nil => rfl
  | append_singleton ds d ih =>
    obtain ⟨hds, hd⟩ := List.forall_mem_append.1 hds
    have hvalue := toNat_digit (hd d (List.mem_singleton_self d))
    rw [List.map_append, List.map_singleton, digitsValue_concat, ih hds, hvalue,
      List.reverse_append, List.reverse_singleton, List.singleton_append, Nat.ofDigits_cons]
    omega

theorem natural?_eq_some_iff : natural? t = some n ↔ t.Digits n := by
  unfold natural? Digits
  constructor
  · intro h
    split at h
    · rename_i hdigits
      cases h
      have hall := List.all_eq_true.1 hdigits.2
      have hback : t = (t.map fun b => b.toNat - 48).map digit := by
        rw [List.map_map]
        exact (List.map_congr_left fun b hb => digit_toNat (hall b hb)).trans (List.map_id t)
          |>.symm
      have hlt : ∀ d ∈ t.map fun b => b.toNat - 48, d < 10 := by
        intro d hd
        obtain ⟨b, hb, rfl⟩ := List.mem_map.1 hd
        have := isDigit_iff.1 (hall b hb)
        omega
      refine ⟨_, fun hnil => hdigits.1 (List.map_eq_nil_iff.1 hnil), hlt, hback, ?_⟩
      rw [← digitsValue_map_digit hlt, ← hback]
    · cases h
  · rintro ⟨ds, hne, hds, rfl, rfl⟩
    have hall : (ds.map digit).all isDigit = true := by
      rw [List.all_map, List.all_eq_true]
      exact fun d hd => isDigit_digit (hds d hd)
    rw [if_pos ⟨fun hnil => hne (List.map_eq_nil_iff.1 hnil), hall⟩, digitsValue_map_digit hds]

/-- A sign is no digit, so a numeral without a sign begins with none. -/
theorem Digits.ne_sign (h : Digits (b :: t) n) : b ≠ byte '-' ∧ b ≠ byte '+' := by
  obtain ⟨ds, -, hds, hbt, -⟩ := h
  cases ds with
  | nil => cases hbt
  | cons d ds =>
    have hdigit := isDigit_digit (hds d List.mem_cons_self)
    rw [← (List.cons.inj hbt).1] at hdigit
    constructor <;> rintro rfl <;> exact absurd hdigit (by decide)

theorem integer?_cons (b : UInt8) (t : Text) : integer? (b :: t) =
    if b = byte '-' then (natural? t).map fun n : Nat => -(n : Int)
    else (natural? (if b = byte '+' then t else b :: t)).map fun n : Nat => (n : Int) := by
  rw [integer?]
  split
  · cases natural? t <;> rfl
  · split
    · cases natural? t <;> rfl
    · cases natural? (b :: t) <;> rfl

theorem integer?_eq_some_iff : integer? t = some k ↔ Numeral t k := by
  constructor
  · intro h
    cases t with
    | nil => cases h
    | cons b t =>
      rw [integer?_cons] at h
      split at h
      · rename_i hb
        obtain ⟨n, hn, rfl⟩ := Option.map_eq_some_iff.1 h
        exact hb ▸ .minus (natural?_eq_some_iff.1 hn)
      · obtain ⟨n, hn, rfl⟩ := Option.map_eq_some_iff.1 h
        split at hn
        · rename_i hb
          exact hb ▸ .plus (natural?_eq_some_iff.1 hn)
        · exact .unsigned (natural?_eq_some_iff.1 hn)
  · intro h
    cases h with
    | @unsigned t n h =>
      cases t with
      | nil =>
        obtain ⟨ds, hne, -, hnil, -⟩ := h
        exact absurd (List.map_eq_nil_iff.1 hnil.symm) hne
      | cons b t =>
        have hsign := h.ne_sign
        rw [integer?_cons, if_neg hsign.1, if_neg hsign.2, natural?_eq_some_iff.2 h]
        rfl
    | plus h =>
      rw [integer?_cons, if_neg (by decide), if_pos rfl, natural?_eq_some_iff.2 h]
      rfl
    | minus h =>
      rw [integer?_cons, if_pos rfl, natural?_eq_some_iff.2 h]
      rfl

def Blank (t : Text) : Prop := ∀ b ∈ t, isBlank b = true

instance (t : Text) : Decidable t.Blank := List.decidableBAll (fun b => isBlank b = true) t

theorem exists_blank_strip (t : Text) :
    ∃ l r : Text, l.Blank ∧ r.Blank ∧ t = l ++ t.strip ++ r := by
  have hback := List.takeWhile_append_dropWhile (p := isBlank) (l := (t.dropWhile isBlank).reverse)
  refine ⟨t.takeWhile isBlank, ((t.dropWhile isBlank).reverse.takeWhile isBlank).reverse,
    fun b hb => List.mem_takeWhile_imp hb,
    fun b hb => List.mem_takeWhile_imp (List.mem_reverse.1 hb), ?_⟩
  rw [List.append_assoc, strip, dropTrailingBlanks, ← List.reverse_append, hback,
    List.reverse_reverse, List.takeWhile_append_dropWhile]

/-- Blanks around a text that has none at its ends are all that is stripped. -/
theorem strip_of_blank (hl : l.Blank) (hr : r.Blank) (hfirst : ∀ b ∈ u.head?, isBlank b = false)
    (hlast : ∀ b ∈ u.getLast?, isBlank b = false) : strip (l ++ u ++ r) = u := by
  have hleft : ∀ v : Text, (l ++ v).dropWhile isBlank = v.dropWhile isBlank := by
    intro v
    have hnil : l.dropWhile isBlank = [] := List.dropWhile_eq_nil_iff.2 hl
    rw [List.dropWhile_append, hnil]
    rfl
  have hright : dropTrailingBlanks r = [] := by
    rw [dropTrailingBlanks, List.reverse_eq_nil_iff, List.dropWhile_eq_nil_iff]
    exact fun b hb => hr b (List.mem_reverse.1 hb)
  rw [strip, List.append_assoc, hleft]
  cases u with
  | nil =>
    have hnil : r.dropWhile isBlank = [] := List.dropWhile_eq_nil_iff.2 hr
    rw [List.nil_append, hnil]
    rfl
  | cons b u =>
    have hsolid : ∀ c ∈ (b :: u ++ r).head?, isBlank c = false := hfirst
    rw [dropWhile_isBlank_of_solid hsolid, dropTrailingBlanks_append_of_eq_nil hright,
      dropTrailingBlanks_of_solid hlast]

theorem Digits.isDigit_of_mem (h : t.Digits n) (hb : b ∈ t) : isDigit b = true := by
  obtain ⟨ds, -, hds, rfl, -⟩ := h
  obtain ⟨d, hd, rfl⟩ := List.mem_map.1 hb
  exact isDigit_digit (hds d hd)

/-- A numeral has no blanks. -/
theorem Numeral.solid (h : Numeral t k) (hb : b ∈ t) : isBlank b = false := by
  have hdigit : ∀ c, isDigit c = true → isBlank c = false := by
    intro c hc
    grind [isDigit, isBlank]
  cases h with
  | unsigned h => exact hdigit b (h.isDigit_of_mem hb)
  | plus h =>
    rcases List.mem_cons.1 hb with rfl | hb
    · rfl
    · exact hdigit b (h.isDigit_of_mem hb)
  | minus h =>
    rcases List.mem_cons.1 hb with rfl | hb
    · rfl
    · exact hdigit b (h.isDigit_of_mem hb)

/-- What is read as an integer is a numeral of it between blanks. -/
theorem int32?_eq_some_iff : int32? t = some k ↔
    IsInt32 k ∧ ∃ l u r : Text, l.Blank ∧ r.Blank ∧ t = l ++ u ++ r ∧ Numeral u k := by
  rw [int32?, Option.filter_eq_some_iff, integer?_eq_some_iff, decide_eq_true_eq, and_comm]
  apply and_congr_right
  intro _
  constructor
  · intro h
    obtain ⟨l, r, hl, hr, ht⟩ := exists_blank_strip t
    exact ⟨l, t.strip, r, hl, hr, ht, h⟩
  · rintro ⟨l, u, r, hl, hr, rfl, hu⟩
    have hstrip := strip_of_blank hl hr (fun b hb => hu.solid (List.mem_of_head? hb))
      fun b hb => hu.solid (List.mem_of_getLast? hb)
    rwa [hstrip]

theorem numeral_ofInt (k : Int) : Numeral (ofInt k) k := by
  have hdigits := natural?_eq_some_iff.1 (natural?_ofNat k.natAbs)
  unfold ofInt
  split
  · have habs : k = -(k.natAbs : Int) := by omega
    have hminus := Numeral.minus hdigits
    rwa [← habs] at hminus
  · have habs : k = (k.natAbs : Int) := by omega
    have hunsigned := Numeral.unsigned hdigits
    rwa [← habs] at hunsigned

/-- The numeral of an integer that fits in 32 bits is read as that integer. -/
theorem int32?_ofInt (h : IsInt32 k) : int32? (ofInt k) = some k :=
  int32?_eq_some_iff.2 ⟨h, [], ofInt k, [], nofun, nofun, by simp, numeral_ofInt k⟩

section
variable {limit n k : Int64} {m : Nat}

/-- The limits of the numbers that are read: the greatest of 32 bits, and one more for those that
are made negative. -/
def IsLimit (limit : Int64) : Prop := limit = 2147483647 ∨ limit = 2147483648

theorem IsLimit.toInt_bounds (h : IsLimit limit) : 0 ≤ limit.toInt ∧ limit.toInt ≤ 2147483648 := by
  rcases h with rfl | rfl <;> decide

/-- No number up to a limit is too great for one digit more. -/
theorem toInt_turn {d : Nat} (hn : n.toInt = m) (hm : m ≤ 2147483648) (hd : d < 10) :
    (n * 10 + Int64.ofNat d).toInt = m * 10 + d := by
  have hten : (10 : Int64).toInt = 10 := rfl
  have hdigit : (Int64.ofNat d).toInt = d := Int64.toInt_ofNat_of_lt (by omega)
  have hproduct : ((m : Int) * 10).bmod (2 ^ 64) = m * 10 :=
    Int.bmod_eq_of_le (by omega) (by omega)
  have hsum : ((m : Int) * 10 + d).bmod (2 ^ 64) = m * 10 + d :=
    Int.bmod_eq_of_le (by omega) (by omega)
  rw [Int64.toInt_add, Int64.toInt_mul, hn, hten, hdigit, hproduct, hsum]

theorem extend?_eq_some_iff (hn : n.toInt = m) (hm : m ≤ 2147483648) :
    extend? limit n b = some k ↔
      isDigit b = true ∧ k.toInt = (m * 10 + (b.toNat - 48) : Nat) ∧ k ≤ limit := by
  unfold extend?
  split
  · rename_i hb
    have hbounds := isDigit_iff.1 hb
    have hturn := toInt_turn (d := b.toNat - 48) hn hm (by omega)
    simp only [hb, true_and]
    constructor
    · intro h
      split at h
      · cases h
        exact ⟨by rw [hturn]; omega, ‹_›⟩
      · cases h
    · rintro ⟨hk, hle⟩
      have hnext : n * 10 + Int64.ofNat (b.toNat - 48) = k := by
        apply Int64.toInt_inj.1
        rw [hturn, hk]
        omega
      rw [hnext, if_pos hle]
  · rename_i hb
    simp only [hb, Bool.false_eq_true, false_and, reduceCtorEq]

/-- With each digit the number grows or stays zero. -/
theorem le_foldl_digits (t : Text) (m : Nat) :
    m ≤ t.foldl (fun n b => n * 10 + (b.toNat - 48)) m := by
  induction t generalizing m with
  | nil => exact Nat.le_refl m
  | cons b t ih =>
    have hrest := ih (m * 10 + (b.toNat - 48))
    rw [List.foldl_cons]
    omega

/-- The turns from a number on end in what the digits make of it, unless that is over the limit. A
number on the way is over the limit only if the last one is. -/
theorem foldlM_extend?_eq_some_iff (hlimit : IsLimit limit) (hn : n.toInt = m) (hle : n ≤ limit) :
    t.foldlM (extend? limit) n = some k ↔ (∀ b ∈ t, isDigit b = true) ∧
      k.toInt = (t.foldl (fun n b => n * 10 + (b.toNat - 48)) m : Nat) ∧ k ≤ limit := by
  have hbounds := hlimit.toInt_bounds
  induction t generalizing n m with
  | nil =>
    simp only [List.foldlM_nil, List.foldl_nil, List.not_mem_nil, false_implies, implies_true,
      true_and, Option.pure_def, Option.some.injEq]
    constructor
    · rintro rfl
      exact ⟨hn, hle⟩
    · rintro ⟨hk, -⟩
      exact Int64.toInt_inj.1 (hn.trans hk.symm)
  | cons b t ih =>
    have hm : m ≤ 2147483648 := by
      have := Int64.le_iff_toInt_le.1 hle
      omega
    rw [List.foldlM_cons, List.foldl_cons, List.forall_mem_cons, Option.bind_eq_bind,
      Option.bind_eq_some_iff]
    constructor
    · rintro ⟨next, hnext, hrest⟩
      obtain ⟨hb, hvalue, hle'⟩ := (extend?_eq_some_iff hn hm).1 hnext
      obtain ⟨ht, hk⟩ := (ih hvalue hle').1 hrest
      exact ⟨⟨hb, ht⟩, hk⟩
    · rintro ⟨⟨hb, ht⟩, hk, hkle⟩
      have hdigit := isDigit_iff.1 hb
      have hturn := toInt_turn (d := b.toNat - 48) hn hm (by omega)
      have hvalue : (n * 10 + Int64.ofNat (b.toNat - 48)).toInt =
          (m * 10 + (b.toNat - 48) : Nat) := by
        rw [hturn]
        omega
      have hgrows := le_foldl_digits t (m * 10 + (b.toNat - 48))
      have hle' : n * 10 + Int64.ofNat (b.toNat - 48) ≤ limit := by
        rw [Int64.le_iff_toInt_le] at hkle ⊢
        omega
      exact ⟨_, (extend?_eq_some_iff hn hm).2 ⟨hb, hvalue, hle'⟩, (ih hvalue hle').2 ⟨ht, hk, hkle⟩⟩

theorem bounded?_eq_some_iff (hlimit : IsLimit limit) : bounded? limit t = some k ↔
    (∀ b ∈ t, isDigit b = true) ∧ k.toInt = digitsValue t ∧ k ≤ limit := by
  have hzero : (0 : Int64) ≤ limit := Int64.le_iff_toInt_le.2 hlimit.toInt_bounds.1
  exact foldlM_extend?_eq_some_iff (m := 0) hlimit rfl hzero

/-- The digits give the number that they denote, unless it is over the limit. -/
theorem bounded?_eq (hlimit : IsLimit limit) (hne : t ≠ []) :
    bounded? limit t =
      ((natural? t).filter fun n : Nat => (n : Int) ≤ limit.toInt).map Int64.ofNat := by
  have hbounds := hlimit.toInt_bounds
  have hexact : ∀ n : Nat, (n : Int) ≤ limit.toInt → (Int64.ofNat n).toInt = n :=
    fun n hn => Int64.toInt_ofNat_of_lt (by omega)
  ext k
  rw [bounded?_eq_some_iff hlimit, Option.map_eq_some_iff]
  simp only [Option.filter_eq_some_iff, decide_eq_true_eq, natural?, Option.ite_none_right_eq_some,
    Option.some.injEq, List.all_eq_true, Int64.le_iff_toInt_le]
  constructor
  · rintro ⟨ht, hk, hle⟩
    have hvalue := hexact (digitsValue t) (by omega)
    exact ⟨_, ⟨⟨⟨hne, ht⟩, rfl⟩, by omega⟩, Int64.toInt_inj.1 (hvalue.trans hk.symm)⟩
  · rintro ⟨_, ⟨⟨⟨-, ht⟩, rfl⟩, hle⟩, rfl⟩
    have hvalue := hexact (digitsValue t) hle
    exact ⟨ht, hvalue, by omega⟩

theorem toInt_toInt32_of_isInt32 {z : Int} (hk : k.toInt = z) (hz : IsInt32 z) :
    k.toInt32.toInt = z := by
  have hcut : z.bmod (2 ^ 32) = z := Int.bmod_eq_of_le hz.1 (by have := hz.2; omega)
  rw [Int64.toInt_toInt32, hk, hcut]

/-- Digits give the number that they denote, with the sign that it gets, if the number with its sign
is within 32 bits. -/
theorem map_toInt32_bounded? {f : Int64 → Int64} {g : Nat → Int} (hlimit : IsLimit limit)
    (hne : t ≠ []) (hg : ∀ m : Nat, IsInt32 (g m) ↔ (m : Int) ≤ limit.toInt)
    (hf : ∀ (k : Int64) (m : Nat), k.toInt = m → (m : Int) ≤ limit.toInt → (f k).toInt = g m) :
    (bounded? limit t).map (fun k => (f k).toInt32.toInt) =
      ((natural? t).map g).filter fun z => IsInt32 z := by
  have hbounds := hlimit.toInt_bounds
  rw [bounded?_eq hlimit hne]
  cases natural? t with
  | none => rfl
  | some m =>
    rw [Option.filter_some, Option.map_some, Option.filter_some]
    by_cases hm : (m : Int) ≤ limit.toInt
    · have hrange := (hg m).2 hm
      have hword : (Int64.ofNat m).toInt = m := Int64.toInt_ofNat_of_lt (by omega)
      have hvalue := toInt_toInt32_of_isInt32 (hf _ m hword hm) hrange
      rw [if_pos (decide_eq_true hm), if_pos (decide_eq_true hrange), Option.map_some,
        Option.map_some, hvalue]
    · have hrange : ¬ IsInt32 (g m) := fun h => hm ((hg m).1 h)
      rw [if_neg (by simpa using hm), if_neg (by simpa using hrange)]
      rfl

/-- What the machine reads is what the numeral denotes. -/
theorem map_toInt_word? (t : Text) : (word? t).map (·.toInt) = int32? t := by
  have hunsigned : ∀ u : Text, u ≠ [] → (bounded? 2147483647 u).map (fun k => k.toInt32.toInt) =
      ((natural? u).map fun m : Nat => (m : Int)).filter fun z => IsInt32 z := by
    intro u hu
    refine map_toInt32_bounded? (f := id) (.inl rfl) hu (fun m => ?_) fun k m hk _ => hk
    exact ⟨fun h => h.2, fun h => ⟨by omega, h⟩⟩
  have hnegative : ∀ u : Text, u ≠ [] →
      (bounded? 2147483648 u).map (fun k => (-k).toInt32.toInt) =
        ((natural? u).map fun m : Nat => -(m : Int)).filter fun z => IsInt32 z := by
    intro u hu
    have hgreatest : (2147483648 : Int64).toInt = 2147483648 := rfl
    refine map_toInt32_bounded? (.inr rfl) hu (fun m => ?_) fun k m hk hm => ?_
    · rw [hgreatest, IsInt32]
      omega
    · rw [hgreatest] at hm
      rw [Int64.toInt_neg, hk]
      exact Int.bmod_eq_of_le (by omega) (by omega)
  unfold word? int32?
  cases t.strip with
  | nil => rfl
  | cons b u =>
    simp only [integer?_cons]
    split
    · split
      · rename_i hu
        rw [hu]
        rfl
      · rename_i hu
        rw [Option.map_map]
        exact hnegative u hu
    · split
      · split
        · rename_i hu
          rw [hu]
          rfl
        · rename_i hu
          rw [Option.map_map]
          exact hunsigned u hu
      · rw [Option.map_map]
        exact hunsigned (b :: u) (List.cons_ne_nil b u)

/-- At no turn the number leaves the range of 64 bits, however many digits were read. -/
theorem turn_bounds (hlimit : IsLimit limit) (hn : bounded? limit t = some n)
    (hb : isDigit b = true) : 0 ≤ n.toInt * 10 + ((b.toNat - 48 : Nat) : Int) ∧
      n.toInt * 10 + ((b.toNat - 48 : Nat) : Int) < 2 ^ 63 := by
  obtain ⟨-, hvalue, hle⟩ := (bounded?_eq_some_iff hlimit).1 hn
  have hbounds := hlimit.toInt_bounds
  have hdigit := isDigit_iff.1 hb
  rw [Int64.le_iff_toInt_le] at hle
  omega

end

/-- A text is read as a 32-bit integer exactly if it is a numeral of the integer between blanks. The
machine reads the same, with a number of 64 bits that never leaves their range; and from the numeral
that is written for an integer the integer is read. -/
theorem int32?_numerals :
    (∀ (t : Text) (k : Int), int32? t = some k ↔
      IsInt32 k ∧ ∃ l u r : Text, l.Blank ∧ r.Blank ∧ t = l ++ u ++ r ∧ Numeral u k) ∧
    ((∀ t : Text, (word? t).map (·.toInt) = int32? t) ∧
      ∀ (limit : Int64) (t : Text) (n : Int64) (b : UInt8), IsLimit limit →
        bounded? limit t = some n → isDigit b = true →
        0 ≤ n.toInt * 10 + ((b.toNat - 48 : Nat) : Int) ∧
          n.toInt * 10 + ((b.toNat - 48 : Nat) : Int) < 2 ^ 63) ∧
    ∀ k, IsInt32 k → int32? (ofInt k) = some k := by
  refine ⟨fun t k => int32?_eq_some_iff, ⟨map_toInt_word?, ?_⟩, fun k => int32?_ofInt⟩
  intro limit t n b hlimit hn hb
  exact turn_bounds hlimit hn hb

/-- The least integer is read, the greatest is read with a sign and zeros, and one more is not. -/
theorem int32?_numerals_at_limits :
    let least : Int := -2147483648
    let greatest : Int := 2147483647
    (IsInt32 greatest ∧ Numeral (ascii "+002147483647") greatest ∧
      int32? (ascii "\t +002147483647\r") = some greatest) ∧
    (IsLimit 2147483648 ∧ bounded? 2147483648 (ascii "2147483648") = some 2147483648 ∧
      isDigit (byte '9') = true ∧ (2147483648 : Int64).toInt * 10 + 9 < 2 ^ 63) ∧
    ((word? (ascii "2147483648")).map (·.toInt) = none ∧ int32? (ascii "2147483648") = none) ∧
    (IsInt32 least ∧ int32? (ofInt least) = some least) := by
  intro least greatest
  obtain ⟨hreads, ⟨hword, hturns⟩, hwritten⟩ := int32?_numerals
  have hgreatest : IsInt32 greatest := by decide
  have hleast : IsInt32 least := by decide
  have hnumeral : Numeral (ascii "+002147483647") greatest :=
    .plus ⟨[0, 0, 2, 1, 4, 7, 4, 8, 3, 6, 4, 7], by decide, by decide, by decide, by decide⟩
  have hblanks : (ascii "\t ").Blank ∧ (ascii "\r").Blank := by
    constructor <;> decide
  have hlimit : IsLimit 2147483648 := .inr rfl
  have hbounded : bounded? 2147483648 (ascii "2147483648") = some 2147483648 := by decide
  have hdigit : isDigit (byte '9') = true := by decide
  have hover : (word? (ascii "2147483648")).map (·.toInt) = none := by decide
  exact ⟨⟨hgreatest, hnumeral, (hreads _ greatest).2
      ⟨hgreatest, ascii "\t ", ascii "+002147483647", ascii "\r", hblanks.1, hblanks.2, rfl,
        hnumeral⟩⟩,
    ⟨hlimit, hbounded, hdigit, (hturns _ _ _ _ hlimit hbounded hdigit).2⟩,
    ⟨hover, (hword _).symm.trans hover⟩, ⟨hleast, hwritten least hleast⟩⟩

end SpanRules.Text
