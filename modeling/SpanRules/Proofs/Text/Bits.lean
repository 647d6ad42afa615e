import Mathlib.Algebra.Ring.Nat
import SpanRules.Proofs.Text.Utf8

/-! UTF-8 bit by bit: a sequence is read and written with shifts, masks and one bit that is turned,
and the bits that tell its length are cut off at the end. This is what decoding and encoding do. -/
namespace SpanRules.Utf8
variable {a b : UInt8} {x y n i bits bound code mark : Nat}

/-- The bits of a byte with the highest one turned, if then the two highest are zero. -/
def sixBits? (b : UInt8) : Option Nat :=
  let low := b.toNat ^^^ 0x80
  if low &&& 0xC0 = 0 then some low else none

/-- The code under a mask. One up to a bound is written too long. -/
def masked? (mask bound bits : Nat) : Option Nat :=
  let code := bits &&& mask
  if code ≤ bound then none else some code

def decodeBits? : Text → Option Nat
  | [] => none
  | a :: t =>
    if a.toNat < 0x80 then some a.toNat
    else match t with
      | [] => none
      | b :: t => do
        let bits := a.toNat <<< 6 ||| (← sixBits? b)
        if a.toNat < 0xE0 then
          if a.toNat < 0xC0 then none else masked? 0x7FF 0x7F bits
        else match t with
          | [] => none
          | c :: t => do
            let bits := bits <<< 6 ||| (← sixBits? c)
            if a.toNat < 0xF0 then masked? 0xFFFF 0x7FF bits
            else match t with
              | [] => none
              | d :: _ => do
                let bits := bits <<< 6 ||| (← sixBits? d)
                if a.toNat < 0xF8 then masked? 0x1FFFFF 0xFFFF bits else none

def encodeBits (code : Nat) : Text :=
  if code ≤ 0x7F then [code.toUInt8]
  else if code ≤ 0x7FF then
    [(0xC0 ||| code >>> 6).toUInt8, (0x80 ||| code &&& 0x3F).toUInt8]
  else if code ≤ 0xFFFF then
    [(0xE0 ||| code >>> 12).toUInt8, (0x80 ||| code >>> 6 &&& 0x3F).toUInt8,
      (0x80 ||| code &&& 0x3F).toUInt8]
  else
    [(0xF0 ||| code >>> 18).toUInt8, (0x80 ||| code >>> 12 &&& 0x3F).toUInt8,
      (0x80 ||| code >>> 6 &&& 0x3F).toUInt8, (0x80 ||| code &&& 0x3F).toUInt8]

theorem xor_of_lt : ∀ y < 64, (0x80 + y) ^^^ 0x80 = y ∧ y &&& 0xC0 = 0 := by decide +kernel

theorem xor_of_not_continuation :
    ∀ x < 256, (x < 0x80 ∨ 0xC0 ≤ x) → (x ^^^ 0x80) &&& 0xC0 ≠ 0 := by
  decide +kernel

/-- The bytes with six bits are those that continue a sequence. -/
theorem sixBits?_eq (b : UInt8) : sixBits? b = continuation? b := by
  unfold sixBits?
  cases h : continuation? b with
  | some y =>
    obtain ⟨hb, hy⟩ := continuation?_eq_some_iff.1 h
    obtain ⟨hturned, hhigh⟩ := xor_of_lt y hy
    simp only [hb, hturned, hhigh, if_true]
  | none =>
    have hb : b.toNat < 0x80 ∨ 0xC0 ≤ b.toNat := by
      by_cases hb : 0x80 ≤ b.toNat ∧ b.toNat < 0xC0
      · have hsome : continuation? b = some (b.toNat - 0x80) :=
          continuation?_eq_some_iff.2 ⟨by omega, by omega⟩
        cases h.symm.trans hsome
      · omega
    exact if_neg (xor_of_not_continuation b.toNat b.toNat_lt hb)

theorem shiftLeft_six_or (hy : y < 64) (x : Nat) : x <<< 6 ||| y = x * 64 + y := by
  have hor := Nat.shiftLeft_add_eq_or_of_lt (i := 6) hy x
  rw [← hor, Nat.shiftLeft_eq]

theorem masked?_eq (h : bits % 2 ^ n = code) :
    masked? (2 ^ n - 1) bound bits = if code < bound + 1 then none else some code := by
  simp only [masked?, Nat.and_two_pow_sub_one_eq_mod, h, Nat.lt_succ_iff]

theorem lt_of_continuation? (h : continuation? b = some y) : y < 64 :=
  (continuation?_eq_some_iff.1 h).2

theorem decodeBits?_of_two (hC0 : 0xC0 ≤ a.toNat) (hE0 : a.toNat < 0xE0) (t : Text) :
    decodeBits? (a :: t) = decode (a :: t) := by
  have h80 : ¬ a.toNat < 0x80 := by omega
  have hlead : ¬ a.toNat < 0xC0 := by omega
  simp only [decodeBits?, sixBits?_eq, decode, UInt8.lt_iff_toNat_lt, UInt8.reduceToNat,
    Option.bind_eq_bind, h80, hlead, hE0, if_false, if_true]
  cases t with
  | nil => rfl
  | cons b t =>
    refine Option.bind_congr fun y hy => ?_
    have hy := lt_of_continuation? hy
    rw [shiftLeft_six_or hy]
    exact masked?_eq (n := 11) (by omega)

theorem decodeBits?_of_three (hE0 : 0xE0 ≤ a.toNat) (hF0 : a.toNat < 0xF0) (t : Text) :
    decodeBits? (a :: t) = decode (a :: t) := by
  have h80 : ¬ a.toNat < 0x80 := by omega
  have hC0 : ¬ a.toNat < 0xC0 := by omega
  have hlead : ¬ a.toNat < 0xE0 := by omega
  simp only [decodeBits?, sixBits?_eq, decode, UInt8.lt_iff_toNat_lt, UInt8.reduceToNat,
    Option.bind_eq_bind, h80, hC0, hlead, hF0, if_false, if_true]
  rcases t with _ | ⟨b, _ | ⟨c, t⟩⟩
  · rfl
  · dsimp only
    cases continuation? b <;> rfl
  · refine Option.bind_congr fun y hy => Option.bind_congr fun z hz => ?_
    have hy := lt_of_continuation? hy
    have hz := lt_of_continuation? hz
    rw [shiftLeft_six_or hy, shiftLeft_six_or hz]
    exact masked?_eq (n := 16) (by omega)

theorem decodeBits?_of_four (hF0 : 0xF0 ≤ a.toNat) (t : Text) :
    decodeBits? (a :: t) = decode (a :: t) := by
  have h80 : ¬ a.toNat < 0x80 := by omega
  have hC0 : ¬ a.toNat < 0xC0 := by omega
  have hE0 : ¬ a.toNat < 0xE0 := by omega
  have hlead : ¬ a.toNat < 0xF0 := by omega
  have ha := a.toNat_lt
  simp only [decodeBits?, sixBits?_eq, decode, UInt8.lt_iff_toNat_lt, UInt8.reduceToNat,
    Option.bind_eq_bind, h80, hC0, hE0, hlead, if_false]
  rcases t with _ | ⟨b, _ | ⟨c, _ | ⟨d, t⟩⟩⟩
  · simp only [ite_self]
  · dsimp only
    cases continuation? b <;> simp only [Option.bind_none, Option.bind_some, ite_self]
  · dsimp only
    cases continuation? b <;> cases continuation? c <;>
      simp only [Option.bind_none, Option.bind_some, ite_self]
  · by_cases hF8 : a.toNat < 0xF8
    · simp only [hF8, if_true]
      refine Option.bind_congr fun y hy => Option.bind_congr fun z hz =>
        Option.bind_congr fun w hw => ?_
      have hy := lt_of_continuation? hy
      have hz := lt_of_continuation? hz
      have hw := lt_of_continuation? hw
      rw [shiftLeft_six_or hy, shiftLeft_six_or hz, shiftLeft_six_or hw]
      exact masked?_eq (n := 21) (by omega)
    · simp only [hF8, if_false]
      cases continuation? b <;> cases continuation? c <;> cases continuation? d <;> rfl

/-- Bits and numbers decode alike, also what is cut off, too long or no sequence. -/
theorem decodeBits?_eq (t : Text) : decodeBits? t = decode t := by
  cases t with
  | nil => rfl
  | cons a t =>
    by_cases hF0 : 0xF0 ≤ a.toNat
    · exact decodeBits?_of_four hF0 t
    by_cases hE0 : 0xE0 ≤ a.toNat
    · exact decodeBits?_of_three hE0 (by omega) t
    by_cases hC0 : 0xC0 ≤ a.toNat
    · exact decodeBits?_of_two hC0 (by omega) t
    have hlead : a.toNat < 0xC0 := by omega
    have hE0 : a.toNat < 0xE0 := by omega
    simp only [decodeBits?, sixBits?_eq, decode, UInt8.lt_iff_toNat_lt, UInt8.reduceToNat,
      Option.bind_eq_bind, hlead, hE0, if_true]
    -- A byte that continues a sequence begins none, whatever follows it.
    cases t with
    | nil => rfl
    | cons b t =>
      dsimp only
      cases continuation? b <;> rfl

/-- Bits below those of a mark are added to it. -/
theorem or_of_lt (hmark : mark % 2 ^ i = 0) (hx : x < 2 ^ i) :
    mark ||| x = mark + x := by
  have hor := Nat.two_pow_add_eq_or_of_lt hx (mark / 2 ^ i)
  rw [Nat.mul_div_cancel' (Nat.dvd_of_mod_eq_zero hmark)] at hor
  exact hor.symm

theorem or_and_six (x : Nat) : 0x80 ||| x &&& 0x3F = 0x80 + x % 64 := by
  have hmask : x &&& 0x3F = x % 64 := Nat.and_two_pow_sub_one_eq_mod x 6
  rw [hmask]
  exact or_of_lt (i := 6) rfl (Nat.mod_lt x (by decide))

theorem or_high_of_lt : ∀ x < 256, 0xF0 ||| x = 0xF0 + x % 16 := by decide +kernel

/-- Bits that do not fit into the first of four bytes are lost. -/
theorem toUInt8_or_high (x : Nat) : (0xF0 ||| x).toUInt8 = (0xF0 + x % 16).toUInt8 := by
  apply UInt8.toNat_inj.1
  have hmod : (0xF0 ||| x) % 2 ^ 8 = 0xF0 ||| x % 256 := Nat.or_mod_two_pow
  have hor := or_high_of_lt (x % 256) (by omega)
  simp only [Nat.toUInt8, UInt8.toNat_ofNat', hmod, hor]
  omega

theorem encodeBits_eq (code : Nat) : encodeBits code = encode code := by
  unfold encodeBits encode
  simp only [or_and_six, toUInt8_or_high, Nat.shiftRight_eq_div_pow]
  by_cases h1 : code < 0x80
  · rw [if_pos h1, if_pos (by omega)]
  rw [if_neg h1, if_neg (by omega)]
  by_cases h2 : code < 0x800
  · have hlead : 0xC0 ||| code / 2 ^ 6 = 0xC0 + code / 64 := or_of_lt (i := 5) rfl (by omega)
    rw [if_pos h2, if_pos (by omega), hlead]
  rw [if_neg h2, if_neg (by omega)]
  by_cases h3 : code < 0x10000
  · have hlead : 0xE0 ||| code / 2 ^ 12 = 0xE0 + code / 4096 := or_of_lt (i := 4) rfl (by omega)
    rw [if_pos h3, if_pos (by omega), hlead]
  · rw [if_neg h3, if_neg (by omega)]

end SpanRules.Utf8
