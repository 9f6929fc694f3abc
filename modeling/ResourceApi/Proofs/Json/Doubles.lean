import ResourceApi.Json.Printer
import ResourceApi.Proofs.Decimal.ReadBack
import ResourceApi.Proofs.Decimal.Shortest
import ResourceApi.Proofs.Decimal.Stepwise
import ResourceApi.Proofs.Json.Numbers

/-!
Doubles are written as decimals to which they are the nearest double. The digits are those of such a
decimal, and where the point falls among them, or which power of ten follows them, does not change
its value. A point or a power of ten is always written, so that no double looks like a whole number.
-/

namespace ResourceApi.Json

/-- The double is nearest to the numeral, and has its sign. -/
def NearestDouble (x : Decimal.Numeral) (y : Decimal.Binary64) : Prop :=
  Decimal.Binary64.Rounds x.negative x.magnitude y

/-- A numeral with few digits and a small power of ten is read as the nearest double. -/
theorem readsDouble_iff {x : Decimal.Numeral} {y : Decimal.Binary64}
    (hdigits : Nat.ofDigitChars 10 (x.whole ++ x.fraction) 0 < 2 ^ 53)
    (hexp : (x.exponent - x.fraction.length).natAbs ≤ 22) :
    ReadsDouble x y ↔ NearestDouble x y := by
  obtain ⟨z, hz, m, q, rfl, hnear⟩ := Decimal.Numeral.stepwise_rounds hdigits hexp
  constructor
  · intro h
    obtain rfl := Option.some.inj (hz.symm.trans h)
    exact ⟨m, q, rfl, hnear⟩
  · rintro ⟨n, p, rfl, hnear'⟩
    obtain ⟨rfl, rfl⟩ := hnear.unique hnear'
    exact hz

/-- A text with a point or a power of ten, without a sign, and its value. -/
structure WritesDecimal (s : List Char) (r : ℚ) : Prop where
  parts : ∃ whole t fraction u e, s = whole ++ t ++ u ∧ IsWhole whole ∧
    SpellsFraction t fraction ∧ SpellsExponent u e ∧ t ++ u ≠ [] ∧
    (Nat.ofDigitChars 10 (whole ++ fraction) 0 : ℚ) * 10 ^ (e - fraction.length : Int) = r

/-! ### Digits -/

theorem isDigits_toDigits (n : Nat) : IsDigits (Nat.toDigits 10 n) :=
  ⟨Nat.toDigits_ne_nil, Decimal.isDigit_toDigits n⟩

theorem isWhole_toDigits {n : Nat} (hn : 0 < n) : IsWhole (Nat.toDigits 10 n) :=
  ⟨isDigits_toDigits n, fun h => absurd h (Decimal.head_toDigits hn)⟩

theorem isWhole_zero : IsWhole ['0'] := ⟨⟨by simp, by simp⟩, fun _ => rfl⟩

theorem ofDigitChars_zeros (n : Nat) (ds : List Char) :
    Nat.ofDigitChars 10 (List.replicate n '0' ++ ds) 0 = Nat.ofDigitChars 10 ds 0 := by
  induction n with
  | zero => rfl
  | succ n ih => exact ih

theorem isWhole_take {ds : List Char} (h : IsWhole ds) (hzero : ds.head? ≠ some '0') (n : Nat) :
    IsWhole (ds.take (n + 1)) := by
  obtain ⟨⟨hne, hd⟩, -⟩ := h
  obtain ⟨c, ds, rfl⟩ := List.exists_cons_of_ne_nil hne
  exact ⟨⟨by simp, fun c hc => hd c (List.mem_of_mem_take hc)⟩, fun h => absurd h hzero⟩

/-! ### Layouts -/

section Layouts

variable {d : Nat}

/-- A point in front of all digits, with zeros between. -/
theorem writesDecimal_small (d k : Nat) :
    WritesDecimal (['0', '.'] ++ List.replicate k '0' ++ Nat.toDigits 10 d)
      (d * 10 ^ (-(k + (Nat.toDigits 10 d).length) : Int)) := by
  have hfraction : IsDigits (List.replicate k '0' ++ Nat.toDigits 10 d) := by
    refine ⟨by simp, fun c hc => ?_⟩
    exact (List.mem_append.1 hc).elim (Decimal.isDigit_replicate k c) (Decimal.isDigit_toDigits d c)
  refine ⟨['0'], _, _, [], 0, ?_, isWhole_zero, .digits hfraction, .absent, by simp, ?_⟩
  · simp
  · have hdigits := ofDigitChars_zeros (k + 1) (Nat.toDigits 10 d)
    rw [Nat.ofDigitChars_ten_toDigits] at hdigits
    rw [List.length_append, List.length_replicate, Int.zero_sub, Nat.cast_add]
    rw [List.replicate_succ] at hdigits
    rw [List.singleton_append, ← List.cons_append, hdigits]

/-- A point behind all digits, with zeros between and one zero after it. -/
theorem writesDecimal_whole (hd : 0 < d) (k : Nat) :
    WritesDecimal (Nat.toDigits 10 d ++ List.replicate k '0' ++ ['.', '0'])
      (d * 10 ^ (k : Int)) := by
  have hpos : 0 < d * 10 ^ k := Nat.mul_pos hd (Nat.pow_pos (by decide))
  have hzero : IsDigits ['0'] := isWhole_zero.1
  refine ⟨_, _, _, [], 0, ?_, isWhole_toDigits hpos, .digits hzero, .absent, by simp, ?_⟩
  · rw [Decimal.toDigits_mul_pow hd, List.append_nil]
  · have hsucc := Decimal.toDigits_mul_pow hpos 1
    rw [List.replicate_one] at hsucc
    rw [← hsucc, Nat.ofDigitChars_ten_toDigits, List.length_singleton]
    push_cast
    rw [zpow_natCast]
    ring

/-- A point between digits. -/
theorem writesDecimal_between (hd : 0 < d) {k : Nat} (hk : k + 1 < (Nat.toDigits 10 d).length) :
    WritesDecimal ((Nat.toDigits 10 d).take (k + 1) ++ '.' :: (Nat.toDigits 10 d).drop (k + 1))
      (d * 10 ^ (k + 1 - (Nat.toDigits 10 d).length : Int)) := by
  have hfraction : IsDigits ((Nat.toDigits 10 d).drop (k + 1)) :=
    ⟨by simpa using hk, fun c hc => Decimal.isDigit_toDigits d c (List.mem_of_mem_drop hc)⟩
  refine ⟨_, _, _, [], 0, (List.append_nil _).symm,
    isWhole_take (isWhole_toDigits hd) (Decimal.head_toDigits hd) k, .digits hfraction, .absent,
    by simp, ?_⟩
  rw [List.take_append_drop, Nat.ofDigitChars_ten_toDigits, List.length_drop, Nat.cast_sub hk.le]
  congr 2
  push_cast
  ring

/-- A power of ten behind the digits. -/
theorem writesDecimal_power (hd : 0 < d) (e : Int) :
    WritesDecimal (Decimal.Layout.power (Nat.toDigits 10 d) e)
      (d * 10 ^ (e + 1 - (Nat.toDigits 10 d).length)) := by
  have hwhole := isWhole_take (isWhole_toDigits hd) (Decimal.head_toDigits hd) 0
  have hlength : 0 < (Nat.toDigits 10 d).length := List.length_pos_iff.2 Nat.toDigits_ne_nil
  have hexponent : SpellsExponent
      ('e' :: (if e < 0 then '-' else '+') :: Nat.toDigits 10 e.natAbs) e := by
    have hdigits := isDigits_toDigits e.natAbs
    split
    · have h := SpellsExponent.minus (.inl rfl : 'e' = 'e' ∨ _) hdigits
      rw [Nat.ofDigitChars_ten_toDigits] at h
      rwa [show -(e.natAbs : Int) = e by omega] at h
    · have h := SpellsExponent.plus (.inl rfl : 'e' = 'e' ∨ _) hdigits
      rw [Nat.ofDigitChars_ten_toDigits] at h
      rwa [show (e.natAbs : Int) = e by omega] at h
  have hvalue : ((Nat.ofDigitChars 10 ((Nat.toDigits 10 d).take 1 ++ (Nat.toDigits 10 d).drop 1) 0 :
      Nat) : ℚ) * 10 ^ (e - ((Nat.toDigits 10 d).drop 1).length : Int) =
        d * 10 ^ (e + 1 - (Nat.toDigits 10 d).length) := by
    rw [List.take_append_drop, Nat.ofDigitChars_ten_toDigits, List.length_drop,
      Nat.cast_sub hlength]
    congr 2
    push_cast
    ring
  cases hdrop : (Nat.toDigits 10 d).drop 1 with
  | nil =>
    refine ⟨_, [], [], _, e, ?_, hwhole, .absent, hexponent, by simp, ?_⟩
    · simp [Decimal.Layout.power, hdrop]
    · rwa [hdrop] at hvalue
  | cons c ds =>
    have hfraction : IsDigits (c :: ds) :=
      ⟨by simp, fun a ha => Decimal.isDigit_toDigits d a
        (List.mem_of_mem_drop (hdrop ▸ ha : a ∈ (Nat.toDigits 10 d).drop 1))⟩
    refine ⟨_, _, _, _, e, ?_, hwhole, .digits hfraction, hexponent, by simp, ?_⟩
    · simp [Decimal.Layout.power, hdrop]
    · rwa [hdrop] at hvalue

/-- Wherever the point falls among digits, the value is that of the digits. -/
theorem writesDecimal_place (hd : 0 < d) (e : Int) :
    WritesDecimal (number.place (Nat.toDigits 10 d) e)
      (d * 10 ^ (e + 1 - (Nat.toDigits 10 d).length)) := by
  rw [Decimal.Layout.place]
  split
  · rename_i he
    have h := writesDecimal_small d (-e - 1).toNat
    have hexp : -(((-e - 1).toNat : Int) + (Nat.toDigits 10 d).length) =
        e + 1 - (Nat.toDigits 10 d).length := by omega
    rwa [hexp] at h
  dsimp only
  split
  · have h := writesDecimal_whole hd (e.toNat + 1 - (Nat.toDigits 10 d).length)
    have hexp : ((e.toNat + 1 - (Nat.toDigits 10 d).length : Nat) : Int) =
        e + 1 - (Nat.toDigits 10 d).length := by omega
    rwa [hexp] at h
  · have h := writesDecimal_between hd (k := e.toNat) (by omega)
    have hexp : (e.toNat : Int) + 1 - (Nat.toDigits 10 d).length =
        e + 1 - (Nat.toDigits 10 d).length := by omega
    rwa [hexp] at h

end Layouts

/-! ### Doubles -/

/-- A text that is written for a double. -/
structure WritesDouble (double : Decimal.Numeral → Decimal.Binary64 → Prop) (s : List Char)
    (y : Decimal.Binary64) : Prop where
  numeral : ∃ x, SpellsNumeral s x ∧ double x y
  noInt : ∀ n, ¬SpellsInt s n

/-- A decimal is a text for the double that is nearest to it. -/
theorem writesDouble_of_decimal {s : List Char} {r : ℚ} {m : Nat} {q : Int} (negative : Bool)
    (h : WritesDecimal s r) (hr : Decimal.IsNearest r m q) :
    WritesDouble NearestDouble ((if negative then ['-'] else []) ++ s)
      (.finite negative m q) := by
  obtain ⟨whole, t, fraction, u, e, rfl, hw, ht, hu, hmark, rfl⟩ := h.parts
  rw [← List.append_assoc, ← List.append_assoc]
  refine ⟨⟨_, .intro negative hw ht hu, m, q, rfl, hr⟩, fun n hn => ?_⟩
  exact hmark ((spellsInt_iff negative hw ht hu).1 hn).1

/-- The text of a double is a decimal that the double is nearest to. -/
theorem writesDouble_write {y : Decimal.Binary64} (hy : y.IsKept) :
    WritesDouble NearestDouble (number.write y) y := by
  obtain ⟨negative, m, q, rfl, h⟩ := hy
  rw [Decimal.Layout.write]
  rcases m.eq_zero_or_pos with rfl | hm
  · obtain rfl : q = -1074 := h.full.resolve_left (by norm_num)
    have hdigits : Nat.ofDigitChars 10 (['0'] ++ ['0']) 0 = 0 := rfl
    have hzero : WritesDecimal ['0', '.', '0'] 0 :=
      ⟨['0'], ['.', '0'], ['0'], [], 0, rfl, isWhole_zero, .digits isWhole_zero.1, .absent,
        by simp, by rw [hdigits, Nat.cast_zero, zero_mul]⟩
    exact writesDouble_of_decimal negative hzero Decimal.Binary64.isNearest_zero
  · rw [if_neg hm.ne']
    dsimp only
    have hnear := Decimal.isNearest_shortest number.tie hm h
    have hd := Decimal.digits_pos_of_isNearest hm hnear
    generalize Decimal.shortest number.tie m q = x at *
    have hexp : x.exponent + (Nat.toDigits 10 x.digits).length - 1 + 1 -
        (Nat.toDigits 10 x.digits).length = x.exponent := by omega
    rw [Decimal.Scientific.value, ← hexp] at hnear
    refine writesDouble_of_decimal negative ?_ hnear
    split
    · exact writesDecimal_place hd _
    · exact writesDecimal_power hd _

end ResourceApi.Json
