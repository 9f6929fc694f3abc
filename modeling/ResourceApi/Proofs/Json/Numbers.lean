import ResourceApi.Proofs.Decimal.Positional
import ResourceApi.Proofs.Json.Grammar

/-!
Numbers are read as the grammar has them. A reading takes as much as it can, so a number comes back
from in front of what cannot continue it; and the parts that were written decide whether it is
whole.
-/

namespace ResourceApi

namespace Decimal

theorem spanDigits_eq_iff {s ds rest : List Char} : spanDigits s = (ds, rest) ↔
    s = ds ++ rest ∧ (∀ c ∈ ds, c.isDigit = true) ∧ ∀ c ∈ rest.head?, c.isDigit = false := by
  constructor
  · intro h
    obtain ⟨rfl, rfl⟩ := Prod.mk.inj h
    refine ⟨List.takeWhile_append_dropWhile.symm, ?_, ?_⟩
    · exact List.all_eq_true.1 List.all_takeWhile
    · intro c hc
      have hstop := List.head?_dropWhile_not Char.isDigit s
      rwa [hc] at hstop
  · rintro ⟨rfl, hd, hr⟩
    exact spanDigits_append hd hr

end Decimal

namespace Json

/-- What follows a number does not continue it. -/
def EndsNumber (s : List Char) : Prop :=
  ∀ c ∈ s.head?, c.isDigit = false ∧ c ≠ '.' ∧ c ≠ 'e' ∧ c ≠ 'E'

/-! ### Parts of a number that follow each other -/

section

variable {t fraction u rest : List Char} {e : Int}

theorem SpellsExponent.head? (hu : SpellsExponent u e) (hrest : EndsNumber rest) :
    ∀ c ∈ (u ++ rest).head?, c.isDigit = false ∧ c ≠ '.' := by
  intro c hc
  cases hu with
  | absent => exact ⟨(hrest c hc).1, (hrest c hc).2.1⟩
  | plain he | plus he | minus he =>
    cases hc
    rcases he with rfl | rfl <;> decide

theorem SpellsFraction.head? (ht : SpellsFraction t fraction) (hu : SpellsExponent u e)
    (hrest : EndsNumber rest) : ∀ c ∈ (t ++ (u ++ rest)).head?, c.isDigit = false := by
  cases ht with
  | absent => exact fun c hc => (hu.head? hrest c hc).1
  | digits _ =>
    intro c hc
    cases hc
    decide

end

theorem IsDigits.head? {ds : List Char} (h : IsDigits ds) (s : List Char) :
    ∀ c ∈ (ds ++ s).head?, c.isDigit = true := by
  obtain ⟨d, ds, rfl⟩ := List.exists_cons_of_ne_nil h.1
  rintro c ⟨⟩
  exact h.2 d List.mem_cons_self

namespace Source

theorem wholeDigits_append {ds s : List Char} (h : IsWhole ds)
    (hs : ∀ c ∈ s.head?, c.isDigit = false) : wholeDigits (ds ++ s) = some (ds, s) := by
  obtain ⟨⟨hne, hd⟩, hzero⟩ := h
  rw [wholeDigits, Decimal.spanDigits_append hd hs]
  split
  · rename_i heq
    exact absurd (Prod.mk.inj heq).1 hne
  · rename_i heq
    obtain ⟨rfl, -⟩ := Prod.mk.inj heq
    simp at hzero
  · rename_i heq
    rw [heq]

theorem spells_of_wholeDigits {s ds rest : List Char} (h : wholeDigits s = some (ds, rest)) :
    s = ds ++ rest ∧ IsWhole ds := by
  unfold wholeDigits at h
  split at h
  · cases h
  · cases h
  · rename_i hne hzero hspan
    cases h
    obtain ⟨rfl, hd, -⟩ := Decimal.spanDigits_eq_iff.1 hspan
    refine ⟨rfl, ⟨hne, hd⟩, fun hhead => ?_⟩
    obtain ⟨ds', rfl⟩ := List.head?_eq_some_iff.1 hhead
    cases ds' with
    | nil => rfl
    | cons c ds' => exact (hzero c ds' rfl).elim

theorem fractionDigits_append {t fraction s : List Char} (h : SpellsFraction t fraction)
    (hs : ∀ c ∈ s.head?, c.isDigit = false ∧ c ≠ '.') :
    fractionDigits (t ++ s) = some (fraction, s) := by
  cases h with
  | absent =>
    rw [List.nil_append, fractionDigits]
    rintro rest rfl
    exact (hs '.' rfl).2 rfl
  | digits h =>
    rw [List.cons_append, fractionDigits,
      Decimal.spanDigits_append h.2 fun c hc => (hs c hc).1]
    split
    · rename_i heq
      exact absurd (Prod.mk.inj heq).1 h.1
    · rename_i heq
      rw [heq]

theorem spells_of_fractionDigits {s fraction rest : List Char}
    (h : fractionDigits s = some (fraction, rest)) :
    ∃ t, s = t ++ rest ∧ SpellsFraction t fraction := by
  unfold fractionDigits at h
  split at h
  · split at h
    · cases h
    · rename_i hne hspan
      cases h
      obtain ⟨rfl, hd, -⟩ := Decimal.spanDigits_eq_iff.1 hspan
      exact ⟨'.' :: fraction, rfl, .digits ⟨hne, hd⟩⟩
  · cases h
    exact ⟨[], rfl, .absent⟩

end Source

/-! ### Powers of ten -/

/-- Behind the mark of a power of ten, the sign is taken off as it is off any decimal. -/
theorem readExponent_of_mark {c : Char} (he : c = 'e' ∨ c = 'E') (s : List Char) :
    Decimal.readExponent (c :: s) = match Decimal.spanDigits (Decimal.readSign s).2 with
      | ([], _) => none
      | (ds, r) => some (if (Decimal.readSign s).1 then -(Decimal.ofDigits 0 ds : Int)
          else Decimal.ofDigits 0 ds, r) := by
  rw [Decimal.readExponent.eq_def]
  simp only [if_pos he]
  rfl

theorem readExponent_cons {c : Char} (he : c = 'e' ∨ c = 'E') (s : List Char) :
    Decimal.readExponent (c :: s) =
      if (Decimal.spanDigits (Decimal.readSign s).2).1 = [] then none
      else some (
        if (Decimal.readSign s).1 then
          -(Decimal.ofDigits 0 (Decimal.spanDigits (Decimal.readSign s).2).1 : Int)
        else Decimal.ofDigits 0 (Decimal.spanDigits (Decimal.readSign s).2).1,
        (Decimal.spanDigits (Decimal.readSign s).2).2) := by
  rw [readExponent_of_mark he]
  rcases Decimal.spanDigits (Decimal.readSign s).2 with ⟨_ | ⟨d, ds⟩, r⟩ <;> rfl

theorem readSign_of_isDigit {s : List Char} (h : ∀ c ∈ s.head?, c.isDigit = true) :
    Decimal.readSign s = (false, s) := by
  unfold Decimal.readSign
  split
  · have hplus := h '+' rfl
    simp at hplus
  · have hminus := h '-' rfl
    simp at hminus
  · rfl

theorem cases_readSign (s : List Char) : Decimal.readSign s = (false, s) ∨
    (∃ t, s = '+' :: t ∧ Decimal.readSign s = (false, t)) ∨
      ∃ t, s = '-' :: t ∧ Decimal.readSign s = (true, t) := by
  unfold Decimal.readSign
  split
  · exact .inr (.inl ⟨_, rfl, rfl⟩)
  · exact .inr (.inr ⟨_, rfl, rfl⟩)
  · exact .inl rfl

theorem readExponent_append {u s : List Char} {e : Int} (h : SpellsExponent u e)
    (hs : EndsNumber s) : Decimal.readExponent (u ++ s) = some (e, s) := by
  have hstop : ∀ c ∈ s.head?, c.isDigit = false := fun c hc => (hs c hc).1
  have hspan : ∀ {ds}, IsDigits ds → Decimal.spanDigits (ds ++ s) = (ds, s) :=
    fun h => Decimal.spanDigits_append h.2 hstop
  cases h with
  | absent =>
    cases s with
    | nil => rfl
    | cons c s =>
      obtain ⟨-, -, he, hE⟩ := hs c rfl
      rw [List.nil_append, Decimal.readExponent.eq_def]
      exact if_neg (by simp [he, hE])
  | plain he h =>
    have hsign := readSign_of_isDigit (h.head? s)
    rw [List.cons_append, readExponent_cons he]
    simp [hsign, hspan h, h.1, Decimal.ofDigits_eq_ofDigitChars]
  | @plus _ ds he h =>
    have hsign : Decimal.readSign ('+' :: (ds ++ s)) = (false, ds ++ s) := rfl
    rw [List.cons_append, List.cons_append, readExponent_cons he]
    simp [hsign, hspan h, h.1, Decimal.ofDigits_eq_ofDigitChars]
  | @minus _ ds he h =>
    have hsign : Decimal.readSign ('-' :: (ds ++ s)) = (true, ds ++ s) := rfl
    rw [List.cons_append, List.cons_append, readExponent_cons he]
    simp [hsign, hspan h, h.1, Decimal.ofDigits_eq_ofDigitChars]

theorem spells_of_readExponent {s rest : List Char} {e : Int}
    (h : Decimal.readExponent s = some (e, rest)) : ∃ u, s = u ++ rest ∧ SpellsExponent u e := by
  cases s with
  | nil =>
    cases h
    exact ⟨[], rfl, .absent⟩
  | cons c s =>
    by_cases he : c = 'e' ∨ c = 'E'
    · rw [readExponent_cons he] at h
      split at h
      · cases h
      · rename_i hne
        rcases hspan : Decimal.spanDigits (Decimal.readSign s).2 with ⟨ds, r⟩
        rw [hspan, Decimal.ofDigits_eq_ofDigitChars] at h
        rw [hspan] at hne
        obtain ⟨hbody, hd, -⟩ := Decimal.spanDigits_eq_iff.1 hspan
        have hdigits : IsDigits ds := ⟨hne, hd⟩
        obtain hs | ⟨t, rfl, hs⟩ | ⟨t, rfl, hs⟩ := cases_readSign s <;> rw [hs] at h hbody <;>
          cases h <;> subst hbody
        · exact ⟨c :: ds, rfl, .plain he hdigits⟩
        · exact ⟨c :: '+' :: ds, rfl, .plus he hdigits⟩
        · exact ⟨c :: '-' :: ds, rfl, .minus he hdigits⟩
    · rw [Decimal.readExponent.eq_def] at h
      obtain ⟨rfl, rfl⟩ := Prod.mk.inj (Option.some.inj ((if_neg he).symm.trans h))
      exact ⟨[], rfl, .absent⟩

/-! ### Whole numbers -/

section

variable {whole t fraction u : List Char} {e : Int}

/-- A fraction and an exponent bring in characters that are no digits. -/
theorem append_eq_nil_of_isDigit (ht : SpellsFraction t fraction) (hu : SpellsExponent u e)
    (h : ∀ c ∈ t ++ u, c.isDigit = true) : t ++ u = [] := by
  cases ht with
  | digits _ =>
    have hdot := h '.' (by simp)
    simp at hdot
  | absent =>
    cases hu with
    | absent => rfl
    | @plain c _ he | @plus c _ he | @minus c _ he =>
      have hmark := h c (by simp)
      rcases he with rfl | rfl <;> simp at hmark

/-- Nothing but a sign and digits is a whole number, within the range of a word. -/
theorem spellsInt_iff (negative : Bool) (hw : IsWhole whole) (ht : SpellsFraction t fraction)
    (hu : SpellsExponent u e) {n : Int} :
    SpellsInt ((if negative then ['-'] else []) ++ whole ++ t ++ u) n ↔ t ++ u = [] ∧
      if negative then
        (0 < Nat.ofDigitChars 10 whole 0 ∧ Nat.ofDigitChars 10 whole 0 ≤ 0x8000000000000000) ∧
          n = -(Nat.ofDigitChars 10 whole 0 : Int)
      else Nat.ofDigitChars 10 whole 0 < 0x10000000000000000 ∧ n = Nat.ofDigitChars 10 whole 0 := by
  have hminus : '-' ∉ whole := fun hmem => by simpa using hw.1.2 '-' hmem
  constructor
  · intro h
    have hnil : ∀ {ds}, IsWhole ds → whole ++ (t ++ u) = ds → t ++ u = [] ∧ ds = whole := by
      rintro _ hds rfl
      have htail := append_eq_nil_of_isDigit ht hu fun c hc =>
        hds.1.2 c (List.mem_append_right _ hc)
      exact ⟨htail, by rw [htail, List.append_nil]⟩
    generalize hs : (if negative then ['-'] else []) ++ whole ++ t ++ u = s at h
    rw [List.append_assoc, List.append_assoc] at hs
    cases h with
    | natural hds hn =>
      cases negative with
      | true =>
        have hsign := hds.1.2 '-' (by simp [← hs])
        simp at hsign
      | false =>
        obtain ⟨htail, rfl⟩ := hnil hds hs
        exact ⟨htail, hn, rfl⟩
    | negative hds hpos hn =>
      cases negative with
      | true =>
        obtain ⟨htail, rfl⟩ := hnil hds (List.cons.inj hs).2
        exact ⟨htail, ⟨hpos, hn⟩, rfl⟩
      | false =>
        obtain ⟨c, whole, rfl⟩ := List.exists_cons_of_ne_nil hw.1.1
        exact absurd ((List.cons.inj hs).1 ▸ List.mem_cons_self) hminus
  · rintro ⟨htail, h⟩
    obtain ⟨rfl, rfl⟩ := List.append_eq_nil_iff.1 htail
    rw [List.append_nil, List.append_nil]
    cases negative with
    | true =>
      obtain ⟨⟨hpos, hn⟩, rfl⟩ := h
      exact .negative hw hpos hn
    | false =>
      obtain ⟨hn, rfl⟩ := h
      exact .natural hw hn

/-- What a number stands for: the whole number that it is, else the double that is read in two
steps. -/
def IsNumberOf (t : List Char) (x : Decimal.Numeral) (v : Json) : Prop :=
  (∃ n, SpellsInt t n ∧ v = .int n) ∨
    (∀ n, ¬SpellsInt t n) ∧ ∃ y, x.stepwise = some y ∧ v = .double y

/-- A text that can be one whole number only, under a condition, stands for this number if the
condition holds, else for its double. -/
theorem isNumberOf_iff {text : List Char} {x : Decimal.Numeral} {P : Prop} [Decidable P] {i : Int}
    (h : ∀ n, SpellsInt text n ↔ P ∧ n = i) {v : Json} :
    (if P then some (.int i) else x.stepwise.map .double) = some v ↔ IsNumberOf text x v := by
  rw [IsNumberOf]
  simp only [h]
  by_cases hP : P
  · have hsome : ¬∀ n : Int, ¬n = i := fun hn => hn i rfl
    simp only [hP, if_true, true_and, exists_eq_left, hsome, false_and, or_false,
      Option.some.injEq, eq_comm (a := v)]
  · simp only [hP, if_false, false_and, exists_false, not_false_eq_true, implies_true, true_and,
      false_or, Option.map_eq_some_iff, eq_comm (a := v)]

/-- What a number is read as is what its text stands for. -/
theorem json?_eq_some_iff (negative : Bool) (hw : IsWhole whole) (ht : SpellsFraction t fraction)
    (hu : SpellsExponent u e) {v : Json} :
    NumberText.json? ⟨⟨negative, whole, fraction, e⟩, (t ++ u).isEmpty⟩ = some v ↔
      IsNumberOf ((if negative then ['-'] else []) ++ whole ++ t ++ u)
        ⟨negative, whole, fraction, e⟩ v := by
  have hint := fun n : Int => spellsInt_iff negative hw ht hu (n := n)
  rw [NumberText.json?]
  simp only [List.isEmpty_iff, Decimal.ofDigits_eq_ofDigitChars]
  generalize Nat.ofDigitChars 10 whole 0 = n at hint ⊢
  cases negative with
  | true =>
    rw [if_neg (by simp)]
    refine isNumberOf_iff fun m => (hint m).trans ?_
    simp only [if_true, Nat.pos_iff_ne_zero, true_and, and_assoc]
  | false =>
    have hpositive : ¬(t ++ u = [] ∧ false = true ∧ n ≠ 0 ∧ n ≤ 0x8000000000000000) := by simp
    rw [if_neg hpositive]
    refine isNumberOf_iff fun m => (hint m).trans ?_
    simp only [Bool.false_eq_true, if_false, not_false_eq_true, true_and, and_assoc]

end

/-! ### Numbers -/

theorem readNumber_of_sign {negative : Bool} {s : List Char}
    (h : negative = false → s.head? ≠ some '-') :
    Source.readNumber ((if negative then ['-'] else []) ++ s) =
      (Source.wholeDigits s).bind fun w => (Source.fractionDigits w.2).bind fun f =>
        (Decimal.readExponent f.2).bind fun e =>
          some (⟨⟨negative, w.1, f.1, e.1⟩, e.2.length == w.2.length⟩, e.2) := by
  cases negative with
  | true => rfl
  | false =>
    rw [Source.readNumber.eq_def]
    split
    · rename_i hsign
      split at hsign
      · rename_i heq
        exact absurd (congrArg List.head? heq) (h rfl)
      · cases hsign
        rfl

/-- A number ends where its digits end exactly if nothing else was written. -/
theorem length_beq_eq_isEmpty (t u s : List Char) :
    (s.length == (t ++ (u ++ s)).length) = (t ++ u).isEmpty := by
  rw [Bool.eq_iff_iff, beq_iff_eq, List.isEmpty_iff, ← List.append_assoc, List.length_append,
    ← List.length_eq_zero_iff]
  omega

/-- A number of the grammar is read up to its end. -/
theorem readNumber_append {t s : List Char} {x : Decimal.Numeral} (h : SpellsNumeral t x)
    (hs : EndsNumber s) : ∃ y : NumberText, Source.readNumber (t ++ s) = some (y, s) ∧
      ∀ v, y.json? = some v ↔ IsNumberOf t x v := by
  cases h with
  | @intro whole t fraction u e negative hw ht hu =>
    refine ⟨⟨⟨negative, whole, fraction, e⟩, (t ++ u).isEmpty⟩, ?_,
      fun v => json?_eq_some_iff negative hw ht hu⟩
    have hsign : (whole ++ (t ++ (u ++ s))).head? ≠ some '-' := fun hhead => by
      simpa using hw.1.head? _ '-' hhead
    simp only [List.append_assoc]
    rw [readNumber_of_sign fun _ => hsign, Source.wholeDigits_append hw (ht.head? hu hs)]
    simp only [Option.bind_some]
    rw [Source.fractionDigits_append ht (hu.head? hs)]
    simp only [Option.bind_some]
    rw [readExponent_append hu hs, Option.bind_some, length_beq_eq_isEmpty]

/-- What is read as a number is one of the grammar. -/
theorem spells_of_readNumber {s rest : List Char} {y : NumberText}
    (h : Source.readNumber s = some (y, rest)) : ∃ t x, s = t ++ rest ∧ SpellsNumeral t x ∧
      ∀ v, y.json? = some v ↔ IsNumberOf t x v := by
  obtain ⟨negative, body, rfl, hbody⟩ : ∃ negative body,
      s = (if negative then ['-'] else []) ++ body ∧
        (negative = false → body.head? ≠ some '-') := by
    by_cases hminus : s.head? = some '-'
    · obtain ⟨body, rfl⟩ := List.head?_eq_some_iff.1 hminus
      exact ⟨true, body, rfl, by simp⟩
    · exact ⟨false, s, rfl, fun _ => hminus⟩
  rw [readNumber_of_sign hbody] at h
  simp only [Option.bind_eq_some_iff] at h
  obtain ⟨⟨whole, r⟩, hwhole, ⟨fraction, r'⟩, hfraction, ⟨e, r''⟩, hexponent, h⟩ := h
  obtain ⟨rfl, hw⟩ := Source.spells_of_wholeDigits hwhole
  obtain ⟨t, rfl, ht⟩ := Source.spells_of_fractionDigits hfraction
  obtain ⟨u, rfl, hu⟩ := spells_of_readExponent hexponent
  cases h
  refine ⟨_, _, ?_, .intro negative hw ht hu, fun v => ?_⟩
  · simp only [List.append_assoc]
  · rw [length_beq_eq_isEmpty]
    exact json?_eq_some_iff negative hw ht hu

end Json

end ResourceApi
