import Mathlib.Data.List.DropRight
import ResourceApi.Proofs.Manifest.Name

/-!
The texts of types. A type is a path of identifiers, on its own or with type arguments in angle
brackets, which are separated by commas; blanks may stand around each argument and in front of a
bracket, but not within a path. The reader takes exactly these texts: what it takes off the front
is spelled by the grammar, and what the grammar spells it takes off in front of all that may follow.
-/

namespace ResourceApi.Name

open Text

/-! ### The grammar -/

def AreBlanks (s : List Char) : Prop := ∀ c ∈ s, isBlank c = true

/-- Letters, digits and underscores, not starting with a digit. -/
def IsIdentifier (s : List Char) : Prop :=
  IsWordOf (fun c => c.isAlpha = true ∨ c = '_') (fun c => c.isAlphanum = true ∨ c = '_') s

/-- Identifiers joined by double colons. -/
inductive IsPath : List Char → Prop
  | one {w : List Char} : IsIdentifier w → IsPath w
  | join {w p : List Char} : IsIdentifier w → IsPath p → IsPath (w ++ ':' :: ':' :: p)

/-- What the grammar is about: types, and lists of arguments as they stand between brackets. -/
inductive Form where
  | type | arguments

inductive Spells : Form → List Char → Prop
  | plain {p : List Char} : IsPath p → Spells .type p
  | applied {p b a : List Char} : IsPath p → AreBlanks b → Spells .arguments a →
      Spells .type (p ++ (b ++ '<' :: (a ++ ['>'])))
  | last {b t b' : List Char} : AreBlanks b → Spells .type t → AreBlanks b' →
      Spells .arguments (b ++ (t ++ b'))
  | more {b t b' a : List Char} : AreBlanks b → Spells .type t → AreBlanks b' →
      Spells .arguments a → Spells .arguments (b ++ (t ++ (b' ++ ',' :: a)))

/-- A type with blanks around it. -/
def IsTypeText (s : String) : Prop :=
  ∃ b t b', AreBlanks b ∧ Spells .type t ∧ AreBlanks b' ∧ s.toList = b ++ (t ++ b')

/-! ### Blanks -/

variable {s p t a rest : List Char} {n : Nat}

theorem isWordChar_of_isBlank {c : Char} (h : isBlank c = true) : isWordChar c = false := by
  have hruns : ∀ r ∈ blankRuns, r.last < '0'.toNat ∨ 'z'.toNat < r.first := by decide
  obtain ⟨r, hr, hcovers⟩ := inRuns_iff.1 h
  obtain ⟨hfirst, hlast, -⟩ := Run.covers_iff.1 hcovers
  rw [Bool.eq_false_iff]
  intro hw
  change (((decide (c.val ≥ 65 ∧ c.val ≤ 90) ||
    (decide (c.val ≥ 97) && decide (c.val ≤ 122))) ||
    (decide (c.val ≥ 48) && decide (c.val ≤ 57))) || decide (c = '_')) = true at hw
  have hword : (((65 ≤ c.toNat ∧ c.toNat ≤ 90) ∨ (97 ≤ c.toNat ∧ c.toNat ≤ 122)) ∨
      (48 ≤ c.toNat ∧ c.toNat ≤ 57)) ∨ c = '_' := by
    simpa [UInt32.le_iff_toNat_le] using hw
  have hrange : '0'.toNat ≤ c.toNat ∧ c.toNat ≤ 'z'.toNat := by
    rcases hword with h | rfl
    · simp only [Char.reduceToNat]
      omega
    · decide
  have := hruns r hr
  omega

theorem exists_blanks (s : List Char) : ∃ b, AreBlanks b ∧ s = b ++ skipBlanks s := by
  refine ⟨s.takeWhile isBlank, fun c hc => ?_, List.takeWhile_append_dropWhile.symm⟩
  exact List.all_eq_true.1 List.all_takeWhile c hc

theorem skipBlanks_skipBlanks (s : List Char) : skipBlanks (skipBlanks s) = skipBlanks s :=
  List.dropWhile_idempotent _ _

theorem skipBlanks_eq_nil_iff : skipBlanks s = [] ↔ s.all isBlank = true := by
  rw [skipBlanks, List.dropWhile_eq_nil_iff, List.all_eq_true]

theorem skipBlanks_cons {c : Char} (h : isBlank c = false) (s : List Char) :
    skipBlanks (c :: s) = c :: s := by
  simp [skipBlanks, h]

theorem AreBlanks.skipBlanks_append {b : List Char} (h : AreBlanks b) (s : List Char) :
    skipBlanks (b ++ s) = skipBlanks s := by
  rw [skipBlanks, List.dropWhile_append_of_pos h, skipBlanks]

theorem AreBlanks.skipBlanks_append_cons {b : List Char} {c : Char} (h : AreBlanks b)
    (hc : isBlank c = false) (s : List Char) : skipBlanks (b ++ c :: s) = c :: s := by
  rw [h.skipBlanks_append, skipBlanks_cons hc]

theorem AreBlanks.append {b b' : List Char} (h : AreBlanks b) (h' : AreBlanks b') :
    AreBlanks (b ++ b') := by
  intro c hc
  exact (List.mem_append.1 hc).elim (h c) (h' c)

/-! ### Identifiers -/

/-- A path can end in front of this text. -/
def EndsPath (rest : List Char) : Prop := ∀ c ∈ rest.head?, isWordChar c = false ∧ c ≠ ':'

/-- A type can end in front of this text: it is blank up to its end, or up to a sign that ends an
argument. -/
def EndsType (rest : List Char) : Prop := ∀ c ∈ (skipBlanks rest).head?, c = ',' ∨ c = '>'

theorem endsPath_of_skipBlanks
    (h : ∀ c ∈ (skipBlanks rest).head?, isWordChar c = false ∧ c ≠ ':') : EndsPath rest := by
  cases rest with
  | nil => exact h
  | cons c rest =>
    cases hc : isBlank c with
    | true =>
      rintro c ⟨⟩
      exact ⟨isWordChar_of_isBlank hc, by rintro rfl; exact absurd hc (by decide)⟩
    | false =>
      rwa [skipBlanks_cons hc] at h

theorem EndsType.endsPath (h : EndsType rest) : EndsPath rest := by
  refine endsPath_of_skipBlanks fun c hc => ?_
  rcases h c hc with rfl | rfl <;> decide

theorem endsType_append_cons {b : List Char} {c : Char} (hb : AreBlanks b)
    (hc : c = ',' ∨ c = '>') (s : List Char) : EndsType (b ++ c :: s) := by
  have hblank : isBlank c = false := by rcases hc with rfl | rfl <;> decide
  rw [EndsType, hb.skipBlanks_append_cons hblank]
  rintro d ⟨⟩
  exact hc

theorem isWordChar_iff {c : Char} : isWordChar c = true ↔ c.isAlphanum = true ∨ c = '_' := by
  simp [isWordChar]

theorem IsIdentifier.skipBlanks_append {w : List Char} (h : IsIdentifier w) (s : List Char) :
    skipBlanks (w ++ s) = w ++ s := by
  cases w with
  | nil => cases h
  | cons c w =>
    have hword : isWordChar c = true :=
      isWordChar_iff.2 (h.1.imp_left fun hc => by simp [Char.isAlphanum, hc])
    refine skipBlanks_cons ?_ (w ++ s)
    rw [Bool.eq_false_iff]
    intro hblank
    rw [isWordChar_of_isBlank hblank] at hword
    cases hword

theorem IsPath.skipBlanks_append (h : IsPath p) (s : List Char) : skipBlanks (p ++ s) = p ++ s := by
  cases h with
  | one hw => exact hw.skipBlanks_append s
  | join hw => rw [List.append_assoc, hw.skipBlanks_append]

theorem identifier?_sound (h : identifier? s = some rest) :
    ∃ w, IsIdentifier w ∧ s = w ++ rest := by
  cases s with
  | nil => simp [identifier?] at h
  | cons c s =>
    rw [identifier?] at h
    split at h
    · rename_i hc
      obtain rfl := Option.some.inj h
      refine ⟨c :: s.takeWhile isWordChar, ⟨by simpa using hc, fun d hd => ?_⟩, by simp⟩
      exact isWordChar_iff.1 (List.all_eq_true.1 List.all_takeWhile d hd)
    · cases h

theorem identifier?_complete {w : List Char} (hw : IsIdentifier w)
    (hrest : ∀ c ∈ rest.head?, isWordChar c = false) : identifier? (w ++ rest) = some rest := by
  cases w with
  | nil => cases hw
  | cons c w =>
    have hlater : ∀ d ∈ w, isWordChar d = true := fun d hd => isWordChar_iff.2 (hw.2 d hd)
    have hdrop : rest.dropWhile isWordChar = rest := by
      cases rest with
      | nil => rfl
      | cons d rest => simp [hrest d rfl]
    simp [identifier?, hw.1, List.dropWhile_append_of_pos hlater, hdrop]

theorem identifiers?_sound (h : identifiers? n s = some rest) : ∃ p, IsPath p ∧ s = p ++ rest := by
  induction n generalizing s with
  | zero => cases h
  | succ n ih =>
    rw [identifiers?] at h
    split at h
    · rename_i more hw
      obtain ⟨w, hword, rfl⟩ := identifier?_sound hw
      obtain ⟨p, hp, rfl⟩ := ih h
      exact ⟨_, .join hword hp, by simp⟩
    · obtain ⟨w, hword, rfl⟩ := identifier?_sound h
      exact ⟨w, .one hword, rfl⟩

theorem IsPath.length_pos (h : IsPath p) : 0 < p.length := by
  cases h with
  | one hw => exact List.length_pos_iff.2 (by rintro rfl; exact hw)
  | join =>
    rw [List.length_append, List.length_cons]
    omega

theorem identifiers?_complete (hp : IsPath p) (hrest : EndsPath rest) (enough : p.length ≤ n) :
    identifiers? n (p ++ rest) = some rest := by
  obtain ⟨n, rfl⟩ := Nat.exists_eq_add_one.2 (hp.length_pos.trans_le enough)
  induction hp generalizing n with
  | one hw =>
    rw [identifiers?, identifier?_complete hw fun c hc => (hrest c hc).1]
    split
    · rename_i more hmore
      obtain rfl := Option.some.inj hmore
      exact absurd rfl (hrest ':' rfl).2
    · rfl
  | @join w p hw hp ih =>
    have hcolon : ∀ c ∈ (':' :: ':' :: (p ++ rest)).head?, isWordChar c = false := by
      rintro c ⟨⟩
      decide
    have hlength : p.length ≤ n := by
      simp only [List.length_append, List.length_cons] at enough
      omega
    obtain ⟨n, rfl⟩ := Nat.exists_eq_add_one.2 (hp.length_pos.trans_le hlength)
    rw [identifiers?, List.append_assoc, List.cons_append, List.cons_append,
      identifier?_complete hw hcolon]
    exact ih n hlength

/-! ### Types -/

theorem Spells.skipBlanks_append (h : Spells .type t) (s : List Char) :
    skipBlanks (t ++ s) = t ++ s := by
  cases h with
  | plain hp => exact hp.skipBlanks_append s
  | applied hp => rw [List.append_assoc, hp.skipBlanks_append]

theorem Spells.blanks_append {b : List Char} (hb : AreBlanks b) (h : Spells .arguments a) :
    Spells .arguments (b ++ a) := by
  cases h with
  | last hb' ht hb'' =>
    rw [← List.append_assoc]
    exact .last (hb.append hb') ht hb''
  | more hb' ht hb'' ha =>
    rw [← List.append_assoc]
    exact .more (hb.append hb') ht hb'' ha

/-- What is taken off the front is a type, or arguments with the bracket after them. -/
theorem type?_arguments?_sound (n : Nat) :
    (∀ s rest, type? n s = some rest →
      ∃ t b, Spells .type t ∧ AreBlanks b ∧ s = t ++ (b ++ rest)) ∧
    (∀ s rest, arguments? n s = some rest → ∃ a, Spells .arguments a ∧ s = a ++ '>' :: rest) := by
  induction n with
  | zero => exact ⟨fun s rest h => (by cases h), fun s rest h => (by cases h)⟩
  | succ n ih =>
    obtain ⟨ihType, ihArguments⟩ := ih
    constructor
    · intro s rest h
      rw [type?] at h
      obtain ⟨after, hpath, htail⟩ := Option.bind_eq_some_iff.1 h
      obtain ⟨p, hp, rfl⟩ := identifiers?_sound hpath
      obtain ⟨b, hb, hafter⟩ := exists_blanks after
      split at htail
      · rename_i inside hopen
        obtain ⟨b', hb', hinside⟩ := exists_blanks inside
        obtain ⟨a, ha, hargs⟩ := ihArguments _ _ htail
        refine ⟨_, [], .applied hp hb (ha.blanks_append hb'), by simp [AreBlanks], ?_⟩
        rw [hafter, hopen, hinside, hargs]
        simp
      · obtain rfl := Option.some.inj htail
        exact ⟨p, b, .plain hp, hb, by rw [← hafter]⟩
    · intro s rest h
      rw [arguments?] at h
      obtain ⟨after, htype, htail⟩ := Option.bind_eq_some_iff.1 h
      obtain ⟨t, b, ht, hb, rfl⟩ := ihType _ _ htype
      obtain ⟨b', hb', hafter⟩ := exists_blanks after
      split at htail
      · rename_i more hcomma
        obtain ⟨b'', hb'', hmore⟩ := exists_blanks more
        obtain ⟨a, ha, hargs⟩ := ihArguments _ _ htail
        refine ⟨_, .more (b := []) (by simp [AreBlanks]) ht (hb.append hb')
          (ha.blanks_append hb''), ?_⟩
        rw [hafter, hcomma, hmore, hargs]
        simp
      · rename_i hclose
        obtain rfl := Option.some.inj htail
        refine ⟨_, .last (b := []) (by simp [AreBlanks]) ht (hb.append hb'), ?_⟩
        rw [hafter, hclose]
        simp
      · cases htail

/-- What the reader does with a text of the grammar that stands in front of another text. Every
level of the grammar costs it one step and at least one character, so the length bounds the steps.
-/
def IsTaken : Form → List Char → Prop
  | .type, t => ∀ n rest, t.length ≤ n → EndsType rest →
      ∃ rest', type? n (t ++ rest) = some rest' ∧ skipBlanks rest' = skipBlanks rest
  | .arguments, a => ∀ n rest, a.length < n →
      arguments? n (skipBlanks (a ++ '>' :: rest)) = some rest

/-- The reader takes every text of the grammar, by induction on the grammar. -/
theorem Spells.isTaken {f : Form} (h : Spells f s) : IsTaken f s := by
  induction h with
  | @plain p hp =>
    intro n rest enough hrest
    obtain ⟨n, rfl⟩ := Nat.exists_eq_add_one.2 (hp.length_pos.trans_le enough)
    have hpath : identifiers? (p ++ rest).length (p ++ rest) = some rest :=
      identifiers?_complete hp hrest.endsPath (by simp)
    refine ⟨skipBlanks rest, ?_, skipBlanks_skipBlanks rest⟩
    rw [type?, hpath, Option.bind_eq_bind, Option.bind_some]
    split
    · rename_i inside hopen
      rw [EndsType, hopen] at hrest
      exact absurd (hrest '<' rfl) (by decide)
    · rfl
  | @applied p b a hp hb ha ih =>
    intro n rest enough hrest
    simp only [List.length_append, List.length_cons, List.length_nil] at enough
    obtain ⟨n, rfl⟩ := Nat.exists_eq_add_one.2 (show 0 < n by omega)
    have hopen : skipBlanks (b ++ '<' :: (a ++ '>' :: rest)) = '<' :: (a ++ '>' :: rest) :=
      hb.skipBlanks_append_cons (by decide) _
    have hends : EndsPath (b ++ '<' :: (a ++ '>' :: rest)) := by
      refine endsPath_of_skipBlanks ?_
      rw [hopen]
      rintro c ⟨⟩
      decide
    have htext : (p ++ (b ++ '<' :: (a ++ ['>']))) ++ rest =
        p ++ (b ++ '<' :: (a ++ '>' :: rest)) := by simp
    rw [htext, type?, identifiers?_complete hp hends (by simp), Option.bind_eq_bind,
      Option.bind_some, hopen]
    exact ⟨rest, ih n rest (by omega), rfl⟩
  | @last b t b' hb ht hb' ih =>
    intro n rest enough
    simp only [List.length_append] at enough
    obtain ⟨n, rfl⟩ := Nat.exists_eq_add_one.2 (show 0 < n by omega)
    have hclose : skipBlanks (b' ++ '>' :: rest) = '>' :: rest :=
      hb'.skipBlanks_append_cons (by decide) _
    obtain ⟨rest', htype, hrest'⟩ :=
      ih n (b' ++ '>' :: rest) (by omega) (endsType_append_cons hb' (.inr rfl) rest)
    have htext : skipBlanks ((b ++ (t ++ b')) ++ '>' :: rest) = t ++ (b' ++ '>' :: rest) := by
      rw [List.append_assoc, List.append_assoc, hb.skipBlanks_append, ht.skipBlanks_append]
    rw [htext, arguments?, htype, Option.bind_eq_bind, Option.bind_some, hrest', hclose]
    rfl
  | @more b t b' a hb ht hb' ha ih ih' =>
    intro n rest enough
    simp only [List.length_append, List.length_cons] at enough
    obtain ⟨n, rfl⟩ := Nat.exists_eq_add_one.2 (show 0 < n by omega)
    have hcomma : skipBlanks (b' ++ ',' :: (a ++ '>' :: rest)) = ',' :: (a ++ '>' :: rest) :=
      hb'.skipBlanks_append_cons (by decide) _
    obtain ⟨rest', htype, hrest'⟩ := ih n (b' ++ ',' :: (a ++ '>' :: rest)) (by omega)
      (endsType_append_cons hb' (.inl rfl) _)
    have htext : skipBlanks ((b ++ (t ++ (b' ++ ',' :: a))) ++ '>' :: rest) =
        t ++ (b' ++ ',' :: (a ++ '>' :: rest)) := by
      rw [List.append_assoc, hb.skipBlanks_append, List.append_assoc, ht.skipBlanks_append]
      simp
    rw [htext, arguments?, htype, Option.bind_eq_bind, Option.bind_some, hrest', hcomma]
    exact ih' n rest (by omega)

/-- The reader takes exactly the texts of types. -/
theorem isTypeText_iff {s : String} : isTypeText s = true ↔ IsTypeText s := by
  rw [isTypeText]
  constructor
  · intro h
    split at h
    · rename_i rest htype
      obtain ⟨b, hb, hs⟩ := exists_blanks s.toList
      obtain ⟨t, b', ht, hb', htext⟩ := (type?_arguments?_sound _).1 _ _ htype
      refine ⟨b, t, b' ++ rest, hb, ht, hb'.append (List.all_eq_true.1 h), ?_⟩
      rw [hs, htext]
    · cases h
  · rintro ⟨b, t, b', hb, ht, hb', hs⟩
    have hblank : skipBlanks b' = [] := skipBlanks_eq_nil_iff.2 (List.all_eq_true.2 hb')
    have hends : EndsType b' := by
      rw [EndsType, hblank]
      rintro c ⟨⟩
    have enough : t.length ≤ 2 * s.length + 2 := by
      rw [← String.length_toList, hs]
      simp only [List.length_append]
      omega
    obtain ⟨rest, htype, hrest⟩ := ht.isTaken _ b' enough hends
    rw [hs, hb.skipBlanks_append, ht.skipBlanks_append, htype]
    show rest.all isBlank = true
    rw [← skipBlanks_eq_nil_iff, hrest, hblank]

example : isTypeText " Map< crate::Key , Vec <Item>>" = true := by decide +kernel

example : isTypeText "Vec<Item,>" = false := by decide +kernel

end ResourceApi.Name
