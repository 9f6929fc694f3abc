import ResourceApi.Client.Compose
import ResourceApi.Proofs.Filter.Reader

/-!
When a filter is one group already. The scan over characters follows the parentheses of the tokens:
it never takes one inside a literal for one outside, and it comes back to depth zero in front of the
end wherever a filter that starts with a group goes on behind it.
-/

namespace ResourceApi.Compose

open ResourceApi.Filter Text

/-- The scan, over tokens. -/
def closesLast : Nat → List Token → Bool
  | _, [] => false
  | d, .opening :: ts => closesLast (d + 1) ts
  | d, .closing :: ts => if d - 1 = 0 then ts.isEmpty else closesLast (d - 1) ts
  | d, _ :: ts => closesLast d ts

/-- Tokens that are no parentheses. -/
def IsFlat (ts : List Token) : Prop := ∀ t ∈ ts, t ≠ .opening ∧ t ≠ .closing

theorem closesLast_cons_flat {t : Token} (ht : t ≠ .opening ∧ t ≠ .closing) (d : Nat)
    (ts : List Token) : closesLast d (t :: ts) = closesLast d ts := by
  cases t with
  | opening => exact absurd rfl ht.1
  | closing => exact absurd rfl ht.2
  | word | quoted => rfl

/-- The scan passes over tokens that are no parentheses. -/
theorem closesLast_append_flat {ts : List Token} (h : IsFlat ts) (d : Nat) (us : List Token) :
    closesLast d (ts ++ us) = closesLast d us := by
  induction ts with
  | nil => rfl
  | cons t ts ih =>
    rw [List.cons_append, closesLast_cons_flat (h t (by simp))]
    exact ih fun t' ht' => h t' (by simp [ht'])

/-! ### Characters and tokens -/

theorem isFlat_pending (cut : Cut) : IsFlat cut.pending := by
  cases cut <;> simp [Cut.pending, IsFlat]

theorem step_open {cut : Cut} (h : cut.isOpen = true) (c : Char) :
    (cut.step c).1 = [] ∧ (cut.step c).2.isOpen = (c != '\'') := by
  cases cut with
  | quoted s => by_cases hc : c = '\'' <;> simp [Cut.step, hc, Cut.isOpen]
  | _ => simp [Cut.isOpen] at h

theorem start_flat {c : Char} (ho : c ≠ '(') (hc : c ≠ ')') :
    (Cut.start c).1 = [] ∧ (Cut.start c).2.isOpen = (c == '\'') := by
  simp only [Cut.start, ho, hc, if_false]
  by_cases hb : isBlank c = true
  · simp [hb, Cut.isOpen, ne_quote_of_isBlank hb]
  · rw [if_neg hb]
    by_cases hq : c = '\'' <;> simp [hq, Cut.isOpen]

/-- Outside a literal, a character that is no parenthesis adds no parenthesis. -/
theorem step_flat {cut : Cut} {c : Char} (h : cut.isOpen = false) (ho : c ≠ '(') (hc : c ≠ ')') :
    IsFlat (cut.step c).1 ∧ (cut.step c).2.isOpen = (c == '\'') := by
  obtain ⟨hts, hopen⟩ := start_flat ho hc
  cases cut with
  | between => exact ⟨by simp [Cut.step, hts, IsFlat], hopen⟩
  | word w =>
    by_cases hw : isWordChar c = true
    · have hq : c ≠ '\'' := by rintro rfl; exact absurd hw (by decide)
      simp [Cut.step, hw, hq, IsFlat, Cut.isOpen]
    · simp [Cut.step, hw, hts, IsFlat, hopen]
  | quoted s => simp [Cut.isOpen] at h
  | quote s => by_cases hq : c = '\'' <;> simp_all [Cut.step, IsFlat, Cut.isOpen]

/-- Outside a literal only quotes and parentheses change the state of the scan. -/
theorem closesAtEnd_other {c : Char} (ho : c ≠ '(') (hc : c ≠ ')') (d : Nat) (rest : List Char) :
    closesAtEnd d false (c :: rest) = closesAtEnd d (c == '\'') rest := by
  by_cases hq : c = '\''
  · simp [closesAtEnd, hq]
  · simp [closesAtEnd, ho, hc, hq, beq_false_of_ne hq]

/-- Inside a literal only a quote changes the state of the scan. -/
theorem closesAtEnd_open (d : Nat) (c : Char) (rest : List Char) :
    closesAtEnd d true (c :: rest) = closesAtEnd d (c != '\'') rest := by
  by_cases hq : c = '\''
  · simp [closesAtEnd, hq]
  · simp [closesAtEnd, hq, bne_iff_ne.2 hq]

/-- Where the scan finds the last parenthesis at the end of a text, it is the last token. -/
theorem closesLast_of_closesAtEnd {cut : Cut} {d : Nat} {s : List Char}
    (h : closesAtEnd d cut.isOpen s = true) :
    closesLast d ((cut.run s).1 ++ (cut.run s).2.pending) = true := by
  induction s generalizing cut d with
  | nil => simp [closesAtEnd] at h
  | cons c rest ih =>
    rw [Cut.run_cons, List.append_assoc]
    cases hcut : cut.isOpen with
    | true =>
      obtain ⟨hts, hopen⟩ := step_open hcut c
      rw [hcut, closesAtEnd_open, ← hopen] at h
      rw [hts]
      exact ih h
    | false =>
      rw [hcut] at h
      by_cases ho : c = '('
      · subst ho
        have hstep : cut.step '(' = (cut.pending ++ [.opening], .between) :=
          Cut.step_of_start hcut (by decide) (by decide)
        have hrest : closesAtEnd (d + 1) Cut.between.isOpen rest = true := by
          simpa [closesAtEnd, Cut.isOpen] using h
        rw [hstep, List.append_assoc, closesLast_append_flat (isFlat_pending cut)]
        exact ih hrest
      by_cases hc : c = ')'
      · subst hc
        have hstep : cut.step ')' = (cut.pending ++ [.closing], .between) :=
          Cut.step_of_start hcut (by decide) (by decide)
        rw [hstep, List.append_assoc, closesLast_append_flat (isFlat_pending cut)]
        by_cases hd : d - 1 = 0
        · obtain rfl : rest = [] := by simpa [closesAtEnd, hd] using h
          simp [closesLast, hd, Cut.pending]
        · have hrest : closesAtEnd (d - 1) Cut.between.isOpen rest = true := by
            simpa [closesAtEnd, hd, Cut.isOpen] using h
          simpa [closesLast, hd] using ih hrest
      · obtain ⟨hflat, hopen⟩ := step_flat hcut ho hc
        rw [closesAtEnd_other ho hc, ← hopen] at h
        rw [closesLast_append_flat hflat]
        exact ih h

/-! ### Tokens and expressions -/

/-- The three tokens of a comparison are no parentheses. -/
theorem isFlat_comparison {column : List Char} {o l : Token} {op : Operator} {x : Filter.Literal}
    (ho : o.operator? = some op) (hl : l.literal? = some x) : IsFlat [.word column, o, l] := by
  intro t ht
  simp only [List.mem_cons, List.not_mem_nil, or_false] at ht
  rcases ht with rfl | rfl | rfl
  · simp
  · constructor <;> rintro rfl <;> simp [Token.operator?] at ho
  · constructor <;> rintro rfl <;> simp [Token.literal?] at hl

/-- An expression has as many closing parentheses as opening ones, each behind its own. -/
theorem closesLast_derives {l : Level} {ts : List Token} {e : Expression} (h : Derives l ts e) :
    ∀ d rest, closesLast (d + 1) (ts ++ rest) = closesLast (d + 1) rest := by
  have hand : Token.and ≠ .opening ∧ Token.and ≠ .closing := by decide
  have hor : Token.or ≠ .opening ∧ Token.or ≠ .closing := by decide
  induction h with
  | comparison ho hl =>
    intro d rest
    exact closesLast_append_flat (isFlat_comparison ho hl) (d + 1) rest
  | @group ts e _ ih =>
    intro d rest
    have hts : (.opening :: ts ++ [.closing]) ++ rest = .opening :: (ts ++ .closing :: rest) := by
      simp
    rw [hts, closesLast, ih (d + 1), closesLast]
    simp
  | single _ ih | lone _ ih => exact ih
  | and _ _ ih ih' =>
    intro d rest
    rw [List.append_assoc, ih, List.cons_append, closesLast_cons_flat hand, ih']
  | or _ _ ih ih' =>
    intro d rest
    rw [List.append_assoc, ih, List.cons_append, closesLast_cons_flat hor, ih']

theorem head?_of_append {ts us : List Token} {t : Token} (hne : ts ≠ [])
    (h : (ts ++ us).head? = some t) : ts.head? = some t := by
  rw [← h, List.head?_append, Option.or_of_isSome]
  exact List.isSome_head?.2 hne

/-- If the first group of an expression ends with the text, it is the whole expression. -/
theorem primary_of_closesLast {l : Level} {ts : List Token} {e : Expression}
    (h : Derives l ts e) (hhead : ts.head? = some .opening) :
    ∀ rest, closesLast 0 (ts ++ rest) = true → rest = [] ∧ Derives .primary ts e := by
  induction h with
  | comparison ho hl => simp at hhead
  | @group ts e h ih =>
    intro rest hclose
    have hts : (.opening :: ts ++ [.closing]) ++ rest = .opening :: (ts ++ .closing :: rest) := by
      simp
    rw [hts, closesLast, closesLast_derives h, closesLast] at hclose
    exact ⟨by simpa using hclose, .group h⟩
  | single _ ih | lone _ ih => exact ih hhead
  | @and ts us e f h _ ih _ | @or ts us e f h _ ih _ =>
    intro rest hclose
    rw [List.append_assoc] at hclose
    have hnil := (ih (head?_of_append h.ne_nil hhead) _ hclose).1
    exact absurd hnil (by simp)

/-- A filter that is found to be one group may be joined as it is. -/
theorem spells_of_isEnclosed {s : List Char} {e : Expression} (h : Spells .disjunction s e)
    (hs : isEnclosed s = true) : Spells .primary s e := by
  obtain ⟨ts, hts, hd⟩ := h
  obtain ⟨-, htokens⟩ := closed_of_tokens? hts
  match s with
  | [] => simp [isEnclosed] at hs
  | c :: rest =>
    by_cases hc : c = '('
    · subst hc
      have hscan : closesAtEnd 0 Cut.between.isOpen ('(' :: rest) = true := by
        simpa [isEnclosed, closesAtEnd, Cut.isOpen] using hs
      have hclose := closesLast_of_closesAtEnd hscan
      rw [← htokens] at hclose
      have hhead : ts.head? = some .opening := by
        rw [htokens, Cut.run_cons]
        rfl
      exact ⟨ts, hts, (primary_of_closesLast hd hhead [] (by simpa using hclose)).2⟩
    · simp [isEnclosed, hc] at hs

end ResourceApi.Compose
