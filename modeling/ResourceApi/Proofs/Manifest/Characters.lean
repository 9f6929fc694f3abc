import ResourceApi.Proofs.Manifest.TypeText

/-!
The characters of the texts that a manifest may have: names are words, segments and paths have a few
signs more, and types are words with blanks, colons, commas and angle brackets.
-/

namespace ResourceApi.Name

theorem IsCapitalised.isWordChar {s : String} (h : IsCapitalised s) :
    ∀ c ∈ s.toList, isWordChar c = true :=
  fun c hc => isWordChar_iff.2 (.inl (h.forall c hc))

theorem isWordChar_of_snake {c : Char} (h : c.isLower = true ∨ c.isDigit = true ∨ c = '_') :
    isWordChar c = true := by
  refine isWordChar_iff.2 ?_
  rcases h with h | h | h
  · exact .inl (isAlphanum_iff.2 (.inr (.inl h)))
  · exact .inl (isAlphanum_iff.2 (.inr (.inr h)))
  · exact .inr h

theorem IsFree.isWordChar {s : String} (h : IsFree s) : ∀ c ∈ s.toList, isWordChar c = true :=
  fun c hc => isWordChar_of_snake (h.1.forall c hc)

theorem IsSegment.isSegmentChar {s : List Char} (h : IsSegment s) :
    ∀ c ∈ s, isSegmentChar c = true :=
  List.all_eq_true.1 (Bool.and_eq_true_iff.1 (isPlain_iff.2 h)).2

theorem IsSegmentPath.isSegmentChar {s : String} (h : IsSegmentPath s) :
    ∀ c ∈ s.toList, (isSegmentChar c || c = '/') = true := by
  obtain ⟨segments, -, hsegments, hs⟩ := h
  intro c hc
  rw [hs] at hc
  obtain ⟨g, hg, hc⟩ := List.mem_flatMap.1 hc
  rcases List.mem_cons.1 hc with rfl | hc
  · decide
  · simp [(hsegments g hg).isSegmentChar c hc]

def isTypeChar (c : Char) : Bool :=
  isWordChar c || Text.isBlank c || [':', '<', '>', ','].contains c

theorem IsIdentifier.isTypeChar {w : List Char} (h : IsIdentifier w) :
    ∀ c ∈ w, isTypeChar c = true := by
  intro c hc
  have hword : isWordChar c = true := by
    refine isWordChar_iff.2 (h.forall_later (fun d hd => hd.imp_left fun hd => ?_) c hc)
    simp [Char.isAlphanum, hd]
  simp [Name.isTypeChar, hword]

theorem AreBlanks.isTypeChar {b : List Char} (h : AreBlanks b) : ∀ c ∈ b, isTypeChar c = true := by
  intro c hc
  simp [Name.isTypeChar, h c hc]

theorem IsPath.isTypeChar {p : List Char} (h : IsPath p) : ∀ c ∈ p, isTypeChar c = true := by
  induction h with
  | one hw => exact hw.isTypeChar
  | join hw _ ih =>
    have hcolon : Name.isTypeChar ':' = true := by decide
    exact List.forall_mem_append.2 ⟨hw.isTypeChar,
      List.forall_mem_cons.2 ⟨hcolon, List.forall_mem_cons.2 ⟨hcolon, ih⟩⟩⟩

theorem Spells.isTypeChar {form : Form} {s : List Char} (h : Spells form s) :
    ∀ c ∈ s, isTypeChar c = true := by
  have hsigns : ∀ c, c = '<' ∨ c = '>' ∨ c = ',' → Name.isTypeChar c = true := by
    rintro c (rfl | rfl | rfl) <;> decide
  induction h with
  | plain hp => exact hp.isTypeChar
  | applied hp hb _ ih =>
    have hopen := hsigns '<' (.inl rfl)
    have hclose := hsigns '>' (.inr (.inl rfl))
    have hp := hp.isTypeChar
    have hb := hb.isTypeChar
    simp only [List.forall_mem_append, List.forall_mem_cons]
    exact ⟨hp, hb, hopen, ih, hclose, by simp⟩
  | last hb _ hb' ih =>
    simp only [List.forall_mem_append]
    exact ⟨hb.isTypeChar, ih, hb'.isTypeChar⟩
  | more hb _ hb' _ ih ih' =>
    simp only [List.forall_mem_append, List.forall_mem_cons]
    exact ⟨hb.isTypeChar, ih, hb'.isTypeChar, hsigns ',' (.inr (.inr rfl)), ih'⟩

theorem IsTypeText.isTypeChar {s : String} (h : IsTypeText s) :
    ∀ c ∈ s.toList, isTypeChar c = true := by
  obtain ⟨b, t, b', hb, ht, hb', hs⟩ := h
  rw [hs]
  simp only [List.forall_mem_append]
  exact ⟨hb.isTypeChar, ht.isTypeChar, hb'.isTypeChar⟩

end ResourceApi.Name
