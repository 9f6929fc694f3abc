import ResourceApi.Proofs.Filter.Lexer

/-!
Reading a filter. The reader walks over the tokens once and keeps, for every parenthesis that is
open, what has been read since. It is exact for the grammar: it finds an expression precisely where
the grammar derives one, so that no text has two readings.
-/

namespace ResourceApi.Filter

open Text

/-- What has been read between two parentheses, the latest parts first: the finished alternatives,
and the finished parts of the conjunction under way. -/
structure Frame where
  alternatives : List Expression
  conjuncts : List Expression

namespace Frame

def empty : Frame := ⟨[], []⟩

def conjunction (f : Frame) (e : Expression) : Expression :=
  f.conjuncts.foldl (fun e c => .and c e) e

/-- The whole content with its last part. -/
def close (f : Frame) (e : Expression) : Expression :=
  f.alternatives.foldl (fun e a => .or a e) (f.conjunction e)

def and (f : Frame) (e : Expression) : Frame := ⟨f.alternatives, e :: f.conjuncts⟩

def or (f : Frame) (e : Expression) : Frame := ⟨f.conjunction e :: f.alternatives, []⟩

end Frame

mutual

/-- Reads on where a comparison or a group has to start. -/
def operand (stack : List Frame) (f : Frame) : List Token → Option Expression
  | .opening :: ts => operand (f :: stack) .empty ts
  | .word column :: o :: l :: ts => match o.operator?, l.literal? with
    | some op, some x => operator stack f (.compare ⟨column, op, x⟩) ts
    | _, _ => none
  | _ => none

/-- Reads on after a comparison or a group. -/
def operator (stack : List Frame) (f : Frame) (e : Expression) : List Token → Option Expression
  | [] => if stack.isEmpty then some (f.close e) else none
  | t :: ts =>
    if t = .and then operand stack (f.and e) ts
    else if t = .or then operand stack (f.or e) ts
    else if t = .closing then match stack with
      | g :: outer => operator outer g (f.close e) ts
      | [] => none
    else none

end

def read? (s : List Char) : Option Expression := (tokens? s).bind (operand [] .empty)

/-! ### What is derived is read -/

theorem operator_and (stack : List Frame) (f : Frame) (e : Expression) (ts : List Token) :
    operator stack f e (.and :: ts) = operand stack (f.and e) ts := by
  simp [operator]

theorem operator_or (stack : List Frame) (f : Frame) (e : Expression) (ts : List Token) :
    operator stack f e (.or :: ts) = operand stack (f.or e) ts := by
  have h : Token.or ≠ .and := by decide
  simp [operator, h]

theorem operator_closing (g f : Frame) (outer : List Frame) (e : Expression) (ts : List Token) :
    operator (g :: outer) f e (.closing :: ts) = operator outer g (f.close e) ts := by
  have h : Token.closing ≠ .and := by decide
  have h' : Token.closing ≠ .or := by decide
  simp [operator, h, h']

/-- After the tokens of an expression the reader stands behind its last part, and the frame has
grown by the others. -/
def Grown (stack : List Frame) (rest ts : List Token) (e : Expression) : Level → Prop
  | .primary => ∀ f, operand stack f (ts ++ rest) = operator stack f e rest
  | .conjunction => ∀ f, ∃ g p, operand stack f (ts ++ rest) = operator stack g p rest ∧
      g.alternatives = f.alternatives ∧ g.conjunction p = f.conjunction e
  | .disjunction => ∀ f, f.conjuncts = [] → ∃ g p,
      operand stack f (ts ++ rest) = operator stack g p rest ∧ g.close p = f.close e

theorem grown_of_derives {l : Level} {ts : List Token} {e : Expression} (h : Derives l ts e) :
    ∀ stack rest, Grown stack rest ts e l := by
  induction h with
  | comparison ho hl =>
    intro stack rest f
    simp [operand, ho, hl]
  | @group ts e _ ih =>
    intro stack rest f
    obtain ⟨g, p, hread, hclose⟩ := ih (f :: stack) (.closing :: rest) .empty rfl
    have he : (Frame.empty).close e = e := rfl
    have hts : (.opening :: ts ++ [.closing]) ++ rest = .opening :: (ts ++ .closing :: rest) := by
      simp
    rw [hts, operand, hread, operator_closing, hclose, he]
  | single _ ih =>
    intro stack rest f
    exact ⟨f, _, ih stack rest f, rfl, rfl⟩
  | @and ts us e e' _ _ ih ih' =>
    intro stack rest f
    obtain ⟨g, p, hread, halt, hconj⟩ := ih' stack rest (f.and e)
    refine ⟨g, p, ?_, halt, hconj⟩
    have hts : (ts ++ .and :: us) ++ rest = ts ++ .and :: (us ++ rest) := by simp
    rw [hts, ih stack (.and :: (us ++ rest)) f, operator_and, hread]
  | lone _ ih =>
    intro stack rest f hf
    obtain ⟨g, p, hread, halt, hconj⟩ := ih stack rest f
    exact ⟨g, p, hread, by rw [Frame.close, Frame.close, halt, hconj]⟩
  | @or ts us e e' _ _ ih ih' =>
    intro stack rest f hf
    obtain ⟨g, p, hread, halt, hconj⟩ := ih stack (.or :: (us ++ rest)) f
    obtain ⟨g', p', hread', hclose⟩ := ih' stack rest (g.or p) rfl
    have hts : (ts ++ .or :: us) ++ rest = ts ++ .or :: (us ++ rest) := by simp
    refine ⟨g', p', by rw [hts, hread, operator_or, hread'], ?_⟩
    rw [hclose]
    simp [Frame.close, Frame.or, Frame.conjunction, hf] at hconj ⊢
    rw [hconj, halt]

theorem operand_of_derives {ts : List Token} {e : Expression} (h : Derives .disjunction ts e) :
    operand [] .empty ts = some e := by
  obtain ⟨g, p, hread, hclose⟩ := grown_of_derives h [] [] .empty rfl
  have he : (Frame.empty).close e = e := rfl
  rw [List.append_nil] at hread
  rw [hread, operator, hclose, he]
  rfl

/-! ### What is read is derived -/

/-- The tokens of finished parts, each with the word after it. -/
inductive Chain (l : Level) (t : Token) : List Expression → List Token → Prop where
  | nil : Chain l t [] []
  | snoc {es : List Expression} {ts us : List Token} {e : Expression} (h : Chain l t es ts)
      (he : Derives l us e) : Chain l t (e :: es) (ts ++ (us ++ [t]))

/-- Finished parts go in front of what comes last, each by the rule that joins two. -/
theorem Chain.derives {l m : Level} {t : Token} {join : Expression → Expression → Expression}
    (rule : ∀ {ts us : List Token} {c e : Expression}, Derives l ts c → Derives m us e →
      Derives m (ts ++ t :: us) (join c e))
    {es : List Expression} {ts us : List Token} {e : Expression} (h : Chain l t es ts)
    (he : Derives m us e) : Derives m (ts ++ us) (es.foldl (fun e c => join c e) e) := by
  induction h generalizing us e with
  | nil => exact he
  | snoc _ hc ih => simpa using ih (rule hc he)

/-- The tokens that a frame stands for. -/
def Frame.Spells (f : Frame) (ts : List Token) : Prop :=
  ∃ us vs, ts = us ++ vs ∧ Chain .conjunction .or f.alternatives us ∧
    Chain .primary .and f.conjuncts vs

theorem Frame.spells_empty : Frame.empty.Spells [] := ⟨[], [], rfl, .nil, .nil⟩

theorem Frame.Spells.and {f : Frame} {ts us : List Token} {e : Expression} (h : f.Spells ts)
    (he : Derives .primary us e) : (f.and e).Spells (ts ++ (us ++ [.and])) := by
  obtain ⟨as, cs, rfl, ha, hc⟩ := h
  exact ⟨as, cs ++ (us ++ [Token.and]), by simp, ha, hc.snoc he⟩

theorem Frame.Spells.or {f : Frame} {ts us : List Token} {e : Expression} (h : f.Spells ts)
    (he : Derives .primary us e) : (f.or e).Spells (ts ++ (us ++ [.or])) := by
  obtain ⟨as, cs, rfl, ha, hc⟩ := h
  have hconj : Derives .conjunction (cs ++ us) (f.conjunction e) := hc.derives .and (.single he)
  exact ⟨as ++ ((cs ++ us) ++ [Token.or]), [], by simp, ha.snoc hconj, .nil⟩

theorem Frame.Spells.close {f : Frame} {ts us : List Token} {e : Expression} (h : f.Spells ts)
    (he : Derives .primary us e) : Derives .disjunction (ts ++ us) (f.close e) := by
  obtain ⟨as, cs, rfl, ha, hc⟩ := h
  rw [List.append_assoc]
  exact ha.derives .or (.lone (hc.derives .and (.single he)))

/-- The tokens in front of the reader, by the frames that it keeps. -/
inductive Opened : List Frame → Frame → List Token → Prop where
  | outer {f : Frame} {ts : List Token} (h : f.Spells ts) : Opened [] f ts
  | inner {stack : List Frame} {g f : Frame} {us ts : List Token} (h : Opened stack g us)
      (hf : f.Spells ts) : Opened (g :: stack) f (us ++ .opening :: ts)

/-- The innermost frame may be exchanged for one that spells more. -/
theorem Opened.extend {stack : List Frame} {f g : Frame} {ts us : List Token}
    (h : Opened stack f ts) (hg : ∀ xs, f.Spells xs → g.Spells (xs ++ us)) :
    Opened stack g (ts ++ us) := by
  cases h with
  | outer h => exact .outer (hg _ h)
  | inner h hf => simpa using Opened.inner h (hg _ hf)

mutual

theorem derives_of_operand {stack : List Frame} {f : Frame} {pre ts : List Token} {e : Expression}
    (h : Opened stack f pre) (hread : operand stack f ts = some e) :
    Derives .disjunction (pre ++ ts) e := by
  match ts with
  | [] => simp [operand] at hread
  | .opening :: ts =>
    rw [operand] at hread
    have hopen : Opened (f :: stack) .empty (pre ++ [.opening]) := .inner h Frame.spells_empty
    simpa using derives_of_operand hopen hread
  | .closing :: ts => simp [operand] at hread
  | .quoted s :: ts => simp [operand] at hread
  | [.word column] => simp [operand] at hread
  | [.word column, o] => simp [operand] at hread
  | .word column :: o :: l :: ts =>
    rw [operand] at hread
    split at hread
    · rename_i op x ho hl
      simpa using derives_of_operator h (.comparison ho hl) hread
    · simp at hread
termination_by ts.length

theorem derives_of_operator {stack : List Frame} {f : Frame} {pre us ts : List Token}
    {p e : Expression} (h : Opened stack f pre) (hp : Derives .primary us p)
    (hread : operator stack f p ts = some e) : Derives .disjunction (pre ++ us ++ ts) e := by
  match ts with
  | [] =>
    cases h with
    | outer hf =>
      obtain rfl : f.close p = e := by simpa [operator] using hread
      simpa using hf.close hp
    | inner h hf => simp [operator] at hread
  | t :: ts =>
    by_cases hand : t = .and
    · subst hand
      rw [operator_and] at hread
      have hopen := h.extend fun xs hx => hx.and hp
      simpa using derives_of_operand hopen hread
    by_cases hor : t = .or
    · subst hor
      rw [operator_or] at hread
      have hopen := h.extend fun xs hx => hx.or hp
      simpa using derives_of_operand hopen hread
    by_cases hclose : t = .closing
    · subst hclose
      cases h with
      | outer hf => simp [operator, hand, hor] at hread
      | inner h hf =>
        rw [operator_closing] at hread
        simpa using derives_of_operator h (.group (hf.close hp)) hread
    · simp [operator, hand, hor, hclose] at hread
termination_by ts.length

end

/-- A text spells an expression at a level. -/
def Spells (l : Level) (s : List Char) (e : Expression) : Prop :=
  ∃ ts, tokens? s = some ts ∧ Derives l ts e

/-- The reader and the grammar agree: what is read is derived, and what is derived is read. -/
theorem read?_eq_some_iff {s : List Char} {e : Expression} :
    read? s = some e ↔ Spells .disjunction s e := by
  rw [read?, Option.bind_eq_some_iff, Spells]
  constructor
  · rintro ⟨ts, hts, hread⟩
    exact ⟨ts, hts, derives_of_operand (.outer Frame.spells_empty) hread⟩
  · rintro ⟨ts, hts, h⟩
    exact ⟨ts, hts, operand_of_derives h⟩

/-! ### The grammar on texts -/

theorem Spells.single {s : List Char} {e : Expression} (h : Spells .primary s e) :
    Spells .conjunction s e :=
  let ⟨ts, hts, hd⟩ := h
  ⟨ts, hts, .single hd⟩

theorem Spells.lone {s : List Char} {e : Expression} (h : Spells .conjunction s e) :
    Spells .disjunction s e :=
  let ⟨ts, hts, hd⟩ := h
  ⟨ts, hts, .lone hd⟩

theorem Spells.group {s : List Char} {e : Expression} (h : Spells .disjunction s e) :
    Spells .primary ('(' :: s ++ [')']) e := by
  obtain ⟨ts, hts, hd⟩ := h
  exact ⟨_, tokens?_enclosed hts, .group hd⟩

/-- A word in blanks between two texts is a token between theirs. -/
theorem tokens?_append_word {s t w : List Char} {ts us : List Token} (hs : tokens? s = some ts)
    (ht : tokens? t = some us) (hw : IsWord w) :
    tokens? (s ++ (' ' :: w ++ [' ']) ++ t) = some (ts ++ .word w :: us) := by
  have hblank : isBlank ' ' = true := by decide
  have hword : tokens? (w ++ ' ' :: t) = some (.word w :: us) := by
    rw [tokens?_append_blank (tokens?_word hw) hblank, ht]
    rfl
  have hassoc : s ++ (' ' :: w ++ [' ']) ++ t = s ++ ' ' :: (w ++ ' ' :: t) := by simp
  rw [hassoc, tokens?_append_blank hs hblank, hword]
  rfl

theorem Spells.and {s t : List Char} {e f : Expression} (h : Spells .primary s e)
    (h' : Spells .conjunction t f) : Spells .conjunction (s ++ andWord ++ t) (.and e f) := by
  obtain ⟨ts, hts, hd⟩ := h
  obtain ⟨us, hus, hd'⟩ := h'
  have hword : IsWord ['a', 'n', 'd'] := by decide
  exact ⟨_, tokens?_append_word hts hus hword, hd.and hd'⟩

theorem Spells.or {s t : List Char} {e f : Expression} (h : Spells .conjunction s e)
    (h' : Spells .disjunction t f) : Spells .disjunction (s ++ orWord ++ t) (.or e f) := by
  obtain ⟨ts, hts, hd⟩ := h
  obtain ⟨us, hus, hd'⟩ := h'
  have hword : IsWord ['o', 'r'] := by decide
  exact ⟨_, tokens?_append_word hts hus hword, hd.or hd'⟩

theorem Spells.ne_nil {l : Level} {s : List Char} {e : Expression} (h : Spells l s e) :
    s ≠ [] := by
  rintro rfl
  obtain ⟨ts, hts, hd⟩ := h
  obtain rfl : [] = ts := Option.some.inj hts
  exact hd.ne_nil rfl

end ResourceApi.Filter
