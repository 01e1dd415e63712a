import Reckoner.Proofs.Expression.Outcome

/-!
# Every outcome is explained

Under any meaning, a reader that has enough levels never runs out of them: it gives the value of a phrase that
it has read, or halts for a fault or a failure that the text accounts for. The readers are taken one by one,
each under the assumption that the reader of sums inside parentheses is sound.
-/

namespace Reckoner.Expression

set_option autoImplicit false

variable {α : Type} {m : Meaning α} {levels : Nat} {inner : Reader α}

/-- With the given number of levels all outcomes of the reader are explained. -/
def Sound (m : Meaning α) (levels : Nat) (l : Level) (read : Reader α) : Prop :=
  ∀ c : Cursor, c.depth ≤ nestingLimit → nestingLimit < levels + c.depth → Explained m l c (read c)

/-! ## Spans -/

theorem Spans.position_eq {l : Level} {p : Phrase Empty l} {c c' : Cursor} (h : Spans p c c') :
    c'.position = c.position + p.text.length := by
  rw [h.cursor_eq]
  rfl

theorem Spans.depth_eq {l : Level} {p : Phrase Empty l} {c c' : Cursor} (h : Spans p c c') : c'.depth = c.depth := by
  rw [h.cursor_eq]
  rfl

theorem spans_of_rest {l : Level} (p : Phrase Empty l) {c : Cursor} {rest : List Char} (h : c.rest = p.text ++ rest)
    (fits : c.depth + p.nesting ≤ nestingLimit) : Spans p c (c.skip p.text.length) :=
  ⟨by rw [Cursor.rest_skip h, h], rfl, fits⟩

/-- The cursor one step behind a phrase, seen from the start of the phrase. -/
theorem Spans.step {l : Level} {p : Phrase Empty l} {c c' : Cursor} (h : Spans p c c') {d : Char} {rest : List Char}
    (hrest : c'.rest = d :: rest) (hopen : d ≠ '(') (hclose : d ≠ ')') :
    c.rest = (p.text ++ [d]) ++ (c'.skip 1).rest ∧
      (c'.skip 1).position = c.position + (p.text ++ [d]).length ∧
        (c'.skip 1).depth = depthAfter c.depth (p.text ++ [d]) := by
  refine ⟨?_, ?_, ?_⟩
  · rw [h.rest_eq, Cursor.rest_skip_one hrest, hrest]
    simp
  · simp only [Cursor.skip, h.position_eq, List.length_append, List.length_cons, List.length_nil]
    omega
  · rw [depthAfter_append, p.depthAfter_text]
    simp [depthAfter, hopen, hclose, Cursor.skip, h.depth_eq]

theorem Spans.behind_sign {l l' : Level} {p : Phrase Empty l} {c c' : Cursor} (h : Spans p (c.skip 1) c') {d : Char}
    (hrest : c.rest = [d] ++ (c.skip 1).rest) {whole : Phrase Empty l'} (htext : whole.text = d :: p.text)
    (hnesting : whole.nesting = p.nesting) : Spans whole c c' := by
  refine ⟨?_, ?_, ?_⟩
  · rw [hrest, h.rest_eq, htext]
    rfl
  · rw [h.cursor_eq, Cursor.skip_skip, htext, List.length_cons, Nat.add_comm]
  · rw [hnesting]
    exact h.fits

theorem Spans.join {l l' l'' : Level} {p : Phrase Empty l} {q : Phrase Empty l'} {c c' c'' : Cursor} (h : Spans p c c')
    {d : Char} {rest : List Char} (hrest : c'.rest = d :: rest) (h' : Spans q (c'.skip 1) c'')
    {whole : Phrase Empty l''} (htext : whole.text = p.text ++ d :: q.text)
    (hnesting : whole.nesting = max p.nesting q.nesting) : Spans whole c c'' := by
  refine ⟨?_, ?_, ?_⟩
  · rw [h.rest_eq, hrest, ← Cursor.rest_skip_one hrest, h'.rest_eq, htext]
    simp
  · rw [h'.cursor_eq, h.cursor_eq, Cursor.skip_skip, Cursor.skip_skip, htext]
    simp [Nat.add_comm]
  · have hp := h.fits
    have hq : c'.depth + q.nesting ≤ nestingLimit := h'.fits
    have hdepth := h.depth_eq
    omega

/-! ## Numbers and constants -/

theorem derivable_numeral (n : Numeral) : Derivable .atom n.text :=
  ⟨.number n, rfl⟩

theorem readNumber_explained (c : Cursor) (hdepth : c.depth ≤ nestingLimit) :
    Explained m .atom c (readNumber m c) := by
  have hall : ∀ d ∈ c.rest.takeWhile isNumeral, isNumeral d = true :=
    fun d hd => List.mem_takeWhile_imp hd
  have hsplit : c.rest = c.rest.takeWhile isNumeral ++ c.rest.dropWhile isNumeral :=
    List.takeWhile_append_dropWhile.symm
  have hviable : ∀ n : Numeral, Completable .atom [] n.text := fun n => (derivable_numeral n).completable
  unfold readNumber
  simp only
  split
  · exact .grammatical .missingNumber [] c.rest c rfl hviable
  · split
    · next x hx =>
      obtain ⟨n, htext, hvalue⟩ := (mantissa?_eq_some_iff hall x).mp hx
      have hrest : c.rest = (Phrase.number (V := Empty) n).text ++ c.rest.dropWhile isNumeral := by
        rw [Phrase.text, htext]
        exact hsplit
      refine ⟨.number n, ?_, by rw [← hvalue]; rfl⟩
      rw [← htext]
      exact spans_of_rest (.number n) hrest hdepth
    · exact .grammatical (.invalidNumber _) [] c.rest _ rfl ⟨rfl, hviable⟩

theorem readOperand_explained (c : Cursor) (hdepth : c.depth ≤ nestingLimit) :
    Explained m .atom c (readOperand m c) := by
  unfold readOperand
  split
  · next rest hrest => exact ⟨.constant .pi, spans_of_rest (.constant .pi) hrest hdepth, rfl⟩
  · next next rest hrest =>
    split
    · exact readNumber_explained c hdepth
    · exact ⟨.constant .e, spans_of_rest (.constant .e) hrest hdepth, rfl⟩
  · next hrest =>
    have hrest' : c.rest = Constant.e.word ++ [] := hrest
    exact ⟨.constant .e, spans_of_rest (.constant .e) hrest' hdepth, rfl⟩
  · exact readNumber_explained c hdepth

/-! ## Parentheses -/

/-- The word in front of a sum in parentheses: none, or the name of a function. -/
structure Header where
  text : List Char
  plain : ∀ c ∈ text, c ≠ '(' ∧ c ≠ ')'
  encloses : ∀ p : Sentence, Derivable .atom (text ++ '(' :: p.text ++ [')'])

/-- The empty word, which makes a group. -/
def Header.group : Header where
  text := []
  plain := by simp
  encloses p := ⟨.group p, rfl⟩

/-- A spelling of a function's name, which makes a call. -/
def Header.call {f : Function} (name : Spelling f) : Header where
  text := name.text
  plain := name.ne_paren
  encloses p := ⟨.call f name p, rfl⟩

theorem Header.leads (h : Header) : Leads (h.text ++ ['(']) (.chain .sum) .atom := by
  refine ⟨1, ?_⟩
  rintro text ⟨p, rfl⟩
  simpa using h.encloses p

theorem Header.depthAfter_open (h : Header) (depth : Nat) : depthAfter depth (h.text ++ ['(']) = depth + 1 := by
  rw [depthAfter_append, depthAfter_plain h.plain]
  rfl

def Numeral.one : Numeral :=
  ⟨['1'], by simp [isNumeral, Literal.isDigit], ⟨'1', by decide⟩, by decide⟩

/-- The sentence that consists of a numeral. -/
def Numeral.sentence (n : Numeral) : Sentence :=
  .single (.single (.base (.bare (.number n))))

theorem Header.completable_one (h : Header) : Completable .atom h.text ['(', '1', ')'] := by
  obtain ⟨p, hp⟩ := h.encloses Numeral.one.sentence
  exact ⟨0, p, by rw [hp]; simp [Numeral.sentence, Numeral.one, Phrase.text]⟩

/-- Where the closing parenthesis is missing behind a sum, closing it completes the atom. -/
theorem Header.unclosed (h : Header) (p : Sentence) {fault : Fault}
    (hfault : fault = .unclosedGroup ∨ ∃ f, fault = .unclosedCall f) {c c' : Cursor}
    (hrest : c.rest = (h.text ++ '(' :: p.text) ++ c'.rest)
    (hposition : c'.position = c.position + (h.text ++ '(' :: p.text).length) :
    Halt.Accounted m .atom c ⟨.failed (.malformed fault c'.position), c'⟩ := by
  have hviable : Completable .atom (h.text ++ '(' :: p.text) [] := by
    obtain ⟨q, hq⟩ := h.encloses p
    exact ⟨1, q, by rw [hq]; simp⟩
  rw [hposition]
  refine .grammatical fault (h.text ++ '(' :: p.text) c'.rest c' hrest ?_
  rcases hfault with rfl | ⟨f, rfl⟩ <;> exact hviable

/--
Behind a header, a sum in parentheses is read, or the halt is accounted for as a halt of the whole atom.
-/
theorem readParens_explained (hinner : Sound m levels (.chain .sum) inner) (header : Header) (fault : Fault)
    (hfault : fault = .unclosedGroup ∨ ∃ f, fault = .unclosedCall f) {c : Cursor} {rest : List Char}
    (hrest : c.rest = header.text ++ '(' :: rest) (hdepth : c.depth ≤ nestingLimit)
    (hlevels : nestingLimit < levels + 1 + c.depth) :
    match readParens fault inner (c.skip header.text.length) with
    | .ok r => ∃ p : Sentence, c.rest = header.text ++ '(' :: p.text ++ ')' :: r.2.rest ∧
        r.2 = c.skip (header.text.length + (p.text.length + 2)) ∧ c.depth + (p.nesting + 1) ≤ nestingLimit ∧
        (p.treeAt (c.position + header.text.length + 1)).fold m = .ok r.1
    | .error h => h.Accounted m .atom c := by
  have hskip : (c.skip header.text.length).rest = '(' :: rest := Cursor.rest_skip hrest
  by_cases hfull : nestingLimit ≤ c.depth
  · have hopen : openParen (c.skip header.text.length) = refuse .tooDeep (c.skip header.text.length) :=
      openParen_of_le hfull
    have hlimit : c.depth = nestingLimit := by omega
    simp only [readParens, hopen, refuse, Except.bind]
    refine .grammatical .tooDeep header.text ('(' :: rest) _ hrest ⟨?_, rfl, _, header.completable_one⟩
    rw [depthAfter_plain header.plain, hlimit]
  · have hopen : openParen (c.skip header.text.length) = .ok (c.skip header.text.length).opened :=
      openParen_of_lt (by simpa [Cursor.skip] using hfull)
    have hopened : (c.skip header.text.length).opened.rest = rest := Cursor.rest_opened hskip
    have hexplained := hinner (c.skip header.text.length).opened (show c.depth + 1 ≤ nestingLimit by omega)
      (show nestingLimit < levels + (c.depth + 1) by omega)
    simp only [readParens, hopen, Except.bind]
    cases hread : inner (c.skip header.text.length).opened with
    | error h =>
      rw [hread] at hexplained
      refine Halt.Accounted.lift hexplained (header.text ++ ['(']) ?_ ?_ ?_ header.leads
      · rw [hopened, hrest]
        simp
      · simp [Cursor.opened, Cursor.skip, Nat.add_assoc]
      · exact (header.depthAfter_open c.depth).symm
    | ok r =>
      rw [hread] at hexplained
      obtain ⟨p, hspans, hvalue⟩ := hexplained
      have hbehind : rest = p.text ++ r.2.rest := hopened ▸ hspans.rest_eq
      by_cases hclose : r.2.rest.head? = some ')'
      · obtain ⟨back, hback⟩ := List.head?_eq_some_iff.mp hclose
        have hclosed : r.2.closed = c.skip (header.text.length + (p.text.length + 2)) := by
          rw [hspans.cursor_eq, Cursor.closed_skip_opened, Cursor.skip_skip]
        have hclosedRest : r.2.closed.rest = back := by simp [Cursor.closed, Cursor.skip, hback]
        simp only [closeParen_of_cons fault hback, Except.map]
        refine ⟨p, ?_, hclosed, ?_, hvalue⟩
        · rw [hclosedRest, hrest, hbehind, hback]
          simp
        · have hfits : c.depth + 1 + p.nesting ≤ nestingLimit := hspans.fits
          omega
      · simp only [closeParen_of_head fault hclose, refuse, Except.map]
        refine header.unclosed p hfault ?_ ?_
        · rw [hrest, hbehind]
          simp
        · rw [hspans.position_eq]
          simp only [Cursor.opened, Cursor.skip, List.length_append, List.length_cons]
          omega

/-! ## Atoms -/

theorem readGroup_explained (hinner : Sound m levels (.chain .sum) inner) {c : Cursor} {rest : List Char}
    (hrest : c.rest = '(' :: rest) (hdepth : c.depth ≤ nestingLimit) (hlevels : nestingLimit < levels + 1 + c.depth) :
    Explained m .atom c (readGroup inner c) := by
  have h := readParens_explained hinner .group .unclosedGroup (Or.inl rfl) hrest hdepth hlevels
  rw [readGroup_eq]
  change match readParens .unclosedGroup inner c with | .ok r => _ | .error h => _ at h
  cases hread : readParens .unclosedGroup inner c with
  | error halt =>
    rw [hread] at h
    exact h
  | ok r =>
    rw [hread] at h
    obtain ⟨p, hrest', hcursor, hfits, hvalue⟩ := h
    refine ⟨.group p, ⟨by simpa [Phrase.text, Header.group] using hrest', ?_, hfits⟩, hvalue⟩
    rw [hcursor]
    simp [Header.group, Phrase.text]

theorem readCall_explained (hinner : Sound m levels (.chain .sum) inner) {f : Function} {c : Cursor}
    (hopens : f.opens c.rest = true) (hdepth : c.depth ≤ nestingLimit)
    (hlevels : nestingLimit < levels + 1 + c.depth) : Explained m .atom c (readCall m inner f c) := by
  obtain ⟨name, rest, hrest⟩ := (opens_iff f c.rest).mp hopens
  have hskip : (c.skip f.name.toList.length).rest = rest := name.length_text ▸ Cursor.rest_skip hrest
  by_cases hhead : rest.head? = some '('
  · obtain ⟨more, hmore⟩ := List.head?_eq_some_iff.mp hhead
    have h := readParens_explained hinner (.call name) (.unclosedCall f) (Or.inr ⟨f, rfl⟩)
      (show c.rest = name.text ++ '(' :: more by rw [hrest, hmore]) hdepth hlevels
    change match readParens (.unclosedCall f) inner (c.skip name.text.length) with | .ok r => _ | .error h => _ at h
    rw [readCall_of_cons m inner f (hskip.trans hmore), ← name.length_text]
    cases hread : readParens (.unclosedCall f) inner (c.skip name.text.length) with
    | error halt =>
      rw [hread] at h
      exact h
    | ok r =>
      rw [hread] at h
      obtain ⟨p, hrest', hcursor, hfits, hvalue⟩ := h
      have htext : (Phrase.call (V := Empty) f name p).text.length = name.text.length + (p.text.length + 2) := by
        simp [Phrase.text]
      change Explained m .atom c (settle r.2 (m.call f r.1))
      cases hcall : m.call f r.1 with
      | ok value =>
        refine ⟨.call f name p, ⟨by simpa [Phrase.text, Header.call] using hrest', ?_, hfits⟩, ?_⟩
        · rw [htext]
          exact hcursor
        · have hvalue' : (p.treeAt (c.position + name.text.length + 1)).fold m = .ok r.1 := hvalue
          simp only [Phrase.tree, Tree.fold, hvalue', hcall, bind, Except.bind]
      | error failure =>
        refine .computational .atom [] (Phrase.call (V := Empty) f name p).text r.2.rest failure r.2 ?_ (.refl _) ?_ ?_
        · simpa [Phrase.text, Header.call] using hrest'
        · exact .call f name p _ r.1 failure hvalue hcall
        · rw [List.nil_append, htext, hcursor]
          rfl
  · rw [readCall_of_head m inner f (hskip.symm ▸ hhead), ← name.length_text]
    exact .grammatical (.unopenedCall f) name.text rest _ hrest
      ⟨⟨name, List.suffix_refl _⟩, (Header.call name).completable_one⟩

theorem readAtom_sound (hinner : Sound m levels (.chain .sum) inner) :
    Sound m (levels + 1) .atom (readAtom m inner) := by
  intro c hdepth hlevels
  by_cases hhead : c.rest.head? = some '('
  · obtain ⟨rest, hrest⟩ := List.head?_eq_some_iff.mp hhead
    rw [readAtom_group m inner hrest]
    exact readGroup_explained hinner hrest hdepth hlevels
  · rw [readAtom_of_head m inner hhead]
    cases hmatch : Function.match? c.rest with
    | none => exact readOperand_explained c hdepth
    | some f => exact readCall_explained hinner ((match?_eq_some_iff f c.rest).mp hmatch) hdepth hlevels

/-! ## Signs -/

theorem readSigned_sound (hinner : Sound m levels (.chain .sum) inner) :
    Sound m (levels + 1) .signed (readSigned m inner) := by
  intro c hdepth hlevels
  have hatom := readAtom_sound hinner
  by_cases hminus : c.rest.head? = some '-'
  · obtain ⟨rest, hrest⟩ := List.head?_eq_some_iff.mp hminus
    have hstep : c.rest = ['-'] ++ (c.skip 1).rest := by rw [Cursor.rest_skip_one hrest, hrest]; rfl
    have h := hatom (c.skip 1) hdepth hlevels
    rw [readSigned_minus m inner hrest]
    cases hread : readAtom m inner (c.skip 1) with
    | error halt =>
      rw [hread] at h
      exact Halt.Accounted.lift h ['-'] hstep rfl rfl (leads_of_phrase fun p => ⟨.minus p, rfl⟩)
    | ok r =>
      rw [hread] at h
      obtain ⟨p, hspans, hvalue⟩ := h
      have hvalue' : (p.treeAt (c.position + 1)).fold m = .ok r.1 := hvalue
      refine ⟨.minus p, hspans.behind_sign hstep rfl rfl, ?_⟩
      simp only [Phrase.tree, Tree.fold, hvalue', bind, Except.bind, pure, Except.pure]
  · by_cases hplus : c.rest.head? = some '+'
    · obtain ⟨rest, hrest⟩ := List.head?_eq_some_iff.mp hplus
      have hstep : c.rest = ['+'] ++ (c.skip 1).rest := by rw [Cursor.rest_skip_one hrest, hrest]; rfl
      have h := hatom (c.skip 1) hdepth hlevels
      rw [readSigned_plus m inner hrest]
      cases hread : readAtom m inner (c.skip 1) with
      | error halt =>
        rw [hread] at h
        exact Halt.Accounted.lift h ['+'] hstep rfl rfl (leads_of_phrase fun p => ⟨.plus p, rfl⟩)
      | ok r =>
        rw [hread] at h
        obtain ⟨p, hspans, hvalue⟩ := h
        exact ⟨.plus p, hspans.behind_sign hstep rfl rfl, hvalue⟩
    · have h := hatom c hdepth hlevels
      rw [readSigned_of_head m inner hminus hplus]
      cases hread : readAtom m inner c with
      | error halt =>
        rw [hread] at h
        exact Halt.Accounted.lift h [] rfl rfl rfl (leads_of_phrase fun p => ⟨.bare p, rfl⟩)
      | ok r =>
        rw [hread] at h
        obtain ⟨p, hspans, hvalue⟩ := h
        exact ⟨.bare p, ⟨hspans.rest_eq, hspans.cursor_eq, hspans.fits⟩, hvalue⟩

/-! ## Powers -/

theorem readPower_sound (hinner : Sound m levels (.chain .sum) inner) :
    Sound m (levels + 1) .power (readPower m inner) := by
  intro c hdepth hlevels
  have hsigned := readSigned_sound hinner
  have h := hsigned c hdepth hlevels
  rw [readPower_eq]
  cases hread : readSigned m inner c with
  | error halt =>
    rw [hread] at h
    exact Halt.Accounted.lift h [] rfl rfl rfl (leads_of_phrase fun p => ⟨.base p, rfl⟩)
  | ok r =>
    rw [hread] at h
    obtain ⟨b, hspans, hvalue⟩ := h
    change Explained m .power c (powerTail m inner r.1 r.2)
    unfold powerTail
    by_cases hcaret : r.2.rest.head? = some '^'
    · obtain ⟨rest, hrest⟩ := List.head?_eq_some_iff.mp hcaret
      obtain ⟨hstepRest, hstepPosition, hstepDepth⟩ := hspans.step hrest (by decide) (by decide)
      have hdepthStep : (r.2.skip 1).depth = c.depth := hspans.depth_eq
      have h := hsigned (r.2.skip 1) (by omega) (by omega)
      rw [if_pos hcaret]
      cases hread' : readSigned m inner (r.2.skip 1) with
      | error halt =>
        rw [hread'] at h
        refine Halt.Accounted.lift h _ hstepRest hstepPosition hstepDepth (leads_of_phrase fun p => ⟨.raise b p, ?_⟩)
        simp [Phrase.text]
      | ok r' =>
        rw [hread'] at h
        obtain ⟨exponent, hspans', hvalue'⟩ := h
        have hplace : (r.2.skip 1).position = c.position + b.text.length + 1 := by
          rw [hstepPosition]
          simp [Nat.add_assoc]
        rw [hplace] at hvalue'
        refine ⟨.raise b exponent, hspans.join hrest hspans' rfl rfl, ?_⟩
        simp only [Phrase.tree, Tree.fold, hvalue, hvalue', bind, Except.bind, pure, Except.pure]
    · rw [if_neg hcaret]
      exact ⟨.base b, ⟨hspans.rest_eq, hspans.cursor_eq, hspans.fits⟩, hvalue⟩

/-! ## Chains -/

/-- The loop of a chain goes on from a phrase that has been read, and every step extends it. -/
theorem readChain_explained {rank : Rank} {operand : Reader α} (hoperand : Sound m levels rank.operand operand)
    {c : Cursor} (hdepth : c.depth ≤ nestingLimit) (hlevels : nestingLimit < levels + c.depth) (budget : List Char)
    (left : α) (c' : Cursor) (p : Phrase Empty (.chain rank)) (hspans : Spans p c c')
    (hvalue : (p.treeAt c.position).fold m = .ok left) :
    Explained m (.chain rank) c (readChain m rank.operator? operand budget left c') := by
  induction budget generalizing left c' p with
  | nil => exact ⟨p, hspans, hvalue⟩
  | cons d budget ih =>
    cases hoperator : rank.operator? c'.rest with
    | none =>
      rw [readChain_of_none m hoperator]
      exact ⟨p, hspans, hvalue⟩
    | some op =>
      obtain ⟨belongs, rest, hrest⟩ := Rank.operator?_eq_some hoperator
      obtain ⟨hopen, hclose⟩ : op.symbol ≠ '(' ∧ op.symbol ≠ ')' := by cases op <;> decide
      obtain ⟨hstepRest, hstepPosition, hstepDepth⟩ := hspans.step hrest hopen hclose
      have hdepthStep : (c'.skip 1).depth = c.depth := hspans.depth_eq
      have h := hoperand (c'.skip 1) (by omega) (by omega)
      rw [readChain_of_some m hoperator]
      cases hread : operand (c'.skip 1) with
      | error halt =>
        rw [hread] at h
        refine Halt.Accounted.lift h _ hstepRest hstepPosition hstepDepth
          (leads_of_phrase fun q => ⟨.extend p op belongs q, ?_⟩)
        simp [Phrase.text]
      | ok r =>
        rw [hread] at h
        obtain ⟨q, hspans', hvalue'⟩ := h
        have hplace : (c'.skip 1).position = c.position + p.text.length + 1 := by
          rw [hstepPosition]
          simp [Nat.add_assoc]
        have hplaceOperator : c'.position = c.position + p.text.length := hspans.position_eq
        have hwhole : Spans (p.extend op belongs q) c r.2 := hspans.join hrest hspans' rfl rfl
        rw [hplace] at hvalue'
        simp only [Except.bind]
        rw [hplaceOperator]
        cases hbinary : m.binary op (c.position + p.text.length) left r.1 with
        | error failure =>
          refine .computational _ [] (p.extend op belongs q).text r.2.rest failure r.2 hwhole.rest_eq
            (.refl _) ?_ ?_
          · exact .operator p op belongs q _ left r.1 failure hvalue hvalue' hbinary
          · rw [List.nil_append]
            exact hwhole.position_eq
        | ok value =>
          refine ih value r.2 (p.extend op belongs q) hwhole ?_
          simp only [Phrase.tree, Tree.fold, hvalue, hvalue', hbinary, bind, Except.bind]

theorem chainOver_sound {rank : Rank} {operand : Reader α} (hoperand : Sound m levels rank.operand operand) :
    Sound m levels (.chain rank) (chainOver m rank operand) := by
  intro c hdepth hlevels
  have h := hoperand c hdepth hlevels
  unfold chainOver
  cases hread : operand c with
  | error halt =>
    rw [hread] at h
    exact Halt.Accounted.lift h [] rfl rfl rfl (leads_of_phrase fun p => ⟨.single p, rfl⟩)
  | ok r =>
    rw [hread] at h
    obtain ⟨p, hspans, hvalue⟩ := h
    exact readChain_explained hoperand hdepth hlevels _ _ _ (.single p)
      ⟨hspans.rest_eq, hspans.cursor_eq, hspans.fits⟩ hvalue

/-! ## Whole texts -/

theorem readSum_sound (m : Meaning α) (levels : Nat) : Sound m levels (.chain .sum) (readSum m levels) := by
  induction levels with
  | zero =>
    intro c hdepth hlevels
    omega
  | succ levels ih => exact chainOver_sound (chainOver_sound (readPower_sound ih))

theorem readSum_start (m : Meaning α) (text : List Char) :
    Explained m (.chain .sum) (.start text) (readSum m (nestingLimit + 1) (.start text)) :=
  readSum_sound m (nestingLimit + 1) (.start text) (Nat.zero_le _) (Nat.lt_succ_self _)

end Reckoner.Expression
