import Mathlib.Data.List.TakeWhile
import Reckoner.Text.Blank
import Reckoner.Text.Replace

/-!
# Replacing and trimming character by character

A pattern of one character is replaced character by character, and so is a variable of a template. The two commute
when neither touches what the other one puts in. A pattern of two characters commutes with the replacement of a
variable as long as its first character is always followed by the second. Trimming commutes with a replacement
that keeps blanks and puts in nothing with a blank at an end. Characters outside a pattern may be put at either end of
a text before or after the replacement.
-/

namespace Reckoner.Text

set_option autoImplicit false

/-! ## Patterns -/

theorem flatMap_eq_self {f : Char → List Char} {text : List Char} (h : ∀ c ∈ text, f c = [c]) :
    text.flatMap f = text := by
  induction text with
  | nil => rfl
  | cons c rest ih =>
    rw [List.flatMap_cons, h c List.mem_cons_self, ih fun d hd => h d (List.mem_cons_of_mem c hd)]
    rfl

theorem replaceAll_cons_of_ne {first c : Char} (h : c ≠ first) (more replacement rest : List Char) :
    replaceAll (first :: more) replacement (c :: rest) = c :: replaceAll (first :: more) replacement rest := by
  rw [replaceAll, if_neg]
  simp [List.isPrefixOf, h.symm]

theorem replaceAll_cons_of_not_prefix {pattern replacement rest : List Char} {c : Char} (h : ¬ pattern <+: c :: rest) :
    replaceAll pattern replacement (c :: rest) = c :: replaceAll pattern replacement rest := by
  rw [replaceAll, if_neg (mt List.isPrefixOf_iff_prefix.mp h)]

theorem replaceAll_append_self {pattern replacement rest : List Char} (h : pattern ≠ []) :
    replaceAll pattern replacement (pattern ++ rest) = replacement ++ replaceAll pattern replacement rest := by
  obtain ⟨first, more, rfl⟩ := List.exists_cons_of_ne_nil h
  have hprefix : (first :: more).isPrefixOf (first :: (more ++ rest)) = true :=
    List.isPrefixOf_iff_prefix.mpr (List.prefix_append (first :: more) rest)
  rw [List.cons_append, replaceAll, if_pos hprefix]
  exact congrArg (fun t => replacement ++ replaceAll (first :: more) replacement t) List.drop_left

/-- Where the first character of the pattern is missing, nothing is replaced. -/
theorem replaceAll_append_of_not_mem {first : Char} {front : List Char} (h : first ∉ front)
    (more replacement rest : List Char) :
    replaceAll (first :: more) replacement (front ++ rest) = front ++ replaceAll (first :: more) replacement rest := by
  induction front with
  | nil => rfl
  | cons c front ih =>
    have hne : c ≠ first := fun heq => h (heq ▸ List.mem_cons_self)
    rw [List.cons_append, replaceAll_cons_of_ne hne, ih fun hmem => h (List.mem_cons_of_mem c hmem)]
    rfl

theorem replaceAll_of_not_mem {first : Char} {text : List Char} (h : first ∉ text) (more replacement : List Char) :
    replaceAll (first :: more) replacement text = text := by
  have happend := replaceAll_append_of_not_mem h more replacement []
  rwa [List.append_nil, replaceAll_nil, List.append_nil] at happend

/-- A text behind which only characters outside the pattern follow is replaced for itself. -/
theorem replaceAll_append_of_disjoint {pattern back : List Char} (hne : pattern ≠ []) (h : ∀ c ∈ pattern, c ∉ back)
    (replacement text : List Char) :
    replaceAll pattern replacement (text ++ back) = replaceAll pattern replacement text ++ back := by
  induction text using replaceAll.induct pattern with
  | case1 =>
    obtain ⟨first, more, rfl⟩ := List.exists_cons_of_ne_nil hne
    rw [List.nil_append, replaceAll_nil, List.nil_append, replaceAll_of_not_mem (h first List.mem_cons_self)]
  | case2 c rest hprefix ih =>
    have hpattern := List.isPrefixOf_iff_prefix.mp hprefix
    have hlength : pattern.length - 1 ≤ rest.length := by
      have := hpattern.length_le
      rw [List.length_cons] at this
      omega
    have hprefix' : pattern.isPrefixOf (c :: (rest ++ back)) = true :=
      List.isPrefixOf_iff_prefix.mpr (hpattern.trans (List.prefix_append (c :: rest) back))
    rw [List.cons_append, replaceAll, if_pos hprefix', replaceAll, if_pos hprefix, List.append_assoc,
      List.drop_append_of_le_length hlength, ih]
  | case3 c rest hprefix ih =>
    have hprefix' : ¬ pattern.isPrefixOf (c :: (rest ++ back)) = true := by
      intro hacross
      have hpattern := List.isPrefixOf_iff_prefix.mp hacross
      rcases List.prefix_or_prefix_of_prefix hpattern (List.prefix_append (c :: rest) back) with hinside | ⟨more, rfl⟩
      · exact hprefix (List.isPrefixOf_iff_prefix.mpr hinside)
      · have hmore : more <+: back := (List.prefix_append_right_inj (c :: rest)).mp hpattern
        cases more with
        | nil => exact hprefix (List.isPrefixOf_iff_prefix.mpr ⟨[], by simp⟩)
        | cons d more => exact h d (by simp) (hmore.subset List.mem_cons_self)
    rw [List.cons_append, replaceAll, if_neg hprefix', replaceAll, if_neg hprefix, ih]
    rfl

theorem mem_replaceAll_of_ne {first c : Char} (h : c ≠ first) {replacement text : List Char} (hc : c ∈ text) :
    c ∈ replaceAll [first] replacement text := by
  induction text with
  | nil => contradiction
  | cons d rest ih =>
    by_cases hd : d = first
    · subst hd
      have hrest : c ∈ rest := (List.mem_cons.mp hc).resolve_left h
      rw [replaceAll, if_pos (by simp [List.isPrefixOf])]
      exact List.mem_append_right _ (ih hrest)
    · rw [replaceAll_cons_of_ne hd]
      rcases List.mem_cons.mp hc with rfl | hrest
      · exact List.mem_cons_self
      · exact List.mem_cons_of_mem d (ih hrest)

/-! ## Variables -/

/-- A text with something in the place of every occurrence of a variable. -/
def plugIn (variableName : Char) (value text : List Char) : List Char :=
  text.flatMap fun c => if c == variableName then value else [c]

section
variable {name : Char} {value : List Char}

theorem plugIn_nil : plugIn name value [] = [] := rfl

theorem plugIn_cons_self (rest : List Char) : plugIn name value (name :: rest) = value ++ plugIn name value rest := by
  simp [plugIn]

theorem plugIn_cons_of_ne {c : Char} (h : c ≠ name) (rest : List Char) :
    plugIn name value (c :: rest) = c :: plugIn name value rest := by
  simp [plugIn, h]

theorem plugIn_append (front rest : List Char) :
    plugIn name value (front ++ rest) = plugIn name value front ++ plugIn name value rest :=
  List.flatMap_append

theorem plugIn_of_not_mem {text : List Char} (h : name ∉ text) : plugIn name value text = text :=
  flatMap_eq_self fun c hc => by
    rw [if_neg]
    simpa using fun heq : c = name => h (heq ▸ hc)

/-- Replacing a character commutes with plugging in where neither touches the other. -/
theorem replaceAll_plugIn {first : Char} {replacement : List Char} (hname : first ≠ name) (hvalue : first ∉ value)
    (hreplacement : name ∉ replacement) (text : List Char) :
    replaceAll [first] replacement (plugIn name value text) =
      plugIn name value (replaceAll [first] replacement text) := by
  induction text with
  | nil => rw [plugIn_nil, replaceAll_nil, plugIn_nil]
  | cons c rest ih =>
    by_cases hc : c = name
    · subst hc
      rw [plugIn_cons_self, replaceAll_append_of_not_mem hvalue, replaceAll_cons_of_ne (Ne.symm hname), plugIn_cons_self,
        ih]
    · rw [plugIn_cons_of_ne hc]
      by_cases hfirst : c = first
      · subst hfirst
        have hstep : ∀ rest : List Char, replaceAll [c] replacement (c :: rest) =
            replacement ++ replaceAll [c] replacement rest := fun rest => by
          rw [replaceAll, if_pos (by simp [List.isPrefixOf])]
          rfl
        rw [hstep, hstep, plugIn_append, plugIn_of_not_mem hreplacement, ih]
      · rw [replaceAll_cons_of_ne hfirst, replaceAll_cons_of_ne hfirst, plugIn_cons_of_ne hc, ih]

/--
A pattern of two characters commutes with plugging in when its first character is gone afterwards: then it always
stood in front of the second one, and never in front of the variable.
-/
theorem replaceAll_pair_plugIn {first second : Char} {replacement : List Char} (hfirst : first ≠ name)
    (hsecond : second ≠ name) (hvalue : first ∉ value) (hreplacement : name ∉ replacement) (text : List Char)
    (hgone : first ∉ replaceAll [first, second] replacement text) :
    replaceAll [first, second] replacement (plugIn name value text) =
      plugIn name value (replaceAll [first, second] replacement text) := by
  induction text using replaceAll.induct [first, second] with
  | case1 => rw [plugIn_nil, replaceAll_nil, plugIn_nil]
  | case2 c rest hprefix ih =>
    obtain ⟨more, hmore⟩ := List.isPrefixOf_iff_prefix.mp hprefix
    obtain ⟨rfl, rfl⟩ := List.cons.inj hmore
    have hstep : ∀ more : List Char, replaceAll [first, second] replacement (first :: second :: more) =
        replacement ++ replaceAll [first, second] replacement more := fun more => by
      rw [replaceAll, if_pos (by simp [List.isPrefixOf])]
      rfl
    change first ∉ replaceAll [first, second] replacement (first :: second :: more) at hgone
    rw [hstep] at hgone
    change replaceAll [first, second] replacement (plugIn name value (first :: second :: more)) =
      plugIn name value (replaceAll [first, second] replacement (first :: second :: more))
    rw [plugIn_cons_of_ne hfirst, plugIn_cons_of_ne hsecond, hstep, hstep, plugIn_append,
      plugIn_of_not_mem hreplacement]
    exact congrArg (replacement ++ ·) (ih fun hmem => hgone (List.mem_append_right _ hmem))
  | case3 c rest hprefix ih =>
    rw [replaceAll, if_neg hprefix] at hgone ⊢
    have hne : c ≠ first := fun heq => hgone (heq ▸ List.mem_cons_self)
    have ih' := ih fun hmem => hgone (List.mem_cons_of_mem c hmem)
    by_cases hc : c = name
    · subst hc
      rw [plugIn_cons_self, plugIn_cons_self, replaceAll_append_of_not_mem hvalue, ih']
    · rw [plugIn_cons_of_ne hc, plugIn_cons_of_ne hc, replaceAll_cons_of_ne hne, ih']

/-! ## Trimming -/

theorem dropWhile_plugIn {p : Char → Bool} (hname : p name = false) (hvalue : ∃ c rest, value = c :: rest ∧ p c = false)
    (text : List Char) : (plugIn name value text).dropWhile p = plugIn name value (text.dropWhile p) := by
  obtain ⟨d, more, rfl, hd⟩ := hvalue
  induction text with
  | nil => rfl
  | cons c rest ih =>
    by_cases hc : c = name
    · subst hc
      rw [List.dropWhile_cons_of_neg (by simp [hname]), plugIn_cons_self, List.cons_append,
        List.dropWhile_cons_of_neg (by simp [hd])]
    · rw [plugIn_cons_of_ne hc]
      by_cases hp : p c = true
      · rw [List.dropWhile_cons_of_pos hp, List.dropWhile_cons_of_pos hp, ih]
      · rw [List.dropWhile_cons_of_neg hp, List.dropWhile_cons_of_neg hp, plugIn_cons_of_ne hc]

theorem reverse_plugIn (text : List Char) : (plugIn name value text).reverse = plugIn name value.reverse text.reverse := by
  induction text with
  | nil => rfl
  | cons c rest ih =>
    rw [List.reverse_cons, plugIn_append, ← ih]
    by_cases hc : c = name
    · subst hc
      rw [plugIn_cons_self, List.reverse_append]
      congr 1
      rw [plugIn_cons_self, plugIn_nil, List.append_nil]
    · rw [plugIn_cons_of_ne hc, plugIn_cons_of_ne hc, List.reverse_cons]
      rfl

/-- Trimming commutes with plugging in a value without blanks at its ends. -/
theorem trimBy_plugIn {p : Char → Bool} (hname : p name = false) (hhead : ∃ c rest, value = c :: rest ∧ p c = false)
    (hlast : ∃ c rest, value.reverse = c :: rest ∧ p c = false) (text : List Char) :
    trimBy p (plugIn name value text) = plugIn name value (trimBy p text) := by
  simp only [trimBy]
  rw [dropWhile_plugIn hname hhead, reverse_plugIn, dropWhile_plugIn hname hlast, reverse_plugIn, List.reverse_reverse]

end

theorem mem_of_mem_trimBy {p : Char → Bool} {text : List Char} {c : Char} (hc : c ∈ text) (hp : p c = false) :
    c ∈ trimBy p text := by
  have hdrop : ∀ text : List Char, c ∈ text → c ∈ text.dropWhile p := by
    intro text hmem
    rw [← List.takeWhile_append_dropWhile (p := p) (l := text)] at hmem
    rcases List.mem_append.mp hmem with hfront | hback
    · have htrue := List.mem_takeWhile_imp hfront
      rw [hp] at htrue
      contradiction
    · exact hback
  rw [trimBy, List.mem_reverse]
  exact hdrop _ (List.mem_reverse.mpr (hdrop _ hc))

theorem trimBy_eq_self {p : Char → Bool} {text : List Char} (h : ∀ c ∈ text, p c = false) : trimBy p text = text := by
  have hdrop : ∀ text : List Char, (∀ c ∈ text, p c = false) → text.dropWhile p = text := by
    intro text h
    cases text with
    | nil => rfl
    | cons c rest => exact List.dropWhile_cons_of_neg (by simp [h c])
  rw [trimBy, hdrop text h, hdrop text.reverse fun c hc => h c (List.mem_reverse.mp hc), List.reverse_reverse]

/-- What trimming takes away at the ends. -/
theorem trimBy_split (p : Char → Bool) (text : List Char) :
    ∃ front back, text = front ++ (trimBy p text ++ back) ∧ (∀ c ∈ front, p c = true) ∧ ∀ c ∈ back, p c = true := by
  refine ⟨text.takeWhile p, ((text.dropWhile p).reverse.takeWhile p).reverse, ?_, ?_, ?_⟩
  · rw [trimBy, ← List.reverse_append, List.takeWhile_append_dropWhile, List.reverse_reverse,
      List.takeWhile_append_dropWhile]
  · exact fun c hc => List.mem_takeWhile_imp hc
  · exact fun c hc => List.mem_takeWhile_imp (List.mem_reverse.mp hc)

/-- What is taken away anyway may stand at the ends. -/
theorem trimBy_append {p : Char → Bool} {front back : List Char} (hfront : ∀ c ∈ front, p c = true)
    (hback : ∀ c ∈ back, p c = true) (text : List Char) : trimBy p (front ++ (text ++ back)) = trimBy p text := by
  have hreverse : ∀ c ∈ back.reverse, p c = true := fun c hc => hback c (List.mem_reverse.mp hc)
  rw [trimBy, List.dropWhile_append_of_pos hfront, List.dropWhile_append]
  split
  · next hempty =>
    have hnil : text.dropWhile p = [] := List.isEmpty_iff.mp hempty
    rw [trimBy, hnil, List.dropWhile_eq_nil_iff.mpr hback]
  · rw [List.reverse_append, List.dropWhile_append_of_pos hreverse, trimBy]

theorem trimBy_trimBy {p q : Char → Bool} (h : ∀ c, q c = true → p c = true) (text : List Char) :
    trimBy p (trimBy q text) = trimBy p text := by
  obtain ⟨front, back, hsplit, hfront, hback⟩ := trimBy_split q text
  generalize trimBy q text = core at hsplit
  rw [hsplit, trimBy_append (fun c hc => h c (hfront c hc)) fun c hc => h c (hback c hc)]

theorem trimBy_eq_nil {p : Char → Bool} {text : List Char} (h : ∀ c ∈ text, p c = true) : trimBy p text = [] := by
  rw [trimBy, List.dropWhile_eq_nil_iff.mpr h]
  rfl

/-! ## Splitting -/

/-- A text is split where a character stands first. -/
theorem split_first {c : Char} {front : List Char} (h : c ∉ front) (back : List Char) :
    (front ++ c :: back).takeWhile (· != c) = front ∧ (front ++ c :: back).dropWhile (· != c) = c :: back := by
  have hfront : ∀ d ∈ front, (d != c) = true := by
    intro d hd
    rw [bne_iff_ne]
    rintro rfl
    exact h hd
  rw [List.takeWhile_append_of_pos hfront, List.dropWhile_append_of_pos hfront]
  simp

end Reckoner.Text
