import Mathlib.Data.List.DropRight
import Reckoner.Proofs.Text.Replace

/-!
# Replacing several patterns

Several patterns are replaced in turn, one kind after the other over the whole text, or together, in one pass that looks for
all of them at every place. The two agree for rules that keep apart: no pattern begins inside another one or inside a
replacement, and no replacement goes on with what a pattern has begun. Then the order of the rules does not matter, no
pattern is left, and a second pass finds nothing to do.
-/

namespace Reckoner.Text

set_option autoImplicit false

/-- A pattern and what takes its place. -/
abbrev Rule := List Char × List Char

/-- The first of the rules whose pattern stands at the beginning of a text. -/
def standing? (rules : List Rule) (text : List Char) : Option Rule :=
  rules.find? fun rule => rule.1.isPrefixOf text

/-- Replaces all the patterns in one pass from left to right; behind a replacement the pass goes on behind the pattern. -/
def replaceTogether (rules : List Rule) : List Char → List Char
  | [] => []
  | c :: rest =>
    match standing? rules (c :: rest) with
    | some rule => rule.2 ++ replaceTogether rules (rest.drop (rule.1.length - 1))
    | none => c :: replaceTogether rules rest
termination_by text => text.length
decreasing_by
  · simp only [List.length_drop, List.length_cons]
    omega
  · simp only [List.length_cons]
    omega

/-- Replaces the patterns one after the other, each of them in the whole text. -/
def replaceInTurn (rules : List Rule) (text : List Char) : List Char :=
  rules.foldl (fun t rule => replaceAll rule.1 rule.2 t) text

/-! ## One place of the pass -/

section
variable {rules : List Rule} {rule : Rule} {text front rest behind : List Char} {c : Char}

theorem standing?_eq_some (h : standing? rules text = some rule) : rule ∈ rules ∧ rule.1 <+: text :=
  ⟨List.mem_of_find?_eq_some h, List.isPrefixOf_iff_prefix.mp (List.find?_some h :)⟩

theorem standing?_eq_none_iff : standing? rules text = none ↔ ∀ rule ∈ rules, ¬ rule.1 <+: text := by
  simp only [standing?, List.find?_eq_none, List.isPrefixOf_iff_prefix]

theorem standing?_concat (other : Rule) : standing? (rules ++ [other]) text =
    (standing? rules text).or (if other.1 <+: text then some other else none) := by
  simp only [standing?, List.find?_append, List.find?_singleton, List.isPrefixOf_iff_prefix]

theorem replaceTogether_nil : replaceTogether rules [] = [] := by
  rw [replaceTogether]

theorem replaceTogether_rule (hne : rule.1 ≠ []) (h : standing? rules (rule.1 ++ behind) = some rule) :
    replaceTogether rules (rule.1 ++ behind) = rule.2 ++ replaceTogether rules behind := by
  obtain ⟨d, more, hpattern⟩ := List.exists_cons_of_ne_nil hne
  have hbehind : (more ++ behind).drop (rule.1.length - 1) = behind := by
    rw [hpattern]
    exact List.drop_left
  rw [hpattern, List.cons_append] at h ⊢
  rw [replaceTogether, h]
  dsimp only
  rw [hbehind]

theorem replaceTogether_char (h : standing? rules (c :: rest) = none) :
    replaceTogether rules (c :: rest) = c :: replaceTogether rules rest := by
  rw [replaceTogether, h]

/-- A text is empty, or one of the patterns stands at its beginning, or none does and a character is passed. -/
@[elab_as_elim]
theorem together_induction (rules : List Rule) {motive : List Char → Prop} (nil : motive [])
    (rule : ∀ (rule : Rule) (behind : List Char), rule ∈ rules → standing? rules (rule.1 ++ behind) = some rule →
      motive behind → motive (rule.1 ++ behind))
    (char : ∀ (c : Char) (rest : List Char), standing? rules (c :: rest) = none → motive rest → motive (c :: rest))
    (hne : ∀ rule ∈ rules, rule.1 ≠ []) (text : List Char) : motive text := by
  induction text using replaceTogether.induct rules with
  | case1 => exact nil
  | case2 c rest found hfound ih =>
    obtain ⟨hmem, behind, hbehind⟩ := standing?_eq_some hfound
    obtain ⟨d, more, hpattern⟩ := List.exists_cons_of_ne_nil (hne found hmem)
    have hrest : rest.drop (found.1.length - 1) = behind := by
      rw [hpattern, List.cons_append] at hbehind
      rw [← (List.cons.inj hbehind).2, hpattern]
      exact List.drop_left
    rw [hrest] at ih
    rw [← hbehind] at hfound ⊢
    exact rule found behind hmem hfound ih
  | case3 c rest hnone ih => exact char c rest hnone ih

/-- Where no pattern begins the text is passed as it is. -/
theorem replaceTogether_append_of_clear (hne : ∀ rule ∈ rules, rule.1 ≠ [])
    (h : ∀ rule ∈ rules, ∀ c ∈ rule.1.head?, c ∉ front) (back : List Char) :
    replaceTogether rules (front ++ back) = front ++ replaceTogether rules back := by
  induction front with
  | nil => rfl
  | cons d front ih =>
    have hnone : standing? rules (d :: (front ++ back)) = none := by
      refine standing?_eq_none_iff.mpr fun rule hrule hbegin => ?_
      obtain ⟨first, more, hpattern⟩ := List.exists_cons_of_ne_nil (hne rule hrule)
      obtain rfl : first = d := by
        rw [hpattern] at hbegin
        exact (List.cons_prefix_cons.mp hbegin).1
      exact h rule hrule first (by rw [hpattern]; rfl) List.mem_cons_self
    rw [List.cons_append, replaceTogether_char hnone,
      ih fun rule hrule c hc hmem => h rule hrule c hc (List.mem_cons_of_mem d hmem)]
    rfl

/-- What stands at the beginning of the result and holds no beginning of a replacement stood there before. -/
theorem prefix_of_prefix_replaceTogether (hne : ∀ rule ∈ rules, rule.1 ≠ [] ∧ rule.2 ≠ [])
    (h : ∀ rule ∈ rules, ∀ c ∈ rule.2.head?, c ∉ front) (hbegin : front <+: replaceTogether rules text) : front <+: text := by
  induction front generalizing text with
  | nil => exact List.nil_prefix
  | cons d front ih =>
    have hrest : ∀ rule ∈ rules, ∀ c ∈ rule.2.head?, c ∉ front :=
      fun rule hrule c hc hmem => h rule hrule c hc (List.mem_cons_of_mem d hmem)
    induction text using together_induction rules with
    | nil =>
      rw [replaceTogether_nil] at hbegin
      exact absurd (List.prefix_nil.mp hbegin) (List.cons_ne_nil _ _)
    | rule rule behind hmem hstanding _ =>
      obtain ⟨hpattern, hreplacement⟩ := hne rule hmem
      obtain ⟨e, more, hreplacement⟩ := List.exists_cons_of_ne_nil hreplacement
      rw [replaceTogether_rule hpattern hstanding, hreplacement] at hbegin
      obtain ⟨rfl, -⟩ := List.cons_prefix_cons.mp hbegin
      exact absurd List.mem_cons_self (h rule hmem d (by rw [hreplacement]; rfl))
    | char c rest hnone _ =>
      rw [replaceTogether_char hnone] at hbegin
      obtain ⟨rfl, hfront⟩ := List.cons_prefix_cons.mp hbegin
      exact List.cons_prefix_cons.mpr ⟨rfl, ih hrest hfront⟩
    | hne rule hrule => exact (hne rule hrule).1

theorem replaceTogether_eq_self (hne : ∀ rule ∈ rules, rule.1 ≠ []) (h : ∀ rule ∈ rules, ¬ rule.1 <:+: text) :
    replaceTogether rules text = text := by
  induction text using together_induction rules with
  | nil => exact replaceTogether_nil
  | rule rule behind hmem _ _ => exact absurd (List.prefix_append _ _).isInfix (h rule hmem)
  | char c rest hnone ih =>
    rw [replaceTogether_char hnone, ih fun rule hrule hpart => h rule hrule (hpart.trans (List.suffix_cons c rest).isInfix)]
  | hne rule hrule => exact hne rule hrule

/-- Nothing is made of nothing only. -/
theorem replaceTogether_eq_nil (hne : ∀ rule ∈ rules, rule.1 ≠ [] ∧ rule.2 ≠ []) (h : replaceTogether rules text = []) :
    text = [] := by
  induction text using together_induction rules with
  | nil => rfl
  | rule rule behind hmem hstanding _ =>
    rw [replaceTogether_rule (hne rule hmem).1 hstanding] at h
    exact absurd (List.append_eq_nil_iff.mp h).1 (hne rule hmem).2
  | char c rest hnone _ =>
    rw [replaceTogether_char hnone] at h
    exact absurd h (List.cons_ne_nil _ _)
  | hne rule hrule => exact (hne rule hrule).1

end

/-! ## Rules that keep apart -/

structure Separate (rules : List Rule) : Prop where
  nonempty : ∀ rule ∈ rules, rule.1 ≠ [] ∧ rule.2 ≠ []
  /-- No pattern begins inside another one. -/
  nested : ∀ rule ∈ rules, ∀ other ∈ rules, rule ≠ other → ∀ c ∈ rule.1.head?, c ∉ other.1
  /-- No pattern begins inside a replacement. -/
  begun : ∀ rule ∈ rules, ∀ other ∈ rules, ∀ c ∈ rule.1.head?, c ∉ other.2
  /-- No replacement goes on with a pattern. -/
  completed : ∀ rule ∈ rules, ∀ other ∈ rules, ∀ c ∈ rule.2.head?, c ∉ other.1

section
variable {rules : List Rule} (h : Separate rules)
include h

theorem Separate.of_subset {some : List Rule} (hsubset : some ⊆ rules) : Separate some where
  nonempty rule hrule := h.nonempty rule (hsubset hrule)
  nested rule hrule other hother := h.nested rule (hsubset hrule) other (hsubset hother)
  begun rule hrule other hother := h.begun rule (hsubset hrule) other (hsubset hother)
  completed rule hrule other hother := h.completed rule (hsubset hrule) other (hsubset hother)

theorem Separate.not_infix {rule : Rule} (hrule : rule ∈ rules) (text : List Char) :
    ¬ rule.1 <:+: replaceTogether rules text := by
  obtain ⟨first, more, hpattern⟩ := List.exists_cons_of_ne_nil (h.nonempty rule hrule).1
  have hfirst : first ∈ rule.1.head? := by rw [hpattern]; rfl
  induction text using together_induction rules with
  | nil =>
    rw [replaceTogether_nil]
    exact fun hpart => (h.nonempty rule hrule).1 (List.infix_nil.mp hpart)
  | rule other behind hother hstanding ih =>
    have hclear := h.begun rule hrule other hother first hfirst
    rw [replaceTogether_rule (h.nonempty other hother).1 hstanding]
    intro hpart
    rcases List.infix_append_iff.mp hpart with hinside | hbehind | ⟨back, front, hsplit, hback, hfront⟩
    · exact hclear (hinside.subset (by rw [hpattern]; exact List.mem_cons_self))
    · exact ih hbehind
    · cases back with
      | nil => exact ih (by rw [hsplit]; exact hfront.isInfix)
      | cons d back =>
        obtain ⟨rfl, -⟩ := List.cons.inj (hpattern.symm.trans hsplit)
        exact hclear (hback.subset List.mem_cons_self)
  | char c rest hnone ih =>
    intro hpart
    have hcons := replaceTogether_char hnone
    rw [hcons] at hpart
    rcases List.infix_cons_iff.mp hpart with hbegin | hbehind
    · rw [← hcons] at hbegin
      exact standing?_eq_none_iff.mp hnone rule hrule (prefix_of_prefix_replaceTogether h.nonempty
        (fun other hother => h.completed other hother rule hrule) hbegin)
    · exact ih hbehind
  | hne rule hrule => exact (h.nonempty rule hrule).1

theorem Separate.idempotent (text : List Char) :
    replaceTogether rules (replaceTogether rules text) = replaceTogether rules text :=
  replaceTogether_eq_self (fun rule hrule => (h.nonempty rule hrule).1) fun _ hrule => h.not_infix hrule text

omit h

/-- Replacing one more pattern behind a pass is a pass that looks for it as well. -/
theorem Separate.replaceAll_together {rule : Rule} (h : Separate (rules ++ [rule])) (hnew : rule ∉ rules) (text : List Char) :
    replaceAll rule.1 rule.2 (replaceTogether rules text) = replaceTogether (rules ++ [rule]) text := by
  have hrule : rule ∈ rules ++ [rule] := List.mem_concat_self
  have hold : ∀ other ∈ rules, other ∈ rules ++ [rule] := fun _ => List.mem_append_left _
  have hne : ∀ other ∈ rules, other.1 ≠ [] := fun other hother => (h.nonempty other (hold other hother)).1
  obtain ⟨first, more, hpattern⟩ := List.exists_cons_of_ne_nil (h.nonempty rule hrule).1
  have hfirst : first ∈ rule.1.head? := by rw [hpattern]; rfl
  induction text using together_induction (rules ++ [rule]) with
  | nil => rw [replaceTogether_nil, replaceTogether_nil, replaceAll_nil]
  | rule found behind hfound hstanding ih =>
    rw [replaceTogether_rule (h.nonempty found hfound).1 hstanding]
    rw [standing?_concat] at hstanding
    cases hearlier : standing? rules (found.1 ++ behind) with
    | some earlier =>
      rw [hearlier] at hstanding
      obtain rfl : earlier = found := Option.some.inj hstanding
      rw [replaceTogether_rule (h.nonempty earlier hfound).1 hearlier, ← ih, hpattern]
      exact replaceAll_append_of_not_mem (h.begun rule hrule earlier hfound first hfirst) more rule.2 _
    | none =>
      rw [hearlier, Option.none_or] at hstanding
      obtain rfl : rule = found := by
        split at hstanding
        · exact Option.some.inj hstanding
        · contradiction
      rw [replaceTogether_append_of_clear hne fun other hother => h.nested other (hold other hother) rule hrule
        fun heq => hnew (heq ▸ hother), replaceAll_append_self (h.nonempty rule hrule).1, ih]
  | char c rest hnone ih =>
    rw [replaceTogether_char hnone, ← ih]
    obtain ⟨hearlier, hother⟩ : standing? rules (c :: rest) = none ∧ ¬ rule.1 <+: c :: rest := by
      rw [standing?_eq_none_iff] at hnone ⊢
      exact ⟨fun other hother => hnone other (hold other hother), hnone rule hrule⟩
    have hcons := replaceTogether_char hearlier
    refine hcons ▸ replaceAll_cons_of_not_prefix fun hbegin => hother ?_
    rw [← hcons] at hbegin
    exact prefix_of_prefix_replaceTogether (fun other hother => h.nonempty other (hold other hother))
      (fun other hother => h.completed other (hold other hother) rule hrule) hbegin
  | hne other hother => exact (h.nonempty other hother).1

theorem Separate.inTurn_eq_together (h : Separate rules) (hnodup : rules.Nodup) (text : List Char) :
    replaceInTurn rules text = replaceTogether rules text := by
  induction rules using List.reverseRecOn with
  | nil => exact (replaceTogether_eq_self (by simp) (by simp)).symm
  | append_singleton rules rule ih =>
    obtain ⟨hnodup, -, hnew⟩ := List.nodup_append.mp hnodup
    have hsubset : rules ⊆ rules ++ [rule] := List.subset_append_left _ _
    have hconcat : replaceInTurn (rules ++ [rule]) text = replaceAll rule.1 rule.2 (replaceInTurn rules text) :=
      List.foldl_concat ..
    rw [hconcat, ih (h.of_subset hsubset) hnodup]
    exact h.replaceAll_together (fun hmem => hnew rule hmem rule List.mem_cons_self rfl) text

include h

/-- At most one pattern stands at a place. -/
theorem Separate.standing_unique {rule other : Rule} {text : List Char} (hrule : rule ∈ rules) (hother : other ∈ rules)
    (hstands : rule.1 <+: text) (hstands' : other.1 <+: text) : rule = other := by
  by_contra hdifferent
  obtain ⟨c, more, hpattern⟩ := List.exists_cons_of_ne_nil (h.nonempty rule hrule).1
  obtain ⟨d, more', hpattern'⟩ := List.exists_cons_of_ne_nil (h.nonempty other hother).1
  obtain rfl : c = d := by
    obtain ⟨behind, rfl⟩ := hstands
    rw [hpattern, hpattern', List.cons_append] at hstands'
    exact (List.cons_prefix_cons.mp hstands').1.symm
  exact h.nested rule hrule other hother hdifferent c (by rw [hpattern]; rfl) (by rw [hpattern']; exact List.mem_cons_self)

theorem Separate.standing?_append {rule : Rule} (hrule : rule ∈ rules) (behind : List Char) :
    standing? rules (rule.1 ++ behind) = some rule := by
  have hstands : rule.1 <+: rule.1 ++ behind := List.prefix_append _ _
  cases hfound : standing? rules (rule.1 ++ behind) with
  | none => exact absurd hstands (standing?_eq_none_iff.mp hfound rule hrule)
  | some other =>
    obtain ⟨hother, hstands'⟩ := standing?_eq_some hfound
    rw [h.standing_unique hrule hother hstands hstands']

theorem Separate.standing?_perm {order : List Rule} (horder : order.Perm rules) (text : List Char) :
    standing? order text = standing? rules text := by
  cases hfound : standing? order text with
  | none =>
    refine (standing?_eq_none_iff.mpr fun rule hrule => ?_).symm
    exact standing?_eq_none_iff.mp hfound rule (horder.mem_iff.mpr hrule)
  | some rule =>
    obtain ⟨hrule, hstands⟩ := standing?_eq_some hfound
    have hrule := horder.mem_iff.mp hrule
    cases hfound' : standing? rules text with
    | none => exact absurd hstands (standing?_eq_none_iff.mp hfound' rule hrule)
    | some other =>
      obtain ⟨hother, hstands'⟩ := standing?_eq_some hfound'
      rw [h.standing_unique hrule hother hstands hstands']

theorem Separate.together_perm {order : List Rule} (horder : order.Perm rules) (text : List Char) :
    replaceTogether order text = replaceTogether rules text := by
  have hsame := h.standing?_perm horder
  induction text using together_induction rules with
  | nil => rw [replaceTogether_nil, replaceTogether_nil]
  | rule rule behind hrule hstanding ih =>
    have hne := (h.nonempty rule hrule).1
    rw [replaceTogether_rule hne hstanding, replaceTogether_rule hne ((hsame _).trans hstanding), ih]
  | char c rest hnone ih =>
    rw [replaceTogether_char hnone, replaceTogether_char ((hsame _).trans hnone), ih]
  | hne rule hrule => exact (h.nonempty rule hrule).1

end

/-! ## The ends of a text -/

section
variable {rules : List Rule} {p : Char → Bool} {text : List Char}

/-- Nothing is taken away from a text at either end. -/
structure Trimmed (p : Char → Bool) (text : List Char) : Prop where
  head : ∀ c ∈ text.head?, p c = false
  last : ∀ c ∈ text.getLast?, p c = false

theorem Trimmed.trimBy_eq (h : Trimmed p text) : trimBy p text = text := by
  have hfront : text.dropWhile p = text := by
    cases text with
    | nil => rfl
    | cons c rest => exact List.dropWhile_cons_of_neg (by simp [h.head c rfl])
  have hback : text.rdropWhile p = text := by
    refine List.rdropWhile_eq_self_iff.mpr fun hne => ?_
    simp [h.last _ (List.getLast?_eq_some_getLast hne)]
  change (text.dropWhile p).rdropWhile p = text
  rw [hfront, hback]

theorem trimmed_trimBy (p : Char → Bool) (text : List Char) : Trimmed p (trimBy p text) := by
  change Trimmed p ((text.dropWhile p).rdropWhile p)
  refine ⟨fun c hc => ?_, fun c hc => ?_⟩
  · obtain ⟨back, hback⟩ := List.rdropWhile_prefix p (text.dropWhile p)
    have hhead := List.head?_dropWhile_not p text
    rw [← hback, List.head?_append_of_ne_nil _ (fun hnil => by rw [hnil] at hc; contradiction), hc] at hhead
    exact hhead
  · have hne : (text.dropWhile p).rdropWhile p ≠ [] := by
      intro hnil
      rw [hnil] at hc
      contradiction
    have hlast := List.rdropWhile_last_not p _ hne
    rw [List.getLast?_eq_some_getLast hne] at hc
    obtain rfl := Option.some.inj hc
    simpa using hlast

/-- A pass keeps the ends free of what is in no replacement. -/
theorem Trimmed.replaceTogether (h : Trimmed p text) (hne : ∀ rule ∈ rules, rule.1 ≠ [] ∧ rule.2 ≠ [])
    (hkept : ∀ rule ∈ rules, ∀ c ∈ rule.2, p c = false) : Trimmed p (replaceTogether rules text) := by
  obtain ⟨hhead, hlast⟩ := h
  constructor
  · induction text using together_induction rules with
    | nil => simp [replaceTogether_nil]
    | rule rule behind hmem hstanding _ =>
      rw [replaceTogether_rule (hne rule hmem).1 hstanding, List.head?_append_of_ne_nil _ (hne rule hmem).2]
      exact fun c hc => hkept rule hmem c (List.mem_of_mem_head? hc)
    | char c rest hnone _ =>
      rw [replaceTogether_char hnone]
      exact hhead
    | hne rule hrule => exact (hne rule hrule).1
  · clear hhead
    induction text using together_induction rules with
    | nil => simp [replaceTogether_nil]
    | rule rule behind hmem hstanding ih =>
      intro c hc
      rw [replaceTogether_rule (hne rule hmem).1 hstanding, List.getLast?_append] at hc
      rcases Option.or_eq_some_iff.mp hc with hbehind | ⟨-, hreplacement⟩
      · refine ih (fun d hd => hlast d ?_) c hbehind
        rw [List.getLast?_append]
        exact Option.or_eq_some_iff.mpr (Or.inl hd)
      · exact hkept rule hmem c (List.mem_of_mem_getLast? hreplacement)
    | char d rest hnone ih =>
      intro c hc
      rw [replaceTogether_char hnone] at hc
      cases rest with
      | nil =>
        rw [replaceTogether_nil] at hc
        exact hlast c hc
      | cons e rest =>
        have hmore : Text.replaceTogether rules (e :: rest) ≠ [] := fun hnil =>
          List.cons_ne_nil e rest (replaceTogether_eq_nil hne hnil)
        rw [List.getLast?_cons_of_ne_nil hmore] at hc
        exact ih hlast c hc
    | hne rule hrule => exact (hne rule hrule).1

end

end Reckoner.Text
