import Mathlib.Data.List.Infix
import Reckoner.Proofs.Text.Rewrite

/-!
# Words in a rewritten text

A word in small letters stands in a text where some capitals and small letters of the text spell it. A pass that replaces
patterns puts no word together if the word keeps apart from the replacements, and it breaks no word up that shares no
character with the patterns.
-/

namespace Reckoner.Text

set_option autoImplicit false

/-! ## Words and replacements -/

/-- No occurrence of the word can overlap an occurrence of the replacement. -/
structure Apart (word replacement : List Char) : Prop where
  within : ¬ word <:+: replacement
  /-- No end of the word is the beginning of a replacement, and none goes over a whole one. -/
  front : ∀ u ∈ word.tails, u ≠ [] → ¬ u <+: replacement ∧ ¬ replacement <+: u
  /-- No beginning of the word is the end of a replacement. -/
  back : ∀ u ∈ word.inits, u ≠ [] → ¬ u <:+ replacement

instance (word replacement : List Char) : Decidable (Apart word replacement) :=
  decidable_of_iff (¬ word <:+: replacement ∧ (∀ u ∈ word.tails, u ≠ [] → ¬ u <+: replacement ∧ ¬ replacement <+: u) ∧
      ∀ u ∈ word.inits, u ≠ [] → ¬ u <:+ replacement)
    ⟨fun ⟨within, front, back⟩ => ⟨within, front, back⟩, fun ⟨within, front, back⟩ => ⟨within, front, back⟩⟩

theorem apart_of_disjoint {word replacement : List Char} (hword : word ≠ []) (hreplacement : replacement ≠ [])
    (h : ∀ c ∈ word, c ∉ replacement) : Apart word replacement where
  within hpart := by
    obtain ⟨c, hc⟩ := List.exists_mem_of_ne_nil word hword
    exact h c hc (hpart.subset hc)
  front u hu hne := by
    have hsuffix : u <:+ word := (List.mem_tails u word).mp hu
    constructor
    · intro hbegin
      obtain ⟨c, hc⟩ := List.exists_mem_of_ne_nil u hne
      exact h c (hsuffix.subset hc) (hbegin.subset hc)
    · intro hbegin
      obtain ⟨c, hc⟩ := List.exists_mem_of_ne_nil replacement hreplacement
      exact h c (hsuffix.subset (hbegin.subset hc)) hc
  back u hu hne hsuffix := by
    obtain ⟨c, hc⟩ := List.exists_mem_of_ne_nil u hne
    exact h c (((List.mem_inits u word).mp hu).subset hc) (hsuffix.subset hc)

theorem lower_append (front back : List Char) : lower (front ++ back) = lower front ++ lower back :=
  List.map_append

theorem lower_cons (c : Char) (text : List Char) : lower (c :: text) = c.toLower :: lower text := rfl

section
variable {rules : List Rule} {word text : List Char} (hne : ∀ rule ∈ rules, rule.1 ≠ [])
include hne

/-! ## No word is put together -/

/-- An end of the word in front of the result stood in front of the text. -/
theorem prefix_of_prefix_together (h : ∀ rule ∈ rules, Apart word (lower rule.2)) {u : List Char} (hu : u <:+ word)
    (hbegin : u <+: lower (replaceTogether rules text)) : u <+: lower text := by
  induction text using together_induction rules generalizing u with
  | nil => rwa [replaceTogether_nil] at hbegin
  | rule rule behind hrule hstanding _ =>
    rw [replaceTogether_rule (hne rule hrule) hstanding, lower_append] at hbegin
    by_cases hnil : u = []
    · rw [hnil]
      exact List.nil_prefix
    · obtain ⟨hshort, hlong⟩ := (h rule hrule).front u ((List.mem_tails u word).mpr hu) hnil
      rcases List.prefix_or_prefix_of_prefix hbegin (List.prefix_append _ _) with hinside | hover
      · exact absurd hinside hshort
      · exact absurd hover hlong
  | char c rest hnone ih =>
    rw [replaceTogether_char hnone, lower_cons] at hbegin
    cases u with
    | nil => exact List.nil_prefix
    | cons d u =>
      obtain ⟨rfl, hrest⟩ := List.cons_prefix_cons.mp hbegin
      exact List.cons_prefix_cons.mpr ⟨rfl, ih ((List.suffix_cons _ u).trans hu) hrest⟩
  | hne rule hrule => exact hne rule hrule

theorem infix_of_infix_together (h : ∀ rule ∈ rules, Apart word (lower rule.2))
    (hpart : word <:+: lower (replaceTogether rules text)) : word <:+: lower text := by
  induction text using together_induction rules with
  | nil => rwa [replaceTogether_nil] at hpart
  | rule rule behind hrule hstanding ih =>
    rw [replaceTogether_rule (hne rule hrule) hstanding, lower_append] at hpart
    rw [lower_append]
    have hbehind : word <:+: lower (replaceTogether rules behind) → word <:+: lower rule.1 ++ lower behind :=
      fun hpart => (ih hpart).trans (List.suffix_append _ _).isInfix
    rcases List.infix_append_iff.mp hpart with hinside | hafter | ⟨u, v, hsplit, hu, hv⟩
    · exact absurd hinside (h rule hrule).within
    · exact hbehind hafter
    · by_cases hnil : u = []
      · rw [hnil, List.nil_append] at hsplit
        exact hbehind (hsplit ▸ hv.isInfix)
      · exact absurd hu ((h rule hrule).back u ((List.mem_inits u word).mpr ⟨v, hsplit.symm⟩) hnil)
  | char c rest hnone ih =>
    have hcons := replaceTogether_char hnone
    rw [hcons, lower_cons] at hpart
    rcases List.infix_cons_iff.mp hpart with hbegin | hrest
    · rw [← lower_cons, ← hcons] at hbegin
      exact (prefix_of_prefix_together hne h (List.suffix_refl word) hbegin).isInfix
    · exact (ih hrest).trans (List.suffix_cons _ _).isInfix
  | hne rule hrule => exact hne rule hrule

/-! ## No word is broken up -/

/-- A beginning without characters of the patterns stays in front of the text. -/
theorem prefix_together {u : List Char} (h : ∀ rule ∈ rules, ∀ c ∈ rule.1, c.toLower ∉ u)
    (hbegin : u <+: lower text) : u <+: lower (replaceTogether rules text) := by
  induction text using together_induction rules generalizing u with
  | nil => rwa [replaceTogether_nil]
  | rule rule behind hrule _ _ =>
    obtain ⟨c, more, hpattern⟩ := List.exists_cons_of_ne_nil (hne rule hrule)
    cases u with
    | nil => exact List.nil_prefix
    | cons d u =>
      rw [hpattern, List.cons_append, lower_cons] at hbegin
      have hhead : d = c.toLower := (List.cons_prefix_cons.mp hbegin).1
      exact absurd (hhead ▸ List.mem_cons_self) (h rule hrule c (by rw [hpattern]; exact List.mem_cons_self))
  | char c rest hnone ih =>
    rw [replaceTogether_char hnone, lower_cons]
    cases u with
    | nil => exact List.nil_prefix
    | cons d u =>
      obtain ⟨rfl, hrest⟩ := List.cons_prefix_cons.mp hbegin
      exact List.cons_prefix_cons.mpr ⟨rfl, ih (fun rule hrule e he hmem =>
        h rule hrule e he (List.mem_cons_of_mem _ hmem)) hrest⟩
  | hne rule hrule => exact hne rule hrule

theorem infix_together (h : ∀ rule ∈ rules, ∀ c ∈ rule.1, c.toLower ∉ word) (hpart : word <:+: lower text) :
    word <:+: lower (replaceTogether rules text) := by
  have hempty : ∀ rule ∈ rules, ∀ u, u <:+: word → u ⊆ lower rule.1 → u = [] := by
    intro rule hrule u hu hsubset
    refine List.eq_nil_iff_forall_not_mem.mpr fun c hc => ?_
    obtain ⟨d, hd, rfl⟩ := List.mem_map.mp (hsubset hc)
    exact h rule hrule d hd (hu.subset hc)
  induction text using together_induction rules with
  | nil => rwa [replaceTogether_nil]
  | rule rule behind hrule hstanding ih =>
    rw [replaceTogether_rule (hne rule hrule) hstanding, lower_append]
    rw [lower_append] at hpart
    have hbehind : word <:+: lower behind → word <:+: lower rule.2 ++ lower (replaceTogether rules behind) :=
      fun hpart => (ih hpart).trans (List.suffix_append _ _).isInfix
    rcases List.infix_append_iff.mp hpart with hinside | hafter | ⟨u, v, hsplit, hu, hv⟩
    · rw [hempty rule hrule word (List.infix_refl word) hinside.subset]
      exact List.nil_infix
    · exact hbehind hafter
    · have hnil := hempty rule hrule u ⟨[], v, by rw [hsplit, List.nil_append]⟩ hu.subset
      rw [hnil, List.nil_append] at hsplit
      exact hbehind (hsplit ▸ hv.isInfix)
  | char c rest hnone ih =>
    rw [lower_cons] at hpart
    rcases List.infix_cons_iff.mp hpart with hbegin | hrest
    · rw [← lower_cons] at hbegin
      exact (prefix_together hne h hbegin).isInfix
    · rw [replaceTogether_char hnone, lower_cons]
      exact (ih hrest).trans (List.suffix_cons _ _).isInfix
  | hne rule hrule => exact hne rule hrule

end

end Reckoner.Text
