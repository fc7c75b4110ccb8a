import Mathlib.Data.List.Chain
import Mathlib.Data.List.DropRight

/-!
# Slugs

A slug keeps some symbols of a word and writes one separator for each run of others between
them.  What the word has at its ends beside the symbols that are kept does not show, and a slug
is its own slug.

Main results:

- Definition {lit}`slug`: the slug of a word.
- Theorems {lit}`slug_cons`, {lit}`slug_concat`: ends that are not kept do not show.
- Theorem {lit}`slug_eq_self_iff`: slugs are the words that slugging leaves alone.
-/

namespace Text

variable {α : Type} {keep : α → Bool} {sep : α} {a : α} {l : List α}

/-- One separator for every run of symbols that are not kept.  The flag tells whether the
symbol before was part of a run. -/
def collapse (keep : α → Bool) (sep : α) : Bool → List α → List α
  | _, [] => []
  | inRun, a :: rest =>
    if keep a then a :: collapse keep sep false rest
    else if inRun then collapse keep sep true rest
    else sep :: collapse keep sep true rest

/-- The words of kept symbols with single separators between them. -/
structure IsSlug (keep : α → Bool) (sep : α) (l : List α) : Prop where
  symbols : ∀ a ∈ l, keep a ∨ a = sep
  single : l.IsChain fun a b => a = sep → b ≠ sep
  head : l.head? ≠ some sep
  last : l.getLast? ≠ some sep

/-- A symbol at the end that is not kept adds a separator, or nothing. -/
theorem collapse_concat (ha : keep a = false) (inRun : Bool) (l : List α) :
    collapse keep sep inRun (l ++ [a]) = collapse keep sep inRun l ∨
      collapse keep sep inRun (l ++ [a]) = collapse keep sep inRun l ++ [sep] := by
  induction l generalizing inRun with
  | nil => cases inRun <;> simp [collapse, ha]
  | cons b rest ih =>
      by_cases hb : keep b
      · simpa [collapse, hb] using ih false
      · cases inRun <;> simpa [collapse, hb] using ih true

theorem collapse_symbols (inRun : Bool) (l : List α) :
    ∀ a ∈ collapse keep sep inRun l, keep a ∨ a = sep := by
  induction l generalizing inRun with
  | nil => simp [collapse]
  | cons b rest ih =>
      by_cases hb : keep b
      · simpa [collapse, hb] using ih false
      · cases inRun <;> simpa [collapse, hb] using ih true

/-- Separators stand alone, and none follows a run at once. -/
theorem collapse_single (hsep : keep sep = false) (inRun : Bool) (l : List α) :
    (collapse keep sep inRun l).IsChain (fun a b => a = sep → b ≠ sep) ∧
      (inRun = true → (collapse keep sep inRun l).head? ≠ some sep) := by
  induction l generalizing inRun with
  | nil => simp [collapse]
  | cons b rest ih =>
      by_cases hb : keep b
      · have hne : b ≠ sep := by
          rintro rfl
          exact Bool.false_ne_true (hsep.symm.trans hb)
        refine ⟨?_, by simp [collapse, hb, hne]⟩
        rw [collapse, if_pos hb]
        exact List.isChain_cons.mpr ⟨fun c _ heq => absurd heq hne, (ih false).1⟩
      · obtain ⟨hchain, hhead⟩ := ih true
        cases inRun with
        | true => simpa [collapse, hb] using ⟨hchain, hhead rfl⟩
        | false =>
            refine ⟨?_, by simp⟩
            rw [collapse, if_neg hb, if_neg (by simp)]
            refine List.isChain_cons.mpr ⟨fun c hc _ heq => hhead rfl ?_, hchain⟩
            exact (Option.mem_def.mp hc).trans (congrArg some heq)

/-- What has single separators is collapsed already. -/
theorem collapse_eq_self {inRun : Bool} (hsep : keep sep = false)
    (hsymbols : ∀ a ∈ l, keep a ∨ a = sep) (hsingle : l.IsChain fun a b => a = sep → b ≠ sep)
    (hhead : inRun = true → l.head? ≠ some sep) : collapse keep sep inRun l = l := by
  induction l generalizing inRun with
  | nil => rfl
  | cons b rest ih =>
      rw [List.forall_mem_cons] at hsymbols
      obtain ⟨hfirst, hrest⟩ := List.isChain_cons.mp hsingle
      by_cases hb : keep b
      · rw [collapse, if_pos hb, ih hsymbols.2 hrest (by simp)]
      · obtain rfl := hsymbols.1.resolve_left hb
        have hopen : inRun = false := by
          by_contra hrun
          exact hhead (by simpa using hrun) rfl
        rw [collapse, if_neg hb, hopen, if_neg (by simp),
          ih hsymbols.2 hrest fun _ hnext => hfirst _ hnext rfl rfl]

/-- Two words of kept symbols with one separator between them. -/
theorem isSlug_join (hsep : keep sep = false) {m : List α} (hl : ∀ a ∈ l, keep a)
    (hm : ∀ a ∈ m, keep a) (hl' : l ≠ []) (hm' : m ≠ []) : IsSlug keep sep (l ++ sep :: m) := by
  have hne {a : α} (ha : keep a) : a ≠ sep := by
    rintro rfl
    exact Bool.false_ne_true (hsep.symm.trans ha)
  have hword {w : List α} (hw : ∀ a ∈ w, keep a) : w.IsChain fun a b => a = sep → b ≠ sep :=
    (List.pairwise_of_forall_mem_list fun a ha _ _ heq => absurd heq (hne (hw a ha))).isChain
  refine ⟨?_, ?_, ?_, ?_⟩
  · intro a ha
    rcases List.mem_append.mp ha with ha | ha
    · exact .inl (hl a ha)
    · rcases List.mem_cons.mp ha with rfl | ha
      · exact .inr rfl
      · exact .inl (hm a ha)
  · refine List.isChain_append.mpr ⟨hword hl, List.isChain_cons.mpr ⟨?_, hword hm⟩, ?_⟩
    · exact fun b hb _ => hne (hm b (List.mem_of_mem_head? hb))
    · exact fun a ha _ _ heq => absurd heq (hne (hl a (List.mem_of_getLast? ha)))
  · rw [List.head?_append_of_ne_nil _ hl']
    exact fun hhead => hne (hl sep (List.mem_of_mem_head? hhead)) rfl
  · rw [List.getLast?_append_cons, List.getLast?_cons_of_ne_nil hm']
    exact fun hlast => hne (hm sep (List.mem_of_getLast? hlast)) rfl

variable [DecidableEq α]

/-- A word without the separators at its ends. -/
def trimEnds (sep : α) (l : List α) : List α :=
  (l.dropWhile (· = sep)).rdropWhile (· = sep)

/-- The slug of a word. -/
def slug (keep : α → Bool) (sep : α) (l : List α) : List α :=
  trimEnds sep (collapse keep sep false l)

/-! ## Ends that are not kept -/

/-- Whether a run has begun shows in a separator at the front only. -/
theorem dropWhile_collapse (l : List α) :
    (collapse keep sep true l).dropWhile (· = sep) =
      (collapse keep sep false l).dropWhile (· = sep) := by
  cases l with
  | nil => rfl
  | cons a rest => by_cases ha : keep a <;> simp [collapse, ha]

theorem slug_cons (ha : keep a = false) (l : List α) :
    slug keep sep (a :: l) = slug keep sep l := by
  have hdrop : (collapse keep sep false (a :: l)).dropWhile (· = sep) =
      (collapse keep sep false l).dropWhile (· = sep) := by
    simp [collapse, ha, dropWhile_collapse]
  rw [slug, slug, trimEnds, trimEnds, hdrop]

theorem trimEnds_concat (l : List α) : trimEnds sep (l ++ [sep]) = trimEnds sep l := by
  unfold trimEnds
  rw [List.dropWhile_append]
  split
  · rename_i hempty
    rw [List.isEmpty_iff] at hempty
    simp [hempty]
  · exact List.rdropWhile_concat_pos _ _ _ (by simp)

theorem slug_concat (ha : keep a = false) (l : List α) :
    slug keep sep (l ++ [a]) = slug keep sep l := by
  unfold slug
  have hconcat : collapse keep sep false (l ++ [a]) = collapse keep sep false l ∨
      collapse keep sep false (l ++ [a]) = collapse keep sep false l ++ [sep] :=
    collapse_concat ha false l
  rcases hconcat with heq | heq
  · rw [heq]
  · rw [heq, trimEnds_concat]

/-- Nothing at the front that is not kept shows. -/
theorem slug_append_left {m : List α} (hm : ∀ a ∈ m, keep a = false) (l : List α) :
    slug keep sep (m ++ l) = slug keep sep l := by
  induction m with
  | nil => rfl
  | cons a rest ih =>
      rw [List.forall_mem_cons] at hm
      rw [List.cons_append, slug_cons hm.1, ih hm.2]

/-- Nothing at the end that is not kept shows. -/
theorem slug_append_right {m : List α} (hm : ∀ a ∈ m, keep a = false) (l : List α) :
    slug keep sep (l ++ m) = slug keep sep l := by
  induction m generalizing l with
  | nil => rw [List.append_nil]
  | cons a rest ih =>
      rw [List.forall_mem_cons] at hm
      rw [List.append_cons, ih hm.2, slug_concat hm.1]

/-! ## Slugs of slugs -/

/-- What is trimmed is a part of the list. -/
theorem exists_append_trimEnds (sep : α) (l : List α) :
    ∃ front back, front ++ trimEnds sep l ++ back = l := by
  obtain ⟨front, hfront⟩ := List.dropWhile_suffix (l := l) (· = sep)
  obtain ⟨back, hback⟩ := List.rdropWhile_prefix (· = sep) (l.dropWhile (· = sep))
  refine ⟨front, back, ?_⟩
  rw [List.append_assoc, trimEnds, hback, hfront]

theorem trimEnds_subset (l : List α) : trimEnds sep l ⊆ l := by
  obtain ⟨front, back, heq⟩ := exists_append_trimEnds sep l
  intro a ha
  rw [← heq]
  exact List.mem_append_left _ (List.mem_append_right _ ha)

theorem isChain_trimEnds {r : α → α → Prop} {l : List α} (h : l.IsChain r) :
    (trimEnds sep l).IsChain r := by
  obtain ⟨front, back, heq⟩ := exists_append_trimEnds sep l
  rw [← heq] at h
  exact h.left_of_append.right_of_append

theorem isSlug_slug (hsep : keep sep = false) (l : List α) :
    IsSlug keep sep (slug keep sep l) where
  symbols := fun a ha => collapse_symbols false l a (trimEnds_subset _ ha)
  single := isChain_trimEnds (collapse_single hsep false l).1
  head := by
    intro hhead
    obtain ⟨tail, htail⟩ := List.rdropWhile_prefix (· = sep)
      ((collapse keep sep false l).dropWhile (· = sep))
    have hfirst : ((collapse keep sep false l).dropWhile (· = sep)).head? = some sep := by
      rw [← htail, List.head?_append]
      exact Option.or_eq_some_iff.mpr (.inl hhead)
    have hnot := List.head?_dropWhile_not (· = sep) (collapse keep sep false l)
    rw [hfirst] at hnot
    simp at hnot
  last := by
    intro hlast
    have hne : slug keep sep l ≠ [] := by
      intro hempty
      rw [hempty] at hlast
      cases hlast
    rw [List.getLast?_eq_some_getLast hne] at hlast
    exact List.rdropWhile_last_not (· = sep) _ hne (decide_eq_true (Option.some.inj hlast))

/-- Slugs are the words that slugging leaves alone. -/
theorem slug_eq_self_iff (hsep : keep sep = false) :
    slug keep sep l = l ↔ IsSlug keep sep l := by
  refine ⟨fun heq => heq ▸ isSlug_slug hsep l, fun h => ?_⟩
  have hdrop : l.dropWhile (· = sep) = l := by
    cases l with
    | nil => rfl
    | cons a rest => simpa using fun heq => h.head (congrArg some heq)
  have hrdrop : l.rdropWhile (· = sep) = l := by
    refine List.rdropWhile_eq_self_iff.mpr fun hne hlast => h.last ?_
    rw [List.getLast?_eq_some_getLast hne]
    exact congrArg some (of_decide_eq_true hlast)
  rw [slug, collapse_eq_self hsep h.symbols h.single (by simp), trimEnds, hdrop, hrdrop]

end Text
