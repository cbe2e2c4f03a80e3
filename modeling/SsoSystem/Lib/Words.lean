/-
SsoSystem.Lib.Words — a text split into words at runs of a separator, and
words taken two by two.

`words` never yields an empty word, so a blank value leaves no word behind and
a value with separators leaves several. The rules a command line proof needs
are `words_append_sep` (the words of two texts with a separator between them)
and `words_of_isWord`. `pairUp` takes items as pairs, if their number is even.
-/
import Mathlib.Data.List.Basic

namespace SsoSystem.Words

open List Option

variable {α : Type} [DecidableEq α] {sep : α}

/-- The words of a text, the first of them begun with `word`. -/
def wordsFrom (sep : α) : (word : List α) → List α → List (List α)
  | word, [] => if word = [] then [] else [word]
  | word, a :: as =>
    if a = sep then
      if word = [] then wordsFrom sep [] as else word :: wordsFrom sep [] as
    else wordsFrom sep (word ++ [a]) as

/-- The words between runs of the separator. -/
def words (sep : α) (text : List α) : List (List α) := wordsFrom sep [] text

/-- A text that is one word. -/
def IsWord (sep : α) (text : List α) : Prop := text ≠ [] ∧ sep ∉ text

instance (text : List α) : Decidable (IsWord sep text) :=
  inferInstanceAs (Decidable (text ≠ [] ∧ sep ∉ text))

theorem wordsFrom_append_sep (word as bs : List α) :
    wordsFrom sep word (as ++ sep :: bs) = wordsFrom sep word as ++ words sep bs := by
  induction as generalizing word with
  | nil =>
    simp only [nil_append, wordsFrom, if_true]
    split <;> rfl
  | cons a as ih =>
    simp only [cons_append, wordsFrom]
    split
    · split
      · exact ih []
      · rw [ih [], cons_append]
    · exact ih (word ++ [a])

theorem words_append_sep (as bs : List α) :
    words sep (as ++ sep :: bs) = words sep as ++ words sep bs :=
  wordsFrom_append_sep [] as bs

variable {as word text w : List α} {pairs : List (List α × List α)}

theorem wordsFrom_of_not_mem (has : sep ∉ as) :
    wordsFrom sep word as = if word ++ as = [] then [] else [word ++ as] := by
  induction as generalizing word with
  | nil => rw [wordsFrom, append_nil]
  | cons a as ih =>
    obtain ⟨ha, has⟩ := not_or.mp (mem_cons.not.mp has)
    rw [wordsFrom, if_neg (fun h => ha h.symm), ih has, append_assoc, singleton_append]

theorem words_of_isWord (h : IsWord sep text) : words sep text = [text] := by
  rw [words, wordsFrom_of_not_mem h.2, nil_append, if_neg h.1]

theorem isWord_of_mem_wordsFrom (hword : sep ∉ word) (h : w ∈ wordsFrom sep word as) :
    IsWord sep w := by
  induction as generalizing word with
  | nil =>
    rw [wordsFrom] at h
    split at h
    · cases h
    · next hne =>
      obtain rfl := mem_singleton.mp h
      exact ⟨hne, hword⟩
  | cons a as ih =>
    rw [wordsFrom] at h
    split at h
    · split at h
      · exact ih not_mem_nil h
      · next hne =>
        rcases mem_cons.mp h with rfl | h
        · exact ⟨hne, hword⟩
        · exact ih not_mem_nil h
    · next ha =>
      refine ih ?_ h
      rw [mem_append, mem_singleton]
      rintro (hmem | rfl)
      · exact hword hmem
      · exact ha rfl

theorem isWord_of_mem_words (h : w ∈ words sep text) : IsWord sep w :=
  isWord_of_mem_wordsFrom not_mem_nil h

/-- The letters of a word are letters of the text. -/
theorem subset_of_mem_wordsFrom (h : w ∈ wordsFrom sep word as) : w ⊆ word ++ as := by
  induction as generalizing word with
  | nil =>
    rw [wordsFrom] at h
    split at h
    · cases h
    · obtain rfl := mem_singleton.mp h
      rw [append_nil]
      exact List.Subset.refl _
  | cons a as ih =>
    have htail : as ⊆ word ++ a :: as := fun b hb =>
      mem_append_right _ (mem_cons_of_mem _ hb)
    rw [wordsFrom] at h
    split at h
    · split at h
      · exact List.Subset.trans (ih h) htail
      · rcases mem_cons.mp h with rfl | h
        · exact subset_append_left _ _
        · exact List.Subset.trans (ih h) htail
    · have := ih h
      rwa [append_assoc, singleton_append] at this

theorem subset_of_mem_words (h : w ∈ words sep text) : w ⊆ text :=
  subset_of_mem_wordsFrom h

theorem words_append_flatMap (text : List α) (texts : List (List α)) :
    words sep (text ++ texts.flatMap (sep :: ·)) = words sep text ++ texts.flatMap (words sep) := by
  induction texts generalizing text with
  | nil => simp only [flatMap_nil, append_nil]
  | cons t texts ih =>
    rw [flatMap_cons, cons_append, words_append_sep, ih, flatMap_cons]

/-! ## §2 Pairs -/

/-- The items of a list two by two. -/
def pairUp {β : Type} : List β → Option (List (β × β))
  | [] => some []
  | [_] => none
  | a :: b :: rest => (pairUp rest).map fun ps => (a, b) :: ps

theorem mem_of_mem_pairUp {β : Type} {bs : List β} {ps : List (β × β)} (h : pairUp bs = some ps)
    {p : β × β} (hp : p ∈ ps) : p.1 ∈ bs ∧ p.2 ∈ bs := by
  induction bs using pairUp.induct generalizing ps with
  | case1 =>
    cases h
    cases hp
  | case2 => cases h
  | case3 a b rest ih =>
    obtain ⟨ps', hps', rfl⟩ := map_eq_some_iff.mp h
    rcases mem_cons.mp hp with rfl | hp
    · exact ⟨mem_cons_self, mem_cons_of_mem _ mem_cons_self⟩
    · obtain ⟨h1, h2⟩ := ih hps' hp
      exact ⟨mem_cons_of_mem _ (mem_cons_of_mem _ h1), mem_cons_of_mem _ (mem_cons_of_mem _ h2)⟩

/-- A list of names and values, each name one word and each value as many words as it has. -/
def wordsOfPairs (sep : α) (pairs : List (List α × List α)) : List (List α) :=
  pairs.flatMap fun p => p.1 :: words sep p.2

theorem pairUp_wordsOfPairs
    (h : ∀ p ∈ pairs, IsWord sep p.2) : pairUp (wordsOfPairs sep pairs) = some pairs := by
  induction pairs with
  | nil => rfl
  | cons p pairs ih =>
    have hp := words_of_isWord (h p mem_cons_self)
    have ih := ih fun q hq => h q (mem_cons_of_mem _ hq)
    rw [wordsOfPairs] at ih
    rw [wordsOfPairs, flatMap_cons, hp]
    simp only [cons_append, nil_append, pairUp, ih, map_some]

/-- The first value that is not one word still has its name where a name stands. -/
theorem exists_paired_of_not_isWord {pairs qs : List (List α × List α)}
    (hqs : pairUp (wordsOfPairs sep pairs) = some qs) (h : ¬ ∀ p ∈ pairs, IsWord sep p.2) :
    ∃ p ∈ pairs, ¬ IsWord sep p.2 ∧ ∃ w, (p.1, w) ∈ qs := by
  induction pairs generalizing qs with
  | nil => exact absurd (fun p hp => absurd hp not_mem_nil) h
  | cons p pairs ih =>
    rw [wordsOfPairs, flatMap_cons, cons_append] at hqs
    by_cases hp : IsWord sep p.2
    · rw [words_of_isWord hp, cons_append, nil_append, pairUp] at hqs
      obtain ⟨qs', hqs', rfl⟩ := map_eq_some_iff.mp hqs
      have hrest : ¬ ∀ q ∈ pairs, IsWord sep q.2 := fun hall =>
        h (forall_mem_cons.mpr ⟨hp, hall⟩)
      obtain ⟨q, hq, hnot, w, hw⟩ := ih hqs' hrest
      exact ⟨q, mem_cons_of_mem _ hq, hnot, w, mem_cons_of_mem _ hw⟩
    · refine ⟨p, mem_cons_self, hp, ?_⟩
      -- whatever word comes next is taken as the value
      generalize words sep p.2 ++ pairs.flatMap (fun p => p.1 :: words sep p.2) = rest at hqs
      cases rest with
      | nil => cases hqs
      | cons w rest =>
        obtain ⟨qs', -, rfl⟩ := map_eq_some_iff.mp hqs
        exact ⟨w, mem_cons_self⟩

end SsoSystem.Words
