import RubyBinding.Text.Blank

/-!
# Words of a text

The words of a text are what its blanks leave of it: put together they are the text without blanks
(`Text.flatten_words`), and a blank always stands between two words (`Text.words_append_blank`).
-/

namespace RubyBinding.Text

variable {c b : Char} {cs : List Char}

theorem flatten_extendHead (c : Char) (ws : List (List Char)) :
    (extendHead c ws).flatten = c :: ws.flatten := by
  cases ws <;> rfl

/-- The words of a text are the text without its blanks. -/
theorem flatten_words (cs : List Char) : (words cs).flatten = cs.filter (!isBlank ·) := by
  fun_induction words cs with
  | case1 => rfl
  | case2 c h => simp [h]
  | case3 c h => simp [h]
  | case4 c d r h ih => rw [List.filter_cons_of_neg (by simp [h]), ih]
  | case5 c d r hc hd ih =>
    rw [List.filter_cons_of_pos (by simp [hc]), List.flatten_cons, ih, List.singleton_append]
  | case6 c d r hc hd ih =>
    rw [List.filter_cons_of_pos (by simp [hc]), flatten_extendHead, ih]

/-- A text that begins with no blank begins with a word. -/
theorem words_ne_nil (hc : isBlank c = false) (cs : List Char) : words (c :: cs) ≠ [] := by
  intro h
  have hflat := flatten_words (c :: cs)
  rw [h, List.filter_cons_of_pos (by simp [hc])] at hflat
  cases hflat

theorem words_cons_blank (hb : isBlank b) (cs : List Char) : words (b :: cs) = words cs := by
  cases cs with
  | nil => simp [words, hb]
  | cons d r => rw [words, if_pos hb]

/-- A blank ends a word. -/
theorem words_append_blank (hb : isBlank b) (cs ds : List Char) :
    words (cs ++ b :: ds) = words cs ++ words ds := by
  fun_induction words cs with
  | case1 => exact words_cons_blank hb ds
  | case2 c h =>
    rw [List.singleton_append, words_cons_blank h, words_cons_blank hb, List.nil_append]
  | case3 c h =>
    rw [List.singleton_append, words, if_neg h, if_pos hb, words_cons_blank hb]
    rfl
  | case4 c d r h ih => rw [List.cons_append, words_cons_blank h, ih]
  | case5 c d r hc hd ih =>
    rw [List.cons_append, List.cons_append, words, if_neg hc, if_pos hd, ← List.cons_append, ih]
    rfl
  | case6 c d r hc hd ih =>
    rw [List.cons_append, List.cons_append, words, if_neg hc, if_neg hd, ← List.cons_append, ih]
    obtain ⟨w, ws, hw⟩ := List.exists_cons_of_ne_nil (words_ne_nil (by simpa using hd) r)
    rw [hw]
    rfl

/-- Whatever is no blank survives trimming. -/
theorem mem_trim (hc : c ∈ cs) (hblank : isBlank c = false) : c ∈ trim cs := by
  have hdrop : ∀ cs : List Char, c ∈ cs → c ∈ cs.dropWhile isBlank := by
    intro cs hcs
    rw [← List.takeWhile_append_dropWhile (p := isBlank) (l := cs), List.mem_append] at hcs
    rcases hcs with hcs | hcs
    · have hc := List.all_eq_true.mp List.all_takeWhile c hcs
      rw [hblank] at hc
      cases hc
    · exact hcs
  rw [trim, trimEnd, dropEndWhile, List.mem_reverse]
  exact hdrop _ (List.mem_reverse.mpr (hdrop _ hc))

/-- Whatever is no blank stands in a word. -/
theorem exists_word_of_mem (hc : c ∈ cs) (hblank : isBlank c = false) : ∃ w ∈ words cs, c ∈ w := by
  have hmem : c ∈ (words cs).flatten := by
    rw [flatten_words]
    exact List.mem_filter.mpr ⟨hc, by simp [hblank]⟩
  exact List.mem_flatten.mp hmem

end RubyBinding.Text
