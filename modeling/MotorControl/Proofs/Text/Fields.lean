/-
The words of a text.

A text is spaced if it is a row of words with blanks around them, at least one between
any two.  Every text is spaced in just one way, and `fields` finds it: how many blanks
there are, of which kind, and whether some stand at either end makes no difference.
-/
import MotorControl.Text.Fields

namespace MotorControl.Text

/-- Characters without a blank among them. -/
structure IsWord (word : List Char) : Prop where
  ne_nil : word ≠ []
  not_blank (c : Char) (h : c ∈ word) : isBlank c = false

/-- Nothing but blanks. -/
def IsGap (gap : List Char) : Prop := ∀ c ∈ gap, isBlank c = true

/-- A text whose words are the ones in the list. -/
inductive Spaced : List Char → List (List Char) → Prop
  | nil {gap : List Char} (hgap : IsGap gap) : Spaced gap []
  /-- What follows a word is the end of the text or a blank. -/
  | cons {gap word rest : List Char} {words : List (List Char)} (hgap : IsGap gap)
      (hword : IsWord word) (hend : ∀ c ∈ rest.head?, isBlank c = true) (h : Spaced rest words) :
      Spaced (gap ++ word ++ rest) (word :: words)

/-! ### The fields of a spaced text -/

theorem fields_cons_of_blank {c : Char} (hc : isBlank c = true) (cs : List Char) :
    fields (c :: cs) = fields cs := by
  simp [fields, pieces, hc]

theorem fields_gap_append {gap : List Char} (hgap : IsGap gap) (cs : List Char) :
    fields (gap ++ cs) = fields cs := by
  induction gap with
  | nil => rfl
  | cons c gap ih =>
      obtain ⟨hc, hrest⟩ := List.forall_mem_cons.mp hgap
      exact (fields_cons_of_blank hc (gap ++ cs)).trans (ih hrest)

/-- Characters that are not blank go to the piece that is open. -/
theorem pieces_append {word cs p : List Char} {ps : List (List Char)}
    (hword : ∀ c ∈ word, isBlank c = false) (hcs : pieces cs = p :: ps) :
    pieces (word ++ cs) = (word ++ p) :: ps := by
  induction word with
  | nil => exact hcs
  | cons c word ih =>
      obtain ⟨hc, hrest⟩ := List.forall_mem_cons.mp hword
      simp [pieces, hc, ih hrest]

/-- The piece that is open before a blank, or before the end, is empty. -/
theorem pieces_of_head {cs : List Char} (h : ∀ c ∈ cs.head?, isBlank c = true) :
    ∃ ps, pieces cs = [] :: ps := by
  cases cs with
  | nil => exact ⟨[], rfl⟩
  | cons c cs => exact ⟨pieces cs, if_pos (h c rfl)⟩

theorem fields_word_append {word rest : List Char} (hword : IsWord word)
    (hend : ∀ c ∈ rest.head?, isBlank c = true) :
    fields (word ++ rest) = word :: fields rest := by
  obtain ⟨ps, hps⟩ := pieces_of_head hend
  have hword' : word.isEmpty = false := List.isEmpty_eq_false_iff.mpr hword.ne_nil
  rw [fields, pieces_append hword.not_blank hps, fields, hps, List.append_nil]
  simp [hword']

theorem Spaced.fields_eq {cs : List Char} {words : List (List Char)} (h : Spaced cs words) :
    fields cs = words := by
  induction h with
  | nil hgap =>
      have hfields := fields_gap_append hgap []
      rwa [List.append_nil] at hfields
  | cons hgap hword hend _ ih =>
      rw [List.append_assoc, fields_gap_append hgap, fields_word_append hword hend, ih]

/-! ### Every text is spaced -/

theorem Spaced.word_append {word rest : List Char} {words : List (List Char)} (hword : IsWord word)
    (hend : ∀ c ∈ rest.head?, isBlank c = true) (h : Spaced rest words) :
    Spaced (word ++ rest) (word :: words) :=
  @Spaced.cons [] word rest words nofun hword hend h

theorem exists_spaced (cs : List Char) : ∃ words, Spaced cs words := by
  induction cs with
  | nil => exact ⟨[], .nil nofun⟩
  | cons c cs ih =>
      obtain ⟨words, h⟩ := ih
      cases hc : isBlank c with
      | true =>
          cases h with
          | nil hgap => exact ⟨[], .nil (List.forall_mem_cons.mpr ⟨hc, hgap⟩)⟩
          | cons hgap hword hend h =>
              exact ⟨_, .cons (List.forall_mem_cons.mpr ⟨hc, hgap⟩) hword hend h⟩
      | false =>
          have hsingle : IsWord [c] :=
            ⟨List.cons_ne_nil c [], List.forall_mem_singleton.mpr hc⟩
          cases h with
          | nil hgap =>
              exact ⟨_, .word_append hsingle (fun b hb => hgap b (List.mem_of_mem_head? hb))
                (.nil hgap)⟩
          | @cons gap word rest words hgap hword hend h =>
              cases gap with
              | nil =>
                  -- The word that begins the rest goes on to the left.
                  have hlonger : IsWord (c :: word) :=
                    ⟨List.cons_ne_nil c word, List.forall_mem_cons.mpr ⟨hc, hword.not_blank⟩⟩
                  exact ⟨_, .word_append hlonger hend h⟩
              | cons b gap =>
                  refine ⟨_, .word_append hsingle (fun c' hc' => ?_) (.cons hgap hword hend h)⟩
                  obtain rfl := Option.some.inj hc'
                  exact hgap b List.mem_cons_self

/-- The fields of a text are its words. -/
theorem fields_eq_iff {cs : List Char} {words : List (List Char)} :
    fields cs = words ↔ Spaced cs words := by
  constructor
  · rintro rfl
    obtain ⟨words, h⟩ := exists_spaced cs
    rwa [h.fields_eq]
  · exact Spaced.fields_eq

instance {cs : List Char} {words : List (List Char)} : Decidable (Spaced cs words) :=
  decidable_of_iff (fields cs = words) fields_eq_iff

end MotorControl.Text
