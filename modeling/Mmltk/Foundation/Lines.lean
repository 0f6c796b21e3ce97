import Mathlib.Data.List.Basic

namespace Mmltk.Foundation

/-! Lists cut at a mark: the lines that are complete, and the one that is not. -/

section

variable {α : Type} [DecidableEq α] (mark : α)

def completeLines : List α → List (List α)
  | [] => []
  | item :: rest =>
      if item = mark then [] :: completeLines rest
      else
        match completeLines rest with
        | [] => []
        | line :: lines => (item :: line) :: lines

def unfinished : List α → List α
  | [] => []
  | item :: rest =>
      if item = mark then unfinished rest
      else
        match completeLines mark rest with
        | [] => item :: unfinished rest
        | _ :: _ => unfinished rest

/-- Every line and its mark. -/
def joined (lines : List (List α)) : List α := lines.flatMap (· ++ [mark])

end

section

variable {α : Type} {mark : α}

@[simp] theorem joined_nil : joined mark [] = [] := rfl

@[simp] theorem joined_cons (line : List α) (lines : List (List α)) :
    joined mark (line :: lines) = line ++ mark :: joined mark lines := by
  rw [joined, List.flatMap_cons, List.append_assoc]
  rfl

theorem joined_append (first second : List (List α)) :
    joined mark (first ++ second) = joined mark first ++ joined mark second :=
  List.flatMap_append

theorem getElem?_joined {lines : List (List α)} (rest : List α)
    (h : (joined mark lines).length ≠ 0) :
    (joined mark lines ++ rest)[(joined mark lines).length - 1]? = some mark := by
  rcases List.eq_nil_or_concat lines with rfl | ⟨front, line, rfl⟩
  · exact absurd rfl h
  · rw [List.concat_eq_append, joined_append, joined_cons, joined_nil, ← List.append_assoc,
      List.length_append, List.length_singleton, Nat.add_sub_cancel, List.append_assoc,
      List.getElem?_append_right (Nat.le_refl _), Nat.sub_self]
    rfl

end

section

variable {α : Type} [DecidableEq α] {mark : α} {line items rest : List α} {lines : List (List α)}

theorem completeLines_of_not_mem (h : mark ∉ items) : completeLines mark items = [] := by
  induction items with
  | nil => rfl
  | cons item items ih =>
      rw [List.mem_cons, not_or] at h
      rw [completeLines, if_neg (Ne.symm h.1), ih h.2]

theorem unfinished_of_not_mem (h : mark ∉ items) : unfinished mark items = items := by
  induction items with
  | nil => rfl
  | cons item items ih =>
      rw [List.mem_cons, not_or] at h
      rw [unfinished, if_neg (Ne.symm h.1), completeLines_of_not_mem h.2, ih h.2]

theorem completeLines_line (h : mark ∉ line) :
    completeLines mark (line ++ mark :: rest) = line :: completeLines mark rest := by
  induction line with
  | nil => rw [List.nil_append, completeLines, if_pos rfl]
  | cons item line ih =>
      rw [List.mem_cons, not_or] at h
      rw [List.cons_append, completeLines, if_neg (Ne.symm h.1), ih h.2]

theorem unfinished_line (h : mark ∉ line) :
    unfinished mark (line ++ mark :: rest) = unfinished mark rest := by
  induction line with
  | nil => rw [List.nil_append, unfinished, if_pos rfl]
  | cons item line ih =>
      rw [List.mem_cons, not_or] at h
      rw [List.cons_append, unfinished, if_neg (Ne.symm h.1), completeLines_line h.2, ih h.2]

theorem completeLines_joined (h : ∀ line ∈ lines, mark ∉ line) :
    completeLines mark (joined mark lines ++ rest) = lines ++ completeLines mark rest := by
  induction lines with
  | nil => rfl
  | cons line lines ih =>
      obtain ⟨hline, hlines⟩ := List.forall_mem_cons.mp h
      rw [joined_cons, List.append_assoc, List.cons_append, completeLines_line hline, ih hlines]
      rfl

omit [DecidableEq α] in
/-- A list is its complete lines and what comes after the last mark. -/
theorem exists_lines (items : List α) : ∃ lines tail, items = joined mark lines ++ tail ∧
    (∀ line ∈ lines, mark ∉ line) ∧ mark ∉ tail := by
  induction items with
  | nil => exact ⟨[], [], rfl, nofun, List.not_mem_nil⟩
  | cons item items ih =>
      obtain ⟨lines, tail, hitems, hlines, htail⟩ := ih
      rcases eq_or_ne item mark with rfl | hne
      · refine ⟨[] :: lines, tail, by rw [hitems]; rfl, ?_, htail⟩
        exact List.forall_mem_cons.mpr ⟨List.not_mem_nil, hlines⟩
      · cases lines with
        | nil =>
            refine ⟨[], item :: tail, by rw [hitems]; rfl, nofun, ?_⟩
            rw [List.mem_cons, not_or]
            exact ⟨hne.symm, htail⟩
        | cons line lines =>
            obtain ⟨hline, hrest⟩ := List.forall_mem_cons.mp hlines
            refine ⟨(item :: line) :: lines, tail, by rw [hitems]; rfl, ?_, htail⟩
            refine List.forall_mem_cons.mpr ⟨?_, hrest⟩
            rw [List.mem_cons, not_or]
            exact ⟨hne.symm, hline⟩

theorem completeLines_eq (hlines : ∀ line ∈ lines, mark ∉ line) (hrest : mark ∉ rest) :
    completeLines mark (joined mark lines ++ rest) = lines := by
  rw [completeLines_joined hlines, completeLines_of_not_mem hrest, List.append_nil]

theorem unfinished_joined (hlines : ∀ line ∈ lines, mark ∉ line) :
    unfinished mark (joined mark lines ++ rest) = unfinished mark rest := by
  induction lines with
  | nil => rfl
  | cons line lines ih =>
      obtain ⟨hline, hrest⟩ := List.forall_mem_cons.mp hlines
      rw [joined_cons, List.append_assoc, List.cons_append, unfinished_line hline, ih hrest]

theorem joined_completeLines (items : List α) :
    joined mark (completeLines mark items) ++ unfinished mark items = items := by
  obtain ⟨lines, tail, rfl, hlines, htail⟩ := (@exists_lines _ mark) items
  rw [completeLines_eq hlines htail, unfinished_joined hlines, unfinished_of_not_mem htail]

theorem not_mem_completeLines (h : line ∈ completeLines mark items) : mark ∉ line := by
  obtain ⟨lines, tail, rfl, hlines, htail⟩ := (@exists_lines _ mark) items
  rw [completeLines_eq hlines htail] at h
  exact hlines line h

theorem not_mem_unfinished (items : List α) : mark ∉ unfinished mark items := by
  obtain ⟨lines, tail, rfl, hlines, htail⟩ := (@exists_lines _ mark) items
  rw [unfinished_joined hlines, unfinished_of_not_mem htail]
  exact htail

/-- What is appended does not change the lines that were complete. -/
theorem completeLines_mono (h : items <+: rest) :
    completeLines mark items <+: completeLines mark rest := by
  obtain ⟨more, rfl⟩ := h
  refine ⟨completeLines mark (unfinished mark items ++ more), ?_⟩
  conv_rhs => rw [← (@joined_completeLines _ _ mark) items, List.append_assoc,
    completeLines_joined fun _ => not_mem_completeLines]

end

end Mmltk.Foundation
