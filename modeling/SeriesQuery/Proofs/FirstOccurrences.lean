import Mathlib.Data.List.Basic

/-!
# First occurrences

Keys are listed in the order in which they first appear, each once. Both the series of resolved
targets and those that are gathered from slices are listed so.
-/

namespace SeriesQuery

variable {α : Type} [BEq α] [LawfulBEq α]

theorem nodup_eraseDups (l : List α) : l.eraseDups.Nodup := by
  match l with
  | [] => exact List.nodup_nil
  | a :: rest =>
      rw [List.eraseDups_cons, List.nodup_cons]
      refine ⟨fun ha => ?_, nodup_eraseDups (rest.filter fun b => !b == a)⟩
      have hne := (List.mem_filter.mp (List.mem_eraseDups.mp ha)).2
      rw [beq_self_eq_true] at hne
      cases hne
termination_by l.length
decreasing_by
  have := List.length_filter_le (fun b => !b == a) rest
  simp only [List.length_cons]
  omega

/-- What has occurred before adds nothing. -/
theorem eraseDups_append_of_mem {l : List α} {a : α} (h : a ∈ l) :
    (l ++ [a]).eraseDups = l.eraseDups := by
  have hnone : [a].removeAll l = [] := by
    unfold List.removeAll
    simp [h]
  rw [List.eraseDups_append, hnone, List.eraseDups_nil, List.append_nil]

/-- What has not occurred before comes last. -/
theorem eraseDups_append_of_not_mem {l : List α} {a : α} (h : a ∉ l) :
    (l ++ [a]).eraseDups = l.eraseDups ++ [a] := by
  have hone : [a].removeAll l = [a] := by
    unfold List.removeAll
    simp [h]
  rw [List.eraseDups_append, hone, List.eraseDups_cons]
  rfl

end SeriesQuery
