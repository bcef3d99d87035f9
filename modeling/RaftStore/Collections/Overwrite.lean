import Mathlib.Logic.Function.Basic
import Mathlib.Data.List.TakeDrop

namespace RaftStore
namespace Collections

/-!
# Overwriting

Writes to a total map, one after the other.  What a list of writes leaves at a
place is decided by the last write there, so that a list of writes hides all
earlier writes to the places it covers.
-/

section Overwrite

variable {κ ν : Type} [DecidableEq κ]

/-- Perform writes on a map, the first one first. -/
def overwrite (map : κ -> ν) (writes : List (κ × ν)) : κ -> ν :=
  writes.foldl (fun map write => Function.update map write.1 write.2) map

theorem overwrite_append (map : κ -> ν) (first second : List (κ × ν)) :
    overwrite map (first ++ second) = overwrite (overwrite map first) second :=
  List.foldl_append

/-- Two maps agree after the same writes wherever they agreed before or a write
went. -/
theorem overwrite_congr {left right : κ -> ν} {writes : List (κ × ν)} {place : κ}
    (agree : place ∉ writes.map Prod.fst -> left place = right place) :
    overwrite left writes place = overwrite right writes place := by
  induction writes generalizing left right with
  | nil => exact agree List.not_mem_nil
  | cons write rest inductionHypothesis =>
      apply inductionHypothesis
      intro absent
      change Function.update left write.1 write.2 place = Function.update right write.1 write.2 place
      by_cases same : place = write.1
      · rw [same, Function.update_self, Function.update_self]
      · rw [Function.update_of_ne same, Function.update_of_ne same]
        apply agree
        rw [List.map_cons, List.mem_cons]
        rintro (equal | listed)
        · exact same equal
        · exact absent listed

theorem overwrite_of_notMem (map : κ -> ν) {writes : List (κ × ν)} {place : κ}
    (absent : place ∉ writes.map Prod.fst) : overwrite map writes place = map place := by
  induction writes generalizing map with
  | nil => rfl
  | cons write rest inductionHypothesis =>
      rw [List.map_cons, List.mem_cons] at absent
      have later := inductionHypothesis (Function.update map write.1 write.2)
        (fun listed => absent (Or.inr listed))
      exact later.trans (Function.update_of_ne (fun same => absent (Or.inl same)) _ _)

/-- Writes that cover all places of earlier writes hide them. -/
theorem overwrite_overwrite {earlier writes : List (κ × ν)} (map : κ -> ν)
    (covered : earlier.map Prod.fst ⊆ writes.map Prod.fst) :
    overwrite (overwrite map earlier) writes = overwrite map writes := by
  funext place
  apply overwrite_congr
  intro absent
  exact overwrite_of_notMem map (fun listed => absent (covered listed))

/-- Performing the last writes once more, and others after them, is like going on
where one had stopped. -/
theorem overwrite_resume (map : κ -> ν) (first again rest : List (κ × ν)) :
    overwrite (overwrite map (first ++ again)) (again ++ rest) =
      overwrite map (first ++ (again ++ rest)) := by
  rw [overwrite_append, overwrite_append map first again,
    overwrite_overwrite _ (List.Subset.refl _), ← overwrite_append, ← overwrite_append]

end Overwrite
end Collections
end RaftStore
