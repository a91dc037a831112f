/-
Records in the order of their marks. A list grows at its end, and each
entry comes with a mark nobody wrote down: the moment it is from, say.
`Marked` says that marks can be given to the entries that fit them
(`fits`), stand in order (`later`) and are all within what has been so
far (`bound`). The bound is what lets the next entry be marked: its mark
has only to be later than everything within the bound (`Marked.snoc`).
-/
import Mathlib.Data.List.Forall2

namespace EdgeIpc.Lib

variable {α : Type _} {β : Type _} {fits fits' : α → β → Prop}
  {later : β → β → Prop} {bound bound' : β → Prop} {xs : List α}

/-- The entries can be given marks that fit, are in order and within the
bound. -/
def Marked (fits : α → β → Prop) (later : β → β → Prop) (bound : β → Prop)
    (xs : List α) : Prop :=
  ∃ ms : List β, List.Forall₂ fits xs ms ∧ ms.Pairwise later
    ∧ ∀ m ∈ ms, bound m

theorem marked_nil : Marked fits later bound [] :=
  ⟨[], .nil, .nil, fun m hm => by cases hm⟩

/-- The same marks, where more fits and more is within the bound. -/
theorem Marked.mono (h : Marked fits later bound xs)
    (hfits : ∀ x m, fits x m → fits' x m)
    (hbound : ∀ m, bound m → bound' m) : Marked fits' later bound' xs := by
  obtain ⟨ms, hms, hord, hb⟩ := h
  exact ⟨ms, hms.imp hfits, hord, fun m hm => hbound m (hb m hm)⟩

/-- One more entry, marked later than all within the bound. -/
theorem Marked.snoc (h : Marked fits later bound xs) {x : α} {m : β}
    (hm : fits x m) (hlater : ∀ m', bound m' → later m' m)
    (hb : bound m) : Marked fits later bound (xs ++ [x]) := by
  obtain ⟨ms, hms, hord, hbound⟩ := h
  refine ⟨ms ++ [m], List.rel_append hms (.cons hm .nil), ?_, ?_⟩
  · refine List.pairwise_append.mpr ⟨hord, List.pairwise_singleton _ _, ?_⟩
    intro m' hm' m'' hm''
    rw [List.mem_singleton.mp hm'']
    exact hlater m' (hbound m' hm')
  · intro m' hm'
    rcases List.mem_append.mp hm' with hm' | hm'
    · exact hbound m' hm'
    · rw [List.mem_singleton.mp hm']
      exact hb

end EdgeIpc.Lib
