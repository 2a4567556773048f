/-!
# Stable sorts

Values that each come before the others of their kind are kept in their order by a sort.
-/

namespace ContestTests

variable {before : α → α → Bool}

theorem filter_mergeSort (htrans : ∀ a b c, before a b → before b c → before a c)
    (htotal : ∀ a b, before a b || before b a) {kind : α → Bool}
    (hkind : ∀ a b, kind a → kind b → before a b) (values : List α) :
    (values.mergeSort before).filter kind = values.filter kind := by
  have hordered : (values.filter kind).Pairwise fun a b => before a b := by
    rw [List.pairwise_iff_forall_sublist]
    intro a b h
    have ha := (List.mem_filter.mp (h.subset (by simp : a ∈ [a, b]))).2
    have hb := (List.mem_filter.mp (h.subset (by simp : b ∈ [a, b]))).2
    exact hkind a b ha hb
  have hsub : (values.filter kind).Sublist ((values.mergeSort before).filter kind) := by
    have h := (List.sublist_mergeSort htrans htotal hordered List.filter_sublist).filter kind
    simpa only [List.filter_filter, Bool.and_self] using h
  exact (hsub.eq_of_length ((List.mergeSort_perm values before).filter _).length_eq.symm).symm

end ContestTests
