import ContestTests.Proofs.Sorting
import ContestTests.Record
import Mathlib.Data.List.Nodup

/-!
# Sorting records

A stable sort is said without a sort: the keys do not decrease, and the records of every key are
those of the list, in its order. There is one such list and `sort` is it. Two sorted lists agree in
their keys place by place exactly when the keys agree as bags.
-/

namespace ContestTests.Record

variable {r a b a' b' : Record} {records sorted as bs : List Record}

def key (r : Record) : Nat × Nat := (r.group, r.test)

structure StablySorted (records sorted : List Record) : Prop where
  ordered : sorted.Pairwise fun a b => a.notAfter b
  stable : ∀ k, (sorted.filter fun r => r.key = k) = records.filter fun r => r.key = k

-- ---------------------------------------------------------------------------
-- The order
-- ---------------------------------------------------------------------------

theorem notAfter_iff :
    notAfter a b ↔ a.group < b.group ∨ a.group = b.group ∧ a.test ≤ b.test := by
  simp [notAfter]

theorem notAfter_trans (a b c : Record) (hab : notAfter a b) (hbc : notAfter b c) :
    notAfter a c := by
  rw [notAfter_iff] at *
  omega

theorem notAfter_total (a b : Record) : notAfter a b || notAfter b a := by
  rw [Bool.or_eq_true, notAfter_iff, notAfter_iff]
  omega

theorem key_eq_of_notAfter (hab : notAfter a b) (hba : notAfter b a) : a.key = b.key := by
  rw [notAfter_iff] at hab hba
  rw [key, key, Prod.mk.injEq]
  omega

theorem notAfter_of_key_eq (h : a.key = b.key) : notAfter a b := by
  rw [key, key, Prod.mk.injEq] at h
  rw [notAfter_iff]
  omega

-- ---------------------------------------------------------------------------
-- The stable sort
-- ---------------------------------------------------------------------------

theorem sort_perm (records : List Record) : (sort records).Perm records :=
  List.mergeSort_perm records notAfter

@[simp] theorem length_sort (records : List Record) : (sort records).length = records.length :=
  List.length_mergeSort records

@[simp] theorem mem_sort : r ∈ sort records ↔ r ∈ records := (sort_perm records).mem_iff

theorem sort_ordered (records : List Record) :
    (sort records).Pairwise fun a b => a.notAfter b :=
  List.pairwise_mergeSort notAfter_trans notAfter_total records

theorem filter_sort (records : List Record) (k : Nat × Nat) :
    ((sort records).filter fun r => r.key = k) = records.filter fun r => r.key = k := by
  refine filter_mergeSort notAfter_trans notAfter_total (fun a b ha hb => notAfter_of_key_eq ?_) records
  exact (of_decide_eq_true ha).trans (of_decide_eq_true hb).symm

theorem sort_stablySorted (records : List Record) : StablySorted records (sort records) :=
  ⟨sort_ordered records, filter_sort records⟩

theorem mem_of_filter_eq (h : ∀ k, (as.filter fun r => key r = k) = bs.filter fun r => key r = k)
    (hr : r ∈ as) : r ∈ bs := by
  have hf : r ∈ as.filter fun x => key x = r.key := List.mem_filter.mpr ⟨hr, by simp⟩
  rw [h] at hf
  exact (List.mem_filter.mp hf).1

/-- Sorted lists that agree in the records of every key are the same. -/
theorem eq_of_filter_eq (ha : as.Pairwise fun a b => notAfter a b)
    (hb : bs.Pairwise fun a b => notAfter a b)
    (h : ∀ k, (as.filter fun r => key r = k) = bs.filter fun r => key r = k) : as = bs := by
  induction as generalizing bs with
  | nil =>
    cases bs with
    | nil => rfl
    | cons b bs => exact absurd (mem_of_filter_eq (fun k => (h k).symm) List.mem_cons_self) (by simp)
  | cons a as ih =>
    cases bs with
    | nil => exact absurd (mem_of_filter_eq h List.mem_cons_self) (by simp)
    | cons b bs =>
      obtain ⟨ha, has⟩ := List.pairwise_cons.mp ha
      obtain ⟨hb, hbs⟩ := List.pairwise_cons.mp hb
      -- Each head comes before all of the other list, so the two have one key.
      have hk : a.key = b.key := by
        rcases List.mem_cons.mp (mem_of_filter_eq h List.mem_cons_self) with rfl | hab
        · rfl
        rcases List.mem_cons.mp (mem_of_filter_eq (fun k => (h k).symm) List.mem_cons_self)
          with rfl | hba
        · rfl
        exact key_eq_of_notAfter (ha b hba) (hb a hab)
      have hhead := h a.key
      simp only [List.filter_cons, hk, decide_true, if_true, List.cons.injEq] at hhead
      obtain ⟨rfl, -⟩ := hhead
      refine congrArg _ (ih has hbs fun k => ?_)
      have hrest := h k
      simp only [List.filter_cons] at hrest
      split at hrest
      · exact (List.cons.inj hrest).2
      · exact hrest

theorem StablySorted.eq_sort (h : StablySorted records sorted) : sorted = sort records :=
  eq_of_filter_eq h.ordered (sort_ordered records) fun k => (h.stable k).trans (filter_sort records k).symm

theorem stablySorted_iff : StablySorted records sorted ↔ sorted = sort records :=
  ⟨StablySorted.eq_sort, fun h => h ▸ sort_stablySorted records⟩

theorem sort_of_ordered (h : records.Pairwise fun a b => a.notAfter b) : sort records = records :=
  List.mergeSort_of_pairwise h

theorem sort_eq_of_perm (h : as.Perm bs) (hkeys : (as.map key).Nodup) : sort as = sort bs := by
  have hperm : (sort as).Perm (sort bs) := (sort_perm as).trans (h.trans (sort_perm bs).symm)
  refine hperm.eq_of_pairwise (fun a b ha hb hab hba => ?_) (sort_ordered as) (sort_ordered bs)
  have hb' : b ∈ as := h.mem_iff.mpr (mem_sort.mp hb)
  exact List.inj_on_of_nodup_map hkeys (mem_sort.mp ha) hb' (key_eq_of_notAfter hab hba)

theorem sort_eq_of_ordered_perm (h : records.Perm sorted) (hkeys : (records.map key).Nodup)
    (hordered : sorted.Pairwise fun a b => a.notAfter b) : sort records = sorted :=
  (sort_eq_of_perm h hkeys).trans (sort_of_ordered hordered)

-- ---------------------------------------------------------------------------
-- Records in the order of their paths
-- ---------------------------------------------------------------------------

def Before (a b : Record) : Prop := a.notAfter b ∧ (a.key = b.key → a.path < b.path)

theorem Before.asymm (h : Before a b) : ¬ Before b a := by
  intro h'
  have hkey := key_eq_of_notAfter h.1 h'.1
  exact String.lt_asymm (h.2 hkey) (h'.2 hkey.symm)

theorem nodup_of_before (h : records.Pairwise Before) : records.Nodup :=
  h.imp fun hab he => (he ▸ hab).asymm (he ▸ hab)

theorem notAfter_congr (hkey : a.key = b.key) (hkey' : a'.key = b'.key) (h : notAfter a a') : notAfter b b' := by
  rw [key, key, Prod.mk.injEq] at hkey hkey'
  rw [notAfter_iff] at h ⊢
  omega

theorem sort_before (h : records.Pairwise fun a b => a.path < b.path) : (sort records).Pairwise Before := by
  rw [List.pairwise_iff_forall_sublist]
  intro a b hab
  refine ⟨List.pairwise_iff_forall_sublist.mp (sort_ordered records) hab, fun hkey => ?_⟩
  -- The sort leaves the records of one key in their order.
  have hsub := hab.filter fun r => decide (r.key = b.key)
  rw [filter_sort] at hsub
  simp only [List.filter_cons, hkey, decide_true, if_true, List.filter_nil] at hsub
  exact List.pairwise_iff_forall_sublist.mp h (hsub.trans List.filter_sublist)

-- ---------------------------------------------------------------------------
-- Keys of two lists
-- ---------------------------------------------------------------------------

theorem map_key_sort_eq_iff :
    (sort as).map key = (sort bs).map key ↔ (as.map key).Perm (bs.map key) := by
  constructor
  · intro h
    have ha := (sort_perm as).map key
    have hb := (sort_perm bs).map key
    exact ha.symm.trans (h ▸ hb)
  · intro h
    have hperm : ((sort as).map key).Perm ((sort bs).map key) :=
      (((sort_perm as).map key).trans h).trans ((sort_perm bs).map key).symm
    have hordered (l : List Record) : ((sort l).map key).Pairwise
        fun k m => k.1 < m.1 ∨ k.1 = m.1 ∧ k.2 ≤ m.2 :=
      List.pairwise_map.mpr ((sort_ordered l).imp notAfter_iff.mp)
    refine hperm.eq_of_pairwise ?_ (hordered as) (hordered bs)
    rintro ⟨g, n⟩ ⟨g', n'⟩ _ _ h h'
    rw [Prod.mk.injEq]
    omega

end ContestTests.Record
