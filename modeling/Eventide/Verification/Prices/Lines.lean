import Eventide.Model.Prices
import Mathlib.Data.List.Dedup

/-! # The lines of an estimate

Every total is divided into the details that have a rate and the rest, and each part is priced
once. -/

namespace Eventide

open Outcome

variable {usage : Dict String ℕ} {rates : Dict String Price}

/-- What is not negative is what remains of the total, without the details that have a rate. -/
theorem splitDetails_spec {details : List String} {quantity : ℤ} {parts : List (String × ℕ)}
    (h : 0 ≤ (splitDetails usage rates details quantity parts).1) :
    ∃ new, splitDetails usage rates details quantity parts =
        (quantity - ((new.map Prod.snd).sum : ℕ), parts ++ new, []) ∧
      new.map Prod.fst = details.filter (rates.contains ·) ∧
      ∀ part ∈ new, usage.get? part.1 = some part.2 := by
  induction details generalizing quantity parts with
  | nil => exact ⟨[], by simp [splitDetails], rfl, nofun⟩
  | cons detail details ih =>
    rw [splitDetails] at h ⊢
    by_cases hrate : rates.contains detail = true
    · rw [if_pos hrate] at h ⊢
      cases hn : usage.get? detail with
      | none =>
        rw [hn] at h
        have hneg : (0 : ℤ) ≤ -1 := h
        omega
      | some n =>
        rw [hn] at h
        obtain ⟨new, heq, hnames, husage⟩ := ih h
        refine ⟨(detail, n) :: new, ?_, ?_, List.forall_mem_cons.mpr ⟨hn, husage⟩⟩
        · simp only [heq, List.map_cons, List.sum_cons, List.append_assoc, List.singleton_append,
            Prod.mk.injEq, and_true]
          omega
        · rw [List.map_cons, hnames, List.filter_cons_of_pos hrate]
    · rw [if_neg hrate] at h ⊢
      obtain ⟨new, heq, hnames, husage⟩ := ih h
      exact ⟨new, heq, by rw [hnames, List.filter_cons_of_neg hrate], husage⟩

/-- How a total was divided. -/
structure Divided (usage : Dict String ℕ) (rates : Dict String Price) (total : String)
    (details : List String) (quantities : List (String × ℕ)) : Prop where
  adds : usage.get? total = some (quantities.map Prod.snd).sum
  names : quantities.map Prod.fst = details.filter (rates.contains ·) ++ [total]
  usage : ∀ part ∈ quantities, part.1 ≠ total → usage.get? part.1 = some part.2

/-- A total is known where it is in the usage, with every detail that has a rate, and is no less
than these details. -/
def TotalKnown (usage : Dict String ℕ) (rates : Dict String Price) (total : String)
    (details : List String) : Prop :=
  ∃ n, usage.get? total = some n ∧
    (∀ detail ∈ details, rates.contains detail = true → (usage.get? detail).isSome = true) ∧
    ((details.filter (rates.contains ·)).map fun detail => (usage.get? detail).getD 0).sum ≤ n

theorem splitDetails_nonneg {details : List String} {quantity : ℤ} {parts : List (String × ℕ)} :
    0 ≤ (splitDetails usage rates details quantity parts).1 ↔
      (∀ detail ∈ details, rates.contains detail = true → (usage.get? detail).isSome = true) ∧
      (((details.filter (rates.contains ·)).map
        fun detail => (usage.get? detail).getD 0).sum : ℕ) ≤ quantity := by
  induction details generalizing quantity parts with
  | nil => simp [splitDetails]
  | cons detail details ih =>
    rw [splitDetails, List.forall_mem_cons]
    by_cases hrate : rates.contains detail = true
    · rw [if_pos hrate, List.filter_cons_of_pos hrate, List.map_cons, List.sum_cons]
      cases hn : usage.get? detail with
      | none => simp [hrate]
      | some n =>
        have hsum (sum : ℕ) : (sum : ℤ) ≤ quantity - n ↔ ((n + sum : ℕ) : ℤ) ≤ quantity := by omega
        simp only [ih, hsum, Option.isSome_some, implies_true, true_and, Option.getD_some]
    · rw [if_neg hrate, List.filter_cons_of_neg hrate]
      simp only [ih, hrate, Bool.false_eq_true, false_implies, true_and]

theorem splitDetails_unknown {details : List String} {quantity : ℤ} {parts : List (String × ℕ)} :
    ∀ name ∈ (splitDetails usage rates details quantity parts).2.2, name ∈ details := by
  induction details generalizing quantity parts with
  | nil => simp [splitDetails]
  | cons detail details ih =>
    rw [splitDetails]
    split
    · split
      · simp
      · exact fun name hname => List.mem_cons_of_mem _ (ih name hname)
    · exact fun name hname => List.mem_cons_of_mem _ (ih name hname)

/-- A known total is divided. -/
theorem splitTotal_known {total : String} {details : List String}
    (h : TotalKnown usage rates total details) :
    Divided usage rates total details (splitTotal usage rates total details).1 ∧
      (splitTotal usage rates total details).2 = [] := by
  obtain ⟨n, hn, hall, hsum⟩ := h
  have hpos : 0 ≤ (splitDetails usage rates details n []).1 :=
    splitDetails_nonneg.mpr ⟨hall, by exact_mod_cast hsum⟩
  obtain ⟨new, heq, hnames, husage⟩ := splitDetails_spec hpos
  rw [splitTotal, hn]
  simp only [if_neg (not_lt.mpr hpos)]
  rw [heq] at hpos ⊢
  simp only [List.nil_append, and_true] at hpos ⊢
  refine ⟨?_, ?_, ?_⟩
  · rw [hn, List.map_append, List.sum_append, List.map_singleton, List.sum_singleton]
    congr 1
    omega
  · rw [List.map_append, hnames, List.map_singleton]
  · intro part hpart hne
    rcases List.mem_append.mp hpart with hpart | hpart
    · exact husage part hpart
    · rw [List.mem_singleton.mp hpart] at hne
      exact absurd rfl hne

theorem splitTotal_unknown {total : String} {details : List String}
    (h : ¬ TotalKnown usage rates total details) :
    (splitTotal usage rates total details).1 = [] ∧
      total ∈ (splitTotal usage rates total details).2 := by
  rw [splitTotal]
  cases hn : usage.get? total with
  | none => exact ⟨rfl, List.mem_singleton_self _⟩
  | some n =>
    have hneg : (splitDetails usage rates details n []).1 < 0 := by
      refine not_le.mp fun hpos => h ?_
      obtain ⟨hall, hsum⟩ := splitDetails_nonneg.mp hpos
      exact ⟨n, hn, hall, by exact_mod_cast hsum⟩
    simp only [if_pos hneg]
    exact ⟨trivial, List.mem_append_right _ (List.mem_singleton_self _)⟩

/-- A total is divided, or not known. -/
theorem splitTotal_cases (usage : Dict String ℕ) (rates : Dict String Price) (total : String)
    (details : List String) :
    ((splitTotal usage rates total details).1 = [] ∧
      total ∈ (splitTotal usage rates total details).2) ∨
    Divided usage rates total details (splitTotal usage rates total details).1 := by
  by_cases h : TotalKnown usage rates total details
  · exact .inr (splitTotal_known h).1
  · exact .inl (splitTotal_unknown h)

theorem splitTotal_snd (usage : Dict String ℕ) (rates : Dict String Price) (total : String)
    (details : List String) :
    ∀ name ∈ (splitTotal usage rates total details).2, name ∈ total :: details := by
  intro name hname
  rw [splitTotal] at hname
  split at hname
  · exact List.mem_cons.mpr (.inl (List.mem_singleton.mp hname))
  · dsimp only at hname
    split at hname
    · rcases List.mem_append.mp hname with hname | hname
      · exact List.mem_cons_of_mem _ (splitDetails_unknown name hname)
      · exact List.mem_cons.mpr (.inl (List.mem_singleton.mp hname))
    · exact List.mem_cons_of_mem _ (splitDetails_unknown name hname)

theorem splitTotal_names (usage : Dict String ℕ) (rates : Dict String Price)
    {t : String × List String} (ht : (t.1 :: t.2).Nodup) :
    ((splitTotal usage rates t.1 t.2).1.map Prod.fst).Nodup ∧
      ∀ part ∈ (splitTotal usage rates t.1 t.2).1, part.1 ∈ t.1 :: t.2 := by
  obtain ⟨htotal, hdetails⟩ := List.nodup_cons.mp ht
  rcases splitTotal_cases usage rates t.1 t.2 with ⟨hnil, -⟩ | hdivided
  · rw [hnil]
    exact ⟨List.nodup_nil, nofun⟩
  · constructor
    · rw [hdivided.names]
      refine List.nodup_append.mpr ⟨hdetails.filter _, List.nodup_singleton _, ?_⟩
      rintro name hname other hother rfl
      rw [List.mem_singleton.mp hother] at hname
      exact htotal (List.mem_of_mem_filter hname)
    · intro part hpart
      have hname : part.1 ∈ t.2.filter (rates.contains ·) ++ [t.1] := by
        rw [← hdivided.names]
        exact List.mem_map_of_mem hpart
      rcases List.mem_append.mp hname with hname | hname
      · exact List.mem_cons_of_mem _ (List.mem_of_mem_filter hname)
      · rw [List.mem_singleton.mp hname]
        exact List.mem_cons_self

/-! ## All totals -/

/-- No category belongs to two totals. -/
theorem priceTotals_disjoint : priceTotals.Pairwise fun a b =>
    List.Disjoint (a.1 :: a.2) (b.1 :: b.2) := by
  refine List.pairwise_pair.mpr fun name hname hother => ?_
  simp only [List.mem_cons, List.not_mem_nil, or_false] at hname hother
  rcases hname with rfl | rfl | rfl <;> revert hother <;> decide

theorem priceTotals_apart {a b : String × List String} (ha : a ∈ priceTotals)
    (hb : b ∈ priceTotals) (hne : a ≠ b) : List.Disjoint (a.1 :: a.2) (b.1 :: b.2) := by
  obtain ⟨hpair, -⟩ := List.pairwise_cons.mp priceTotals_disjoint
  rcases List.mem_cons.mp ha with rfl | ha <;> rcases List.mem_cons.mp hb with rfl | hb
  · exact absurd rfl hne
  · exact hpair b hb
  · exact (hpair a ha).symm
  · exact absurd ((List.mem_singleton.mp ha).trans (List.mem_singleton.mp hb).symm) hne

theorem priceTotals_nodup : ∀ t ∈ priceTotals, (t.1 :: t.2).Nodup := by
  decide

section Quantities

variable (usage rates) (totals : List String)

theorem splitUsage_fst : (splitUsage usage rates totals).1 =
    (priceTotals.filter fun t => t.1 ∈ totals).flatMap fun t =>
      (splitTotal usage rates t.1 t.2).1 := by
  rw [splitUsage, List.flatMap_map]

/-- The quantities of one total are those that its division gave. -/
theorem filter_quantities {ts : List (String × List String)} {t : String × List String}
    (hdisjoint : ts.Pairwise fun a b => List.Disjoint (a.1 :: a.2) (b.1 :: b.2))
    (hnodup : ∀ t ∈ ts, (t.1 :: t.2).Nodup) (ht : t ∈ ts) :
    (ts.flatMap fun t => (splitTotal usage rates t.1 t.2).1).filter
      (fun q => q.1 ∈ t.1 :: t.2) = (splitTotal usage rates t.1 t.2).1 := by
  induction ts with
  | nil => cases ht
  | cons first ts ih =>
    obtain ⟨hfirst, hrest⟩ := List.pairwise_cons.mp hdisjoint
    obtain ⟨hnfirst, hnrest⟩ := List.forall_mem_cons.mp hnodup
    rw [List.flatMap_cons, List.filter_append]
    by_cases hmem : t ∈ ts
    · have hnone : (splitTotal usage rates first.1 first.2).1.filter
          (fun q => q.1 ∈ t.1 :: t.2) = [] := by
        apply List.filter_eq_nil_iff.mpr
        intro part hpart hin
        have hname := (splitTotal_names usage rates hnfirst).2 part hpart
        exact hfirst t hmem hname (of_decide_eq_true hin)
      rw [hnone, List.nil_append, ih hrest hnrest hmem]
    · obtain rfl : t = first := (List.mem_cons.mp ht).resolve_right hmem
      have hall : (splitTotal usage rates t.1 t.2).1.filter (fun q => q.1 ∈ t.1 :: t.2) =
          (splitTotal usage rates t.1 t.2).1 := by
        apply List.filter_eq_self.mpr
        intro part hpart
        exact decide_eq_true ((splitTotal_names usage rates hnfirst).2 part hpart)
      have hnone : (ts.flatMap fun t => (splitTotal usage rates t.1 t.2).1).filter
          (fun q => q.1 ∈ t.1 :: t.2) = [] := by
        apply List.filter_eq_nil_iff.mpr
        intro part hpart hin
        obtain ⟨other, hother, hpart⟩ := List.mem_flatMap.mp hpart
        have hname := (splitTotal_names usage rates (hnrest other hother)).2 part hpart
        exact hfirst other hother (of_decide_eq_true hin) hname
      rw [hall, hnone, List.append_nil]

theorem nodup_quantities : ((splitUsage usage rates totals).1.map Prod.fst).Nodup := by
  have hsub : (priceTotals.filter fun t => t.1 ∈ totals).Sublist priceTotals :=
    List.filter_sublist
  rw [splitUsage_fst, List.map_flatMap, List.nodup_flatMap]
  constructor
  · intro t ht
    exact (splitTotal_names usage rates (priceTotals_nodup t (hsub.mem ht))).1
  · refine (List.Pairwise.sublist hsub priceTotals_disjoint).imp_of_mem ?_
    intro a b ha hb hdisjoint name hname hname'
    obtain ⟨part, hpart, rfl⟩ := List.mem_map.mp hname
    obtain ⟨part', hpart', heq⟩ := List.mem_map.mp hname'
    have hin := (splitTotal_names usage rates (priceTotals_nodup a (hsub.mem ha))).2 part hpart
    have hin' := (splitTotal_names usage rates (priceTotals_nodup b (hsub.mem hb))).2 part' hpart'
    exact hdisjoint hin (heq ▸ hin')

/-- The totals that are not known are those that cannot be divided. -/
theorem mem_splitUsage_snd {t : String × List String} (ht : t ∈ priceTotals)
    (htotal : t.1 ∈ totals) :
    t.1 ∈ (splitUsage usage rates totals).2 ↔ ¬ TotalKnown usage rates t.1 t.2 := by
  simp only [splitUsage, List.flatMap_map, List.mem_flatMap]
  constructor
  · rintro ⟨other, hother, hname⟩ hknown
    obtain rfl : t = other := by
      by_contra hne
      exact priceTotals_apart ht (List.mem_of_mem_filter hother) hne List.mem_cons_self
        (splitTotal_snd usage rates _ _ _ hname)
    rw [(splitTotal_known hknown).2] at hname
    cases hname
  · exact fun hunknown => ⟨t, List.mem_filter.mpr ⟨ht, decide_eq_true htotal⟩,
      (splitTotal_unknown hunknown).2⟩

/-- The categories of a usage: the known totals, and their details that have a rate. -/
theorem mem_quantities {category : String} :
    category ∈ (splitUsage usage rates totals).1.map Prod.fst ↔
      ∃ t ∈ priceTotals, t.1 ∈ totals ∧ TotalKnown usage rates t.1 t.2 ∧
        category ∈ t.2.filter (rates.contains ·) ++ [t.1] := by
  rw [splitUsage_fst, List.map_flatMap, List.mem_flatMap]
  constructor
  · rintro ⟨t, ht, hname⟩
    obtain ⟨ht, htotal⟩ := List.mem_filter.mp ht
    by_cases hknown : TotalKnown usage rates t.1 t.2
    · rw [(splitTotal_known hknown).1.names] at hname
      exact ⟨t, ht, of_decide_eq_true htotal, hknown, hname⟩
    · rw [(splitTotal_unknown hknown).1] at hname
      cases hname
  · rintro ⟨t, ht, htotal, hknown, hname⟩
    refine ⟨t, List.mem_filter.mpr ⟨ht, decide_eq_true htotal⟩, ?_⟩
    rw [(splitTotal_known hknown).1.names]
    exact hname

/-- The names of the quantities that are kept by their names. -/
theorem mem_map_fst_filter {p : String → Bool} {quantities : List (String × ℕ)}
    {category : String} : category ∈ (quantities.filter fun q => p q.1).map Prod.fst ↔
      category ∈ quantities.map Prod.fst ∧ p category = true := by
  rw [show (quantities.filter fun q => p q.1).map Prod.fst = (quantities.map Prod.fst).filter p from
    List.filter_map.symm, List.mem_filter]

/-- The categories that are priced: the known totals and their details, where they have a rate. -/
theorem mem_priced {category : String} :
    category ∈ ((splitUsage usage rates totals).1.filter fun q => rates.contains q.1).map Prod.fst ↔
      rates.contains category = true ∧ ∃ t ∈ priceTotals, t.1 ∈ totals ∧
        TotalKnown usage rates t.1 t.2 ∧ category ∈ t.1 :: t.2 := by
  refine (mem_map_fst_filter (p := (rates.contains ·))).trans ?_
  rw [mem_quantities]
  constructor
  · rintro ⟨⟨t, ht, htotal, hknown, hname⟩, hrate⟩
    refine ⟨hrate, t, ht, htotal, hknown, ?_⟩
    rcases List.mem_append.mp hname with hname | hname
    · exact List.mem_cons_of_mem _ (List.mem_of_mem_filter hname)
    · exact List.mem_cons.mpr (.inl (List.mem_singleton.mp hname))
  · rintro ⟨hrate, t, ht, htotal, hknown, hname⟩
    refine ⟨⟨t, ht, htotal, hknown, ?_⟩, hrate⟩
    rcases List.mem_cons.mp hname with rfl | hname
    · exact List.mem_append_right _ (List.mem_singleton_self _)
    · exact List.mem_append_left _ (List.mem_filter.mpr ⟨hname, hrate⟩)

section Total

variable {t : String × List String} (ht : t ∈ priceTotals)
include ht

/-- A detail among the quantities is as the usage has it. -/
theorem usage_of_detail {q : String × ℕ} (hq : q ∈ (splitUsage usage rates totals).1)
    (hdetail : q.1 ∈ t.2) : usage.get? q.1 = some q.2 := by
  rw [splitUsage_fst] at hq
  obtain ⟨other, hother, hsplit⟩ := List.mem_flatMap.mp hq
  have hother := List.mem_of_mem_filter hother
  have hname := (splitTotal_names usage rates (priceTotals_nodup other hother)).2 _ hsplit
  obtain rfl : t = other := by
    by_contra hne
    exact priceTotals_apart ht hother hne (List.mem_cons_of_mem _ hdetail) hname
  rcases splitTotal_cases usage rates t.1 t.2 with ⟨hnil, -⟩ | hdivided
  · rw [hnil] at hsplit
    cases hsplit
  · refine hdivided.usage _ hsplit fun htotal => ?_
    exact (List.nodup_cons.mp (priceTotals_nodup t ht)).1 (htotal ▸ hdetail)

variable (htotal : t.1 ∈ totals)
include htotal

/-- A known total is among the quantities, and stays unpriced where it has no rate. -/
theorem not_mem_unpriced (hknown : TotalKnown usage rates t.1 t.2) :
    t.1 ∉ ((splitUsage usage rates totals).1.filter fun q => !rates.contains q.1).map Prod.fst ↔
      rates.contains t.1 = true := by
  have hname : t.1 ∈ (splitUsage usage rates totals).1.map Prod.fst :=
    (mem_quantities usage rates totals).mpr
      ⟨t, ht, htotal, hknown, List.mem_append_right _ (List.mem_singleton_self _)⟩
  refine (not_congr (mem_map_fst_filter (p := fun name => !rates.contains name))).trans ?_
  simp [hname]

/-- All quantities of a divided total have a rate if the total has one. -/
theorem filter_priced (hdivided : Divided usage rates t.1 t.2 (splitTotal usage rates t.1 t.2).1)
    (hrate : rates.contains t.1 = true) :
    ((splitUsage usage rates totals).1.filter fun q => rates.contains q.1).filter
      (fun q => q.1 ∈ t.1 :: t.2) = (splitTotal usage rates t.1 t.2).1 := by
  have hsub : (priceTotals.filter fun t => t.1 ∈ totals).Sublist priceTotals :=
    List.filter_sublist
  have hquantities : (splitUsage usage rates totals).1.filter (fun q => q.1 ∈ t.1 :: t.2) =
      (splitTotal usage rates t.1 t.2).1 := by
    rw [splitUsage_fst]
    exact filter_quantities usage rates (priceTotals_disjoint.sublist hsub)
      (fun t ht => priceTotals_nodup t (hsub.mem ht))
      (List.mem_filter.mpr ⟨ht, decide_eq_true htotal⟩)
  rw [List.filter_comm, hquantities]
  apply List.filter_eq_self.mpr
  intro part hpart
  have hname : part.1 ∈ t.2.filter (rates.contains ·) ++ [t.1] := by
    rw [← hdivided.names]
    exact List.mem_map_of_mem hpart
  rcases List.mem_append.mp hname with hname | hname
  · exact (List.mem_filter.mp hname).2
  · rwa [List.mem_singleton.mp hname]

end Total

end Quantities

/-! ## Lines -/

/-- What the lines of an estimate are, at these rates. -/
structure Priced (usage : Dict String ℕ) (rates : Dict String Price) (totals : List String)
    (lines : List CostLine) (unknown : List String) : Prop where
  rate : ∀ line ∈ lines, ∃ rate, rates.get? line.category = some rate ∧
    costLine rate line.category line.quantity = .ok line
  once : (lines.map (·.category)).Nodup
  adds : ∀ t ∈ priceTotals, t.1 ∈ totals → t.1 ∉ unknown → usage.get? t.1 =
    some ((lines.filter fun line => line.category ∈ t.1 :: t.2).map (·.quantity)).sum
  details : ∀ t ∈ priceTotals, ∀ line ∈ lines, line.category ∈ t.2 →
    usage.get? line.category = some line.quantity
  known : ∀ t ∈ priceTotals, t.1 ∈ totals →
    (t.1 ∉ unknown ↔ TotalKnown usage rates t.1 t.2 ∧ rates.contains t.1 = true)
  listed : ∀ category, (∃ line ∈ lines, line.category = category) ↔
    rates.contains category = true ∧ ∃ t ∈ priceTotals, t.1 ∈ totals ∧
      TotalKnown usage rates t.1 t.2 ∧ category ∈ t.1 :: t.2

theorem Priced.missing {totals : List String} {lines : List CostLine} {unknown : List String}
    (h : Priced usage rates totals lines unknown) {t : String × List String} (ht : t ∈ priceTotals)
    (htotal : t.1 ∈ totals) (hnone : rates.get? t.1 = none) : t.1 ∈ unknown := by
  by_contra hnot
  have hrate := ((h.known t ht htotal).mp hnot).2
  rw [Dict.contains, hnone] at hrate
  cases hrate

theorem mem_sortedSet {names : List String} {name : String} :
    name ∈ sortedSet names ↔ name ∈ names := by
  rw [sortedSet, List.mem_insertionSort, List.mem_dedup]

theorem costLine_fields {rate : Price} {category : String} {quantity : ℕ} {line : CostLine}
    (h : costLine rate category quantity = .ok line) :
    line.category = category ∧ line.quantity = quantity := by
  simp only [costLine, bind_eq_ok, pure_eq_ok, Except.ok.injEq] at h
  obtain ⟨amount, -, rfl⟩ := h
  exact ⟨rfl, rfl⟩

/-- The lines are the quantities that have a rate. -/
theorem lines_eq {quantities : List (String × ℕ)} {lines : List CostLine}
    (h : (quantities.filterMap fun q => (rates.get? q.1).map fun rate => (rate, q)).mapM
      (fun p => costLine p.1 p.2.1 p.2.2) = .ok lines) :
    lines.map (fun line => (line.category, line.quantity)) =
      quantities.filter fun q => rates.contains q.1 := by
  have hpair (p : Price × String × ℕ) (line : CostLine)
      (hline : costLine p.1 p.2.1 p.2.2 = .ok line) : (line.category, line.quantity) = p.2 := by
    obtain ⟨hcategory, hquantity⟩ := costLine_fields hline
    exact Prod.ext hcategory hquantity
  rw [map_of_mapM (fun p _ line => hpair p line) h]
  clear h
  induction quantities with
  | nil => rfl
  | cons q quantities ih =>
    cases hrate : rates.get? q.1 with
    | none =>
      have hcontains : ¬ rates.contains q.1 = true := by simp [Dict.contains, hrate]
      rw [List.filterMap_cons_none (by rw [hrate]; rfl), List.filter_cons, if_neg hcontains, ih]
    | some rate =>
      have hcontains : rates.contains q.1 = true := by simp [Dict.contains, hrate]
      rw [List.filterMap_cons_some (by rw [hrate]; rfl), List.filter_cons, if_pos hcontains,
        List.map_cons, ih]

theorem priceLines_priced {basis : String} {lines : List CostLine} {unknown : List String}
    (h : priceLines usage rates basis = .ok (lines, unknown)) :
    ∃ totals, usageTotalFields (.str basis) = .ok totals ∧
      Priced usage rates totals lines unknown := by
  simp only [priceLines, bind_eq_ok, pure_eq_ok, Except.ok.injEq, Prod.mk.injEq] at h
  obtain ⟨totals, htotals, found, hlines, rfl, rfl⟩ := h
  refine ⟨totals, htotals, ?_⟩
  have hpairs := lines_eq hlines
  have hnames : found.map (·.category) =
      ((splitUsage usage rates totals).1.filter fun q => rates.contains q.1).map Prod.fst := by
    rw [← hpairs, List.map_map]
    rfl
  have hquantity : ∀ line ∈ found,
      (line.category, line.quantity) ∈ (splitUsage usage rates totals).1 := by
    intro line hline
    have hin := List.mem_map_of_mem (f := fun line : CostLine => (line.category, line.quantity)) hline
    rw [hpairs] at hin
    exact List.mem_of_mem_filter hin
  constructor
  · intro line hline
    obtain ⟨p, hp, hp'⟩ := mem_of_mapM hlines hline
    obtain ⟨q, -, hq⟩ := List.mem_filterMap.mp hp
    obtain ⟨rate, hrate, rfl⟩ := Option.map_eq_some_iff.mp hq
    obtain ⟨hcategory, hquantity⟩ := costLine_fields hp'
    rw [hcategory, hquantity]
    exact ⟨rate, hrate, hp'⟩
  · rw [hnames]
    exact (nodup_quantities usage rates totals).sublist (List.filter_sublist.map _)
  · intro t ht htotal hnot
    rw [mem_sortedSet, List.mem_append, not_or, mem_splitUsage_snd usage rates totals ht htotal,
      not_not] at hnot
    obtain ⟨hknown, hpriced⟩ := hnot
    have hrate := (not_mem_unpriced usage rates totals ht htotal hknown).mp hpriced
    have hdivided := (splitTotal_known hknown).1
    have hparts : (found.filter fun line => line.category ∈ t.1 :: t.2).map (·.quantity) =
        (splitTotal usage rates t.1 t.2).1.map Prod.snd := by
      rw [← filter_priced usage rates totals ht htotal hdivided hrate, ← hpairs, List.filter_map,
        List.map_map]
      rfl
    rw [hparts]
    exact hdivided.adds
  · exact fun t ht line hline => usage_of_detail usage rates totals ht (hquantity line hline)
  · intro t ht htotal
    rw [mem_sortedSet, List.mem_append, not_or, mem_splitUsage_snd usage rates totals ht htotal,
      not_not]
    exact and_congr_right fun hknown => not_mem_unpriced usage rates totals ht htotal hknown
  · intro category
    rw [show (∃ line ∈ found, line.category = category) ↔ category ∈ found.map (·.category) from
      List.mem_map.symm, hnames]
    exact mem_priced usage rates totals

end Eventide
