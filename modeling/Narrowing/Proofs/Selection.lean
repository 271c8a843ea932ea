import Narrowing.Proofs.Split
import Narrowing.Proofs.WordName

/-!
# Which kind is selected

A selector looks through its kinds from the narrowest to the widest, so the kind it finds for a finite interval is the
first of the narrowest that hold it.  An interval with an infinite end is held by no kind and gets the fallback.  That
breaks the order at one place: within an interval with an infinite end lie finite ones that no kind holds, and for
these nothing is selected.  A declared word type clamps every interval to a finite one, so there the fallback plays no
part.
-/

namespace Narrowing

/-! ### Lists of kinds -/

/-- The same kinds in order of width, and those of one width in the order they had. -/
structure IsStableSort (table kinds : List Kind) : Prop where
  perm : table.Perm kinds
  sorted : table.Pairwise fun k k' => k.bits ≤ k'.bits
  stable : ∀ bits, table.filter (·.bits = bits) = kinds.filter (·.bits = bits)

/-- The last of the widest kinds. -/
def IsLastOfWidest (kinds : List Kind) (k : Kind) : Prop :=
  ∃ pre post, kinds = pre ++ k :: post ∧ (∀ k' ∈ pre, k'.bits ≤ k.bits) ∧ ∀ k' ∈ post, k'.bits < k.bits

/-- The kind holds the interval; none that is narrower does, and none of its width before it. -/
def IsNarrowestFit (kinds : List Kind) (r : Interval) (k : Kind) : Prop :=
  r ≤ k.range ∧ (∀ k' ∈ kinds, k'.bits < k.bits → ¬ r ≤ k'.range) ∧
    ∃ pre post, kinds = pre ++ k :: post ∧ ∀ k' ∈ pre, k'.bits = k.bits → ¬ r ≤ k'.range

namespace IsStableSort

variable {table kinds as bs : List Kind} {k k' : Kind}

theorem mem_iff (h : IsStableSort table kinds) : k ∈ table ↔ k ∈ kinds := h.perm.mem_iff

/-- A kind stands in the list among those of its width as it does in the table. -/
theorem exists_split (h : IsStableSort table kinds) (htable : table = as ++ k :: bs) :
    ∃ pre post, kinds = pre ++ k :: post ∧ (∀ k' ∈ pre, k'.bits = k.bits → k' ∈ as) ∧
      ∀ k' ∈ post, k'.bits = k.bits → k' ∈ bs := by
  have hsame : kinds.filter (·.bits = k.bits) =
      as.filter (·.bits = k.bits) ++ k :: bs.filter (·.bits = k.bits) := by
    rw [← h.stable k.bits, htable]
    simp
  obtain ⟨l, rest, hkinds, hl, hrest⟩ := List.filter_eq_append_iff.1 hsame
  obtain ⟨gap, post, rfl, hgap, -, hpost⟩ := List.filter_eq_cons_iff.1 hrest
  refine ⟨l ++ gap, post, by rw [hkinds, List.append_assoc], ?_, ?_⟩
  · intro k' hk' hbits
    rcases List.mem_append.1 hk' with hk' | hk'
    · have hmem : k' ∈ l.filter (·.bits = k.bits) := List.mem_filter.2 ⟨hk', decide_eq_true hbits⟩
      rw [hl] at hmem
      exact (List.mem_filter.1 hmem).1
    · exact absurd (decide_eq_true hbits) (hgap k' hk')
  · intro k' hk' hbits
    have hmem : k' ∈ post.filter (·.bits = k.bits) := List.mem_filter.2 ⟨hk', decide_eq_true hbits⟩
    rw [hpost] at hmem
    exact (List.mem_filter.1 hmem).1

/-- What is narrower than a kind stands before it in the table. -/
theorem mem_of_bits_lt (h : IsStableSort table kinds) (htable : table = as ++ k :: bs) (hk' : k' ∈ kinds)
    (hlt : k'.bits < k.bits) : k' ∈ as := by
  have hmem : k' ∈ as ++ k :: bs := htable ▸ h.mem_iff.2 hk'
  have hbehind := (List.pairwise_cons.1 (List.pairwise_append.1 (htable ▸ h.sorted)).2.1).1
  rcases List.mem_append.1 hmem with hmem | hmem
  · exact hmem
  · rcases List.mem_cons.1 hmem with rfl | hmem
    · exact absurd hlt (Nat.lt_irrefl _)
    · exact absurd hlt (Nat.not_lt.2 (hbehind k' hmem))

theorem isLastOfWidest_getLast (h : IsStableSort table kinds) (hne : table ≠ []) :
    IsLastOfWidest kinds (table.getLast hne) := by
  have htable : table = table.dropLast ++ [table.getLast hne] := (List.dropLast_concat_getLast hne).symm
  have hwidest : ∀ k' ∈ kinds, k'.bits ≤ (table.getLast hne).bits := by
    intro k' hk'
    by_contra hgt
    -- a wider kind would stand behind the last one
    have hmem := h.mem_iff.2 hk'
    rw [htable] at hmem
    rcases List.mem_append.1 hmem with hmem | hmem
    · have hsorted := (List.pairwise_append.1 (htable ▸ h.sorted)).2.2
      exact hgt (hsorted k' hmem _ (List.mem_singleton.2 rfl))
    · rw [List.mem_singleton.1 hmem] at hgt
      exact hgt (Nat.le_refl _)
  obtain ⟨pre, post, hkinds, -, hpost⟩ := h.exists_split htable
  refine ⟨pre, post, hkinds, fun k' hk' => ?_, fun k' hk' => ?_⟩
  · exact hwidest k' (hkinds ▸ List.mem_append_left _ hk')
  · have hle := hwidest k' (hkinds ▸ List.mem_append_right _ (List.mem_cons_of_mem _ hk'))
    have hne' : k'.bits ≠ (table.getLast hne).bits := fun heq => List.not_mem_nil (hpost k' hk' heq)
    omega

/-- The first kind of the table that holds an interval is the first of the narrowest of the list that do. -/
theorem isNarrowestFit_of_find? {r : Interval} (h : IsStableSort table kinds)
    (hfind : table.find? (·.range.contains r) = some k) : IsNarrowestFit kinds r k := by
  obtain ⟨hfits, as, bs, htable, hbefore⟩ := List.find?_eq_some_iff_append.1 hfind
  have hnot : ∀ k' ∈ as, ¬ r ≤ k'.range := by
    intro k' hk' hle
    have hcontains : k'.range.contains r = true := hle
    simpa [hcontains] using hbefore k' hk'
  obtain ⟨pre, post, hkinds, hpre, -⟩ := h.exists_split htable
  refine ⟨hfits, fun k' hk' hlt => ?_, pre, post, hkinds, fun k' hk' hbits => ?_⟩
  · exact hnot k' (h.mem_of_bits_lt htable hk' hlt)
  · exact hnot k' (hpre k' hk' hbits)

end IsStableSort

theorem IsLastOfWidest.bits_le {kinds : List Kind} {k k' : Kind} (h : IsLastOfWidest kinds k) (hk' : k' ∈ kinds) :
    k'.bits ≤ k.bits := by
  obtain ⟨pre, post, rfl, hpre, hpost⟩ := h
  rcases List.mem_append.1 hk' with hk' | hk'
  · exact hpre k' hk'
  · rcases List.mem_cons.1 hk' with rfl | hk'
    · exact Nat.le_refl _
    · exact Nat.le_of_lt (hpost k' hk')

theorem IsNarrowestFit.mem {kinds : List Kind} {r : Interval} {k : Kind} (h : IsNarrowestFit kinds r k) : k ∈ kinds := by
  obtain ⟨-, -, pre, post, rfl, -⟩ := h
  exact List.mem_append_right pre List.mem_cons_self

theorem IsNarrowestFit.bits_le {kinds : List Kind} {r : Interval} {k k' : Kind} (h : IsNarrowestFit kinds r k)
    (hk' : k' ∈ kinds) (hr : r ≤ k'.range) : k.bits ≤ k'.bits :=
  Nat.not_lt.1 fun hlt => h.2.1 k' hk' hlt hr

/-! ### Selectors -/

theorem Kind.isFinite_range (k : Kind) : k.range.isFinite = true := by
  obtain ⟨w, signed⟩ := k
  cases w <;> cases signed <;> rfl

namespace Selector

theorem isStableSort_sortByWidth (kinds : List Kind) : IsStableSort (sortByWidth kinds) kinds := by
  have htrans : ∀ a b c : Kind, decide (a.bits ≤ b.bits) = true → decide (b.bits ≤ c.bits) = true →
      decide (a.bits ≤ c.bits) = true := by
    intro a b c hab hbc
    exact decide_eq_true (Nat.le_trans (of_decide_eq_true hab) (of_decide_eq_true hbc))
  have htotal : ∀ a b : Kind, (decide (a.bits ≤ b.bits) || decide (b.bits ≤ a.bits)) = true := by
    intro a b
    simpa using Nat.le_total a.bits b.bits
  have hperm : (sortByWidth kinds).Perm kinds := List.mergeSort_perm kinds _
  refine ⟨hperm, ?_, fun bits => ?_⟩
  · exact (List.pairwise_mergeSort htrans htotal kinds).imp of_decide_eq_true
  · -- kinds of one width are in order as they stand, so sorting leaves them a sublist
    have hordered : (kinds.filter (·.bits = bits)).Pairwise fun a b => decide (a.bits ≤ b.bits) = true := by
      refine List.pairwise_iff_forall_sublist.2 fun {a b} hab => decide_eq_true (Nat.le_of_eq ?_)
      have ha := (List.mem_filter.1 (hab.subset List.mem_cons_self)).2
      have hb := (List.mem_filter.1 (hab.subset (List.mem_cons_of_mem a List.mem_cons_self))).2
      exact (of_decide_eq_true ha).trans (of_decide_eq_true hb).symm
    have hsub : (kinds.filter (·.bits = bits)).Sublist (sortByWidth kinds) :=
      List.sublist_mergeSort htrans htotal hordered List.filter_sublist
    have hsub' := hsub.filter (·.bits = bits)
    rw [List.filter_filter] at hsub'
    simp only [Bool.and_self] at hsub'
    exact (hsub'.eq_of_length (hperm.filter _).length_eq.symm).symm

theorem ofKinds_eq_ok {kinds : List Kind} {s : Selector} (h : ofKinds kinds = .ok s) : s.table = sortByWidth kinds := by
  unfold ofKinds at h
  split at h
  · cases h
  · cases h
    rfl

theorem exists_ofKinds {kinds : List Kind} (hne : kinds ≠ []) : ∃ s, ofKinds kinds = .ok s := by
  have hsorted : sortByWidth kinds ≠ [] := by
    intro hnil
    have hperm := (isStableSort_sortByWidth kinds).perm
    rw [hnil] at hperm
    exact hne hperm.nil_eq.symm
  exact ⟨⟨sortByWidth kinds, hsorted⟩, by rw [ofKinds, dif_neg hsorted]⟩

theorem isStableSort_table {kinds : List Kind} {s : Selector} (h : ofKinds kinds = .ok s) :
    IsStableSort s.table kinds := by
  rw [ofKinds_eq_ok h]
  exact isStableSort_sortByWidth kinds

variable {s : Selector} {r : Interval} {k : Kind}

theorem find?_eq_none_iff : s.table.find? (·.range.contains r) = none ↔ ∀ k ∈ s.table, ¬ r ≤ k.range :=
  List.find?_eq_none

theorem select_of_isFinite (hr : r.isFinite = true) : s.select r = s.table.find? (·.range.contains r) := by
  have hfinite : (r.low.isInfinite || r.high.isInfinite) = false := by simpa [Interval.isFinite] using hr
  unfold select
  rw [hfinite]
  cases s.table.find? (·.range.contains r) <;> rfl

/-- No kind holds an interval with an infinite end. -/
theorem select_of_not_isFinite (hr : r.isFinite = false) : s.select r = some s.fallback := by
  have hinfinite : (r.low.isInfinite || r.high.isInfinite) = true := by
    cases hlow : r.low.isInfinite <;> simp_all [Interval.isFinite]
  have hnone : s.table.find? (·.range.contains r) = none := by
    refine find?_eq_none_iff.2 fun k _ hle => ?_
    rw [Interval.isFinite_of_le hle k.isFinite_range] at hr
    cases hr
  unfold select
  rw [hnone, hinfinite]
  rfl

theorem select_eq_none_iff : s.select r = none ↔ r.isFinite = true ∧ ∀ k ∈ s.table, ¬ r ≤ k.range := by
  cases hr : r.isFinite with
  | true => rw [select_of_isFinite hr, find?_eq_none_iff]; simp
  | false => rw [select_of_not_isFinite hr]; simp

theorem exists_select (h : k ∈ s.table) (hr : r ≤ k.range) : ∃ k', s.select r = some k' := by
  cases hselect : s.select r with
  | some k' => exact ⟨k', rfl⟩
  | none => exact absurd hr ((select_eq_none_iff.1 hselect).2 k h)

variable {kinds : List Kind}

theorem isNarrowestFit_of_select (h : IsStableSort s.table kinds) (hr : r.isFinite = true) (hk : s.select r = some k) :
    IsNarrowestFit kinds r k := by
  rw [select_of_isFinite hr] at hk
  exact h.isNarrowestFit_of_find? hk

/-- An interval within a kind of the table gets one that is not wider. -/
theorem exists_select_bits_le (h : IsStableSort s.table kinds) (hk : k ∈ s.table) (hr : r ≤ k.range) :
    ∃ k', s.select r = some k' ∧ k'.bits ≤ k.bits := by
  obtain ⟨k', hk'⟩ := exists_select hk hr
  have hfits := isNarrowestFit_of_select h (Interval.isFinite_of_le hr k.isFinite_range) hk'
  exact ⟨k', hk', hfits.bits_le (h.mem_iff.1 hk) hr⟩

theorem select_mono {a b : Interval} {kb : Kind} (h : IsStableSort s.table kinds) (hab : a ≤ b)
    (hb : s.select b = some kb) (ha : b.isFinite = true ∨ a.isFinite = false ∨ ∃ k ∈ s.table, a ≤ k.range) :
    ∃ ka, s.select a = some ka ∧ ka.bits ≤ kb.bits := by
  cases hfinite : b.isFinite with
  | true =>
    have hfits := isNarrowestFit_of_select h hfinite hb
    exact exists_select_bits_le h (h.mem_iff.2 hfits.mem) (Interval.le_trans hab hfits.1)
  | false =>
    rw [select_of_not_isFinite hfinite] at hb
    cases hb
    rcases ha with ha | ha | ⟨k, hk, hak⟩
    · rw [hfinite] at ha
      cases ha
    · exact ⟨s.fallback, select_of_not_isFinite ha, Nat.le_refl _⟩
    · obtain ⟨ka, hka, hle⟩ := exists_select_bits_le h hk hak
      have hlast := h.isLastOfWidest_getLast s.table_ne_nil
      exact ⟨ka, hka, Nat.le_trans hle (hlast.bits_le (h.mem_iff.1 hk))⟩

end Selector

/-- **Narrowest first.**  The table is the list of kinds, stably sorted by width, and the fallback is the last of the
widest.  Nothing is selected for a finite interval that no kind holds; one with an infinite end gets the fallback; any
other gets the first of the narrowest kinds that hold it.  What is selected for an interval is not wider than what is
selected for one around it, except that nothing may be selected for a finite interval within one that is not. -/
theorem selection_narrowest_first {kinds : List Kind} (hne : kinds ≠ []) :
    ∃ s, Selector.ofKinds kinds = .ok s ∧ IsStableSort s.table kinds ∧ IsLastOfWidest kinds s.fallback ∧
      (∀ r, s.select r = none ↔ r.isFinite = true ∧ ∀ k ∈ s.table, ¬ r ≤ k.range) ∧
      (∀ r, r.isFinite = false → s.select r = some s.fallback) ∧
      (∀ r k, r.isFinite = true → s.select r = some k → IsNarrowestFit kinds r k) ∧
      ∀ a b kb, a ≤ b → s.select b = some kb →
        (b.isFinite = true ∨ a.isFinite = false ∨ ∃ k ∈ s.table, a ≤ k.range) →
        ∃ ka, s.select a = some ka ∧ ka.bits ≤ kb.bits := by
  obtain ⟨s, hs⟩ := Selector.exists_ofKinds hne
  have hsort := Selector.isStableSort_table hs
  refine ⟨s, hs, hsort, hsort.isLastOfWidest_getLast s.table_ne_nil, fun r => Selector.select_eq_none_iff, ?_, ?_, ?_⟩
  · exact fun r hr => Selector.select_of_not_isFinite hr
  · exact fun r k hr hk => Selector.isNarrowestFit_of_select hsort hr hk
  · exact fun a b kb hab hb ha => Selector.select_mono hsort hab hb ha

/-- Signed before unsigned, as in the list, and the other way round for the fallback. -/
theorem selection_narrowest_first_signed :
    ([⟨.w16, true⟩, ⟨.w16, false⟩] : List Kind) ≠ [] ∧
      ∃ s, Selector.ofKinds [⟨.w16, true⟩, ⟨.w16, false⟩] = .ok s ∧ s.fallback = ⟨.w16, false⟩ ∧
        s.select (.single 10) = some ⟨.w16, true⟩ := by
  refine ⟨List.cons_ne_nil _ _, ?_⟩
  obtain ⟨s, hs, hsort, ⟨pre, post, hkinds, -, hpost⟩, hnone, -, hfits, -⟩ :=
    selection_narrowest_first (List.cons_ne_nil ⟨.w16, true⟩ [⟨.w16, false⟩])
  refine ⟨s, hs, ?_, ?_⟩
  · rcases pre with - | ⟨k, - | ⟨k', pre⟩⟩
    · obtain ⟨hfirst, rfl⟩ := List.cons.inj hkinds
      have hlt := hpost ⟨.w16, false⟩ List.mem_cons_self
      rw [← hfirst] at hlt
      exact absurd hlt (by decide)
    · exact (List.cons.inj (List.cons.inj hkinds).2).1.symm
    · simp at hkinds
  · have hsigned : (⟨.w16, true⟩ : Kind) ∈ s.table := hsort.mem_iff.2 List.mem_cons_self
    cases hselect : s.select (.single 10) with
    | none => exact absurd (by decide) (((hnone _).1 hselect).2 _ hsigned)
    | some k =>
      obtain ⟨-, -, pre, post, hkinds, hpre⟩ := hfits _ k rfl hselect
      rcases pre with - | ⟨k', - | ⟨k'', pre⟩⟩
      · rw [(List.cons.inj hkinds).1]
      · obtain ⟨rfl, hrest⟩ := List.cons.inj hkinds
        have hk := (List.cons.inj hrest).1
        exact absurd (by decide) (hpre _ List.mem_cons_self (by rw [← hk]; rfl))
      · simp at hkinds

/-- The fallback stands for all integers, but not for a finite interval that it does not hold. -/
theorem finite_interval_selects_nothing :
    ∃ s, Selector.ofKinds [⟨.w8, false⟩] = .ok s ∧ (⟨.fin 0, .fin 300, by decide⟩ : Interval) ≤ .top ∧
      s.select .top = some ⟨.w8, false⟩ ∧ s.select ⟨.fin 0, .fin 300, by decide⟩ = none := by
  obtain ⟨s, hs⟩ := Selector.exists_ofKinds (List.cons_ne_nil (⟨.w8, false⟩ : Kind) [])
  have hmem : ∀ k, k ∈ s.table ↔ k = ⟨.w8, false⟩ := fun k =>
    (Selector.isStableSort_table hs).mem_iff.trans List.mem_singleton
  have hfallback : s.fallback = ⟨.w8, false⟩ := (hmem _).1 (List.getLast_mem s.table_ne_nil)
  refine ⟨s, hs, by decide, ?_, ?_⟩
  · rw [Selector.select_of_not_isFinite rfl, hfallback]
  · refine Selector.select_eq_none_iff.2 ⟨rfl, fun k hk => ?_⟩
    rw [(hmem k).1 hk]
    decide

/-! ### Clamped intervals -/

/-- `c` holds the integers that `r` and `q` share, or is `q` if they share none. -/
structure IsClamp (c r q : Interval) : Prop where
  shared : (∃ x ∈ r, x ∈ q) → ∀ x, x ∈ c ↔ x ∈ r ∧ x ∈ q
  disjoint : (¬ ∃ x ∈ r, x ∈ q) → c = q

theorem Interval.isInhabited_of_isFinite {r : Interval} (h : r.isFinite = true) : r.IsInhabited := by
  rw [isInhabited_iff_proper]
  refine ⟨fun hlow => ?_, fun hhigh => ?_⟩
  · simp [isFinite, hlow, Bound.isInfinite] at h
  · simp [isFinite, hhigh, Bound.isInfinite] at h

namespace Selector

variable {name : String} {k₀ : Kind} (hk₀ : Kind.ofNominal? name = some k₀)

include hk₀

theorem clamp_nominal (r : Interval) : clamp r (.nominal name) = (r.inter? k₀.range).getD k₀.range := by
  simp only [clamp, hk₀]

theorem clamp_le (r : Interval) : clamp r (.nominal name) ≤ k₀.range := by
  rw [clamp_nominal hk₀]
  cases hr : r.inter? k₀.range with
  | none => exact Interval.le_refl _
  | some c => exact Interval.inter?_le_right hr

theorem isClamp_clamp (r : Interval) : IsClamp (clamp r (.nominal name)) r k₀.range := by
  rw [clamp_nominal hk₀]
  cases hr : r.inter? k₀.range with
  | none =>
    refine ⟨fun ⟨x, hx, hxk⟩ => ?_, fun _ => rfl⟩
    obtain ⟨c, hc, -⟩ := Interval.inter?_of_mem hx hxk
    rw [hr] at hc
    cases hc
  | some c =>
    refine ⟨fun _ x => Interval.mem_inter?_iff hr, fun hdisjoint => ?_⟩
    have hfinite : c.isFinite = true := Interval.isFinite_of_le (Interval.inter?_le_right hr) k₀.isFinite_range
    obtain ⟨x, hx⟩ := Interval.isInhabited_of_isFinite hfinite
    exact absurd ⟨x, (Interval.mem_inter?_iff hr).1 hx⟩ hdisjoint

/-- Where the inner one of two intervals shares integers with the type, clamping keeps their order. -/
theorem clamp_mono {a b : Interval} (hab : a ≤ b) (hmeets : ∃ x ∈ a, x ∈ k₀.range) :
    clamp a (.nominal name) ≤ clamp b (.nominal name) := by
  obtain ⟨x, hx, hxk⟩ := hmeets
  obtain ⟨c, hc, -⟩ := Interval.inter?_of_mem hx hxk
  obtain ⟨c', hc', hle⟩ := Interval.inter?_mono hab (Interval.le_refl k₀.range) hc
  rw [clamp_nominal hk₀, clamp_nominal hk₀, hc, hc']
  exact hle

end Selector

/-- **Word types clamp.**  For a variable of a word type the selection goes by the integers of the interval that the type
admits, or by all integers of the type if there are none.  If the type's own kind is in the list, a kind is selected and
it is not wider.  Nothing is selected exactly if no kind holds the clamped interval, so the fallback plays no part.  A
selected kind holds all integers of the interval that the type admits, and within a smaller interval that admits some the
selection is not wider. -/
theorem clamped_selection_respects_type {kinds : List Kind} {name : String} {k₀ : Kind} (hne : kinds ≠ [])
    (hk₀ : Kind.ofNominal? name = some k₀) :
    ∃ s, Selector.ofKinds kinds = .ok s ∧
      (k₀ ∈ kinds → ∀ r, ∃ k, s.selectFor r (.nominal name) = some k ∧ k.bits ≤ k₀.bits) ∧
      (∀ r, IsClamp (Selector.clamp r (.nominal name)) r k₀.range ∧
        (s.selectFor r (.nominal name) = none ↔ ∀ k ∈ kinds, ¬ Selector.clamp r (.nominal name) ≤ k.range) ∧
        ∀ k, s.selectFor r (.nominal name) = some k → Selector.clamp r (.nominal name) ≤ k.range) ∧
      (∀ r k, s.selectFor r (.nominal name) = some k → ∀ x ∈ r, x ∈ k₀.range → x ∈ k.range) ∧
      ∀ a b kb, a ≤ b → (∃ x ∈ a, x ∈ k₀.range) → s.selectFor b (.nominal name) = some kb →
        ∃ ka, s.selectFor a (.nominal name) = some ka ∧ ka.bits ≤ kb.bits := by
  obtain ⟨s, hs⟩ := Selector.exists_ofKinds hne
  have hsort := Selector.isStableSort_table hs
  have hfinite : ∀ r, (Selector.clamp r (.nominal name)).isFinite = true := fun r =>
    Interval.isFinite_of_le (Selector.clamp_le hk₀ r) k₀.isFinite_range
  have hfits : ∀ r k, s.selectFor r (.nominal name) = some k →
      IsNarrowestFit kinds (Selector.clamp r (.nominal name)) k := fun r k hk =>
    Selector.isNarrowestFit_of_select hsort (hfinite r) hk
  refine ⟨s, hs, fun hmem r => ?_, fun r => ?_, fun r k hk x hx hxk => ?_, fun a b kb hab hmeets hb => ?_⟩
  · exact Selector.exists_select_bits_le hsort (hsort.mem_iff.2 hmem) (Selector.clamp_le hk₀ r)
  · refine ⟨Selector.isClamp_clamp hk₀ r, ?_, fun k hk => (hfits r k hk).1⟩
    rw [Selector.selectFor, Selector.select_eq_none_iff]
    simp only [hfinite r, true_and, hsort.mem_iff]
  · have hclamped := ((Selector.isClamp_clamp hk₀ r).shared ⟨x, hx, hxk⟩ x).2 ⟨hx, hxk⟩
    exact Interval.mem_of_le (hfits r k hk).1 hclamped
  · exact Selector.select_mono hsort (Selector.clamp_mono hk₀ hab hmeets) hb (.inl (hfinite b))

/-- Without a kind of 64 bits nothing is selected for all integers of `i64`, and the fallback does not step in. -/
theorem clamped_selection_respects_type_narrow :
    Kind.ofNominal? "i64" = some ⟨.w64, true⟩ ∧
      ∃ s, Selector.ofKinds [⟨.w32, true⟩, ⟨.w8, false⟩] = .ok s ∧ s.selectFor .top (.nominal "i64") = none ∧
        ∃ k, s.selectFor (.single (-70000)) (.nominal "i64") = some k ∧ -70000 ∈ k.range := by
  have hk₀ : Kind.ofNominal? "i64" = some ⟨.w64, true⟩ := by decide
  obtain ⟨s, hs, -, hnone, hholds, -⟩ :=
    clamped_selection_respects_type (List.cons_ne_nil (⟨.w32, true⟩ : Kind) [⟨.w8, false⟩]) hk₀
  refine ⟨hk₀, s, hs, (hnone .top).2.1.2 ?_, ?_⟩
  · intro k hk
    rcases List.mem_cons.1 hk with rfl | hk
    · decide
    · rw [List.mem_singleton.1 hk]
      decide
  · cases hselect : s.selectFor (.single (-70000)) (.nominal "i64") with
    | some k => exact ⟨k, rfl, hholds _ k hselect _ (Interval.mem_single _) (by decide)⟩
    | none => exact absurd (by decide) ((hnone _).2.1.1 hselect _ List.mem_cons_self)

end Narrowing
