import Narrowing.Proofs.Text
import Narrowing.Proofs.WellFormed

/-!
# The enumeration of program points

The points of a block tree are the codes that stand in it, each listed once.  Their paths are decimal numbers with
points between them; read back as numbers (`pathOffsets?`) they are the offsets of the point, and by these the list is
sorted, so no two points have the same path.  `Flow.Enumerates` puts together what holds of the list and of the functions
that lead from point to point.
-/

namespace Narrowing

/-! ### Paths -/

/-- Cutting undoes joining, if no piece has the separator in it. -/
theorem Text.pieces_intercalate {c : Char} {ps : List (List Char)} (hne : ps ≠ []) (h : ∀ p ∈ ps, c ∉ p) :
    pieces (· == c) ([c].intercalate ps) = ps := by
  have hsolid : ∀ p ∈ ps, pieces (· == c) p = [p] := by
    intro p hp
    refine pieces_of_solid fun d hd => beq_eq_false_iff_ne.2 ?_
    rintro rfl
    exact h p hp hd
  induction ps with
  | nil => exact absurd rfl hne
  | cons p ps ih =>
    cases ps with
    | nil => simpa using hsolid p (by simp)
    | cons q qs =>
      have htail := ih (by simp) (fun r hr => h r (by simp [hr])) (fun r hr => hsolid r (by simp [hr]))
      rw [List.intercalate_cons_cons, List.append_assoc, List.singleton_append,
        pieces_append_cons (by simp), hsolid p (by simp), htail]
      rfl

/-- The numbers between the points of a path. -/
def pathOffsets? (path : String) : Option (List Nat) :=
  (Text.pieces (· == '.') path.toList).mapM (Text.readNat 10)

theorem pathOffsets?_intercalate {offsets : List Nat} (hne : offsets ≠ []) :
    pathOffsets? (".".intercalate (offsets.map toString)) = some offsets := by
  have htext : (".".intercalate (offsets.map toString)).toList = ['.'].intercalate (offsets.map (Nat.toDigits 10)) := by
    rw [String.toList_intercalate, List.map_map]
    congr 1
    exact List.map_congr_left fun n _ => Text.toList_toString n
  have hdigits : ∀ ds ∈ offsets.map (Nat.toDigits 10), '.' ∉ ds := by
    intro ds hds hmem
    obtain ⟨n, -, rfl⟩ := List.mem_map.1 hds
    exact absurd (Text.isNameRest_of_mem_toDigits hmem) (by decide)
  have hread : ∀ ns : List Nat, (ns.map (Nat.toDigits 10)).mapM (Text.readNat 10) = some ns := by
    intro ns
    induction ns with
    | nil => rfl
    | cons n ns ih => simp [Text.readNat_toDigits, ih]
  rw [pathOffsets?, htext, Text.pieces_intercalate (by simpa using hne) hdigits, hread]

theorem pathOffsets?_of_mem {b : Option Block} {p : Point} (h : p ∈ (Flow.ofBlock b).points) :
    pathOffsets? p.address.path = some p.address.offsets := by
  have hne : p.address.offsets ≠ [] := by simp [Address.offsets]
  rw [path_of_mem_points h, pathOffsets?_intercalate hne]

/-! ### Neighbours in the list -/

/-- Right behind a loop stands the first code of its body. -/
theorem first_of_body {codes : List Code} {loops : List Nat} {offset k : Nat} {p : Point} {c : Code} {rest : List Code}
    (h : (blockPoints loops offset codes)[k]? = some p) (hbody : p.code.body = c :: rest) :
    (blockPoints loops offset codes)[k + 1]? = some ⟨⟨p.address.offsets, 0⟩, c⟩ := by
  induction codes using block_induction generalizing loops offset k with
  | nil => simp [blockPoints] at h
  | cons d ds ihbody ihrest =>
    rw [blockPoints_cons] at h ⊢
    rw [List.getElem?_cons_succ]
    cases k with
    | zero =>
      cases h
      rw [show d.body = c :: rest from hbody, blockPoints_cons]
      rfl
    | succ k =>
      rw [List.getElem?_cons_succ] at h
      have hnext := Nat.lt_or_ge k (blockPoints (loops ++ [offset]) 0 d.body).length
      rcases hnext with hk | hk
      · rw [List.getElem?_append_left hk] at h
        have hin := ihbody h
        obtain ⟨hlt, -⟩ := List.getElem?_eq_some_iff.1 hin
        rw [List.getElem?_append_left hlt]
        exact hin
      · rw [List.getElem?_append_right hk] at h
        rw [List.getElem?_append_right (by omega), Nat.sub_add_comm hk]
        exact ihrest h

namespace Flow

/-- The address is that of a listed point. -/
def Lists (g : Flow) (a : Address) : Prop := ∃ p ∈ g.points, p.address = a

theorem enter?_of_body {b : Option Block} {k : Nat} {p : Point} {c : Code} {rest : List Code}
    (h : (ofBlock b).points[k]? = some p) (hcode : p.code = .loop (c :: rest)) :
    (ofBlock b).enter? p.address = .ok (some ⟨p.address.offsets, 0⟩) := by
  have hat : (ofBlock b).codeAt? p.address = some (.loop (c :: rest)) := hcode ▸ codeAt?_address h
  unfold enter? codeAt
  rw [hat]
  rfl

theorem order?_eq_some_iff {b : Option Block} {a : Address} {k : Nat} :
    (ofBlock b).order? a = some k ↔ ∃ p, (ofBlock b).points[k]? = some p ∧ p.address = a := by
  constructor
  · intro h
    obtain ⟨p, hp, ha, -⟩ := order?_eq_some h
    exact ⟨p, hp, ha⟩
  · rintro ⟨p, hp, rfl⟩
    exact order?_address hp

theorem lists_of_mem_successors {b : Option Block} {a a' : Address} {as : List Address}
    (h : (ofBlock b).successors a = .ok as) (ha' : a' ∈ as) : (ofBlock b).Lists a' := by
  obtain ⟨c, hc, h⟩ := bind_eq_ok.1 h
  have hat : (ofBlock b).codeAt? a = some c := by
    unfold codeAt at hc
    split at hc
    · next hat => rw [hat, Except.ok.inj hc]
    · cases hc
  -- where control falls through to, and where a label is
  have hnext : (ofBlock b).next? a = some a' → (ofBlock b).Lists a' := fun hn =>
    isValid_iff.1 (isValid_next? (isValid_of_codeAt? hat) hn)
  have hlabel : ∀ l, (ofBlock b).label? l = some a' → (ofBlock b).Lists a' := fun l hl => isValid_iff.1 (isValid_label? hl)
  have henter : ∀ o, (ofBlock b).enter? a = .ok o → a' ∈ o.toList → (ofBlock b).Lists a' := by
    intro o ho ha'
    rw [Option.mem_toList.1 ha'] at ho
    exact isValid_iff.1 (isValid_enter? ho)
  cases c with
  | goto l =>
    cases h
    exact hlabel l (Option.mem_toList.1 ha')
  | branch x op y l =>
    cases h
    rcases List.mem_append.1 ha' with ha' | ha'
    · exact hlabel l (Option.mem_toList.1 ha')
    · exact hnext (Option.mem_toList.1 ha')
  | switch x arms d =>
    cases h
    obtain ⟨l, -, hl⟩ := List.mem_filterMap.1 ha'
    exact hlabel l hl
  | loop body =>
    obtain ⟨o, ho, h⟩ := bind_eq_ok.1 h
    cases h
    exact henter o ho ha'
  | bareLoop =>
    obtain ⟨o, ho, h⟩ := bind_eq_ok.1 h
    cases h
    exact henter o ho ha'
  | ret as => cases h; cases ha'
  | fail => cases h; cases ha'
  | _ =>
    cases h
    exact hnext (Option.mem_toList.1 ha')

/-- A label is at the first point that carries it. -/
theorem label?_eq_some_iff {g : Flow} {name : String} {a : Address} :
    g.label? name = some a ↔ ∃ (k : Nat) (p : Point), g.points[k]? = some p ∧ p.address = a ∧ p.code = .label name ∧
      ∀ (j : Nat) (q : Point), j < k → g.points[j]? = some q → q.code ≠ .label name := by
  have hcarries : ∀ p : Point, (p.code.labelName? == some name) = true ↔ p.code = .label name := fun p =>
    beq_iff_eq.trans labelName?_eq_some
  unfold label?
  rw [Option.map_eq_some_iff]
  constructor
  · rintro ⟨p, hp, rfl⟩
    obtain ⟨hname, k, hk, rfl, hfirst⟩ := List.find?_eq_some_iff_getElem.1 hp
    refine ⟨k, _, List.getElem?_eq_getElem hk, rfl, (hcarries _).1 hname, fun j q hj hq hcode => ?_⟩
    obtain ⟨_, rfl⟩ := List.getElem?_eq_some_iff.1 hq
    have hno := hfirst j hj
    rw [(hcarries _).2 hcode] at hno
    cases hno
  · rintro ⟨k, p, hp, rfl, hcode, hfirst⟩
    obtain ⟨hk, rfl⟩ := List.getElem?_eq_some_iff.1 hp
    refine ⟨_, List.find?_eq_some_iff_getElem.2 ⟨(hcarries _).2 hcode, k, hk, rfl, fun j hj => ?_⟩, rfl⟩
    have hno := hfirst j _ hj (List.getElem?_eq_getElem (Nat.lt_trans hj hk))
    simpa using fun hcode => hno (labelName?_eq_some.1 hcode)

theorem label?_eq_none_iff {b : Block} {name : String} :
    (ofBlock (some b)).label? name = none ↔ ∀ path, ¬ StandsAt b path (.label name) := by
  rw [← not_exists, ← mem_labelNames_iff, label?, Option.map_eq_none_iff, List.find?_eq_none, labelNames,
    List.mem_filterMap]
  simp

/-! ### The whole of it -/

/-- The flow lists the program points of a block tree faithfully. -/
structure Enumerates (g : Flow) (codes : Block) : Prop where
  /-- Each code of the tree is listed exactly once, and nothing else is. -/
  once : ∀ path c, StandsAt codes path c ↔
    ∃! k : Nat, ∃ p : Point, g.points[k]? = some p ∧ p.address.offsets = path ∧ p.code = c
  /-- The order of a listed point is its place in the list, and no other address has one. -/
  order : ∀ a k, g.order? a = some k ↔ ∃ p, g.points[k]? = some p ∧ p.address = a
  entry : ∀ a, Flow.entry? g = some a → g.Lists a
  next : ∀ a a', g.Lists a → g.next? a = some a' → g.Lists a'
  enter : ∀ a a', g.enter? a = .ok (some a') → g.Lists a'
  label : ∀ name a, g.label? name = some a → g.Lists a
  successors : ∀ a as, g.successors a = .ok as → ∀ a' ∈ as, g.Lists a'
  /-- Different points have different paths. -/
  paths_differ : ∀ (i j : Nat) (p q : Point), g.points[i]? = some p → g.points[j]? = some q →
    p.address.path = q.address.path → i = j
  /-- Read as numbers, a path is the offsets that lead to the point. -/
  paths_spell : ∀ p ∈ g.points, pathOffsets? p.address.path = some p.address.offsets
  sorted : g.points.Pairwise fun p q => List.Lex (· < ·) p.address.offsets q.address.offsets
  /-- A loop comes immediately before the first point of its body. -/
  body_follows : ∀ (k : Nat) (p : Point) (c : Code) (rest : List Code), g.points[k]? = some p →
    p.code = .loop (c :: rest) → ∃ q, g.points[k + 1]? = some q ∧ q.address.offsets = p.address.offsets ++ [0] ∧
      q.code = c ∧ g.enter? p.address = .ok (some q.address)
  label_first : ∀ name a, g.label? name = some a ↔ ∃ (k : Nat) (p : Point), g.points[k]? = some p ∧ p.address = a ∧
    p.code = .label name ∧ ∀ (j : Nat) (q : Point), j < k → g.points[j]? = some q → q.code ≠ .label name
  label_absent : ∀ name, g.label? name = none ↔ ∀ path, ¬ StandsAt codes path (.label name)

section Points

variable {b : Option Block} {i j : Nat} {p q : Point}

theorem sorted_points (b : Option Block) :
    (ofBlock b).points.Pairwise fun p q => List.Lex (· < ·) p.address.offsets q.address.offsets :=
  pairwise_offsets [] 0 (b.getD [])

/-- A place in the list is known by the offsets of its point. -/
theorem index_eq_of_offsets (hp : (ofBlock b).points[i]? = some p) (hq : (ofBlock b).points[j]? = some q)
    (h : p.address.offsets = q.address.offsets) : i = j := by
  obtain ⟨hi, rfl⟩ := List.getElem?_eq_some_iff.1 hp
  obtain ⟨hj, rfl⟩ := List.getElem?_eq_some_iff.1 hq
  have hlex := List.pairwise_iff_getElem.1 (sorted_points b)
  have hirrefl : ∀ l : List Nat, ¬ List.Lex (· < ·) l l := List.lex_irrefl fun n => Nat.lt_irrefl n
  by_contra hne
  rcases Nat.lt_or_gt_of_ne hne with hlt | hlt
  · exact hirrefl _ (h ▸ hlex i j hi hj hlt)
  · exact hirrefl _ (h ▸ hlex j i hj hi hlt)

theorem standsAt_iff_existsUnique {path : List Nat} {c : Code} :
    StandsAt (b.getD []) path c ↔
      ∃! k : Nat, ∃ p : Point, (ofBlock b).points[k]? = some p ∧ p.address.offsets = path ∧ p.code = c := by
  rw [standsAt_iff_mem_points]
  show (∃ p ∈ (ofBlock b).points, _) ↔ _
  constructor
  · rintro ⟨p, hp, hpath, hcode⟩
    obtain ⟨k, hk⟩ := List.mem_iff_getElem?.1 hp
    refine ⟨k, ⟨p, hk, hpath, hcode⟩, ?_⟩
    rintro j ⟨q, hq, hqpath, -⟩
    exact index_eq_of_offsets hq hk (hqpath.trans hpath.symm)
  · rintro ⟨k, ⟨p, hk, hpath, hcode⟩, -⟩
    exact ⟨p, List.mem_of_getElem? hk, hpath, hcode⟩

end Points

end Flow

/-- **The control flow of a block enumerates its points faithfully**, however deep its loops nest. -/
theorem flow_enumerates_points (b : Option Block) : (Flow.ofBlock b).Enumerates (b.getD []) where
  once path c := Flow.standsAt_iff_existsUnique
  order a k := Flow.order?_eq_some_iff
  entry a h := Flow.isValid_iff.1 (Flow.isValid_iff_order?.2 ⟨0, Flow.order?_of_entry h⟩)
  next a a' ha h := Flow.isValid_iff.1 (Flow.isValid_next? (Flow.isValid_iff.2 ha) h)
  enter a a' h := Flow.isValid_iff.1 (Flow.isValid_enter? h)
  label name a h := Flow.isValid_iff.1 (Flow.isValid_label? h)
  successors a as h a' ha' := Flow.lists_of_mem_successors h ha'
  paths_differ i j p q hp hq h := by
    have hspell := pathOffsets?_of_mem (List.mem_of_getElem? hp)
    rw [h, pathOffsets?_of_mem (List.mem_of_getElem? hq)] at hspell
    exact Flow.index_eq_of_offsets hp hq (Option.some.inj hspell).symm
  paths_spell p hp := pathOffsets?_of_mem hp
  sorted := Flow.sorted_points b
  body_follows k p c rest h hcode :=
    ⟨_, first_of_body h (by rw [hcode]; rfl), rfl, rfl, Flow.enter?_of_body h hcode⟩
  label_first name a := Flow.label?_eq_some_iff
  label_absent name := Flow.label?_eq_none_iff

end Narrowing
