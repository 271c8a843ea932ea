import Narrowing.Analysis.Walk

/-!
# Points and where control goes

The points of a block stand in the lexicographic order of their offsets (`pairwise_offsets`), so no address occurs
twice and `Flow.order?` is the inverse of listing the points.  Control stays among them: `Flow.target?` says where an
edge leads, and from a point of a block it always leads to another one (`isValid_target?`).
-/

namespace Narrowing

/-! ### Induction over blocks -/

/-- The codes that a loop owns; other codes own none. -/
def Code.body : Code → List Code
  | .loop body => body
  | _ => []

theorem Code.sizeOf_body_le (c : Code) : sizeOf c.body ≤ sizeOf c := by
  cases c <;> simp [Code.body] <;> omega

theorem Code.innerPoints_eq (path : List Nat) (c : Code) : c.innerPoints path = blockPoints path 0 c.body := by
  cases c <;> simp [Code.innerPoints, Code.body, blockPoints]

theorem blockPoints_cons (loops : List Nat) (offset : Nat) (c : Code) (rest : List Code) :
    blockPoints loops offset (c :: rest) =
      ⟨⟨loops, offset⟩, c⟩ :: (blockPoints (loops ++ [offset]) 0 c.body ++ blockPoints loops (offset + 1) rest) := by
  rw [blockPoints, Code.innerPoints_eq]

theorem mem_blockPoints_cons {p : Point} {loops : List Nat} {offset : Nat} {c : Code} {rest : List Code} :
    p ∈ blockPoints loops offset (c :: rest) ↔
      p = ⟨⟨loops, offset⟩, c⟩ ∨ p ∈ blockPoints (loops ++ [offset]) 0 c.body ∨
        p ∈ blockPoints loops (offset + 1) rest := by
  rw [blockPoints_cons, List.mem_cons, List.mem_append]

/-- What holds of a block if it holds of the body of its first code and of the codes behind it, holds of all. -/
theorem block_induction {motive : List Code → Prop} (nil : motive [])
    (cons : ∀ c rest, motive c.body → motive rest → motive (c :: rest)) : ∀ codes, motive codes
  | [] => nil
  | c :: rest => cons c rest (block_induction nil cons c.body) (block_induction nil cons rest)
termination_by codes => sizeOf codes
decreasing_by
  · have := c.sizeOf_body_le
    simp only [List.cons.sizeOf_spec]
    omega
  · simp only [List.cons.sizeOf_spec]
    omega

/-! ### The order of the points -/

/-- The offsets of the enclosing loops and of the code itself, from the outside in. -/
def Address.offsets (a : Address) : List Nat := a.loops ++ [a.offset.toNat]

theorem lex_append_left {l a b : List Nat} (h : List.Lex (· < ·) a b) : List.Lex (· < ·) (l ++ a) (l ++ b) := by
  induction l with
  | nil => exact h
  | cons x l ih => exact .cons ih

/-- A point of a block stands within the loops of the block, at the block's first offset or behind it. -/
theorem offsets_of_mem {codes : List Code} {loops : List Nat} {offset : Nat} {p : Point}
    (h : p ∈ blockPoints loops offset codes) :
    ∃ k more, offset ≤ k ∧ p.address.offsets = loops ++ k :: more := by
  induction codes using block_induction generalizing loops offset with
  | nil => simp [blockPoints] at h
  | cons c rest ihbody ihrest =>
    rcases mem_blockPoints_cons.1 h with rfl | hp | hp
    · exact ⟨offset, [], Nat.le_refl _, rfl⟩
    · obtain ⟨k, more, -, ho⟩ := ihbody hp
      refine ⟨offset, k :: more, Nat.le_refl _, ?_⟩
      rw [ho, List.append_assoc, List.singleton_append]
    · obtain ⟨k, more, hk, ho⟩ := ihrest hp
      exact ⟨k, more, by omega, ho⟩

theorem pairwise_offsets (loops : List Nat) (offset : Nat) (codes : List Code) :
    (blockPoints loops offset codes).Pairwise
      fun p q => List.Lex (· < ·) p.address.offsets q.address.offsets := by
  induction codes using block_induction generalizing loops offset with
  | nil => simp [blockPoints]
  | cons c rest ihbody ihrest =>
    -- a later offset at the level of the block decides, whatever follows it
    have hlater : ∀ (l : List Nat) {q : Point}, q ∈ blockPoints loops (offset + 1) rest →
        List.Lex (· < ·) (loops ++ offset :: l) q.address.offsets := by
      intro l q hq
      obtain ⟨k, more, hk, ho⟩ := offsets_of_mem hq
      rw [ho]
      exact lex_append_left (.rel (by omega))
    rw [blockPoints_cons, List.pairwise_cons, List.pairwise_append]
    refine ⟨fun q hq => ?_, ihbody _ _, ihrest _ _, fun p hp q hq => ?_⟩
    · rcases List.mem_append.1 hq with hq | hq
      · obtain ⟨k, more, -, ho⟩ := offsets_of_mem hq
        rw [ho, List.append_assoc]
        exact lex_append_left (.cons .nil)
      · exact hlater [] hq
    · obtain ⟨k, more, -, ho⟩ := offsets_of_mem hp
      rw [ho, List.append_assoc]
      exact hlater (k :: more) hq

theorem offset_nonneg_of_mem {codes : List Code} {loops : List Nat} {offset : Nat} {p : Point}
    (h : p ∈ blockPoints loops offset codes) : 0 ≤ p.address.offset := by
  induction codes using block_induction generalizing loops offset with
  | nil => simp [blockPoints] at h
  | cons c rest ihbody ihrest =>
    rcases mem_blockPoints_cons.1 h with rfl | hp | hp
    · exact Int.natCast_nonneg offset
    · exact ihbody hp
    · exact ihrest hp

/-- The path of a point spells its offsets. -/
theorem path_of_mem_points {b : Option Block} {p : Point} (h : p ∈ (Flow.ofBlock b).points) :
    p.address.path = ".".intercalate (p.address.offsets.map toString) := by
  obtain ⟨n, hn⟩ := Int.eq_ofNat_of_zero_le (offset_nonneg_of_mem h)
  unfold Address.path Address.offsets
  rw [hn, List.map_append]
  rfl

namespace Flow

/-- Listing the points and looking up their positions are inverse to each other. -/
theorem order?_address {b : Option Block} {i : Nat} {p : Point} (h : (ofBlock b).points[i]? = some p) :
    (ofBlock b).order? p.address = some i := by
  obtain ⟨hi, rfl⟩ := List.getElem?_eq_some_iff.1 h
  refine List.findIdx?_eq_some_iff_getElem.2 ⟨hi, by simp, fun j hj heq => ?_⟩
  have hpair : (ofBlock b).points.Pairwise fun p q => List.Lex (· < ·) p.address.offsets q.address.offsets :=
    pairwise_offsets [] 0 (b.getD [])
  have hlex := List.pairwise_iff_getElem.1 hpair j i (Nat.lt_trans hj hi) hi hj
  rw [beq_iff_eq.1 heq] at hlex
  exact List.lex_irrefl (fun n => Nat.lt_irrefl n) _ hlex

theorem order?_eq_some {g : Flow} {a : Address} {i : Nat} (h : g.order? a = some i) :
    ∃ p, g.points[i]? = some p ∧ p.address = a ∧ g.codeAt? a = some p.code := by
  obtain ⟨hi, hp, hfirst⟩ := List.findIdx?_eq_some_iff_getElem.1 h
  refine ⟨g.points[i], List.getElem?_eq_getElem hi, by simpa using hp, ?_⟩
  have hfind : g.points.find? (·.address == a) = some g.points[i] := by
    rw [List.find?_eq_bind_findIdx?_getElem?, show g.points.findIdx? (·.address == a) = some i from h]
    exact List.getElem?_eq_getElem hi
  rw [codeAt?, hfind]
  rfl

theorem order?_inj {g : Flow} {a b : Address} {i : Nat} (ha : g.order? a = some i) (hb : g.order? b = some i) :
    a = b := by
  obtain ⟨p, hp, rfl, -⟩ := order?_eq_some ha
  obtain ⟨q, hq, rfl, -⟩ := order?_eq_some hb
  rw [hp] at hq
  cases hq
  rfl

theorem codeAt?_address {b : Option Block} {i : Nat} {p : Point} (h : (ofBlock b).points[i]? = some p) :
    (ofBlock b).codeAt? p.address = some p.code := by
  obtain ⟨q, hq, -, hcode⟩ := order?_eq_some (order?_address h)
  rw [h] at hq
  cases hq
  exact hcode

theorem isValid_iff {g : Flow} {a : Address} : g.isValid a = true ↔ ∃ p ∈ g.points, p.address = a := by
  simp [isValid, codeAt?]

theorem isValid_iff_order? {g : Flow} {a : Address} : g.isValid a = true ↔ ∃ i, g.order? a = some i := by
  rw [isValid_iff]
  constructor
  · rintro ⟨p, hp, rfl⟩
    exact ⟨_, List.findIdx?_eq_some_of_exists ⟨p, hp, by simp⟩⟩
  · rintro ⟨i, hi⟩
    obtain ⟨p, hp, hpa, -⟩ := order?_eq_some hi
    exact ⟨p, List.mem_of_getElem? hp, hpa⟩

theorem isValid_of_codeAt? {g : Flow} {a : Address} {c : Code} (h : g.codeAt? a = some c) : g.isValid a = true := by
  rw [isValid, h]
  rfl

theorem exists_order? {g : Flow} {a : Address} {c : Code} (h : g.codeAt? a = some c) :
    ∃ i, g.order? a = some i ∧ g.points[i]? = some ⟨a, c⟩ := by
  obtain ⟨i, hi⟩ := isValid_iff_order?.1 (isValid_of_codeAt? h)
  obtain ⟨p, hp, rfl, hcode⟩ := order?_eq_some hi
  rw [h] at hcode
  cases hcode
  exact ⟨i, hi, hp⟩

theorem order?_of_entry {g : Flow} {a : Address} (h : Flow.entry? g = some a) : g.order? a = some 0 := by
  obtain ⟨points⟩ := g
  cases points with
  | nil => cases h
  | cons p ps =>
    cases h
    simp [order?, List.findIdx?_cons]

theorem length_pos_of_entry {g : Flow} {a : Address} (h : Flow.entry? g = some a) : 0 < g.points.length := by
  obtain ⟨p, hp, -, -⟩ := order?_eq_some (order?_of_entry h)
  exact (List.getElem?_eq_some_iff.1 hp).1

end Flow

/-! ### Loops and their bodies -/

/-- A point within a loop of the block has the loop's point as its owner. -/
theorem owner?_of_mem {codes : List Code} {loops : List Nat} {offset : Nat} {p : Point}
    (h : p ∈ blockPoints loops offset codes) :
    p.address.loops = loops ∨ ∃ q ∈ blockPoints loops offset codes, p.address.owner? = some q.address := by
  induction codes using block_induction generalizing loops offset with
  | nil => simp [blockPoints] at h
  | cons c rest ihbody ihrest =>
    rcases mem_blockPoints_cons.1 h with rfl | hp | hp
    · exact .inl rfl
    · refine .inr ?_
      rcases ihbody hp with hl | ⟨q, hq, ho⟩
      · refine ⟨_, mem_blockPoints_cons.2 (.inl rfl), ?_⟩
        rw [Address.owner?, hl]
        simp
      · exact ⟨q, mem_blockPoints_cons.2 (.inr (.inl hq)), ho⟩
    · rcases ihrest hp with hl | ⟨q, hq, ho⟩
      · exact .inl hl
      · exact .inr ⟨q, mem_blockPoints_cons.2 (.inr (.inr hq)), ho⟩

/-- The first code in the body of a loop is a point. -/
theorem enter_of_mem {codes : List Code} {loops : List Nat} {offset : Nat} {p : Point}
    (h : p ∈ blockPoints loops offset codes) (hbody : p.code.body ≠ []) :
    ∃ q ∈ blockPoints loops offset codes, q.address = ⟨p.address.loops ++ [p.address.offset.toNat], 0⟩ := by
  induction codes using block_induction generalizing loops offset with
  | nil => simp [blockPoints] at h
  | cons c rest ihbody ihrest =>
    rcases mem_blockPoints_cons.1 h with rfl | hp | hp
    · obtain ⟨d, more, hd⟩ := List.exists_cons_of_ne_nil hbody
      have hq : (⟨⟨loops ++ [offset], (0 : Nat)⟩, d⟩ : Point) ∈ blockPoints (loops ++ [offset]) 0 c.body := by
        rw [show c.body = d :: more from hd]
        exact mem_blockPoints_cons.2 (.inl rfl)
      exact ⟨_, mem_blockPoints_cons.2 (.inr (.inl hq)), rfl⟩
    · obtain ⟨q, hq, ha⟩ := ihbody hp
      exact ⟨q, mem_blockPoints_cons.2 (.inr (.inl hq)), ha⟩
    · obtain ⟨q, hq, ha⟩ := ihrest hp
      exact ⟨q, mem_blockPoints_cons.2 (.inr (.inr hq)), ha⟩

/-! ### Where edges lead -/

namespace Flow

/-- Where an edge out of the code at an address leads. -/
def target? (g : Flow) (a : Address) : Edge → Option Address
  | .next => g.next? a
  | .jump l _ => g.label? l
  | .enter => (g.enter? a).toOption.join
  | .exit => none

theorem target?_enter {g : Flow} {a b : Address} : g.target? a .enter = some b ↔ g.enter? a = .ok (some b) := by
  unfold target?
  cases g.enter? a with
  | error e => simp [Except.toOption]
  | ok o => simp [Except.toOption]

theorem isValid_label? {g : Flow} {l : String} {a : Address} (h : g.label? l = some a) : g.isValid a = true := by
  obtain ⟨p, hp, rfl⟩ := Option.map_eq_some_iff.1 h
  exact isValid_iff.2 ⟨p, List.mem_of_find?_eq_some hp, rfl⟩

theorem isValid_next? {b : Option Block} {a a' : Address} (ha : (ofBlock b).isValid a = true)
    (h : (ofBlock b).next? a = some a') : (ofBlock b).isValid a' = true := by
  unfold next? at h
  split at h
  · next hstep => cases h; exact hstep
  · obtain ⟨p, hp, rfl⟩ := isValid_iff.1 ha
    rcases owner?_of_mem hp with hl | ⟨q, hq, ho⟩
    · rw [Address.owner?, hl] at h
      cases h
    · rw [ho] at h
      cases h
      exact isValid_iff.2 ⟨q, hq, rfl⟩

theorem enter?_eq_ok {g : Flow} {a a' : Address} (h : g.enter? a = .ok (some a')) :
    ∃ c, g.codeAt? a = some c ∧ c.body ≠ [] ∧ a' = ⟨a.loops ++ [a.offset.toNat], 0⟩ := by
  unfold enter? codeAt at h
  cases hc : g.codeAt? a with
  | none => rw [hc] at h; cases h
  | some c =>
    rw [hc] at h
    refine ⟨c, rfl, ?_⟩
    cases c with
    | loop body =>
      cases body with
      | nil => cases h
      | cons d more => cases h; exact ⟨List.cons_ne_nil _ _, rfl⟩
    | _ => cases h

/-- A loop can be entered, unless there is nothing in it. -/
theorem exists_enter? {g : Flow} {a : Address} {c : Code} (hc : g.codeAt? a = some c)
    (hloop : c = .bareLoop ∨ ∃ body, c = .loop body) : ∃ o, g.enter? a = .ok o := by
  unfold enter? codeAt
  rw [hc]
  rcases hloop with rfl | ⟨body, rfl⟩
  · exact ⟨_, rfl⟩
  · exact ⟨_, rfl⟩

theorem isValid_enter? {b : Option Block} {a a' : Address} (h : (ofBlock b).enter? a = .ok (some a')) :
    (ofBlock b).isValid a' = true := by
  obtain ⟨c, hc, hbody, rfl⟩ := enter?_eq_ok h
  obtain ⟨p, hp, rfl⟩ := Option.map_eq_some_iff.1 hc
  have ha : p.address = a := by simpa using List.find?_some hp
  obtain ⟨q, hq, hqa⟩ := enter_of_mem (List.mem_of_find?_eq_some hp) hbody
  exact isValid_iff.2 ⟨q, hq, ha ▸ hqa⟩

/-- From a point of a block every edge leads to a point of the block. -/
theorem isValid_target? {b : Option Block} {a a' : Address} {e : Edge} (ha : (ofBlock b).isValid a = true)
    (h : (ofBlock b).target? a e = some a') : (ofBlock b).isValid a' = true := by
  cases e with
  | next => exact isValid_next? ha h
  | jump l arm => exact isValid_label? h
  | enter => exact isValid_enter? (target?_enter.1 h)
  | exit => cases h

theorem follow_of_target? {g : Flow} {unit : String} {a a' : Address} {e : Edge} (h : g.target? a e = some a') :
    g.follow unit a e = .ok (g.order? a') := by
  cases e with
  | next => rw [follow, show g.next? a = some a' from h]; rfl
  | jump l arm => rw [follow, show g.label? l = some a' from h]
  | enter => rw [follow, target?_enter.1 h]; rfl
  | exit => cases h

theorem target?_of_follow {g : Flow} {unit : String} {a : Address} {e : Edge} {j : Nat}
    (h : g.follow unit a e = .ok (some j)) : ∃ a', g.target? a e = some a' ∧ g.order? a' = some j := by
  cases e with
  | next => exact Option.bind_eq_some_iff.1 (Except.ok.inj h)
  | jump l arm =>
    rw [follow] at h
    cases hl : g.label? l with
    | none => rw [hl] at h; cases h
    | some b => rw [hl] at h; exact ⟨b, hl, Except.ok.inj h⟩
  | enter =>
    unfold follow at h
    cases he : g.enter? a with
    | error e => rw [he] at h; cases h
    | ok o =>
      rw [he] at h
      obtain ⟨a', rfl, ha'⟩ := Option.bind_eq_some_iff.1 (Except.ok.inj h)
      exact ⟨a', target?_enter.2 he, ha'⟩
  | exit => cases h

end Flow

end Narrowing
