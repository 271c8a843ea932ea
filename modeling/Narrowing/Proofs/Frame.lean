import Narrowing.Analysis.Walk
import Narrowing.Proofs.Interval

/-!
# The order of frames

`f ≤ g` says that `f` knows at least what `g` knows: the frames have the same size, and every slot that holds an
interval in `g` holds one within it in `f`.  A slot that holds nothing is unknown, so it stands above all others.
`Frame.join` is the least upper bound of two frames, and widening only goes up.
-/

namespace Narrowing

section Except

variable {ε ε' α β : Type}

theorem bind_eq_ok {x : Except ε α} {k : α → Except ε β} {b : β} :
    (x >>= k) = .ok b ↔ ∃ a, x = .ok a ∧ k a = .ok b := by
  cases x <;> simp [bind, Except.bind]

theorem map_eq_ok {x : Except ε α} {k : α → β} {b : β} : x.map k = .ok b ↔ ∃ a, x = .ok a ∧ k a = b := by
  cases x <;> simp [Except.map]

theorem mapError_eq_ok {x : Except ε α} {k : ε → ε'} {a : α} : x.mapError k = .ok a ↔ x = .ok a := by
  cases x with
  | error e => exact ⟨nofun, nofun⟩
  | ok b =>
    constructor
    · intro h; cases h; rfl
    · intro h; cases h; rfl

/-- What each step of a loop over a list keeps holds when the loop is over. -/
theorem foldlM_induction {l : List β} {step : α → β → Except ε α} {motive : α → Prop}
    (hstep : ∀ a, ∀ x ∈ l, ∀ a', step a x = .ok a' → motive a → motive a') {a a' : α}
    (h : l.foldlM step a = .ok a') (ha : motive a) : motive a' := by
  induction l generalizing a with
  | nil => cases h; exact ha
  | cons x l ih =>
    rw [List.foldlM_cons] at h
    obtain ⟨a₁, ha₁, h⟩ := bind_eq_ok.1 h
    refine ih (fun b y hy => hstep b y (List.mem_cons_of_mem x hy)) h ?_
    exact hstep a x List.mem_cons_self a₁ ha₁ ha

/-- What holds of all that a step can return holds of all that the steps for a list return. -/
theorem forall_of_mapM {l : List β} {f : β → Except ε α} {p : α → Prop} (hf : ∀ x ∈ l, ∀ y, f x = .ok y → p y)
    {ys : List α} (h : l.mapM f = .ok ys) : ∀ y ∈ ys, p y := by
  induction l generalizing ys with
  | nil => cases h; exact nofun
  | cons x l ih =>
    rw [List.mapM_cons] at h
    obtain ⟨y, hy, h⟩ := bind_eq_ok.1 h
    obtain ⟨ys', hys', h⟩ := bind_eq_ok.1 h
    cases h
    intro z hz
    rcases List.mem_cons.1 hz with rfl | hz
    · exact hf x List.mem_cons_self z hy
    · exact ih (fun x' hx' => hf x' (List.mem_cons_of_mem x hx')) hys' z hz

/-- What a step undoes for each member of a list, the steps for the list undo. -/
theorem mapM_map_eq_ok {l : List α} {f : β → Except ε α} {g : α → β} (h : ∀ a ∈ l, f (g a) = .ok a) :
    (l.map g).mapM f = .ok l := by
  induction l with
  | nil => rfl
  | cons a l ih =>
    have htail : (l.map g).mapM f = .ok l := ih fun b hb => h b (List.mem_cons_of_mem a hb)
    rw [List.map_cons, List.mapM_cons, h a List.mem_cons_self, htail]
    rfl

end Except

/-! ### Slots -/

/-- The slot contents `s` know at least what `s'` know. -/
def SlotBelow (s s' : Option Interval) : Prop := ∀ r', s' = some r' → ∃ r, s = some r ∧ r ≤ r'

namespace SlotBelow

protected theorem refl (s : Option Interval) : SlotBelow s s := fun r h => ⟨r, h, Interval.le_refl r⟩

protected theorem trans {s s' s'' : Option Interval} (h : SlotBelow s s') (h' : SlotBelow s' s'') :
    SlotBelow s s'' := by
  intro r'' hr''
  obtain ⟨r', hr', hle'⟩ := h' r'' hr''
  obtain ⟨r, hr, hle⟩ := h r' hr'
  exact ⟨r, hr, Interval.le_trans hle hle'⟩

protected theorem antisymm {s s' : Option Interval} (h : SlotBelow s s') (h' : SlotBelow s' s) : s = s' := by
  cases s with
  | none =>
    cases s' with
    | none => rfl
    | some r' => obtain ⟨r, hr, -⟩ := h r' rfl; cases hr
  | some r =>
    obtain ⟨r', rfl, hle'⟩ := h' r rfl
    obtain ⟨_, hr, hle⟩ := h r' rfl
    cases hr
    rw [Interval.le_antisymm hle hle']

@[simp] protected theorem none (s : Option Interval) : SlotBelow s none := by
  intro r h
  cases h

@[simp] theorem some_some {r r' : Interval} : SlotBelow (some r) (some r') ↔ r ≤ r' := by
  constructor
  · intro h
    obtain ⟨_, hr, hle⟩ := h r' rfl
    cases hr
    exact hle
  · intro h s hs
    cases hs
    exact ⟨r, rfl, h⟩

theorem eq_none {s s' : Option Interval} (h : SlotBelow s s') (hs : s = Option.none) : s' = Option.none := by
  cases s' with
  | none => rfl
  | some r' =>
    obtain ⟨r, hr, -⟩ := h r' rfl
    rw [hs] at hr
    cases hr

theorem some_top (r : Interval) : SlotBelow (some r) (some .top) := some_some.2 (Interval.le_top r)

theorem joinSlot_left (s s' : Option Interval) : SlotBelow s (Frame.joinSlot s s') := by
  cases s <;> cases s' <;> simp [Frame.joinSlot, Interval.le_union_left]

theorem joinSlot_right (s s' : Option Interval) : SlotBelow s' (Frame.joinSlot s s') := by
  cases s <;> cases s' <;> simp [Frame.joinSlot, Interval.le_union_right]

theorem joinSlot {s s' t : Option Interval} (h : SlotBelow s t) (h' : SlotBelow s' t) :
    SlotBelow (Frame.joinSlot s s') t := by
  intro q hq
  obtain ⟨r, rfl, hle⟩ := h q hq
  obtain ⟨r', rfl, hle'⟩ := h' q hq
  exact ⟨r.union r', rfl, Interval.union_le hle hle'⟩

theorem widenSlot (old new : Option Interval) : SlotBelow new (Frame.widenSlot old new) := by
  cases new with
  | none => exact SlotBelow.none _
  | some r =>
    unfold Frame.widenSlot
    dsimp only
    split
    · exact SlotBelow.refl _
    · exact some_top r

end SlotBelow

namespace Frame

/-- What the slot at a position holds. -/
def contents (f : Frame) (i : Nat) : Option Interval := (f.slots[i]?).join

/-- Frames of one size with the same contents are the same. -/
theorem ext_contents {f g : Frame} (hsize : f.size = g.size) (h : ∀ i, f.contents i = g.contents i) : f = g := by
  obtain ⟨fs⟩ := f
  obtain ⟨gs⟩ := g
  have hlen : fs.length = gs.length := hsize
  congr 1
  apply List.ext_getElem hlen
  intro i hi hi'
  have hc := h i
  simp only [contents, List.getElem?_eq_getElem hi, List.getElem?_eq_getElem hi', Option.join_some] at hc
  exact hc

/-! ### Reading and writing -/

/-- The slot is one of the frame's. -/
def Has (f : Frame) (n : Int) : Prop := 0 ≤ n ∧ n.toNat < f.size

theorem position_eq_ok {f : Frame} {n : Int} {i : Nat} : f.position n = .ok i ↔ f.Has n ∧ n.toNat = i := by
  unfold position
  split
  · next h =>
    constructor
    · intro hi; exact ⟨h, Except.ok.inj hi⟩
    · rintro ⟨-, rfl⟩; rfl
  · next h =>
    constructor
    · intro hi; cases hi
    · rintro ⟨h', -⟩; exact absurd h' h

theorem read_eq_ok {f : Frame} {n : Int} {o : Option Interval} :
    f.read n = .ok o ↔ f.Has n ∧ f.contents n.toNat = o := by
  unfold read
  rw [bind_eq_ok]
  constructor
  · rintro ⟨i, hi, h⟩
    obtain ⟨hn, rfl⟩ := position_eq_ok.1 hi
    exact ⟨hn, Except.ok.inj h⟩
  · rintro ⟨hn, rfl⟩
    exact ⟨n.toNat, position_eq_ok.2 ⟨hn, rfl⟩, rfl⟩

theorem read_eq_error {f : Frame} {n : Int} (h : ¬ f.Has n) : f.read n = .error .slot := by
  have hposition : f.position n = .error .slot := if_neg h
  rw [read, hposition]
  rfl

/-- What a frame with one slot replaced looks like. -/
theorem set_eq_ok {f g : Frame} {n : Int} {o : Option Interval} (h : f.set n o = .ok g) :
    f.Has n ∧ g.size = f.size ∧ ∀ i, g.contents i = if i = n.toNat then o else f.contents i := by
  obtain ⟨k, hk, h⟩ := bind_eq_ok.1 h
  obtain ⟨hn, rfl⟩ := position_eq_ok.1 hk
  cases h
  refine ⟨hn, List.length_set, fun i => ?_⟩
  unfold contents
  by_cases hi : i = n.toNat
  · rw [if_pos hi, hi, List.getElem?_set_self hn.2]
    rfl
  · rw [if_neg hi, List.getElem?_set_ne (fun h => hi h.symm)]

theorem exists_set {f : Frame} {n : Int} (o : Option Interval) (h : f.Has n) : ∃ g, f.set n o = .ok g := by
  rw [set, position_eq_ok.2 ⟨h, rfl⟩]
  exact ⟨_, rfl⟩

theorem havoc_eq_set {f : Frame} {n : Int} {o : Option Interval} (h : f.read n = .ok o) :
    f.havoc n = f.set n (o.map fun _ => .top) := by
  rw [havoc, h]
  cases o with
  | some r => rfl
  | none =>
    obtain ⟨hn, hc⟩ := read_eq_ok.1 h
    obtain ⟨g, hg⟩ := exists_set none hn
    obtain ⟨-, hsize, hcont⟩ := set_eq_ok hg
    have hfg : f = g := by
      refine ext_contents hsize.symm fun i => ?_
      rw [hcont i]
      split
      · next hi => rw [hi, hc]
      · rfl
    show Except.ok f = f.set n none
    rw [hg, hfg]

theorem havoc_eq_ok {f g : Frame} {n : Int} (h : f.havoc n = .ok g) :
    ∃ o, f.read n = .ok o ∧ f.set n (o.map fun _ => .top) = .ok g := by
  obtain ⟨o, ho, -⟩ := bind_eq_ok.1 h
  exact ⟨o, ho, (havoc_eq_set ho).symm.trans h⟩

/-! ### The order -/

instance : LE Frame := ⟨fun f g => f.size = g.size ∧ ∀ i, SlotBelow (f.contents i) (g.contents i)⟩

@[simp] protected theorem le_refl (f : Frame) : f ≤ f := ⟨rfl, fun _ => SlotBelow.refl _⟩

protected theorem le_trans {f g h : Frame} (hfg : f ≤ g) (hgh : g ≤ h) : f ≤ h :=
  ⟨hfg.1.trans hgh.1, fun i => (hfg.2 i).trans (hgh.2 i)⟩

protected theorem le_antisymm {f g : Frame} (hfg : f ≤ g) (hgf : g ≤ f) : f = g :=
  ext_contents hfg.1 fun i => (hfg.2 i).antisymm (hgf.2 i)

theorem Has.mono {f g : Frame} {n : Int} (hfg : f ≤ g) (h : f.Has n) : g.Has n := ⟨h.1, hfg.1 ▸ h.2⟩

theorem read_mono {f g : Frame} {n : Int} {o : Option Interval} (hfg : f ≤ g) (h : f.read n = .ok o) :
    ∃ o', g.read n = .ok o' ∧ SlotBelow o o' := by
  obtain ⟨hn, rfl⟩ := read_eq_ok.1 h
  exact ⟨_, read_eq_ok.2 ⟨hn.mono hfg, rfl⟩, hfg.2 _⟩

theorem set_mono {f f' g : Frame} {n : Int} {o o' : Option Interval} (hf : f ≤ f') (ho : SlotBelow o o')
    (h : f.set n o = .ok g) : ∃ g', f'.set n o' = .ok g' ∧ g ≤ g' := by
  obtain ⟨hn, hsize, hcont⟩ := set_eq_ok h
  obtain ⟨g', hg'⟩ := exists_set o' (hn.mono hf)
  obtain ⟨-, hsize', hcont'⟩ := set_eq_ok hg'
  refine ⟨g', hg', by rw [hsize, hsize', hf.1], fun i => ?_⟩
  rw [hcont i, hcont' i]
  by_cases hi : i = n.toNat
  · rw [if_pos hi, if_pos hi]; exact ho
  · rw [if_neg hi, if_neg hi]; exact hf.2 i

/-- A slot that is narrowed makes the frame smaller. -/
theorem set_le {f g : Frame} {n : Int} {o o' : Option Interval} (hr : f.read n = .ok o') (ho : SlotBelow o o')
    (h : f.set n o = .ok g) : g ≤ f := by
  obtain ⟨-, hsize, hcont⟩ := set_eq_ok h
  obtain ⟨-, rfl⟩ := read_eq_ok.1 hr
  refine ⟨hsize, fun i => ?_⟩
  rw [hcont i]
  by_cases hi : i = n.toNat
  · rw [if_pos hi, hi]; exact ho
  · rw [if_neg hi]; exact SlotBelow.refl _

/-- Reading another slot than the one just set. -/
theorem read_set_ne {f g : Frame} {m n : Int} {o : Option Interval} (hmn : m ≠ n) (h : f.set m o = .ok g) :
    g.read n = f.read n := by
  obtain ⟨hm, hsize, hcont⟩ := set_eq_ok h
  by_cases hn : f.Has n
  · have hne : n.toNat ≠ m.toNat := by
      have h0 : 0 ≤ m := hm.1
      have h1 : 0 ≤ n := hn.1
      omega
    rw [read_eq_ok.2 ⟨hn, rfl⟩]
    refine read_eq_ok.2 ⟨⟨hn.1, hsize ▸ hn.2⟩, ?_⟩
    rw [hcont, if_neg hne]
  · -- neither frame has the slot
    have hn' : ¬ g.Has n := fun hg => hn ⟨hg.1, hsize ▸ hg.2⟩
    rw [read_eq_error hn, read_eq_error hn']

theorem read_set_self {f g : Frame} {n : Int} {o : Option Interval} (h : f.set n o = .ok g) :
    g.read n = .ok o := by
  obtain ⟨hn, hsize, hcont⟩ := set_eq_ok h
  refine read_eq_ok.2 ⟨⟨hn.1, hsize ▸ hn.2⟩, ?_⟩
  rw [hcont, if_pos rfl]

/-! ### Joining and widening -/

theorem contents_zipWith {φ : Option Interval → Option Interval → Option Interval} {fs gs : List (Option Interval)}
    (hlen : fs.length = gs.length) (hφ : φ none none = none) (i : Nat) :
    contents ⟨List.zipWith φ fs gs⟩ i = φ (contents ⟨fs⟩ i) (contents ⟨gs⟩ i) := by
  unfold contents
  rw [List.getElem?_zipWith]
  rcases Nat.lt_or_ge i fs.length with hi | hi
  · rw [List.getElem?_eq_getElem hi, List.getElem?_eq_getElem (hlen ▸ hi)]
    rfl
  · rw [List.getElem?_eq_none hi, List.getElem?_eq_none (hlen ▸ hi)]
    exact hφ.symm

theorem size_join {f g h : Frame} (hj : f.join g = .ok h) : g.size = f.size ∧ h.size = f.size := by
  obtain ⟨hlen, rfl⟩ := Frame.join_eq_ok hj
  refine ⟨hlen.symm, ?_⟩
  show (List.zipWith joinSlot f.slots g.slots).length = f.slots.length
  rw [List.length_zipWith, ← hlen, Nat.min_self]

theorem contents_join {f g h : Frame} (hj : f.join g = .ok h) (i : Nat) :
    h.contents i = joinSlot (f.contents i) (g.contents i) := by
  obtain ⟨hlen, rfl⟩ := Frame.join_eq_ok hj
  exact contents_zipWith hlen rfl i

theorem le_join_left {f g h : Frame} (hj : f.join g = .ok h) : f ≤ h := by
  refine ⟨(size_join hj).2.symm, fun i => ?_⟩
  rw [contents_join hj i]
  exact SlotBelow.joinSlot_left _ _

theorem le_join_right {f g h : Frame} (hj : f.join g = .ok h) : g ≤ h := by
  refine ⟨(size_join hj).1.trans (size_join hj).2.symm, fun i => ?_⟩
  rw [contents_join hj i]
  exact SlotBelow.joinSlot_right _ _

theorem join_le {f g h k : Frame} (hj : f.join g = .ok h) (hf : f ≤ k) (hg : g ≤ k) : h ≤ k := by
  refine ⟨(size_join hj).2.trans hf.1, fun i => ?_⟩
  rw [contents_join hj i]
  exact (hf.2 i).joinSlot (hg.2 i)

theorem size_widen {old new : Frame} (h : old.size = new.size) : (old.widen new).size = new.size := by
  show (List.zipWith widenSlot old.slots new.slots).length = new.slots.length
  rw [List.length_zipWith, show old.slots.length = new.slots.length from h, Nat.min_self]

theorem le_widen {old new : Frame} (h : old.size = new.size) : new ≤ old.widen new := by
  refine ⟨(size_widen h).symm, fun i => ?_⟩
  rw [show (old.widen new).contents i = widenSlot (old.contents i) (new.contents i) from contents_zipWith h rfl i]
  exact SlotBelow.widenSlot _ _

/-! ### Joining many frames -/

/-- The join of some frames, one after the other; of no frames there is none. -/
def joinAll : List Frame → Except Fault (Option Frame)
  | [] => .ok none
  | f :: fs => some <$> fs.foldlM join f

/-- Joining frames one after the other leads to the least frame above all of them. -/
theorem foldlM_join {fs : List Frame} {f h : Frame} (hfold : fs.foldlM join f = .ok h) :
    f ≤ h ∧ (∀ g ∈ fs, g ≤ h) ∧ ∀ k, f ≤ k → (∀ g ∈ fs, g ≤ k) → h ≤ k := by
  induction fs generalizing f with
  | nil =>
    cases hfold
    exact ⟨Frame.le_refl h, nofun, fun k hf _ => hf⟩
  | cons g fs ih =>
    rw [List.foldlM_cons] at hfold
    obtain ⟨f', hf', hfold⟩ := bind_eq_ok.1 hfold
    obtain ⟨hle, hall, hleast⟩ := ih hfold
    refine ⟨Frame.le_trans (le_join_left hf') hle, fun g' hg' => ?_, fun k hf hk => ?_⟩
    · rcases List.mem_cons.1 hg' with rfl | hg'
      · exact Frame.le_trans (le_join_right hf') hle
      · exact hall g' hg'
    · have hjoin : f' ≤ k := join_le hf' hf (hk g List.mem_cons_self)
      exact hleast k hjoin fun g' hg' => hk g' (List.mem_cons_of_mem g hg')

/-- Frames with a common bound can be joined. -/
theorem exists_foldlM_join {fs : List Frame} {f k : Frame} (hf : f ≤ k) (hfs : ∀ g ∈ fs, g ≤ k) :
    ∃ h, fs.foldlM join f = .ok h := by
  induction fs generalizing f with
  | nil => exact ⟨f, rfl⟩
  | cons g fs ih =>
    have hg : g ≤ k := hfs g List.mem_cons_self
    obtain ⟨f', hf'⟩ : ∃ f', f.join g = .ok f' := ⟨_, if_pos (hf.1.trans hg.1.symm)⟩
    obtain ⟨h, hh⟩ := ih (join_le hf' hf hg) fun g' hg' => hfs g' (List.mem_cons_of_mem g hg')
    exact ⟨h, by rw [List.foldlM_cons]; exact bind_eq_ok.2 ⟨f', hf', hh⟩⟩

/-- The join of some frames is the least frame above all of them. -/
theorem joinAll_eq_some {fs : List Frame} {e : Frame} (hne : fs ≠ []) (habove : ∀ f ∈ fs, f ≤ e)
    (hleast : ∀ k, (∀ f ∈ fs, f ≤ k) → e ≤ k) : joinAll fs = .ok (some e) := by
  obtain ⟨f, fs, rfl⟩ := List.exists_cons_of_ne_nil hne
  obtain ⟨hf, hfs⟩ := List.forall_mem_cons.1 habove
  obtain ⟨h, hh⟩ := exists_foldlM_join hf hfs
  obtain ⟨hfh, hfsh, hh'⟩ := foldlM_join hh
  have heq : h = e := Frame.le_antisymm (hh' e hf hfs) (hleast h (List.forall_mem_cons.2 ⟨hfh, hfsh⟩))
  exact map_eq_ok.2 ⟨h, hh, congrArg some heq⟩

theorem joinAll_eq_none {fs : List Frame} : joinAll fs = .ok none ↔ fs = [] := by
  cases fs with
  | nil => exact ⟨fun _ => rfl, fun _ => rfl⟩
  | cons f fs =>
    refine ⟨fun h => ?_, nofun⟩
    obtain ⟨g, -, hg⟩ := map_eq_ok.1 h
    cases hg

theorem joinAll_concat {fs : List Frame} {f g h : Frame} (hfs : joinAll fs = .ok (some g)) (hg : g.join f = .ok h) :
    joinAll (fs ++ [f]) = .ok (some h) := by
  cases fs with
  | nil => cases hfs
  | cons k ks =>
    obtain ⟨k', hk', hsome⟩ := map_eq_ok.1 hfs
    cases hsome
    rw [List.cons_append]
    refine map_eq_ok.2 ⟨h, ?_, rfl⟩
    rw [List.foldlM_append]
    exact bind_eq_ok.2 ⟨g, hk', by rw [List.foldlM_cons]; exact bind_eq_ok.2 ⟨h, hg, rfl⟩⟩

end Frame

end Narrowing
