import Narrowing.Proofs.DeclaredKind
import Narrowing.Proofs.Text

/-!
# Names of machine words

Two parts of the library know the nominal types that are machine words.  The ranges of types come from reading the
width behind the first letter of the name as a numeral; the kinds of C come from a table of eight names.  Every name in
the table is read as the word it stands for, but a numeral may also have a plus sign and zeros before its digits, and
names with these are in no table.
-/

namespace Narrowing

theorem Width.bits_pos (w : Width) : 0 < w.bits := by
  cases w <;> decide

namespace Kind

/-- The name of a kind as a nominal type, with a plus sign and some zeros before the width. -/
def nominalWith (k : Kind) (plus : Bool) (zeros : Nat) : String :=
  (if k.signed then "i" else "u") ++ (if plus then "+" else "") ++ String.ofList (List.replicate zeros '0') ++
    toString k.bits

theorem toList_nominalWith (k : Kind) (plus : Bool) (zeros : Nat) :
    (k.nominalWith plus zeros).toList = (if k.signed then 'i' else 'u') ::
      ((if plus then ['+'] else []) ++ List.replicate zeros '0' ++ Nat.toDigits 10 k.bits) := by
  unfold nominalWith
  rw [String.toList_append, String.toList_append, String.toList_append, String.toList_ofList, Text.toList_toString]
  cases k.signed <;> cases plus <;> rfl

theorem nominalWith_plain (k : Kind) : k.nominalWith false 0 = k.nominal := by
  apply String.toList_inj.1
  rw [toList_nominalWith, nominal, String.toList_append, Text.toList_toString]
  cases k.signed <;> rfl

theorem ofNominal?_eq_some_iff {name : String} {k : Kind} : ofNominal? name = some k ↔ name = k.nominal := by
  constructor
  · intro h
    have hname : k.nominal = name := by simpa using List.find?_some h
    exact hname.symm
  · rintro rfl
    obtain ⟨w, s⟩ := k
    cases w <;> cases s <;> decide

end Kind

namespace Ty

theorem widthOf_eq_some_iff {cs : List Char} {bits : Nat} :
    wordOfName.widthOf cs = some bits ↔ ∃ w : Width, w.bits = bits ∧ Text.readInt cs = some (bits : Int) := by
  constructor
  · intro h
    unfold wordOfName.widthOf at h
    split at h
    · next hread => cases h; exact ⟨.w8, rfl, (Option.filter_eq_some_iff.1 hread).1⟩
    · next hread => cases h; exact ⟨.w16, rfl, (Option.filter_eq_some_iff.1 hread).1⟩
    · next hread => cases h; exact ⟨.w32, rfl, (Option.filter_eq_some_iff.1 hread).1⟩
    · next hread => cases h; exact ⟨.w64, rfl, (Option.filter_eq_some_iff.1 hread).1⟩
    · cases h
  · rintro ⟨w, rfl, h⟩
    have hread : Text.readInt64 cs = some (w.bits : Int) :=
      Option.filter_eq_some_iff.2 ⟨h, by cases w <;> decide⟩
    unfold wordOfName.widthOf
    rw [hread]
    cases w <;> rfl

/-- The names that are read as words are those of the kinds, with or without a plus sign and zeros before the width. -/
theorem wordOfName_eq_some_iff {name : String} {bits : Nat} {signed : Bool} :
    wordOfName name = some (bits, signed) ↔
      ∃ k plus zeros, k.bits = bits ∧ k.signed = signed ∧ name = Kind.nominalWith k plus zeros := by
  constructor
  · -- a name made of the letter of `s` and the numeral `width`
    have hspelled : ∀ (s : Bool) (width : List Char), name.toList = (if s then 'i' else 'u') :: width →
        (wordOfName.widthOf width).map (fun b => (b, s)) = some (bits, signed) →
        ∃ k plus zeros, k.bits = bits ∧ k.signed = signed ∧ name = Kind.nominalWith k plus zeros := by
      intro s width hname h
      obtain ⟨b, hb, hpair⟩ := Option.map_eq_some_iff.1 h
      cases hpair
      obtain ⟨w, rfl, hread⟩ := widthOf_eq_some_iff.1 hb
      obtain ⟨plus, zeros, rfl⟩ := (Text.readInt_eq_some_iff w.bits_pos).1 hread
      refine ⟨⟨w, signed⟩, plus, zeros, rfl, rfl, String.toList_inj.1 ?_⟩
      rw [Kind.toList_nominalWith]
      exact hname
    intro h
    unfold wordOfName at h
    split at h
    · next hname => exact hspelled true _ hname h
    · next hname => exact hspelled false _ hname h
    · cases h
  · rintro ⟨⟨w, s⟩, plus, zeros, rfl, rfl, rfl⟩
    have hwidth := widthOf_eq_some_iff.2 ⟨w, rfl, (Text.readInt_eq_some_iff w.bits_pos).2 ⟨plus, zeros, rfl⟩⟩
    unfold wordOfName
    rw [Kind.toList_nominalWith]
    cases s
    · exact Option.map_eq_some_iff.2 ⟨_, hwidth, rfl⟩
    · exact Option.map_eq_some_iff.2 ⟨_, hwidth, rfl⟩

end Ty

/-! ### Where the two agree -/

/-- Neither a plus sign nor a zero stands behind the first letter. -/
def isPlainName (name : String) : Bool :=
  match name.toList with
  | _ :: c :: _ => c != '+' && c != '0'
  | _ => false

theorem isPlainName_nominalWith {k : Kind} {plus : Bool} {zeros : Nat} :
    isPlainName (k.nominalWith plus zeros) = true ↔ plus = false ∧ zeros = 0 := by
  unfold isPlainName
  rw [Kind.toList_nominalWith]
  cases plus with
  | true => simp
  | false =>
    cases zeros with
    | succ zeros => simp [List.replicate_succ]
    | zero =>
      obtain ⟨w, signed⟩ := k
      cases w <;> cases signed <;> decide

/-- **Word names and kinds.**  The names that are read as words are those of the kinds, up to a plus sign and zeros
before the width.  A name has a kind exactly if it is read as a word and has neither; the kind is then that word, in width,
signedness and range. -/
theorem word_names_and_kinds (name : String) (bits : Nat) (signed : Bool) :
    (Ty.wordOfName name = some (bits, signed) ↔
      ∃ k plus zeros, k.bits = bits ∧ k.signed = signed ∧ name = Kind.nominalWith k plus zeros) ∧
    (Ty.wordOfName name = some (bits, signed) ∧ isPlainName name = true ↔
      ∃ k, Kind.ofNominal? name = some k ∧ k.bits = bits ∧ k.signed = signed ∧
        (Ty.nominal name).range? = some k.range) ∧
    (Ty.wordOfName name = none → Kind.ofNominal? name = none) := by
  have hread : ∀ k : Kind, Ty.wordOfName k.nominal = some (k.bits, k.signed) := fun k =>
    Ty.wordOfName_eq_some_iff.2 ⟨k, false, 0, rfl, rfl, k.nominalWith_plain.symm⟩
  refine ⟨Ty.wordOfName_eq_some_iff, ⟨?_, ?_⟩, fun hnone => ?_⟩
  · rintro ⟨hword, hplain⟩
    obtain ⟨k, plus, zeros, hbits, hsigned, rfl⟩ := Ty.wordOfName_eq_some_iff.1 hword
    obtain ⟨rfl, rfl⟩ := isPlainName_nominalWith.1 hplain
    have hkind := Kind.ofNominal?_eq_some_iff.2 k.nominalWith_plain
    exact ⟨k, hkind, hbits, hsigned, Kind.range?_of_ofNominal? hkind⟩
  · rintro ⟨k, hkind, rfl, rfl, -⟩
    obtain rfl := Kind.ofNominal?_eq_some_iff.1 hkind
    refine ⟨hread k, ?_⟩
    rw [← k.nominalWith_plain]
    exact isPlainName_nominalWith.2 ⟨rfl, rfl⟩
  · cases hkind : Kind.ofNominal? name with
    | none => rfl
    | some k =>
      obtain rfl := Kind.ofNominal?_eq_some_iff.1 hkind
      rw [hread k] at hnone
      cases hnone

theorem word_names_and_kinds_u64 :
    (Ty.wordOfName "u64" = some (64, false) ∧ isPlainName "u64" = true) ∧
      ∃ k, Kind.ofNominal? "u64" = some k ∧ k.bits = 64 ∧ k.signed = false ∧
        (Ty.nominal "u64").range? = some k.range := by
  have hword : Ty.wordOfName "u64" = some (64, false) ∧ isPlainName "u64" = true := by decide
  exact ⟨hword, (word_names_and_kinds "u64" 64 false).2.1.1 hword⟩

/-- A zero before the width: the type has the range of a word but no kind, and so no interval is clamped to it. -/
theorem padded_name_has_no_kind :
    Ty.wordOfName "i08" = some (8, true) ∧ (Ty.nominal "i08").range? = some (.ofWidth 8 true) ∧
      Kind.ofNominal? "i08" = none ∧ Selector.clamp (.single 300) (.nominal "i08") = .single 300 := by
  decide

end Narrowing
