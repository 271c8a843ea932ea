import Narrowing.Proofs.Frame
import Narrowing.Proofs.Text
import Narrowing.Ty.Reader

/-!
# The text of types

Reading undoes printing, up to one ambiguity: `&T[]` is both a reference to an array and an array of references, and it
is read as the latter.  `Ty.reread` is the type that the text of a type is read as; it moves references into arrays and
changes nothing else.  Reading returns no other types, so what was read once is read from its text ever after.

The fields of a record are found by counting braces.  The text of a type is sealed (`IsSealed`): wherever it stands, it
leaves the count as it was and no comma in it is met at depth zero.
-/

namespace Narrowing.Ty

/-! ### Types -/

/-- What holds of a type if it holds of its parts, holds of all types. -/
theorem parts_induction {motive : Ty → Prop} (int : motive .int) (bool : motive .bool) (null : motive .null)
    (void : motive .void) (array : ∀ elem, motive elem → motive (.array elem))
    (ref : ∀ elem, motive elem → motive (.ref elem))
    (record : ∀ fields, (∀ f ∈ fields, motive f.2) → motive (.record fields))
    (nominal : ∀ name, motive (.nominal name)) : ∀ t, motive t
  | .int => int
  | .bool => bool
  | .null => null
  | .void => void
  | .array elem => array elem (parts_induction int bool null void array ref record nominal elem)
  | .ref elem => ref elem (parts_induction int bool null void array ref record nominal elem)
  | .record fields => record fields fun f hf =>
    have hlt : sizeOf f.2 < 1 + sizeOf fields := by
      have hmem := List.sizeOf_lt_of_mem hf
      cases f
      simp only [Prod.mk.sizeOf_spec] at hmem ⊢
      omega
    parts_induction int bool null void array ref record nominal f.2
  | .nominal name => nominal name
termination_by t => sizeOf t

/-- The names of the basic types. -/
def keywords : List String := ["int", "bool", "null", "void"]

mutual

/-- Every field has a name, and every nominal type one that is no basic type's. -/
def isNamed : Ty → Bool
  | array elem => elem.isNamed
  | ref elem => elem.isNamed
  | record fields => fieldsNamed fields
  | nominal name => Text.isName name && !keywords.contains name
  | _ => true

/-- Each of the fields has a name, and so have the fields and nominal types inside. -/
def fieldsNamed : List (String × Ty) → Bool
  | [] => true
  | (name, type) :: rest => Text.isName name && type.isNamed && fieldsNamed rest

end

def isArray : Ty → Bool
  | array _ => true
  | _ => false

mutual

/-- Some reference inside the type is one to an array. -/
def hasRefToArray : Ty → Bool
  | array elem => elem.hasRefToArray
  | ref elem => elem.isArray || elem.hasRefToArray
  | record fields => fieldsHaveRefToArray fields
  | _ => false

/-- Some reference inside the fields is one to an array. -/
def fieldsHaveRefToArray : List (String × Ty) → Bool
  | [] => false
  | (_, type) :: rest => type.hasRefToArray || fieldsHaveRefToArray rest

end

/-- The type that is read from the text of a type with an `&` before it. -/
def behindRef : Ty → Ty
  | array elem => array elem.behindRef
  | t => ref t

mutual

/-- The type that is read from the text of a type. -/
def reread : Ty → Ty
  | array elem => array elem.reread
  | ref elem => elem.reread.behindRef
  | record fields => record (rereadFields fields)
  | t => t

/-- The fields that are read from the texts of fields. -/
def rereadFields : List (String × Ty) → List (String × Ty)
  | [] => []
  | (name, type) :: rest => (name, type.reread) :: rereadFields rest

end

theorem fieldsNamed_iff {fields : List (String × Ty)} :
    fieldsNamed fields = true ↔ ∀ f ∈ fields, Text.isName f.1 = true ∧ f.2.isNamed = true := by
  induction fields with
  | nil => simp [fieldsNamed]
  | cons f fields ih => simp [fieldsNamed, ih]

/-- An induction over the types with names throughout.  All types whose text is a name are one case. -/
theorem named_induction {motive : Ty → Prop} (word : ∀ t, Text.isName t.text = true → motive t)
    (array : ∀ elem, elem.isNamed = true → motive elem → motive (.array elem))
    (ref : ∀ elem, elem.isNamed = true → motive elem → motive (.ref elem))
    (record : ∀ fields, (∀ f ∈ fields, Text.isName f.1 = true ∧ motive f.2) → motive (.record fields))
    {t : Ty} (ht : t.isNamed = true) : motive t := by
  induction t using parts_induction with
  | array elem ih => exact array elem ht (ih ht)
  | ref elem ih => exact ref elem ht (ih ht)
  | record fields ih =>
    rw [isNamed, fieldsNamed_iff] at ht
    exact record fields fun f hf => ⟨(ht f hf).1, ih f hf (ht f hf).2⟩
  | nominal name =>
    refine word _ ?_
    rw [text]
    exact (Bool.and_eq_true_iff.1 ht).1
  | _ => exact word _ (by decide)

theorem fieldsHaveRefToArray_eq_false_iff {fields : List (String × Ty)} :
    fieldsHaveRefToArray fields = false ↔ ∀ f ∈ fields, f.2.hasRefToArray = false := by
  induction fields with
  | nil => simp [fieldsHaveRefToArray]
  | cons f fields ih => simp [fieldsHaveRefToArray, ih]

theorem rereadFields_eq (fields : List (String × Ty)) :
    rereadFields fields = fields.map fun f => (f.1, f.2.reread) := by
  induction fields with
  | nil => rw [rereadFields]; rfl
  | cons f fields ih => rw [rereadFields, ih]; rfl

theorem fieldTexts_eq (fields : List (String × Ty)) :
    fieldTexts fields = fields.map fun f => f.2.text ++ " " ++ f.1 := by
  induction fields with
  | nil => rw [fieldTexts]; rfl
  | cons f fields ih => rw [fieldTexts, ih]; rfl

/-! ### Moving references into arrays -/

theorem text_behindRef (t : Ty) : t.behindRef.text = "&" ++ t.text := by
  induction t using behindRef.induct with
  | case1 elem ih => rw [behindRef, text, ih, text, String.append_assoc]
  | case2 t h => rw [behindRef, text]; exact h

theorem isNamed_behindRef (t : Ty) : t.behindRef.isNamed = t.isNamed := by
  induction t using behindRef.induct with
  | case1 elem ih => rw [behindRef, isNamed, ih, isNamed]
  | case2 t h => rw [behindRef, isNamed]; exact h

theorem hasRefToArray_behindRef {t : Ty} (ht : t.hasRefToArray = false) : t.behindRef.hasRefToArray = false := by
  induction t using behindRef.induct with
  | case1 elem ih => rw [behindRef, hasRefToArray]; exact ih ht
  | case2 t h =>
    have hnot : t.isArray = false := by
      cases t with
      | array elem => exact absurd rfl (h elem)
      | _ => rfl
    rw [behindRef, hasRefToArray, hnot, ht]
    · rfl
    · exact h

theorem text_reread (t : Ty) : t.reread.text = t.text := by
  induction t using parts_induction with
  | array elem ih => rw [reread, text, ih, text]
  | ref elem ih => rw [reread, text_behindRef, ih, text]
  | record fields ih =>
    have htexts : fieldTexts (rereadFields fields) = fieldTexts fields := by
      rw [rereadFields_eq, fieldTexts_eq, fieldTexts_eq, List.map_map]
      exact List.map_congr_left fun f hf => by rw [Function.comp_apply, ih f hf]
    rw [reread, text, htexts, text]
  | _ => rw [reread] <;> nofun

theorem isNamed_reread (t : Ty) : t.reread.isNamed = t.isNamed := by
  induction t using parts_induction with
  | array elem ih => rw [reread, isNamed, ih, isNamed]
  | ref elem ih => rw [reread, isNamed_behindRef, ih, isNamed]
  | record fields ih =>
    rw [reread, isNamed, isNamed, Bool.eq_iff_iff, fieldsNamed_iff, fieldsNamed_iff, rereadFields_eq,
      List.forall_mem_map]
    exact forall₂_congr fun f hf => by rw [ih f hf]
  | _ => rw [reread] <;> nofun

theorem hasRefToArray_reread (t : Ty) : t.reread.hasRefToArray = false := by
  induction t using parts_induction with
  | array elem ih => rw [reread, hasRefToArray, ih]
  | ref elem ih => rw [reread]; exact hasRefToArray_behindRef ih
  | record fields ih =>
    rw [reread, hasRefToArray, fieldsHaveRefToArray_eq_false_iff, rereadFields_eq, List.forall_mem_map]
    exact ih
  | _ => rw [reread, hasRefToArray] <;> nofun

/-- Only types with a reference to an array are read as another type. -/
theorem reread_eq_self_iff {t : Ty} : t.reread = t ↔ t.hasRefToArray = false := by
  constructor
  · intro h
    rw [← h]
    exact hasRefToArray_reread t
  · intro h
    induction t using parts_induction with
    | array elem ih => rw [reread, ih (by rwa [hasRefToArray] at h)]
    | ref elem ih =>
      rw [hasRefToArray, Bool.or_eq_false_iff] at h
      rw [reread, ih h.2]
      cases elem with
      | array elem => cases h.1
      | _ => rw [behindRef]; nofun
    | record fields ih =>
      rw [hasRefToArray, fieldsHaveRefToArray_eq_false_iff] at h
      have hfields : rereadFields fields = fields := by
        rw [rereadFields_eq]
        refine (List.map_congr_left fun f hf => ?_).trans (List.map_id fields)
        rw [ih f hf (h f hf)]
        rfl
      rw [reread, hfields]
    | _ => rw [reread] <;> nofun

/-! ### Counting braces -/

theorem splitAtDepth_comma (s : List Char) : splitAtDepth 0 (',' :: s) = [] :: splitAtDepth 0 s := by
  simp [splitAtDepth]

theorem splitAtDepth_open (depth : Int) (s : List Char) :
    splitAtDepth depth ('\x7b' :: s) = consHead '\x7b' (splitAtDepth (depth + 1) s) := by
  simp [splitAtDepth]

theorem splitAtDepth_close (depth : Int) (s : List Char) :
    splitAtDepth depth ('\x7d' :: s) = consHead '\x7d' (splitAtDepth (depth - 1) s) := by
  simp [splitAtDepth]

theorem splitAtDepth_other {c : Char} {depth : Int} (hcomma : c ≠ ',' ∨ depth ≠ 0) (hopen : c ≠ '\x7b')
    (hclose : c ≠ '\x7d') (s : List Char) : splitAtDepth depth (c :: s) = consHead c (splitAtDepth depth s) := by
  have hskip : (c == ',' && depth == 0) = false := by
    rcases hcomma with h | h <;> simp [h]
  simp [splitAtDepth, hskip, hopen, hclose]

/-- From the given depth on, the text leaves the depth as it was and holds no comma at depth zero, whatever follows. -/
def IsSealed (least : Int) (s : List Char) : Prop :=
  ∀ depth, least ≤ depth → ∀ rest, splitAtDepth depth (s ++ rest) = s.foldr consHead (splitAtDepth depth rest)

theorem foldr_consHead (s p : List Char) (ps : List (List Char)) : s.foldr consHead (p :: ps) = (s ++ p) :: ps := by
  induction s with
  | nil => rfl
  | cons c s ih => rw [List.foldr_cons, ih]; rfl

namespace IsSealed

variable {least : Int} {s t : List Char}

theorem nil : IsSealed least [] := fun _ _ _ => rfl

theorem append (hs : IsSealed least s) (ht : IsSealed least t) : IsSealed least (s ++ t) := by
  intro depth hdepth rest
  rw [List.append_assoc, hs depth hdepth, ht depth hdepth, List.foldr_append]

theorem mono {least' : Int} (h : IsSealed least s) (hle : least ≤ least') : IsSealed least' s :=
  fun depth hdepth => h depth (Int.le_trans hle hdepth)

/-- A character that is no brace, and no comma at depth zero. -/
theorem single {c : Char} (hcomma : c ≠ ',' ∨ 0 < least) (hopen : c ≠ '\x7b') (hclose : c ≠ '\x7d') :
    IsSealed least [c] := by
  intro depth hdepth rest
  exact splitAtDepth_other (hcomma.imp_right fun hpos => by omega) hopen hclose rest

theorem of_isNameRest (h : ∀ c ∈ s, Text.isNameRest c = true) : IsSealed least s := by
  induction s with
  | nil => exact nil
  | cons c s ih =>
    have hc : Text.isNameRest c = true := h c List.mem_cons_self
    have hhead : IsSealed least [c] := by
      refine single (.inl ?_) ?_ ?_ <;> rintro rfl <;> exact absurd hc (by decide)
    exact hhead.append (ih fun d hd => h d (List.mem_cons_of_mem c hd))

/-- Between braces the commas at the depth outside are one deeper. -/
theorem braces (h : IsSealed 1 s) : IsSealed 0 ('\x7b' :: (s ++ ['\x7d'])) := by
  intro depth hdepth rest
  rw [List.cons_append, List.append_assoc, splitAtDepth_open, h (depth + 1) (by omega), List.singleton_append,
    splitAtDepth_close, Int.add_sub_cancel, List.foldr_cons, List.foldr_append]
  rfl

theorem intercalate {ts : List String} (h : ∀ t ∈ ts, IsSealed 0 t.toList) :
    IsSealed 1 (", ".intercalate ts).toList := by
  induction ts with
  | nil => exact nil
  | cons t ts ih =>
    have ht : IsSealed 1 t.toList := (h t List.mem_cons_self).mono (by decide)
    cases ts with
    | nil => rw [String.intercalate_singleton]; exact ht
    | cons u ts =>
      have hcomma : IsSealed 1 [',', ' '] :=
        (single (.inr (by decide)) (by decide) (by decide)).append (single (.inl (by decide)) (by decide) (by decide))
      rw [String.intercalate_cons_cons, String.toList_append, String.toList_append]
      exact (ht.append hcomma).append (ih fun v hv => h v (List.mem_cons_of_mem t hv))

end IsSealed

/-- Sealed texts between commas are found again, each with the blank before it. -/
theorem splitAtDepth_intercalate {t : String} {ts : List String} (h : ∀ u ∈ t :: ts, IsSealed 0 u.toList) :
    splitAtDepth 0 (", ".intercalate (t :: ts)).toList = t.toList :: ts.map fun u => ' ' :: u.toList := by
  induction ts generalizing t with
  | nil =>
    have ht := h t List.mem_cons_self 0 (by decide) []
    rw [List.append_nil] at ht
    rw [String.intercalate_singleton, ht, splitAtDepth, foldr_consHead, List.append_nil]
    rfl
  | cons u ts ih =>
    have hrest := ih fun v hv => h v (List.mem_cons_of_mem t hv)
    have hblank : splitAtDepth 0 (' ' :: (", ".intercalate (u :: ts)).toList) =
        (' ' :: u.toList) :: ts.map fun v => ' ' :: v.toList := by
      rw [splitAtDepth_other (.inl (by decide)) (by decide) (by decide), hrest]
      rfl
    have htext : (", ".intercalate (t :: u :: ts)).toList =
        t.toList ++ ',' :: ' ' :: (", ".intercalate (u :: ts)).toList := by
      rw [String.intercalate_cons_cons, String.toList_append, String.toList_append, List.append_assoc]
      rfl
    rw [htext, h t List.mem_cons_self 0 (by decide), splitAtDepth_comma, hblank, foldr_consHead, List.append_nil]
    rfl

/-! ### Printed types -/

theorem toList_text_array (elem : Ty) : (array elem).text.toList = elem.text.toList ++ ['[', ']'] := by
  rw [text, String.toList_append]
  rfl

theorem toList_text_ref (elem : Ty) : (ref elem).text.toList = '&' :: elem.text.toList := by
  rw [text, String.toList_append]
  rfl

theorem toList_text_record (fields : List (String × Ty)) :
    (record fields).text.toList = '\x7b' :: ((", ".intercalate (fieldTexts fields)).toList ++ ['\x7d']) := by
  rw [text, String.toList_append, String.toList_append]
  rfl

theorem toList_fieldText (name : String) (t : Ty) :
    (t.text ++ " " ++ name).toList = t.text.toList ++ ' ' :: name.toList := by
  rw [String.toList_append, String.toList_append, List.append_assoc]
  rfl

theorem hasSolidEnds_of_isName {name : String} (h : Text.isName name = true) : Text.HasSolidEnds name.toList := by
  obtain ⟨hne, hrest⟩ := Text.isNameRest_of_isName h
  exact .of_solid hne fun c hc => Text.isBlank_of_isNameRest (hrest c hc)

theorem hasSolidEnds_text {t : Ty} (ht : t.isNamed = true) : Text.HasSolidEnds t.text.toList := by
  refine named_induction (motive := fun t => Text.HasSolidEnds t.text.toList) ?_ ?_ ?_ ?_ ht
  · exact fun t hword => hasSolidEnds_of_isName hword
  · intro elem _ ih
    have hopen : Text.HasSolidEnds ['['] := .single (by decide)
    have hclose : Text.HasSolidEnds [']'] := .single (by decide)
    rw [toList_text_array]
    exact ih.append (hopen.append hclose)
  · intro elem _ ih
    have hand : Text.HasSolidEnds ['&'] := .single (by decide)
    rw [toList_text_ref]
    exact hand.append ih
  · intro fields _
    have hopen : Text.HasSolidEnds ['\x7b'] := .single (by decide)
    have hclose : Text.HasSolidEnds ['\x7d'] := .single (by decide)
    rw [toList_text_record]
    exact hopen.around hclose _

theorem isSealed_fieldText {f : String × Ty} (hname : Text.isName f.1 = true) (ht : IsSealed 0 f.2.text.toList) :
    IsSealed 0 (f.2.text ++ " " ++ f.1).toList := by
  rw [toList_fieldText]
  have hblank : IsSealed 0 [' '] := .single (.inl (by decide)) (by decide) (by decide)
  exact ht.append (hblank.append (.of_isNameRest (Text.isNameRest_of_isName hname).2))

theorem isSealed_text {t : Ty} (ht : t.isNamed = true) : IsSealed 0 t.text.toList := by
  refine named_induction (motive := fun t => IsSealed 0 t.text.toList) ?_ ?_ ?_ ?_ ht
  · exact fun t hword => .of_isNameRest (Text.isNameRest_of_isName hword).2
  · intro elem _ ih
    have hopen : IsSealed 0 ['['] := .single (.inl (by decide)) (by decide) (by decide)
    have hclose : IsSealed 0 [']'] := .single (.inl (by decide)) (by decide) (by decide)
    rw [toList_text_array]
    exact ih.append (hopen.append hclose)
  · intro elem _ ih
    have hand : IsSealed 0 ['&'] := .single (.inl (by decide)) (by decide) (by decide)
    rw [toList_text_ref]
    exact hand.append ih
  · intro fields ih
    rw [toList_text_record, fieldTexts_eq]
    refine (IsSealed.intercalate fun u hu => ?_).braces
    obtain ⟨f, hf, rfl⟩ := List.mem_map.1 hu
    exact isSealed_fieldText (ih f hf).1 (ih f hf).2

/-! ### Forms -/

theorem isNameRest_of_keyword {s : List Char} (h : String.ofList s ∈ keywords) : ∀ c ∈ s, Text.isNameRest c = true := by
  have hname : ∀ w ∈ keywords, Text.isName w = true := by decide
  have hrest := (Text.isNameRest_of_isName (hname _ h)).2
  rwa [String.toList_ofList] at hrest

theorem not_keyword_of_mem {s : List Char} {c : Char} (hc : c ∈ s) (hrest : Text.isNameRest c = false) :
    String.ofList s ∉ keywords := by
  intro h
  rw [isNameRest_of_keyword h c hc] at hrest
  cases hrest

theorem ofTrimmed_of_not_keyword {c : Char} {rest : List Char} (h : String.ofList (c :: rest) ∉ keywords) :
    Form.ofTrimmed (c :: rest) =
      if ['[', ']'].isSuffixOf (c :: rest) then .arrayOf ((c :: rest).take ((c :: rest).length - 2))
      else if c == '&' then .refTo rest
      else if c == '\x7b' && rest.getLast? == some '\x7d' then .recordOf rest.dropLast
      else if Text.isName (String.ofList (c :: rest)) then .basic (.nominal (String.ofList (c :: rest)))
      else .wrong (.invalid (String.ofList (c :: rest))) := by
  unfold Form.ofTrimmed
  dsimp only
  split
  · next heq => exact absurd (heq ▸ by decide) h
  · next heq => exact absurd (heq ▸ by decide) h
  · next heq => exact absurd (heq ▸ by decide) h
  · next heq => exact absurd (heq ▸ by decide) h
  · rfl

theorem ofTrimmed_array (elem : List Char) : Form.ofTrimmed (elem ++ ['[', ']']) = .arrayOf elem := by
  obtain ⟨c, rest, hs⟩ : ∃ c rest, elem ++ ['[', ']'] = c :: rest :=
    List.exists_cons_of_ne_nil (List.append_ne_nil_of_right_ne_nil elem (by decide))
  have hmem : ']' ∈ c :: rest := hs ▸ List.mem_append_right elem (by decide)
  have hsuffix : ['[', ']'].isSuffixOf (c :: rest) = true := by
    rw [← hs]
    exact List.isSuffixOf_iff_suffix.2 (List.suffix_append elem _)
  rw [hs, ofTrimmed_of_not_keyword (not_keyword_of_mem hmem (by decide)), if_pos hsuffix, ← hs]
  simp

theorem not_isSuffixOf_brackets {s : List Char} (h : s.getLast? ≠ some ']') : ¬ ['[', ']'].isSuffixOf s = true := by
  intro hsuffix
  obtain ⟨init, rfl⟩ := List.isSuffixOf_iff_suffix.1 hsuffix
  exact h (by simp)

theorem ofTrimmed_ref {elem : List Char} (h : ('&' :: elem).getLast? ≠ some ']') :
    Form.ofTrimmed ('&' :: elem) = .refTo elem := by
  rw [ofTrimmed_of_not_keyword (not_keyword_of_mem List.mem_cons_self (by decide)), if_neg (not_isSuffixOf_brackets h),
    if_pos (by decide)]

theorem ofTrimmed_record (fields : List Char) :
    Form.ofTrimmed ('\x7b' :: (fields ++ ['\x7d'])) = .recordOf fields := by
  have hlast : ('\x7b' :: (fields ++ ['\x7d'])).getLast? ≠ some ']' := by
    rw [← List.cons_append, List.getLast?_concat]
    decide
  rw [ofTrimmed_of_not_keyword (not_keyword_of_mem List.mem_cons_self (by decide)),
    if_neg (not_isSuffixOf_brackets hlast), if_neg (by decide)]
  simp

theorem getLast?_of_isNameRest {s : List Char} (h : ∀ c ∈ s, Text.isNameRest c = true) : s.getLast? ≠ some ']' :=
  fun hlast => absurd (h ']' (List.mem_of_getLast? hlast)) (by decide)

theorem ofTrimmed_nominal {name : String} (hname : Text.isName name = true) (hkeyword : name ∉ keywords) :
    Form.ofTrimmed name.toList = .basic (.nominal name) := by
  obtain ⟨hne, hrest⟩ := Text.isNameRest_of_isName hname
  have hlast := not_isSuffixOf_brackets (getLast?_of_isNameRest hrest)
  obtain ⟨c, rest, hs⟩ := List.exists_cons_of_ne_nil hne
  have hofList : String.ofList (c :: rest) = name := by rw [← hs, String.ofList_toList]
  have hc : Text.isNameRest c = true := hrest c (hs ▸ List.mem_cons_self)
  have hand : ¬ (c == '&') = true := by
    rintro h
    rw [beq_iff_eq.1 h] at hc
    exact absurd hc (by decide)
  have hopen : ¬ (c == '\x7b' && rest.getLast? == some '\x7d') = true := by
    rintro h
    rw [beq_iff_eq.1 (Bool.and_eq_true_iff.1 h).1] at hc
    exact absurd hc (by decide)
  rw [hs] at hlast ⊢
  rw [ofTrimmed_of_not_keyword (hofList ▸ hkeyword), if_neg hlast, if_neg hand, if_neg hopen, hofList, if_pos hname]

/-- Only the texts of arrays end in brackets, unless some reference inside is one to an array. -/
theorem getLast?_text {t : Ty} (ht : t.isNamed = true) (harray : t.isArray = false) (href : t.hasRefToArray = false) :
    t.text.toList.getLast? ≠ some ']' := by
  refine named_induction (motive := fun t => t.isArray = false → t.hasRefToArray = false →
    t.text.toList.getLast? ≠ some ']') ?_ ?_ ?_ ?_ ht harray href
  · exact fun t hword _ _ => getLast?_of_isNameRest (Text.isNameRest_of_isName hword).2
  · exact fun elem _ _ harray => nomatch harray
  · intro elem helem ih _ href
    rw [hasRefToArray, Bool.or_eq_false_iff] at href
    obtain ⟨c, hc, -⟩ := (hasSolidEnds_text helem).last
    have hlast := ih href.1 href.2
    rw [toList_text_ref, List.getLast?_cons, hc]
    rwa [hc] at hlast
  · intro fields _ _ _
    rw [toList_text_record, ← List.cons_append, List.getLast?_concat]
    decide

/-! ### Reading -/

/-- Read a field of a record. -/
def readField (piece : List Char) : Except ReadError (String × Ty) :=
  match divideField (Text.trim piece) with
  | none => .error (.invalidField (String.ofList (Text.trim piece)))
  | some (type, name) =>
    if Text.isName (String.ofList name) then (read type).map fun t => (String.ofList name, t)
    else .error (.invalidFieldName (String.ofList name))

/-- Read what a form leaves to be read. -/
def Form.read : Form → Except ReadError Ty
  | basic type => .ok type
  | arrayOf elem => (Ty.read elem).map .array
  | refTo elem => (Ty.read elem).map .ref
  | recordOf fields => ((fieldPieces fields).mapM readField).map .record
  | wrong error => .error error

/-- Reading a type goes by its form. -/
theorem read_eq (s : List Char) : read s = (Form.of s).read := by
  rw [read]
  split
  · next hform => exact congrArg Form.read hform.symm
  · next hform => exact congrArg Form.read hform.symm
  · next hform => exact congrArg Form.read hform.symm
  · next fields hform =>
    refine Eq.trans ?_ (congrArg Form.read hform.symm)
    have hattach : (fieldPieces fields).attach.mapM (readField ∘ Subtype.val) =
        (fieldPieces fields).mapM readField := by
      rw [← List.mapM_map, List.attach_map_subtype_val]
    rw [Form.read, ← hattach]
    dsimp only
    congr 2
    funext piece
    rw [Function.comp_apply, readField]
    split
    · next hdiv => rw [hdiv]
    · next hdiv => rw [hdiv]
  · next hform => exact congrArg Form.read hform.symm

/-- What stands behind the last gap of a field is its name. -/
theorem divideField_append {name : List Char} (h : ∀ c ∈ name, Text.isNameRest c = true) (type : List Char) :
    divideField (type ++ ' ' :: name) = some (type, name) := by
  have hgap : ∀ c ∈ name.reverse, (!(c == ' ' || c == '\t')) = true := by
    intro c hc
    have hrest : Text.isNameRest c = true := h c (List.mem_reverse.1 hc)
    have hspace : c ≠ ' ' := by rintro rfl; exact absurd hrest (by decide)
    have htab : c ≠ '\t' := by rintro rfl; exact absurd hrest (by decide)
    simp [hspace, htab]
  have hback : (type ++ ' ' :: name).reverse = name.reverse ++ ' ' :: type.reverse := by simp
  simp only [divideField, hback, List.dropWhile_append_of_pos hgap, List.takeWhile_append_of_pos hgap]
  simp

/-- A field is read from its text, whatever blanks stand around it. -/
theorem readField_of_trim {f : String × Ty} {piece : List Char} (hname : Text.isName f.1 = true)
    (hread : read f.2.text.toList = .ok f.2) (hpiece : Text.trim piece = (f.2.text ++ " " ++ f.1).toList) :
    readField piece = .ok f := by
  rw [readField, hpiece, toList_fieldText, divideField_append (Text.isNameRest_of_isName hname).2]
  simp only [String.ofList_toList, hname, if_true, hread]
  rfl

/-- The pieces of the fields' texts, if there are any, are these texts, each but the first with a blank before it. -/
theorem fieldPieces_intercalate {t : String} {ts : List String} (hsolid : Text.HasSolidEnds t.toList)
    (hsealed : ∀ u ∈ t :: ts, IsSealed 0 u.toList) :
    fieldPieces (", ".intercalate (t :: ts)).toList = t.toList :: ts.map fun u => ' ' :: u.toList := by
  obtain ⟨c, hc, hblank⟩ := hsolid.head
  have hmem : c ∈ (", ".intercalate (t :: ts)).toList := by
    have ht : c ∈ t.toList := List.mem_of_head? hc
    cases ts with
    | nil => rwa [String.intercalate_singleton]
    | cons u ts =>
      rw [String.intercalate_cons_cons, String.toList_append, String.toList_append]
      exact List.mem_append_left _ (List.mem_append_left _ ht)
  have hne : ¬ (Text.trim (", ".intercalate (t :: ts)).toList).isEmpty = true := by
    rw [List.isEmpty_iff]
    exact Text.trim_ne_nil hmem hblank
  rw [fieldPieces, if_neg hne, splitAtDepth_intercalate hsealed]

/-- The fields of a record are read from their texts. -/
theorem mapM_fieldPieces {fields : List (String × Ty)} (hnamed : fieldsNamed fields = true)
    (hread : ∀ f ∈ fields, read f.2.text.toList = .ok f.2) :
    (fieldPieces (", ".intercalate (fieldTexts fields)).toList).mapM readField = .ok fields := by
  rw [fieldsNamed_iff] at hnamed
  have hsolid : ∀ f ∈ fields, Text.HasSolidEnds (f.2.text ++ " " ++ f.1).toList := by
    intro f hf
    rw [toList_fieldText]
    exact (hasSolidEnds_text (hnamed f hf).2).around (hasSolidEnds_of_isName (hnamed f hf).1) [' ']
  have hsealed : ∀ f ∈ fields, IsSealed 0 (f.2.text ++ " " ++ f.1).toList := fun f hf =>
    isSealed_fieldText (hnamed f hf).1 (isSealed_text (hnamed f hf).2)
  rw [fieldTexts_eq]
  cases fields with
  | nil => rfl
  | cons f fields =>
    have hf : f ∈ f :: fields := List.mem_cons_self
    have hfirst : readField (f.2.text ++ " " ++ f.1).toList = .ok f :=
      readField_of_trim (hnamed f hf).1 (hread f hf) (hsolid f hf).trim_eq
    have hrest : (fields.map fun g => ' ' :: (g.2.text ++ " " ++ g.1).toList).mapM readField = .ok fields := by
      refine mapM_map_eq_ok fun g hg => ?_
      have hg' : g ∈ f :: fields := List.mem_cons_of_mem f hg
      refine readField_of_trim (hnamed g hg').1 (hread g hg') ?_
      rw [Text.trim_cons_blank (by decide), (hsolid g hg').trim_eq]
    rw [List.map_cons, fieldPieces_intercalate (hsolid f hf), List.map_map, List.mapM_cons]
    · exact bind_eq_ok.2 ⟨f, hfirst, bind_eq_ok.2 ⟨fields, hrest, rfl⟩⟩
    · rw [← List.map_cons (f := fun f : String × Ty => f.2.text ++ " " ++ f.1), List.forall_mem_map]
      exact hsealed

theorem read_of_hasSolidEnds {s : List Char} (h : Text.HasSolidEnds s) : read s = (Form.ofTrimmed s).read := by
  rw [read_eq, Form.of, h.trim_eq]

/-- A type is read from its text, unless some reference in it is one to an array. -/
theorem read_text {t : Ty} (ht : t.isNamed = true) (href : t.hasRefToArray = false) :
    read t.text.toList = .ok t := by
  induction t using parts_induction with
  | array elem ih =>
    rw [read_of_hasSolidEnds (hasSolidEnds_text ht), toList_text_array, ofTrimmed_array, Form.read, ih ht href]
    rfl
  | ref elem ih =>
    have hlast : (ref elem).text.toList.getLast? ≠ some ']' := getLast?_text ht rfl href
    rw [hasRefToArray, Bool.or_eq_false_iff] at href
    rw [toList_text_ref] at hlast
    rw [read_of_hasSolidEnds (hasSolidEnds_text ht), toList_text_ref, ofTrimmed_ref hlast, Form.read, ih ht href.2]
    rfl
  | record fields ih =>
    rw [read_of_hasSolidEnds (hasSolidEnds_text ht), toList_text_record, ofTrimmed_record, Form.read]
    rw [isNamed] at ht
    rw [hasRefToArray, fieldsHaveRefToArray_eq_false_iff] at href
    have hnamed := fieldsNamed_iff.1 ht
    rw [mapM_fieldPieces ht fun f hf => ih f hf (hnamed f hf).2 (href f hf)]
    rfl
  | nominal name =>
    rw [read_of_hasSolidEnds (hasSolidEnds_text ht)]
    obtain ⟨hname, hkeyword⟩ := Bool.and_eq_true_iff.1 ht
    rw [text, ofTrimmed_nominal hname (by simpa using hkeyword)]
    rfl
  | _ =>
    rw [read_of_hasSolidEnds (hasSolidEnds_text ht)]
    rfl

/-! ### What is read -/

/-- What a form says about the text it is the form of. -/
def Form.Fits (s : List Char) : Form → Prop
  | basic t => t.isNamed = true ∧ t.hasRefToArray = false ∧ t.isArray = false
  | arrayOf _ => ['[', ']'] <:+ s
  | refTo elem => s = '&' :: elem ∧ ¬ ['[', ']'] <:+ s
  | _ => True

theorem Form.fits_ofTrimmed (s : List Char) : (Form.ofTrimmed s).Fits s := by
  cases s with
  | nil => exact True.intro
  | cons c rest =>
    by_cases hkeyword : String.ofList (c :: rest) ∈ keywords
    · have hall : ∀ w ∈ keywords, (Form.ofTrimmed w.toList).Fits w.toList := by
        intro w hw
        simp only [keywords, List.mem_cons, List.not_mem_nil, or_false] at hw
        rcases hw with rfl | rfl | rfl | rfl <;> exact ⟨rfl, rfl, rfl⟩
      have hfits := hall _ hkeyword
      rwa [String.toList_ofList] at hfits
    · rw [ofTrimmed_of_not_keyword hkeyword]
      split
      · next harray => exact List.isSuffixOf_iff_suffix.1 harray
      · next harray =>
        split
        · next hand => exact ⟨by rw [beq_iff_eq.1 hand], fun h => harray (List.isSuffixOf_iff_suffix.2 h)⟩
        · split
          · exact True.intro
          · split
            · next hname =>
              have hnot : keywords.contains (String.ofList (c :: rest)) = false := by simpa using hkeyword
              exact ⟨by rw [isNamed, hname, hnot]; rfl, rfl, rfl⟩
            · exact True.intro

theorem readField_eq_ok {piece : List Char} {f : String × Ty} (h : readField piece = .ok f) :
    Text.isName f.1 = true ∧ ∃ type : List Char, type.length < piece.length ∧ read type = .ok f.2 := by
  rw [readField] at h
  split at h
  · cases h
  · next type name hdiv =>
    split at h
    · next hname =>
      obtain ⟨t, ht, rfl⟩ := map_eq_ok.1 h
      have hlt := length_lt_of_divideField hdiv
      have hle := Text.length_trim_le piece
      exact ⟨hname, type, by omega, ht⟩
    · cases h

/-- A type that was read has its parts from shorter texts. -/
theorem read_eq_ok {s : List Char} {t : Ty} (h : read s = .ok t) :
    (t.isNamed = true ∧ t.hasRefToArray = false ∧ t.isArray = false) ∨
    (∃ elem t', t = array t' ∧ elem.length < s.length ∧ read elem = .ok t' ∧ ['[', ']'] <:+ Text.trim s) ∨
    (∃ elem t', t = ref t' ∧ elem.length < s.length ∧ read elem = .ok t' ∧ Text.trim s = '&' :: elem ∧
      ¬ ['[', ']'] <:+ Text.trim s) ∨
    ∃ fields, t = record fields ∧ ∀ f ∈ fields, Text.isName f.1 = true ∧
      ∃ type : List Char, type.length < s.length ∧ read type = .ok f.2 := by
  have hfits : (Form.of s).Fits (Text.trim s) := Form.fits_ofTrimmed (Text.trim s)
  have hwithin : (Form.of s).Within s.length := Form.within_of s
  rw [read_eq] at h
  generalize Form.of s = form at h hfits hwithin
  cases form with
  | basic type =>
    cases h
    exact .inl hfits
  | arrayOf elem =>
    obtain ⟨t', ht', rfl⟩ := map_eq_ok.1 h
    exact .inr (.inl ⟨elem, t', rfl, hwithin, ht', hfits⟩)
  | refTo elem =>
    obtain ⟨t', ht', rfl⟩ := map_eq_ok.1 h
    exact .inr (.inr (.inl ⟨elem, t', rfl, hwithin, ht', hfits⟩))
  | recordOf text =>
    obtain ⟨fields, hfields, rfl⟩ := map_eq_ok.1 h
    refine .inr (.inr (.inr ⟨fields, rfl, forall_of_mapM (fun piece hpiece f hf => ?_) hfields⟩))
    obtain ⟨hname, type, hlt, hread⟩ := readField_eq_ok hf
    have hle : piece.length ≤ text.length := length_le_of_mem_fieldPieces hpiece
    have htext : text.length < s.length := hwithin
    exact ⟨hname, type, by omega, hread⟩
  | wrong error => cases h

/-- The text of an array ends in brackets. -/
theorem brackets_isSuffix_of_read {s : List Char} {t : Ty} (h : read s = .ok (.array t)) :
    ['[', ']'] <:+ Text.trim s := by
  obtain ⟨-, -, hnot⟩ | ⟨_, _, -, -, -, hsuffix⟩ | ⟨_, _, heq, -⟩ | ⟨_, heq, -⟩ := read_eq_ok h
  · cases hnot
  · exact hsuffix
  · cases heq
  · cases heq

/-- What stands behind an `&` is no array: its brackets would end the whole text. -/
theorem isArray_of_read_ref {s elem : List Char} {t : Ty} (htrim : Text.trim s = '&' :: elem)
    (hbrackets : ¬ ['[', ']'] <:+ Text.trim s) (h : read elem = .ok t) : t.isArray = false := by
  cases t with
  | array t =>
    have hsolid : ∀ c, elem.getLast? = some c → Text.isBlank c = false := by
      intro c hc
      refine Text.isBlank_of_getLast?_trim (s := s) ?_
      rw [htrim, List.getLast?_cons, hc]
      rfl
    have hsuffix : ['[', ']'] <:+ elem := (brackets_isSuffix_of_read h).trans (Text.trim_isSuffix hsolid)
    exact absurd (htrim ▸ hsuffix.trans (List.suffix_cons '&' elem)) hbrackets
  | _ => rfl

/-- What is read has names throughout and no reference to an array. -/
theorem isNamed_of_read {s : List Char} {t : Ty} (h : read s = .ok t) : t.isNamed = true ∧ t.hasRefToArray = false := by
  induction hlen : s.length using Nat.strongRecOn generalizing s t with
  | ind n ih =>
    subst hlen
    obtain ⟨hnamed, href, -⟩ | ⟨elem, t, rfl, hlt, ht, -⟩ | ⟨elem, t, rfl, hlt, ht, htrim, hbrackets⟩ |
      ⟨fields, rfl, hfields⟩ := read_eq_ok h
    · exact ⟨hnamed, href⟩
    · rw [isNamed, hasRefToArray]
      exact ih elem.length hlt ht rfl
    · rw [isNamed, hasRefToArray, isArray_of_read_ref htrim hbrackets ht]
      exact ih elem.length hlt ht rfl
    · have hparts : ∀ f ∈ fields, f.2.isNamed = true ∧ f.2.hasRefToArray = false := by
        intro f hf
        obtain ⟨-, type, hlt, ht⟩ := hfields f hf
        exact ih type.length hlt ht rfl
      rw [isNamed, hasRefToArray, fieldsNamed_iff, fieldsHaveRefToArray_eq_false_iff]
      exact ⟨fun f hf => ⟨(hfields f hf).1, (hparts f hf).1⟩, fun f hf => (hparts f hf).2⟩

/-- **Reading undoes printing, up to references to arrays.**  The text of every type with names throughout is read, as a
type with that text, and as the type itself unless some reference in it is one to an array.  No type with such a
reference is ever read, so the types that are read are read from their own texts. -/
theorem type_text_round_trip :
    (∀ t : Ty, t.isNamed = true →
      ∃ t', ofText t.text = .ok t' ∧ t'.text = t.text ∧ (t' = t ↔ t.hasRefToArray = false)) ∧
    ∀ (s : String) (t : Ty), ofText s = .ok t → t.hasRefToArray = false ∧ ofText t.text = .ok t := by
  constructor
  · intro t ht
    have hread : read t.reread.text.toList = .ok t.reread :=
      read_text ((isNamed_reread t).trans ht) (hasRefToArray_reread t)
    rw [text_reread] at hread
    exact ⟨t.reread, hread, text_reread t, reread_eq_self_iff⟩
  · intro s t h
    obtain ⟨hnamed, href⟩ := isNamed_of_read h
    exact ⟨href, read_text hnamed href⟩

/-- A record with a reference to an array of records, and a text with blanks inside. -/
theorem type_text_round_trip_nested :
    (∃ t, ofText (record [("next", ref (array (record []))), ("width", nominal "u8")]).text = .ok t ∧
      t ≠ record [("next", ref (array (record []))), ("width", nominal "u8")]) ∧
    ofText " & node[]\t" = .ok (array (ref (nominal "node"))) ∧
    ofText (array (ref (nominal "node"))).text = .ok (array (ref (nominal "node"))) := by
  have hnode : read " node".toList = .ok (nominal "node") := (read_eq _).trans rfl
  have href : read "& node".toList = .ok (ref (nominal "node")) := (read_eq _).trans (congrArg (Except.map ref) hnode)
  have hread : ofText " & node[]\t" = .ok (array (ref (nominal "node"))) :=
    (read_eq _).trans (congrArg (Except.map array) href)
  obtain ⟨t, hok, -, heq⟩ :=
    type_text_round_trip.1 (record [("next", ref (array (record []))), ("width", nominal "u8")]) (by decide)
  exact ⟨⟨t, hok, fun h => absurd (heq.1 h) (by decide)⟩, hread, (type_text_round_trip.2 _ _ hread).2⟩

end Narrowing.Ty
