import Narrowing.Text.Blank
import Narrowing.Text.Name
import Narrowing.Text.Quoted
import Narrowing.Ty

/-!
# Reading types

The text of a type names a basic type, an array `T[]`, a reference `&T`, a record of fields or a nominal type.
Blanks at the ends of a type are ignored.  `Form.of` tells which it is without looking inside; the parts it finds are
shorter than the whole, which is why reading them in turn comes to an end.
-/

namespace Narrowing.Ty

/-- Why a text is no type. -/
inductive ReadError where
  | empty
  | invalid (text : String)
  | invalidField (text : String)
  | invalidFieldName (text : String)
  deriving DecidableEq, Repr

def ReadError.message : ReadError → String
  | empty => "empty type"
  | invalid s => "invalid type " ++ Text.quote s
  | invalidField s => "invalid record field " ++ Text.quote s
  | invalidFieldName s => "invalid field name " ++ Text.quote s

/-- The outermost form of the text of a type, with the parts still to be read. -/
inductive Form where
  | basic (type : Ty)
  | arrayOf (elem : List Char)
  | refTo (elem : List Char)
  | recordOf (fields : List Char)
  | wrong (error : ReadError)

/-- The form of a type whose text starts and ends without blanks. -/
def Form.ofTrimmed (s : List Char) : Form :=
  match s with
  | [] => .wrong .empty
  | c :: rest =>
    match String.ofList s with
    | "int" => .basic .int
    | "bool" => .basic .bool
    | "null" => .basic .null
    | "void" => .basic .void
    | name =>
      if ['[', ']'].isSuffixOf s then .arrayOf (s.take (s.length - 2))
      else if c == '&' then .refTo rest
      else if c == '\x7b' && rest.getLast? == some '\x7d' then .recordOf rest.dropLast
      else if Text.isName name then .basic (.nominal name)
      else .wrong (.invalid name)

/-- The form of the text of a type. -/
def Form.of (s : List Char) : Form := Form.ofTrimmed (Text.trim s)

/-- Everything still to be read of a form is shorter than the whole text. -/
def Form.Within (n : Nat) : Form → Prop
  | arrayOf elem => elem.length < n
  | refTo elem => elem.length < n
  | recordOf fields => fields.length < n
  | _ => True

theorem Form.within_ofTrimmed (s : List Char) : (Form.ofTrimmed s).Within s.length := by
  unfold Form.ofTrimmed
  split
  · exact True.intro
  · split <;> try exact True.intro
    split
    · simp only [Within, List.length_take, List.length_cons]; omega
    · split
      · simp [Within]
      · split
        · simp only [Within, List.length_dropLast, List.length_cons]; omega
        · split <;> exact True.intro

theorem Form.within_of (s : List Char) : (Form.of s).Within s.length := by
  have h := Form.within_ofTrimmed (Text.trim s)
  have hle := Text.length_trim_le s
  unfold Form.of
  generalize Form.ofTrimmed (Text.trim s) = form at *
  cases form <;> simp only [Within] at h ⊢ <;> omega

/-! ### Record fields -/

/-- Add a character to the first of some pieces. -/
def consHead (c : Char) : List (List Char) → List (List Char)
  | [] => [[c]]
  | p :: ps => (c :: p) :: ps

/-- The pieces between the commas at brace depth zero, from the given depth on. -/
def splitAtDepth (depth : Int) : List Char → List (List Char)
  | [] => [[]]
  | c :: cs =>
    if c == ',' && depth == 0 then [] :: splitAtDepth depth cs
    else
      consHead c (splitAtDepth (if c == '\x7b' then depth + 1 else if c == '\x7d' then depth - 1 else depth) cs)

/-- The fields of a record as texts; a blank text has none. -/
def fieldPieces (s : List Char) : List (List Char) :=
  if (Text.trim s).isEmpty then [] else splitAtDepth 0 s

theorem length_le_of_mem_consHead {c : Char} {p : List Char} {ps : List (List Char)} {n : Nat}
    (hps : ∀ q ∈ ps, q.length ≤ n) (hp : p ∈ consHead c ps) : p.length ≤ n + 1 := by
  cases ps with
  | nil =>
    simp only [consHead, List.mem_singleton] at hp
    subst hp; simp
  | cons q qs =>
    simp only [consHead, List.mem_cons] at hp
    rcases hp with rfl | hp
    · simpa using hps q (by simp)
    · exact Nat.le_succ_of_le (hps p (by simp [hp]))

theorem length_le_of_mem_splitAtDepth {depth : Int} {s p : List Char} (h : p ∈ splitAtDepth depth s) :
    p.length ≤ s.length := by
  induction s generalizing depth p with
  | nil => simp_all [splitAtDepth]
  | cons c cs ih =>
    unfold splitAtDepth at h
    split at h
    · rcases List.mem_cons.1 h with rfl | h
      · simp
      · exact Nat.le_succ_of_le (ih h)
    · simpa using length_le_of_mem_consHead (fun q hq => ih hq) h

theorem length_le_of_mem_fieldPieces {s p : List Char} (h : p ∈ fieldPieces s) : p.length ≤ s.length := by
  unfold fieldPieces at h
  split at h
  · simp at h
  · exact length_le_of_mem_splitAtDepth h

/-- Divide a field at its last space or tab into its type and its name. -/
def divideField (s : List Char) : Option (List Char × List Char) :=
  let isGap := fun c : Char => c == ' ' || c == '\t'
  let back := s.reverse
  match back.dropWhile (!isGap ·) with
  | [] => none
  | _ :: type => some (type.reverse, (back.takeWhile (!isGap ·)).reverse)

theorem length_lt_of_divideField {s type name : List Char} (h : divideField s = some (type, name)) :
    type.length < s.length := by
  unfold divideField at h
  simp only at h
  split at h
  · simp at h
  · next c rest heq =>
    simp only [Option.some.injEq, Prod.mk.injEq] at h
    have hle := (List.dropWhile_sublist (fun x : Char => !(x == ' ' || x == '\t')) (l := s.reverse)).length_le
    rw [heq] at hle
    simp only [List.length_cons, List.length_reverse] at hle
    rw [← h.1, List.length_reverse]
    omega

/-! ### Types -/

/-- Read a type. -/
def read (s : List Char) : Except ReadError Ty :=
  have hwithin := Form.within_of s
  match hform : Form.of s with
  | .basic type => .ok type
  | .arrayOf elem =>
    have : elem.length < s.length := by simpa [hform, Form.Within] using hwithin
    (read elem).map .array
  | .refTo elem =>
    have : elem.length < s.length := by simpa [hform, Form.Within] using hwithin
    (read elem).map .ref
  | .recordOf fields =>
    have hfields : fields.length < s.length := by simpa [hform, Form.Within] using hwithin
    Except.map .record <| (fieldPieces fields).attach.mapM fun ⟨piece, hpiece⟩ =>
      have hle := length_le_of_mem_fieldPieces hpiece
      have htrim := Text.length_trim_le piece
      match hdiv : divideField (Text.trim piece) with
      | none => .error (.invalidField (String.ofList (Text.trim piece)))
      | some (type, name) =>
        have hlt := length_lt_of_divideField hdiv
        if Text.isName (String.ofList name) then
          have : type.length < s.length := by omega
          (read type).map fun t => (String.ofList name, t)
        else .error (.invalidFieldName (String.ofList name))
  | .wrong error => .error error
termination_by s.length

/-- Read the type a text names. -/
def ofText (s : String) : Except ReadError Ty := read s.toList

end Narrowing.Ty
