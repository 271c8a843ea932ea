import Narrowing.Proofs.CTerm
import Narrowing.Proofs.Emission
import Narrowing.Proofs.Occurrence
import Narrowing.Proofs.Writer

/-!
# The shape of printed statements

The lines of a statement open and close as many blocks as the statement has, one inside the other as in the tree.
`Bracketed` says so of lines, and a scan of such lines that counts up where a block opens and down where one closes is
never below its start (`Bracketed.braceScan_append`).  For printed text this is so because no other line ends in an
opening brace or starts with a closing one, whatever the expressions in it (`Expr.isInline_of_yields`).
-/

namespace Narrowing

/-! ### Lines of a text -/

/-- The lines of a text in which each line is ended by a line feed. -/
def textLines (s : String) : List (List Char) := (Text.pieces (· == '\n') s.toList).dropLast

def isIndentation (c : Char) : Bool := c == ' ' || c == '\t'

/-- A line without its indentation. -/
def unindent (l : List Char) : List Char := l.dropWhile isIndentation

def opensBlock (l : List Char) : Bool := l.getLast? == some '\x7b'

def closesBlock (l : List Char) : Bool := l.head? == some '\x7d'

/-- The number of open blocks behind some lines, unless it was below zero on the way.  A line that closes a block and
opens another one closes first. -/
def braceScan : Nat → List (List Char) → Option Nat
  | n, [] => some n
  | n, l :: ls =>
    if closesBlock l ∧ n = 0 then none
    else braceScan (n - (if closesBlock l then 1 else 0) + (if opensBlock l then 1 else 0)) ls

/-- The characters of a line with its indentation. -/
def CLine.chars (indent : String) (l : CLine) : List Char :=
  (List.replicate l.depth indent.toList).flatten ++ l.text.toList

/-- The characters of a line without its indentation. -/
def CLine.bare (l : CLine) : List Char := unindent l.text.toList

theorem toList_linesText (indent : String) (ls : List CLine) :
    (linesText indent ls).toList = (ls.map (CLine.chars indent)).flatMap (· ++ ['\n']) := by
  induction ls with
  | nil => rfl
  | cons l ls ih =>
    have hcons : linesText indent (l :: ls) = l.render indent ++ linesText indent ls := by simp [linesText]
    have hline : (l.render indent).toList = l.chars indent ++ ['\n'] := by
      simp [CLine.render, CLine.chars, List.flatMap_def]
    rw [hcons, String.toList_append, hline, ih]
    simp

section Indentation

variable {indent : String} (hindent : ∀ c ∈ indent.toList, c = ' ' ∨ c = '\t') {ls : List CLine}
include hindent

theorem isIndentation_of_mem_replicate {d : Nat} {c : Char} (hc : c ∈ (List.replicate d indent.toList).flatten) :
    isIndentation c = true := by
  obtain ⟨l, hl, hcl⟩ := List.mem_flatten.1 hc
  rw [List.eq_of_mem_replicate hl] at hcl
  rcases hindent c hcl with rfl | rfl <;> rfl

theorem textLines_linesText (hls : ∀ l ∈ ls, '\n' ∉ l.text.toList) :
    textLines (linesText indent ls) = ls.map (CLine.chars indent) := by
  have hfeed : ∀ l ∈ ls.map (CLine.chars indent), '\n' ∉ l := by
    intro _ hmem hfeed
    obtain ⟨l, hl, rfl⟩ := List.mem_map.1 hmem
    rcases List.mem_append.1 hfeed with h | h
    · exact absurd (isIndentation_of_mem_replicate hindent h) (by decide)
    · exact hls l hl h
  rw [textLines, toList_linesText, Text.pieces_flatMap hfeed, List.dropLast_concat]

theorem unindent_chars (l : CLine) : unindent (l.chars indent) = l.bare := by
  unfold unindent CLine.chars CLine.bare
  exact List.dropWhile_append_of_pos fun c hc => isIndentation_of_mem_replicate hindent hc

end Indentation

theorem CLine.chars_deepen (indent : String) (l : CLine) : l.deepen.chars indent = indent.toList ++ l.chars indent := by
  simp [CLine.chars, CLine.deepen, List.replicate_succ]

/-! ### Bracketed lines -/

/-- There is no line feed in the text, and it opens and closes a block as stated. -/
structure HasBraces (text : String) (opens closes : Bool) : Prop where
  noFeed : '\n' ∉ text.toList
  opens_eq : opensBlock (unindent text.toList) = opens
  closes_eq : closesBlock (unindent text.toList) = closes

/-- Lines that open and close a number of blocks, one inside the other or one after the other. -/
inductive Bracketed : List CLine → Nat → Prop
  | nil : Bracketed [] 0
  | line {d : Nat} {text : String} (h : HasBraces text false false) : Bracketed [⟨d, text⟩] 0
  | append {ls ms : List CLine} {k j : Nat} (h : Bracketed ls k) (h' : Bracketed ms j) : Bracketed (ls ++ ms) (k + j)
  | block {ls : List CLine} {k d d' : Nat} {top bottom : String} (htop : HasBraces top true false)
      (hbottom : HasBraces bottom false true) (h : Bracketed ls k) :
      Bracketed (⟨d, top⟩ :: ls ++ [⟨d', bottom⟩]) (k + 1)
  | blocks {ls ms : List CLine} {k j d d' d'' : Nat} {top middle bottom : String} (htop : HasBraces top true false)
      (hmiddle : HasBraces middle true true) (hbottom : HasBraces bottom false true) (h : Bracketed ls k)
      (h' : Bracketed ms j) : Bracketed (⟨d, top⟩ :: ls ++ ⟨d', middle⟩ :: ms ++ [⟨d'', bottom⟩]) (k + j + 2)

theorem HasBraces.braceScan_cons {text : String} {o c : Bool} (h : HasBraces text o c) {d n : Nat}
    (hn : c = true → n ≠ 0) (rest : List (List Char)) : braceScan n (CLine.bare ⟨d, text⟩ :: rest) =
      braceScan (n - (if c then 1 else 0) + (if o then 1 else 0)) rest := by
  rw [braceScan, CLine.bare, h.opens_eq, h.closes_eq, if_neg fun hc => hn hc.1 hc.2]

namespace Bracketed

variable {ls : List CLine} {k : Nat}

theorem noFeed (h : Bracketed ls k) : ∀ l ∈ ls, '\n' ∉ l.text.toList := by
  induction h with
  | nil => simp
  | line h => simpa using h.noFeed
  | append h h' ih ih' => exact List.forall_mem_append.2 ⟨ih, ih'⟩
  | block htop hbottom h ih => simpa [or_imp, forall_and] using ⟨htop.noFeed, ih, hbottom.noFeed⟩
  | blocks htop hmiddle hbottom h h' ih ih' =>
    simpa [or_imp, forall_and] using ⟨htop.noFeed, ih, hmiddle.noFeed, ih', hbottom.noFeed⟩

/-- A scan leaves bracketed lines with the count it came with. -/
theorem braceScan_append (h : Bracketed ls k) (n : Nat) (rest : List (List Char)) :
    braceScan n (ls.map CLine.bare ++ rest) = braceScan n rest := by
  induction h generalizing n rest with
  | nil => rfl
  | line h => exact h.braceScan_cons nofun rest
  | append h h' ih ih' => rw [List.map_append, List.append_assoc, ih, ih']
  | block htop hbottom h ih =>
    -- one up, the inside leaves the count as it is, one down again
    simp only [List.map_append, List.map_cons, List.map_nil, List.cons_append, List.append_assoc, List.nil_append]
    rw [htop.braceScan_cons nofun, ih, hbottom.braceScan_cons (by simp)]
    rfl
  | blocks htop hmiddle hbottom h h' ih ih' =>
    simp only [List.map_append, List.map_cons, List.map_nil, List.cons_append, List.append_assoc, List.nil_append]
    rw [htop.braceScan_cons nofun, ih, hmiddle.braceScan_cons (by simp), ih', hbottom.braceScan_cons (by simp)]
    rfl

theorem countP_opensBlock (h : Bracketed ls k) : (ls.map CLine.bare).countP opensBlock = k := by
  induction h with
  | nil => rfl
  | line h => simp [CLine.bare, h.opens_eq]
  | append h h' ih ih' => rw [List.map_append, List.countP_append, ih, ih']
  | block htop hbottom h ih =>
    simp [CLine.bare, htop.opens_eq, hbottom.opens_eq, ih]
  | blocks htop hmiddle hbottom h h' ih ih' =>
    simp [CLine.bare, htop.opens_eq, hmiddle.opens_eq, hbottom.opens_eq, ih, ih']
    omega

end Bracketed

/-! ### Texts inside a line -/

/-- There is no line feed and no brace in the text. -/
def isPlain (s : String) : Bool := s.toList.all fun c => c != '\n' && c != '\x7b' && c != '\x7d'

/-- The text fits into a line and does not close a block. -/
def isInline (s : String) : Bool := !s.toList.contains '\n' && !closesBlock (unindent s.toList)

/-- The text fits at the end of a line, which then opens a block or not. -/
def endsLine (opens : Bool) (s : String) : Bool :=
  isInline s && !s.isEmpty && opensBlock s.toList == opens

theorem isPlain_iff {s : String} : isPlain s = true ↔ ∀ c ∈ s.toList, c ≠ '\n' ∧ c ≠ '\x7b' ∧ c ≠ '\x7d' := by
  simp [isPlain, and_assoc]

theorem isPlain_append {s t : String} (hs : isPlain s = true) (ht : isPlain t = true) : isPlain (s ++ t) = true := by
  rw [isPlain, String.toList_append, List.all_append]
  exact Bool.and_eq_true_iff.2 ⟨hs, ht⟩

theorem isInline_iff {s : String} : isInline s = true ↔ '\n' ∉ s.toList ∧ closesBlock (unindent s.toList) = false := by
  simp [isInline]

theorem isInline_append {s t : String} (hs : isInline s = true) (ht : isInline t = true) : isInline (s ++ t) = true := by
  obtain ⟨hs, hsopen⟩ := isInline_iff.1 hs
  obtain ⟨ht, htopen⟩ := isInline_iff.1 ht
  rw [isInline_iff, String.toList_append]
  refine ⟨by simp [hs, ht], ?_⟩
  rw [unindent, List.dropWhile_append]
  -- the second text starts the line only if the first one is all indentation
  split
  · exact htopen
  · next hne =>
    obtain ⟨c, r, hcr⟩ := List.exists_cons_of_ne_nil fun hnil => hne (List.isEmpty_iff.2 hnil)
    rw [unindent, hcr] at hsopen
    rw [hcr]
    exact hsopen

theorem isInline_of_isPlain {s : String} (h : isPlain s = true) : isInline s = true := by
  have hplain := isPlain_iff.1 h
  refine isInline_iff.2 ⟨fun hmem => (hplain _ hmem).1 rfl, ?_⟩
  have hhead : (unindent s.toList).head? ≠ some '\x7d' := by
    intro hhead
    exact (hplain _ ((List.dropWhile_sublist _).subset (List.mem_of_head? hhead))).2.2 rfl
  simpa [closesBlock] using hhead

theorem isPlain_of_isNameRest {s : String} (h : ∀ c ∈ s.toList, Text.isNameRest c = true) : isPlain s = true := by
  refine isPlain_iff.2 fun c hc => ⟨?_, ?_, ?_⟩ <;> rintro rfl <;> exact absurd (h _ hc) (by decide)

theorem opensBlock_append (x : List Char) {y : List Char} (hy : y ≠ []) : opensBlock (x ++ y) = opensBlock y := by
  rw [opensBlock, opensBlock, List.getLast?_append, List.getLast?_eq_some_getLast hy]
  rfl

/-- No indentation opens a block. -/
theorem opensBlock_unindent (l : List Char) : opensBlock (unindent l) = opensBlock l := by
  have hsplit : l.takeWhile isIndentation ++ unindent l = l := List.takeWhile_append_dropWhile
  by_cases hnil : unindent l = []
  · -- a line of nothing but indentation ends in none
    rw [hnil, List.append_nil] at hsplit
    have hlast : l.getLast? ≠ some '\x7b' := by
      intro hlast
      rw [← hsplit] at hlast
      exact absurd (List.mem_takeWhile_imp (List.mem_of_getLast? hlast)) (by decide)
    rw [hnil]
    simpa [opensBlock] using hlast
  · have happend := opensBlock_append (l.takeWhile isIndentation) hnil
    rw [hsplit] at happend
    exact happend.symm

theorem HasBraces.of_isInline {s t : String} {o : Bool} (hs : isInline s = true) (ht : endsLine o t = true) :
    HasBraces (s ++ t) o false := by
  simp only [endsLine, Bool.and_eq_true, beq_iff_eq] at ht
  obtain ⟨⟨hinline, hne⟩, hopens⟩ := ht
  obtain ⟨hfeed, hcloses⟩ := isInline_iff.1 (isInline_append hs hinline)
  refine ⟨hfeed, ?_, hcloses⟩
  rw [opensBlock_unindent, String.toList_append, opensBlock_append _ (by simpa using hne)]
  exact hopens

theorem HasBraces.of_isPlain {s : String} (h : isPlain s = true) : HasBraces s false false := by
  obtain ⟨hfeed, hcloses⟩ := isInline_iff.1 (isInline_of_isPlain h)
  refine ⟨hfeed, ?_, hcloses⟩
  have hlast : s.toList.getLast? ≠ some '\x7b' := fun hlast => ((isPlain_iff.1 h) _ (List.mem_of_getLast? hlast)).2.1 rfl
  rw [opensBlock_unindent]
  simpa [opensBlock] using hlast

/-! ### Expressions fit into a line -/

theorem isPlain_toString (n : Int) : isPlain (toString n) = true := by
  refine isPlain_iff.2 fun c hc => ⟨?_, ?_, ?_⟩ <;> rintro rfl <;>
    rcases Text.isNameRest_of_mem_toString hc with h | h <;> exact absurd h (by decide)

theorem Operator.isPlain_text (op : Operator) : isPlain op.text = true := by
  rcases op.mem_known_or_unknown with hop | ⟨n, rfl⟩
  · have hknown : ∀ op ∈ known, isPlain op.text = true := by decide
    exact hknown op hop
  · exact isPlain_append (isPlain_append (by decide) (isPlain_toString n)) (by decide)

theorem Constant.isPlain_emit (c : Constant) : isPlain c.emit = true := by
  cases c with
  | int n => exact isPlain_toString n
  | bool v => cases v <;> decide
  | null => decide

theorem IsTypeName.isPlain {name : String} (h : IsTypeName name) : isPlain name = true := by
  induction h with
  | word hw => exact isPlain_of_isNameRest (Text.isNameRest_of_isName (isName_of_mem_typeWords hw)).2
  | array _ ih => exact isPlain_append (isPlain_append (by decide) ih) (by decide)

theorem isInline_intercalate {ts : List String} (h : ∀ t ∈ ts, isInline t = true) :
    isInline (", ".intercalate ts) = true := by
  induction ts with
  | nil => decide
  | cons t ts ih =>
    have ht := h t List.mem_cons_self
    have hts := ih fun u hu => h u (List.mem_cons_of_mem t hu)
    cases ts with
    | nil => rwa [String.intercalate_singleton]
    | cons u ts =>
      rw [String.intercalate_cons_cons]
      exact isInline_append (isInline_append ht (by decide)) hts

/-- An opening brace closes no block, whatever stands behind it. -/
theorem isInline_braces {s : String} (h : isInline s = true) : isInline ("\x7b" ++ s ++ "\x7d") = true := by
  have hfeed := (isInline_iff.1 h).1
  rw [isInline_iff, String.toList_append, String.toList_append]
  refine ⟨?_, rfl⟩
  simp only [List.mem_append, not_or]
  exact ⟨⟨by decide, hfeed⟩, by decide⟩

/-- The names that a subtree is printed with, its parts apart. -/
def Subtree.names (e : Emitter) : Subtree → List String
  | .expr (.var n) | .stmt (.decl n _) | .stmt (.declAlias n) => ((e.decl.lookup? n).map Variable.name).toList
  | .expr (.field _ name) | .expr (.invoke name _) | .stmt (.named name _) => [name]
  | .expr (.record fields) => fields.map Prod.fst
  | _ => []

/-- No name of the subtrees holds a line feed or a brace. -/
def Emitter.PlainlyNames (e : Emitter) (nodes : List Subtree) : Prop :=
  ∀ node ∈ nodes, ∀ name ∈ node.names e, isPlain name = true

namespace Emitter.PlainlyNames

variable {e : Emitter} {node : Subtree} {ns ns' : List Subtree} {name : String}

theorem left (h : e.PlainlyNames (ns ++ ns')) : e.PlainlyNames ns := fun m hm => h m (List.mem_append_left ns' hm)

theorem right (h : e.PlainlyNames (ns ++ ns')) : e.PlainlyNames ns' := fun m hm => h m (List.mem_append_right ns hm)

theorem parts (h : e.PlainlyNames (node.before Subtree.isShown ns)) (hnode : node.isShown = true) :
    e.PlainlyNames ns := by
  rw [Subtree.before, hnode] at h
  exact fun m hm => h m (List.mem_cons_of_mem node hm)

theorem isPlain (h : e.PlainlyNames (node.before Subtree.isShown ns)) (hname : name ∈ node.names e) :
    Narrowing.isPlain name = true :=
  h node (by rw [Subtree.before]; exact List.mem_cons_self) name hname

end Emitter.PlainlyNames

namespace Expr

variable {e : Emitter}

theorem isInline_asOperand (x : Expr) {t : String} (h : isInline t = true) : isInline (x.asOperand t) = true := by
  unfold asOperand
  split
  · exact isInline_append (isInline_append (by decide) h) (by decide)
  · exact h

theorem isInline_prefixed (op : Operator) {t : String} (h : isInline t = true) : isInline (prefixed op t) = true := by
  unfold prefixed
  split
  · exact isInline_append (by decide) h
  · exact isInline_append (isInline_of_isPlain op.isPlain_text) h

mutual

/-- Whatever is printed of an expression fits into a line and closes no block. -/
theorem isInline_of_yields : (x : Expr) → {t : String} → e.PlainlyNames (x.subtrees Subtree.isShown) →
    Yields (x.emit e) t → isInline t = true
  | .const c, t, _, h => by
    rw [emit] at h
    rw [yields_pure_iff.1 h]
    exact isInline_of_isPlain c.isPlain_emit
  | .var n, t, hn, h => by
    rw [emit] at h
    obtain ⟨v, hv, rfl⟩ := Emitter.yields_variableName_iff.1 h
    rw [subtrees] at hn
    exact isInline_of_isPlain (hn _ List.mem_cons_self _ (by simp [Subtree.names, hv]))
  | .unary op x, t, hn, h => by
    rw [emit] at h
    rw [subtrees] at hn
    split at h
    · obtain ⟨s, hs, rfl⟩ := yields_map_iff.1 h
      exact isInline_prefixed op (isInline_asOperand x (isInline_of_yields x (hn.parts rfl) hs))
    · exact absurd h (not_yields_throw _)
  | .binary op x y, t, hn, h => by
    rw [emit] at h
    rw [subtrees] at hn
    split at h
    · exact absurd h (not_yields_throw _)
    · obtain ⟨s, hs, h⟩ := (yields_bind_iff fun _ => y.remembers_emit.map _).1 h
      obtain ⟨t, ht, rfl⟩ := yields_map_iff.1 h
      have hs := isInline_asOperand x (isInline_of_yields x (hn.parts rfl).left hs)
      have ht := isInline_asOperand y (isInline_of_yields y (hn.parts rfl).right ht)
      have hleft := isInline_append hs (by decide : isInline " " = true)
      have hop := isInline_append hleft (isInline_of_isPlain op.isPlain_text)
      exact isInline_append (isInline_append hop (by decide)) ht
  | .convert type x, t, hn, h => by
    rw [emit] at h
    rw [subtrees] at hn
    obtain ⟨name, hname, h⟩ := (yields_bind_iff fun _ => x.remembers_emit.map _).1 h
    obtain ⟨t, ht, rfl⟩ := yields_map_iff.1 h
    have htype := Ty.isTypeName_of_cName? (Emitter.yields_typeName_iff.1 hname)
    have hname := isInline_append (by decide : isInline "(" = true) (isInline_of_isPlain htype.isPlain)
    have hx := isInline_asOperand x (isInline_of_yields x (hn.parts rfl) ht)
    exact isInline_append (isInline_append hname (by decide)) hx
  | .deref x, t, hn, h => by
    rw [emit] at h
    rw [subtrees] at hn
    obtain ⟨t, ht, rfl⟩ := yields_map_iff.1 h
    exact isInline_append (by decide) (isInline_asOperand x (isInline_of_yields x (hn.parts rfl) ht))
  | .field x name, t, hn, h => by
    rw [emit] at h
    rw [subtrees] at hn
    obtain ⟨t, ht, rfl⟩ := yields_map_iff.1 h
    have hx := isInline_asOperand x (isInline_of_yields x (hn.parts rfl) ht)
    have hname : isPlain name = true := hn.isPlain (List.mem_singleton_self name)
    exact isInline_append (isInline_append hx (by decide)) (isInline_of_isPlain hname)
  | .length x, t, hn, h => by
    rw [emit] at h
    rw [subtrees] at hn
    obtain ⟨t, ht, rfl⟩ := yields_map_iff.1 h
    exact isInline_append (isInline_asOperand x (isInline_of_yields x (hn.parts rfl) ht)) (by decide)
  | .index x i, t, hn, h => by
    rw [emit] at h
    rw [subtrees] at hn
    obtain ⟨s, hs, h⟩ := (yields_bind_iff fun _ => i.remembers_emit.map _).1 h
    obtain ⟨t, ht, rfl⟩ := yields_map_iff.1 h
    have hs := isInline_asOperand x (isInline_of_yields x (hn.parts rfl).left hs)
    have ht := isInline_of_yields i (hn.parts rfl).right ht
    exact isInline_append (isInline_append (isInline_append hs (by decide)) ht) (by decide)
  | .array elems, t, hn, h => by
    rw [emit] at h
    rw [subtrees] at hn
    obtain ⟨ts, hts, rfl⟩ := yields_map_iff.1 h
    exact isInline_braces (isInline_intercalate (isInline_of_emitAll elems (hn.parts rfl) hts))
  | .fill value size, t, hn, h => by
    rw [emit] at h
    rw [subtrees] at hn
    obtain ⟨s, hs, h⟩ := (yields_bind_iff fun _ => size.remembers_emit.map _).1 h
    obtain ⟨t, ht, rfl⟩ := yields_map_iff.1 h
    have hs := isInline_of_yields value (hn.parts rfl).left hs
    have ht := isInline_of_yields size (hn.parts rfl).right ht
    have hvalue := isInline_append (by decide : isInline "arr_gen(" = true) hs
    exact isInline_append (isInline_append (isInline_append hvalue (by decide)) ht) (by decide)
  | .record fields, t, hn, h => by
    rw [emit] at h
    rw [subtrees] at hn
    obtain ⟨ts, hts, rfl⟩ := yields_map_iff.1 h
    have hnames : ∀ name ∈ fields.map Prod.fst, isPlain name = true := fun name hname => hn.isPlain hname
    exact isInline_braces (isInline_intercalate (isInline_of_emitFields fields hnames (hn.parts rfl) hts))
  | .invoke name args, t, hn, h => by
    rw [emit] at h
    rw [subtrees] at hn
    obtain ⟨ts, hts, rfl⟩ := yields_map_iff.1 h
    have hname : isPlain name = true := hn.isPlain (List.mem_singleton_self name)
    have hargs := isInline_intercalate (isInline_of_emitAll args (hn.parts rfl) hts)
    exact isInline_append (isInline_append (isInline_append (isInline_of_isPlain hname) (by decide)) hargs) (by decide)
  | .indirect fn args, t, hn, h => by
    rw [emit] at h
    rw [subtrees] at hn
    obtain ⟨s, hs, h⟩ := (yields_bind_iff fun _ => (remembers_emitAll args).map _).1 h
    obtain ⟨ts, hts, rfl⟩ := yields_map_iff.1 h
    have hfn := isInline_asOperand fn (isInline_of_yields fn (hn.parts rfl).left hs)
    have hargs := isInline_intercalate (isInline_of_emitAll args (hn.parts rfl).right hts)
    exact isInline_append (isInline_append (isInline_append hfn (by decide)) hargs) (by decide)
  | .new x, t, hn, h => by
    rw [emit] at h
    rw [subtrees] at hn
    obtain ⟨t, ht, rfl⟩ := yields_map_iff.1 h
    exact isInline_append (by decide) (isInline_asOperand x (isInline_of_yields x (hn.parts rfl) ht))
  | .lambda .., t, _, h => by
    rw [emit] at h
    exact absurd h (not_yields_refuse _)
  | .quantifier .., t, _, h => by
    rw [emit] at h
    exact absurd h (not_yields_refuse _)
  | .is .., t, _, h => by
    rw [emit] at h
    exact absurd h (not_yields_refuse _)
  | .hole, t, _, h => by
    rw [emit] at h
    exact absurd h (not_yields_throw _)

theorem isInline_of_emitAll : (xs : List Expr) → {ts : List String} → e.PlainlyNames (exprsSubtrees Subtree.isShown xs) →
    Yields (emitAll e xs) ts → ∀ t ∈ ts, isInline t = true
  | [], ts, _, h => by
    rw [emitAll] at h
    rw [yields_pure_iff.1 h]
    exact nofun
  | x :: xs, ts, hn, h => by
    rw [emitAll] at h
    rw [exprsSubtrees] at hn
    obtain ⟨t, ht, h⟩ := (yields_bind_iff fun _ => (remembers_emitAll xs).map _).1 h
    obtain ⟨ts, hts, rfl⟩ := yields_map_iff.1 h
    exact List.forall_mem_cons.2 ⟨isInline_of_yields x hn.left ht, isInline_of_emitAll xs hn.right hts⟩

theorem isInline_of_emitFields : (fs : List (String × Expr)) → {ts : List String} →
    (∀ name ∈ fs.map Prod.fst, isPlain name = true) → e.PlainlyNames (fieldsSubtrees Subtree.isShown fs) →
    Yields (emitFields e fs) ts → ∀ t ∈ ts, isInline t = true
  | [], ts, _, _, h => by
    rw [emitFields] at h
    rw [yields_pure_iff.1 h]
    exact nofun
  | (name, x) :: fs, ts, hnames, hn, h => by
    rw [emitFields] at h
    rw [fieldsSubtrees] at hn
    obtain ⟨hname, hnames⟩ := List.forall_mem_cons.1 hnames
    obtain ⟨t, ht, h⟩ := (yields_bind_iff fun _ => (remembers_emitFields fs).map _).1 h
    obtain ⟨ts, hts, rfl⟩ := yields_map_iff.1 h
    refine List.forall_mem_cons.2 ⟨?_, isInline_of_emitFields fs hnames hn.right hts⟩
    have hfield := isInline_append (by decide : isInline "." = true) (isInline_of_isPlain hname)
    exact isInline_append (isInline_append hfield (by decide)) (isInline_of_yields x hn.left ht)

end

end Expr

/-! ### Blocks of a tree -/

/-- The blocks of a statement, those inside of them apart. -/
@[simp] def Subtree.blocks : Subtree → List (List Stmt)
  | .stmt (.block body) | .stmt (.doWhile body _) | .stmt (.named _ body) | .stmt (.while _ body) => [body]
  | .stmt (.ifThen _ yes) => [yes]
  | .stmt (.ifElse _ yes no) => [yes, no]
  | _ => []

@[simp] def Subtree.isSwitch : Subtree → Bool
  | .stmt (.switch ..) => true
  | _ => false

/-- The number of blocks and of switch statements among some subtrees. -/
def openings (nodes : List Subtree) : Nat := (nodes.flatMap Subtree.blocks).length + nodes.countP Subtree.isSwitch

@[simp] theorem openings_nil : openings [] = 0 := rfl

@[simp] theorem openings_append (ns ns' : List Subtree) : openings (ns ++ ns') = openings ns + openings ns' := by
  simp only [openings, List.flatMap_append, List.length_append, List.countP_append]
  omega

theorem openings_cons (node : Subtree) (ns : List Subtree) :
    openings (node :: ns) = node.blocks.length + (if node.isSwitch then 1 else 0) + openings ns := by
  simp only [openings, List.flatMap_cons, List.length_append, List.countP_cons]
  omega

@[simp] theorem openings_before (node : Subtree) (ns : List Subtree) :
    openings (node.before (fun _ => true) ns) = node.blocks.length + (if node.isSwitch then 1 else 0) + openings ns :=
  openings_cons node ns

namespace Subtree

theorem exists_expr_of_mem_parts {x : Expr} {p : Subtree} (h : p ∈ (expr x).parts) : ∃ y, p = expr y := by
  cases x <;> simp only [parts, List.mem_cons, List.mem_map, List.not_mem_nil, or_false] at h <;> grind

/-- There are only expressions in an expression. -/
theorem Occurs.exists_expr {m n : Subtree} (h : Occurs m n) {x : Expr} (hn : n = expr x) : ∃ y, m = expr y := by
  induction h generalizing x with
  | self => exact ⟨x, hn⟩
  | part hp _ ih =>
    obtain ⟨y, hy⟩ := exists_expr_of_mem_parts (hn ▸ hp)
    exact ih hy

theorem openings_visited_expr (x : Expr) : openings (expr x).visited = 0 := by
  have hexpr : ∀ node ∈ (expr x).visited, ∃ y, node = expr y := fun node hnode =>
    (mem_visited_iff.1 hnode).1.exists_expr rfl
  generalize (expr x).visited = ns at hexpr
  induction ns with
  | nil => rfl
  | cons node ns ih =>
    obtain ⟨⟨y, rfl⟩, hns⟩ := List.forall_mem_cons.1 hexpr
    rw [openings_cons, ih hns]
    rfl

end Subtree

@[simp] theorem openings_expr (x : Expr) : openings (x.subtrees fun _ => true) = 0 := Subtree.openings_visited_expr x

@[simp] theorem openings_exprs (xs : List Expr) : openings (exprsSubtrees (fun _ => true) xs) = 0 := by
  induction xs with
  | nil => rw [exprsSubtrees]; rfl
  | cons x xs ih => simp [exprsSubtrees, ih]

/-! ### Statements -/

theorem isPlain_clauseHead (values : List Constant) : isPlain (clauseHead values) = true := by
  have hcase : ∀ c : Constant, isPlain ("case " ++ c.emit ++ ":") = true := fun c =>
    isPlain_append (isPlain_append (by decide) c.isPlain_emit) (by decide)
  cases values with
  | nil => decide
  | cons c cs =>
    show isPlain (" ".intercalate (("case " ++ c.emit ++ ":") :: cs.map _)) = true
    induction cs generalizing c with
    | nil => exact hcase c
    | cons c' cs ih =>
      rw [List.map_cons, String.intercalate_cons_cons]
      exact isPlain_append (isPlain_append (hcase c) (by decide)) (ih c')

theorem hasBraces_close : HasBraces "\x7d" false true := ⟨by decide, by decide, by decide⟩

theorem hasBraces_else : HasBraces "\x7d else \x7b" true true := ⟨by decide, by decide, by decide⟩

/-- A closing brace closes its block, whatever condition stands behind it. -/
theorem hasBraces_closeWhile {t : String} (h : isInline t = true) :
    HasBraces ("\x7d while(" ++ t ++ ");") false true := by
  have hfeed := (isInline_iff.1 h).1
  refine ⟨?_, ?_, ?_⟩
  · rw [String.toList_append, String.toList_append]
    simp only [List.mem_append, not_or]
    exact ⟨⟨by decide, hfeed⟩, by decide⟩
  · rw [opensBlock_unindent, String.toList_append, opensBlock_append _ (by decide)]
    decide
  · rw [String.toList_append, String.toList_append]
    rfl

theorem Bracketed.of_eq {ls : List CLine} {k j : Nat} (h : Bracketed ls k) (hk : j = k) : Bracketed ls j := hk ▸ h

namespace Stmt

variable {e : Emitter} {d : Nat} {ls : List CLine}

theorem bracketed_of_pure {text : String} (htext : isPlain text = true) (h : Yields (pure [⟨d, text⟩]) ls) :
    Bracketed ls 0 := by
  obtain rfl := yields_pure_iff.1 h
  exact .line (.of_isPlain htext)

/-- A line with an expression inside. -/
theorem bracketed_around {front back : String} {x : Expr} (hfront : isInline front = true)
    (hback : endsLine false back = true) (hn : e.PlainlyNames (x.subtrees Subtree.isShown))
    (h : Yields (do return [⟨d, front ++ (← x.emit e) ++ back⟩]) ls) : Bracketed ls 0 := by
  obtain ⟨t, ht, rfl⟩ := yields_map_iff.1 h
  exact .line (.of_isInline (isInline_append hfront (x.isInline_of_yields hn ht)) hback)

theorem bracketed_emitAssign {lhs rhs : List Expr} (hl : e.PlainlyNames (exprsSubtrees Subtree.isShown lhs))
    (hr : e.PlainlyNames (exprsSubtrees Subtree.isShown rhs)) (h : Yields (emitAssign e d lhs rhs) ls) :
    Bracketed ls 0 := by
  unfold emitAssign at h
  split at h
  · next y =>
    simp only [exprsSubtrees] at hr
    obtain ⟨t, ht, rfl⟩ := yields_map_iff.1 h
    exact .line (.of_isInline (y.isInline_of_yields hr.left ht) (by decide))
  · next x y =>
    simp only [exprsSubtrees] at hl hr
    obtain ⟨s, hs, h⟩ := (yields_bind_iff fun _ => y.remembers_emit.map _).1 h
    obtain ⟨t, ht, rfl⟩ := yields_map_iff.1 h
    have hs := isInline_append (x.isInline_of_yields hl.left hs) (by decide : isInline " = " = true)
    exact .line (.of_isInline (isInline_append hs (y.isInline_of_yields hr.left ht)) (by decide))
  · exact absurd h (not_yields_refuse _)

theorem isPlain_declared {n : Slot} {type name : String} (hn : ∀ v, e.decl.lookup? n = some v → isPlain v.name = true)
    (htype : Yields (e.variableType n) type) (hname : Yields (e.variableName n) name) :
    isPlain (type ++ " " ++ name) = true := by
  obtain ⟨v, hv, rfl⟩ := Emitter.yields_variableName_iff.1 hname
  exact isPlain_append (isPlain_append (Emitter.isTypeName_of_variableType htype).isPlain (by decide)) (hn v hv)

theorem emit_decl_of_ne_hole {n : Slot} {init : Expr} (hinit : init ≠ .hole) :
    Stmt.emit e d (.decl n init) = do
      let type ← e.variableType n
      let name ← e.variableName n
      return [⟨d, type ++ " " ++ name ++ " = " ++ (← init.emit e) ++ ";"⟩] := by
  rw [emit]
  cases init with
  | hole => exact absurd rfl hinit
  | _ => rfl

theorem bracketed_emitDecl {n : Slot} {init : Expr} (hn : e.PlainlyNames ((Stmt.decl n init).subtrees Subtree.isShown))
    (h : Yields (Stmt.emit e d (.decl n init)) ls) : Bracketed ls 0 := by
  rw [subtrees] at hn
  have hname : ∀ v, e.decl.lookup? n = some v → isPlain v.name = true := fun v hv =>
    hn.isPlain (by simp [Subtree.names, hv])
  by_cases hinit : init = .hole
  · subst hinit
    rw [emit] at h
    obtain ⟨type, htype, h⟩ := (yields_bind_iff fun _ => (Emitter.remembers_variableName n).map _).1 h
    obtain ⟨name, hname', rfl⟩ := yields_map_iff.1 h
    exact .line (.of_isInline (isInline_of_isPlain (isPlain_declared hname htype hname')) (by decide))
  · rw [emit_decl_of_ne_hole hinit] at h
    obtain ⟨type, htype, h⟩ := (yields_bind_iff fun _ => (Emitter.remembers_variableName n).bind fun _ =>
      init.remembers_emit.map _).1 h
    obtain ⟨name, hname', h⟩ := (yields_bind_iff fun _ => init.remembers_emit.map _).1 h
    have hdecl := isPlain_append (isPlain_declared hname htype hname') (by decide : isPlain " = " = true)
    exact bracketed_around (isInline_of_isPlain hdecl) (by decide) (hn.parts rfl) h

mutual

/-- What is printed of a statement has the blocks of the statement. -/
theorem bracketed_emit : (s : Stmt) → {d : Nat} → {ls : List CLine} → e.PlainlyNames (s.subtrees Subtree.isShown) →
    Yields (s.emit e d) ls → Bracketed ls (openings (s.subtrees fun _ => true))
  | .block body, d, ls, hn, h => by
    rw [emit] at h
    rw [subtrees] at hn
    obtain ⟨ls, hls, rfl⟩ := yields_map_iff.1 h
    have hbody := bracketed_emitBlock body (hn.parts rfl) hls
    refine (Bracketed.block ⟨by decide, by decide, by decide⟩ hasBraces_close hbody).of_eq ?_
    simp [subtrees, Nat.add_comm]
  | .decl n init, d, ls, hn, h => by
    refine (bracketed_emitDecl hn h).of_eq ?_
    simp [subtrees]
  | .declAlias n, d, ls, hn, h => by
    rw [emit] at h
    rw [subtrees] at hn ⊢
    obtain ⟨type, htype, h⟩ := (yields_bind_iff fun _ => (Emitter.remembers_variableName n).map _).1 h
    obtain ⟨name, hname, rfl⟩ := yields_map_iff.1 h
    have hplain := isPlain_declared (fun v hv => hn _ List.mem_cons_self _ (by simp [Subtree.names, hv])) htype hname
    have hline := isPlain_append (by decide : isPlain "// alias " = true) hplain
    simp only [← String.append_assoc] at hline
    exact .line (.of_isPlain hline)
  | .assign lhs rhs, d, ls, hn, h => by
    rw [emit] at h
    rw [subtrees] at hn
    refine (bracketed_emitAssign (hn.parts rfl).left (hn.parts rfl).right h).of_eq ?_
    simp [subtrees]
  | .assert x, d, ls, hn, h => by
    rw [emit] at h
    rw [subtrees] at hn
    exact (bracketed_around (by decide) (by decide) (hn.parts rfl) h).of_eq (by simp [subtrees])
  | .assume x, d, ls, hn, h => by
    rw [emit] at h
    rw [subtrees] at hn
    exact (bracketed_around (by decide) (by decide) (hn.parts rfl) h).of_eq (by simp [subtrees])
  | .break, d, ls, _, h => by
    rw [emit] at h
    rw [subtrees]
    exact bracketed_of_pure (by decide) h
  | .continue, d, ls, _, h => by
    rw [emit] at h
    rw [subtrees]
    exact bracketed_of_pure (by decide) h
  | .debug x, d, ls, hn, h => by
    rw [emit] at h
    obtain rfl := yields_pure_iff.1 h
    refine Bracketed.nil.of_eq ?_
    simp [subtrees]
  | .doWhile body x, d, ls, hn, h => by
    rw [emit] at h
    rw [subtrees] at hn
    obtain ⟨ls, hls, h⟩ := (yields_bind_iff fun _ => x.remembers_emit.map _).1 h
    obtain ⟨t, ht, rfl⟩ := yields_map_iff.1 h
    have hbody := bracketed_emitBlock body (hn.parts rfl).left hls
    have ht := x.isInline_of_yields (hn.parts rfl).right ht
    refine (Bracketed.block ⟨by decide, by decide, by decide⟩ (hasBraces_closeWhile ht) hbody).of_eq ?_
    simp [subtrees, Nat.add_comm]
  | .fail, d, ls, _, h => by
    rw [emit] at h
    rw [subtrees]
    exact bracketed_of_pure (by decide) h
  | .ifThen x yes, d, ls, hn, h => by
    rw [emit] at h
    rw [subtrees] at hn
    obtain ⟨t, ht, h⟩ := (yields_bind_iff fun _ => (remembers_emitBlock yes (d + 1)).map _).1 h
    obtain ⟨ls, hls, rfl⟩ := yields_map_iff.1 h
    have ht := isInline_append (by decide : isInline "if(" = true) (x.isInline_of_yields (hn.parts rfl).left ht)
    have hyes := bracketed_emitBlock yes (hn.parts rfl).right hls
    refine (Bracketed.block (.of_isInline ht (by decide)) hasBraces_close hyes).of_eq ?_
    simp [subtrees, Nat.add_comm]
  | .ifElse x yes no, d, ls, hn, h => by
    rw [emit] at h
    rw [subtrees] at hn
    obtain ⟨t, ht, h⟩ := (yields_bind_iff fun _ => (remembers_emitBlock yes (d + 1)).bind fun _ =>
      (remembers_emitBlock no (d + 1)).map _).1 h
    obtain ⟨ls, hls, h⟩ := (yields_bind_iff fun _ => (remembers_emitBlock no (d + 1)).map _).1 h
    obtain ⟨ms, hms, rfl⟩ := yields_map_iff.1 h
    have ht := isInline_append (by decide : isInline "if(" = true) (x.isInline_of_yields (hn.parts rfl).left.left ht)
    have hyes := bracketed_emitBlock yes (hn.parts rfl).left.right hls
    have hno := bracketed_emitBlock no (hn.parts rfl).right hms
    refine (Bracketed.blocks (.of_isInline ht (by decide)) hasBraces_else hasBraces_close hyes hno).of_eq ?_
    simp [subtrees, Nat.add_comm]
  | .call x, d, ls, hn, h => by
    rw [emit] at h
    rw [subtrees] at hn
    split at h
    · obtain ⟨t, ht, rfl⟩ := yields_map_iff.1 h
      refine (Bracketed.line (.of_isInline (x.isInline_of_yields (hn.parts rfl) ht) (by decide))).of_eq ?_
      simp [subtrees]
    · exact absurd h (not_yields_throw _)
  | .named name body, d, ls, hn, h => by
    rw [emit] at h
    rw [subtrees] at hn
    obtain ⟨ls, hls, rfl⟩ := yields_map_iff.1 h
    have hname : isPlain name = true := hn.isPlain (List.mem_singleton_self name)
    have hbody := bracketed_emitBlock body (hn.parts rfl) hls
    refine (Bracketed.block (.of_isInline (isInline_of_isPlain hname) (by decide)) hasBraces_close hbody).of_eq ?_
    simp [subtrees, Nat.add_comm]
  | .while x body, d, ls, hn, h => by
    rw [emit] at h
    rw [subtrees] at hn
    obtain ⟨t, ht, h⟩ := (yields_bind_iff fun _ => (remembers_emitBlock body (d + 1)).map _).1 h
    obtain ⟨ls, hls, rfl⟩ := yields_map_iff.1 h
    have ht := isInline_append (by decide : isInline "while(" = true) (x.isInline_of_yields (hn.parts rfl).left ht)
    have hbody := bracketed_emitBlock body (hn.parts rfl).right hls
    refine (Bracketed.block (.of_isInline ht (by decide)) hasBraces_close hbody).of_eq ?_
    simp [subtrees, Nat.add_comm]
  | .ret [], d, ls, _, h => by
    rw [emit] at h
    exact (bracketed_of_pure (by decide) h).of_eq (by simp [subtrees])
  | .ret [x], d, ls, hn, h => by
    rw [emit] at h
    rw [subtrees, exprsSubtrees] at hn
    exact (bracketed_around (by decide) (by decide) (hn.parts rfl).left h).of_eq (by simp [subtrees])
  | .ret (_ :: _ :: _), d, ls, hn, h => by
    rw [emit] at h
    exact absurd h (not_yields_refuse _)
  | .skip, d, ls, _, h => by
    rw [emit] at h
    rw [subtrees]
    exact bracketed_of_pure (by decide) h
  | .switch x clauses, d, ls, hn, h => by
    rw [emit] at h
    rw [subtrees] at hn
    obtain ⟨t, ht, h⟩ := (yields_bind_iff fun _ => (remembers_emitClauses clauses (d + 1)).map _).1 h
    obtain ⟨ls, hls, rfl⟩ := yields_map_iff.1 h
    have ht := isInline_append (by decide : isInline "switch(" = true) (x.isInline_of_yields (hn.parts rfl).left ht)
    have hclauses := bracketed_emitClauses clauses (hn.parts rfl).right hls
    refine (Bracketed.block (.of_isInline ht (by decide)) hasBraces_close hclauses).of_eq ?_
    simp [subtrees, Nat.add_comm]
  | .hole, d, ls, hn, h => by
    rw [emit] at h
    exact absurd h (not_yields_throw _)

theorem bracketed_emitBlock : (ss : List Stmt) → {d : Nat} → {ls : List CLine} →
    e.PlainlyNames (stmtsSubtrees Subtree.isShown ss) → Yields (emitBlock e d ss) ls →
    Bracketed ls (openings (stmtsSubtrees (fun _ => true) ss))
  | [], d, ls, hn, h => by
    rw [emitBlock] at h
    obtain rfl := yields_pure_iff.1 h
    rw [stmtsSubtrees]
    exact .nil
  | s :: ss, d, ls, hn, h => by
    rw [emitBlock] at h
    rw [stmtsSubtrees] at hn ⊢
    obtain ⟨ls, hls, h⟩ := (yields_bind_iff fun ls => .unlessSpoilt ls _).1 h
    obtain ⟨ms, hms, rfl⟩ := yields_map_iff.1 (yields_unlessSpoilt_iff.1 h)
    rw [openings_append]
    exact (bracketed_emit s hn.left hls).append (bracketed_emitBlock ss hn.right hms)

theorem bracketed_emitClauses : (cs : List (List Constant × List Stmt)) → {d : Nat} → {ls : List CLine} →
    e.PlainlyNames (clausesSubtrees Subtree.isShown cs) → Yields (emitClauses e d cs) ls →
    Bracketed ls (openings (clausesSubtrees (fun _ => true) cs))
  | [], d, ls, hn, h => by
    rw [emitClauses] at h
    obtain rfl := yields_pure_iff.1 h
    rw [clausesSubtrees]
    exact .nil
  | (values, body) :: cs, d, ls, hn, h => by
    rw [emitClauses] at h
    rw [clausesSubtrees] at hn ⊢
    obtain ⟨ls, hls, h⟩ := (yields_bind_iff fun _ => (remembers_emitClauses cs d).map _).1 h
    obtain ⟨ms, hms, rfl⟩ := yields_map_iff.1 h
    -- a clause is no block: its head and its break are lines like any other
    have hhead : Bracketed [⟨d, clauseHead values⟩] 0 := .line (.of_isPlain (isPlain_clauseHead values))
    have hbreak : Bracketed [⟨d + 1, "break;"⟩] 0 := .line (.of_isPlain (by decide))
    have hbody := bracketed_emitBlock body hn.left hls
    have hclauses := bracketed_emitClauses cs hn.right hms
    refine ((hhead.append hbody).append (hbreak.append hclauses)).of_eq ?_
    simp

end

end Stmt

/-- **Control shape is preserved.**  If a statement is printed without a construct that has no counterpart and no name of
it holds a line feed or a brace, then a writer comes back to its depth; one level deeper the same lines are printed, each
with one more indentation; and without their indentation the lines open and close as many blocks as the statement has,
none before it is opened. -/
theorem control_shape_preserved {e : Emitter} {s : Stmt} {indent : String} {d : Nat} {ls : List CLine}
    (hindent : ∀ c ∈ indent.toList, c = ' ' ∨ c = '\t')
    (hnames : ∀ node ∈ s.subtrees Subtree.isShown, ∀ name ∈ node.names e, isPlain name = true)
    (hprint : (s.emit e d).run none = .ok (ls, none)) :
    (∀ text, ((s.write e indent).run ⟨d, text⟩).run none = .ok (((), ⟨d, text ++ linesText indent ls⟩), none)) ∧
      (∃ ms, (s.emit e (d + 1)).run none = .ok (ms, none) ∧
        textLines (linesText indent ms) = (textLines (linesText indent ls)).map (indent.toList ++ ·)) ∧
      braceScan 0 ((textLines (linesText indent ls)).map unindent) = some 0 ∧
      ((textLines (linesText indent ls)).map unindent).countP opensBlock =
        ((s.subtrees fun _ => true).flatMap Subtree.blocks).length + (s.subtrees fun _ => true).countP Subtree.isSwitch := by
  have hbracketed := s.bracketed_emit hnames hprint
  have hfeed := hbracketed.noFeed
  have hlines := textLines_linesText hindent hfeed
  have hbare : (ls.map (CLine.chars indent)).map unindent = ls.map CLine.bare := by
    rw [List.map_map]
    exact List.map_congr_left fun l _ => unindent_chars hindent l
  rw [hlines, hbare]
  have hprints : Prints indent (s.write e indent) fun d => s.emit e d := s.prints_write
  refine ⟨fun text => ?_, ⟨ls.map CLine.deepen, ?_, ?_⟩, ?_, hbracketed.countP_opensBlock⟩
  · rw [hprints.run]
    exact Yields.map hprint _
  · rw [hprints.deepen]
    exact Yields.map hprint _
  · have hfeed' : ∀ l ∈ ls.map CLine.deepen, '\n' ∉ l.text.toList := List.forall_mem_map.2 hfeed
    rw [textLines_linesText hindent hfeed', List.map_map, List.map_map]
    exact List.map_congr_left fun l _ => l.chars_deepen indent
  · have hscan := hbracketed.braceScan_append 0 []
    rwa [List.append_nil] at hscan

/-- A statement with all ways to go deeper: a loop with an empty body and an array for its condition, and a switch with a
block in its only clause. -/
def deepStmt : Stmt :=
  .ifElse (.const (.bool true)) [.doWhile [] (.array [])]
    [.switch (.const (.int 1)) [([.int 1], [.named "inner" [.skip]]), ([], [])]]

theorem control_shape_preserved_deepStmt :
    let e : Emitter := ⟨{ name := "f" }, none, .default⟩
    ∃ ls, (deepStmt.emit e 0).run none = .ok (ls, none) ∧
      (∀ text, ((deepStmt.write e "\t").run ⟨0, text⟩).run none = .ok (((), ⟨0, text ++ linesText "\t" ls⟩), none)) ∧
      (∃ ms, (deepStmt.emit e 1).run none = .ok (ms, none) ∧
        textLines (linesText "\t" ms) = (textLines (linesText "\t" ls)).map ('\t' :: ·)) ∧
      braceScan 0 ((textLines (linesText "\t" ls)).map unindent) = some 0 ∧
      ((textLines (linesText "\t" ls)).map unindent).countP opensBlock = 5 := by
  intro e
  have hindent : ∀ c ∈ "\t".toList, c = ' ' ∨ c = '\t' := fun c (hc : c ∈ ['\t']) => .inr (List.mem_singleton.1 hc)
  have hnames : ∀ node ∈ deepStmt.subtrees Subtree.isShown, ∀ name ∈ node.names e, isPlain name = true := by decide
  obtain ⟨ls, hls⟩ : ∃ ls, (deepStmt.emit e 0).run none = .ok (ls, none) := ⟨_, rfl⟩
  exact ⟨ls, hls, control_shape_preserved hindent hnames hls⟩

end Narrowing
