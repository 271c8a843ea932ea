import Mathlib.Data.List.Forall2
import Mathlib.Data.List.Perm.Basic
import Narrowing.Compile
import Narrowing.Proofs.Walk

/-!
# Compiling in any order

The units of a file may be done in any order: once all of them are done, every place of the board holds the outcome of
its own unit (`Board.after_eq_map`).  So what is written, and the error, depend on the declarations alone, and a file is
written as a whole or not at all, unless the sink itself fails.  The frame tables go out first, so an error in them comes
before those of the units.
-/

namespace Narrowing

/-! ### What becomes of a unit -/

/-- The unit fails with the given error: its bytecode cannot be analysed, or it is a function that cannot be printed. -/
inductive Decl.FailsWith (o : CompileOptions) : Decl → CompileError → Prop
  | analysis {d e} (h : d.analyze o.maxJoins = .error e) : FailsWith o d (.analysis e)
  | emission {g r e} (hr : g.analyze o.maxJoins = .ok r) (h : g.emit (some r) o.selector o.layout = .error e) :
    FailsWith o (.function g) (.emission e)

/-- The unit does not fail. -/
def Decl.Succeeds (o : CompileOptions) (d : Decl) : Prop := ∀ e, ¬ d.FailsWith o e

/-- The function is analysed and printed as the given text. -/
def FunctionDecl.Gives (o : CompileOptions) (g : FunctionDecl) (text : String) : Prop :=
  ∃ r, g.analyze o.maxJoins = .ok r ∧ g.emit (some r) o.selector o.layout = .ok text

namespace Decl

variable {o : CompileOptions} {d : Decl}

theorem result_compile (o : CompileOptions) (d : Decl) : (d.compile o).result = (d.analyze o.maxJoins).toOption := by
  cases d with
  | type t =>
    simp only [compile, analyze]
    cases t.analyze o.maxJoins <;> rfl
  | function g =>
    simp only [compile, analyze]
    cases hr : g.analyze o.maxJoins with
    | error e => rfl
    | ok r => dsimp only; cases g.emit (some r) o.selector o.layout <;> rfl

theorem FailsWith.error_compile {e : CompileError} (h : d.FailsWith o e) : (d.compile o).error = some e := by
  cases h with
  | @analysis d e h =>
    cases d with
    | type t =>
      have ht : t.analyze o.maxJoins = .error e := h
      simp only [compile, ht]
    | function g =>
      have hg : g.analyze o.maxJoins = .error e := h
      simp only [compile, hg]
  | emission hr h => simp only [compile, hr, h]

theorem failsWith_of_error {e : CompileError} (h : (d.compile o).error = some e) : d.FailsWith o e := by
  cases d with
  | type t =>
    simp only [compile] at h
    cases hr : t.analyze o.maxJoins with
    | error e' => rw [hr] at h; cases h; exact .analysis hr
    | ok r => rw [hr] at h; cases h
  | function g =>
    simp only [compile] at h
    cases hr : g.analyze o.maxJoins with
    | error e' => rw [hr] at h; cases h; exact .analysis hr
    | ok r =>
      rw [hr] at h
      dsimp only at h
      cases ht : g.emit (some r) o.selector o.layout with
      | error e' => rw [ht] at h; cases h; exact .emission hr ht
      | ok text => rw [ht] at h; cases h

theorem error_compile {e : CompileError} : (d.compile o).error = some e ↔ d.FailsWith o e :=
  ⟨failsWith_of_error, FailsWith.error_compile⟩

theorem succeeds_iff : d.Succeeds o ↔ (d.compile o).error = none := by
  rw [Option.eq_none_iff_forall_ne_some]
  exact forall_congr' fun e => not_congr error_compile.symm

/-- A type gives no text. -/
theorem text_compile_type (t : TypeDecl) : ((type t).compile o).text = none := by
  simp only [compile]
  cases t.analyze o.maxJoins <;> rfl

/-- A function that does not fail gives its text. -/
theorem exists_text {g : FunctionDecl} (h : (function g).Succeeds o) :
    ∃ text, g.Gives o text ∧ ((function g).compile o).text = some text := by
  have herror := succeeds_iff.1 h
  simp only [compile] at herror ⊢
  cases hr : g.analyze o.maxJoins with
  | error e => rw [hr] at herror; cases herror
  | ok r =>
    rw [hr] at herror
    dsimp only at herror ⊢
    cases ht : g.emit (some r) o.selector o.layout with
    | error e => rw [ht] at herror; cases herror
    | ok text => exact ⟨text, ⟨r, hr, ht⟩, rfl⟩

end Decl

/-! ### The board -/

namespace Board

variable {o : CompileOptions} {decls : List Decl}

/-- The places in `done` hold the outcomes of their units, and the others nothing. -/
def Holds (o : CompileOptions) (decls : List Decl) (done : List Nat) (b : Board) : Prop :=
  ∀ i : Nat, b[i]? = decls[i]?.map fun d => if i ∈ done then d.compile o else {}

theorem holds_blank : Holds o decls [] (blank decls) := by
  intro i
  rw [blank, List.getElem?_map]
  rfl

/-- Doing a unit puts its outcome in its place and leaves the other places alone. -/
theorem Holds.complete {done : List Nat} {b : Board} (h : Holds o decls done b) (place : Nat) :
    Holds o decls (place :: done) (b.complete o decls place) := by
  intro i
  unfold Board.complete
  by_cases hi : i = place
  · subst hi
    cases hd : decls[i]? with
    | none => simpa [hd] using h i
    | some d =>
      have hlt : i < b.length := by
        have hplace := h i
        rw [hd] at hplace
        exact (List.getElem?_eq_some_iff.1 hplace).1
      simp [hlt]
  · have hmem : i ∈ place :: done ↔ i ∈ done := by simp [hi]
    have hplace : decls[i]?.map (fun d => if i ∈ place :: done then d.compile o else {}) = b[i]? := by
      rw [h i]
      simp only [hmem]
    rw [hplace]
    cases decls[place]? with
    | none => rfl
    | some d => exact List.getElem?_set_ne (Ne.symm hi)

theorem Holds.foldl {done : List Nat} {b : Board} (h : Holds o decls done b) (order : List Nat) :
    Holds o decls (order.reverse ++ done) (order.foldl (Board.complete o decls) b) := by
  induction order generalizing done b with
  | nil => exact h
  | cons place order ih =>
    rw [List.reverse_cons, List.append_assoc]
    exact ih (h.complete place)

/-- When every unit is done, in whatever order, each place holds the outcome of its unit. -/
theorem after_eq_map {order : List Nat} (h : order.Perm (List.range decls.length)) :
    after o decls order = decls.map (Decl.compile o) := by
  have hafter : Holds o decls (order.reverse ++ []) (after o decls order) := holds_blank.foldl order
  refine List.ext_getElem? fun i => ?_
  rw [hafter i, List.getElem?_map]
  cases hd : decls[i]? with
  | none => rfl
  | some d =>
    have hlt : i < decls.length := (List.getElem?_eq_some_iff.1 hd).1
    have hmem : i ∈ order.reverse ++ [] := by
      rw [List.append_nil, List.mem_reverse, h.mem_iff]
      exact List.mem_range.2 hlt
    rw [Option.map_some, Option.map_some, if_pos hmem]

end Board

/-! ### Sinks -/

namespace Sink

/-- The sink takes so many writes. -/
def Takes (s : Sink) (n : Nat) : Prop := ∀ k, s.budget = some k → n ≤ k

/-- Of so many writes the sink takes the first `k`, and fails at the next. -/
def FailsAfter (s : Sink) (n k : Nat) : Prop := s.budget = some k ∧ k < n

theorem write_of_takes {s : Sink} {chunks : List Chunk} (h : s.Takes chunks.length) :
    s.write chunks = (String.join (chunks.map Chunk.text), none) := by
  unfold write
  cases hbudget : s.budget with
  | none => simp
  | some k => simp [List.take_of_length_le (h k hbudget)]

theorem write_of_failsAfter {s : Sink} {chunks : List Chunk} {k : Nat} {c : Chunk} (h : s.FailsAfter chunks.length k)
    (hc : chunks[k]? = some c) :
    s.write chunks = (String.join ((chunks.map Chunk.text).take k), some ⟨c.owner, s.reason⟩) := by
  have hlength : (chunks.take k).length = k := List.length_take_of_le (Nat.le_of_lt h.2)
  have hhead : (chunks.drop k).head? = some c := by rw [List.head?_drop, hc]
  simp only [write, h.1, Option.map_some, Option.getD_some, hlength, hhead, List.map_take]

end Sink

/-! ### Places for frame tables -/

namespace TableSink

/-- None of the tables is an error. -/
def Takes (s : TableSink) (tables : List String) : Prop :=
  ∀ pre table post, tables = pre ++ table :: post → (s.receive pre table).2 = none

/-- Each of the tables arrives as it is. -/
def TakesWhole (s : TableSink) (tables : List String) : Prop :=
  ∀ pre table post, tables = pre ++ table :: post → s.receive pre table = (table, none)

/-- One of the tables is an error for the given reason, and none before it is. -/
def FailsFor (s : TableSink) (tables : List String) (reason : String) : Prop :=
  ∃ pre table post, tables = pre ++ table :: post ∧ s.Takes pre ∧ (s.receive pre table).2 = some reason

variable {s : TableSink} {tables : List String} {table : String}

theorem takes_nil (s : TableSink) : s.Takes [] := fun pre table post hsplit => absurd hsplit (by simp)

/-- What holds at each table holds at those behind the first, for the place behind it. -/
theorem forall_split_tail {P : List String → String → Prop}
    (h : ∀ pre next post, table :: tables = pre ++ next :: post → P pre next) :
    ∀ pre next post, tables = pre ++ next :: post → P (table :: pre) next := fun pre next post hsplit =>
  h (table :: pre) next post (congrArg (table :: ·) hsplit)

/-- A table that is no error is followed by the others. -/
theorem write_cons_of_none (h : (s.receive [] table).2 = none) :
    s.write (table :: tables) =
      ((s.receive [] table).1 ++ ((s.behind table).write tables).1, ((s.behind table).write tables).2) := by
  rcases hreceive : s.receive [] table with ⟨text, failure⟩
  rw [hreceive] at h
  cases h
  simp only [write, hreceive]

theorem write_cons_of_some {reason : String} (h : (s.receive [] table).2 = some reason) :
    (s.write (table :: tables)).2 = some reason := by
  rcases hreceive : s.receive [] table with ⟨text, failure⟩
  rw [hreceive] at h
  cases h
  simp only [write, hreceive]

theorem write_of_takes (h : s.Takes tables) : (s.write tables).2 = none := by
  induction tables generalizing s with
  | nil => rfl
  | cons table tables ih =>
    rw [write_cons_of_none (h [] table tables rfl)]
    exact ih (forall_split_tail h)

/-- The first error ends the writing, whatever the place would say of the tables behind it. -/
theorem write_of_failsFor {reason : String} (h : s.FailsFor tables reason) : (s.write tables).2 = some reason := by
  obtain ⟨pre, table, post, rfl, hpre, hreason⟩ := h
  induction pre generalizing s with
  | nil => exact write_cons_of_some hreason
  | cons first pre ih =>
    rw [List.cons_append, write_cons_of_none (hpre [] first pre rfl)]
    exact ih (forall_split_tail hpre) hreason

theorem write_of_takesWhole (h : s.TakesWhole tables) : s.write tables = (String.join tables, none) := by
  induction tables generalizing s with
  | nil => rfl
  | cons table tables ih =>
    have hfirst : s.receive [] table = (table, none) := h [] table tables rfl
    have hrest : (s.behind table).TakesWhole tables := forall_split_tail h
    rw [write_cons_of_none (congrArg Prod.snd hfirst), ih hrest, hfirst, String.join_cons]

end TableSink

/-! ### What a compilation writes -/

/-- The frame tables of the units that could be analysed. -/
def File.tables (o : CompileOptions) (f : File) : List String :=
  (f.decls.filterMap fun d => (d.analyze o.maxJoins).toOption).map AnalysisResult.table

/-- The line that the output starts with. -/
def Layout.preamble (l : Layout) : String := "#include <" ++ l.filled.header ++ ">\n\n"

namespace Board

variable {o : CompileOptions}

theorem tables_map_compile (f : File) : tables (f.decls.map (Decl.compile o)) = f.tables o := by
  simp only [tables, File.tables, List.filterMap_map, List.map_filterMap, Function.comp_def, Decl.result_compile]

/-- If no unit failed, there is a text for each function, in order. -/
theorem exists_texts {decls : List Decl} (h : ∀ d ∈ decls, d.Succeeds o) (name : String) :
    ∃ texts, List.Forall₂ (FunctionDecl.Gives o) (File.functions ⟨name, decls⟩) texts ∧
      Board.texts decls (decls.map (Decl.compile o)) =
        ((File.functions ⟨name, decls⟩).map FunctionDecl.name).zip texts := by
  induction decls with
  | nil => exact ⟨[], .nil, rfl⟩
  | cons d decls ih =>
    obtain ⟨texts, hgives, htexts⟩ := ih fun d' hd' => h d' (List.mem_cons_of_mem d hd')
    cases d with
    | type t =>
      have hcons : Board.texts (.type t :: decls) ((Decl.type t :: decls).map (Decl.compile o)) =
          Board.texts decls (decls.map (Decl.compile o)) := by
        simp only [Board.texts, List.map_cons, List.zip_cons_cons, List.filterMap_cons, Decl.text_compile_type,
          Option.map_none]
      exact ⟨texts, hgives, hcons.trans htexts⟩
    | function g =>
      obtain ⟨text, hgive, htext⟩ := Decl.exists_text (h _ List.mem_cons_self)
      have hcons : Board.texts (.function g :: decls) ((Decl.function g :: decls).map (Decl.compile o)) =
          (g.name, text) :: Board.texts decls (decls.map (Decl.compile o)) := by
        simp only [Board.texts, List.map_cons, List.zip_cons_cons, List.filterMap_cons, htext, Option.map_some]
        rfl
      exact ⟨text :: texts, .cons hgive hgives, hcons.trans (congrArg ((g.name, text) :: ·) htexts)⟩

/-- The error on the board is that of the first unit that failed. -/
theorem firstError?_eq_some {decls : List Decl} {e : CompileError} :
    firstError? (decls.map (Decl.compile o)) = some e ↔
      ∃ pre d post, decls = pre ++ d :: post ∧ (∀ d' ∈ pre, d'.Succeeds o) ∧ d.FailsWith o e := by
  rw [firstError?, List.findSome?_map, List.findSome?_eq_some_iff]
  constructor
  · rintro ⟨pre, d, post, hsplit, herror, hpre⟩
    exact ⟨pre, d, post, hsplit, fun d' hd' => Decl.succeeds_iff.2 (hpre d' hd'), Decl.failsWith_of_error herror⟩
  · rintro ⟨pre, d, post, hsplit, hpre, hfails⟩
    exact ⟨pre, d, post, hsplit, hfails.error_compile, fun d' hd' => Decl.succeeds_iff.1 (hpre d' hd')⟩

theorem firstError?_eq_none {decls : List Decl} :
    firstError? (decls.map (Decl.compile o)) = none ↔ ∀ d ∈ decls, d.Succeeds o := by
  rw [firstError?, List.findSome?_map, List.findSome?_eq_none_iff]
  exact forall₂_congr fun d _ => Decl.succeeds_iff.symm

section Publish

variable {decls : List Decl} {frames : Option TableSink} {sink : Sink} {b : Board}

/-- If the tables cannot be written, that is the error and nothing goes to the sink. -/
theorem publish_of_lost {s : TableSink} {reason : String} (h : (s.write b.tables).2 = some reason) :
    (b.publish o decls (some s) sink).output = "" ∧
      (b.publish o decls (some s) sink).error = some (.frames reason) := by
  simp only [publish, h, and_self]

theorem publish_of_taken (o : CompileOptions) (decls : List Decl) (sink : Sink)
    (hframes : ∀ s ∈ frames, (s.write b.tables).2 = none) :
    ∃ tables, (∀ s ∈ frames, tables = (s.write b.tables).1) ∧
      (∀ e, b.firstError? = some e → b.publish o decls frames sink = ⟨"", tables, some e⟩) ∧
      (b.firstError? = none → b.publish o decls frames sink =
        ⟨(sink.write (fileChunks o.layout (b.texts decls))).1, tables,
          (sink.write (fileChunks o.layout (b.texts decls))).2.map .output⟩) := by
  cases frames with
  | none =>
    refine ⟨"", nofun, fun e he => ?_, fun he => ?_⟩
    · simp only [publish, he]
    · simp only [publish, he]
  | some s =>
    have hwrite := hframes s rfl
    refine ⟨(s.write b.tables).1, fun s' hs' => by rw [Option.mem_some.1 hs'], fun e he => ?_, fun he => ?_⟩
    · simp only [publish, hwrite, he]
    · simp only [publish, hwrite, he]

end Publish

end Board

/-! ### Compilations -/

/-- What a compilation of a file comes to. -/
structure Compilation.IsOf (f : File) (o : CompileOptions) (frames : Option TableSink) (sink : Sink) (c : Compilation) :
    Prop where
  /-- An error in the frame tables fails the compilation before anything else is written. -/
  tables_lost : ∀ s ∈ frames, ∀ reason, s.FailsFor (f.tables o) reason →
    c.output = "" ∧ c.error = some (.frames reason)
  /-- The frame tables are those of all units that could be analysed, in order, whatever else fails. -/
  tables_written : ∀ s ∈ frames, s.TakesWhole (f.tables o) → c.frames = String.join (f.tables o)
  /-- If a unit fails, nothing is written. -/
  nothing_written : (∃ d ∈ f.decls, ¬ d.Succeeds o) → c.output = ""
  /-- If a unit fails and no frame table does, the error is that of the first unit that fails. -/
  first_failure : (∃ d ∈ f.decls, ¬ d.Succeeds o) → (∀ s ∈ frames, s.Takes (f.tables o)) →
    ∃ pre d post e, f.decls = pre ++ d :: post ∧ (∀ d' ∈ pre, d'.Succeeds o) ∧ d.FailsWith o e ∧ c.error = some e
  /-- If no unit fails, the include line and the text of each function are written in order, as far as the sink goes;
  if it does not go all the way, the error names the function whose text was next. -/
  all_written : (∀ d ∈ f.decls, d.Succeeds o) → (∀ s ∈ frames, s.Takes (f.tables o)) →
    ∃ texts, List.Forall₂ (FunctionDecl.Gives o) f.functions texts ∧
      (sink.Takes (texts.length + 1) →
        c.output = o.layout.preamble ++ String.join (texts.map (· ++ "\n")) ∧ c.error = none) ∧
      ∀ k, sink.FailsAfter (texts.length + 1) k →
        c.output = String.join ((o.layout.preamble :: texts.map (· ++ "\n")).take k) ∧
          ∃ owner e, ("preamble" :: f.functions.map FunctionDecl.name)[k]? = some owner ∧
            c.error = some (.output e) ∧ e.message = "writing " ++ owner ++ ": " ++ sink.reason

section FileChunks

variable {names texts : List String} (l : Layout) (h : names.length = texts.length)

include h

theorem text_fileChunks :
    (fileChunks l (names.zip texts)).map Chunk.text = l.preamble :: texts.map (· ++ "\n") := by
  have htexts : (names.zip texts).map Prod.snd = texts := List.map_snd_zip (Nat.le_of_eq h.symm)
  have hmap : (names.zip texts).map (fun p => p.2 ++ "\n") = texts.map (· ++ "\n") := by
    rw [← htexts, List.map_map, htexts]
    rfl
  simpa [fileChunks, Layout.preamble, Function.comp_def] using hmap

theorem owner_fileChunks :
    (fileChunks l (names.zip texts)).map (fun c => c.owner.getD "preamble") = "preamble" :: names := by
  have hnames : (names.zip texts).map Prod.fst = names := List.map_fst_zip (Nat.le_of_eq h)
  simpa [fileChunks, Function.comp_def] using hnames

theorem length_fileChunks : (fileChunks l (names.zip texts)).length = texts.length + 1 := by
  simpa using congrArg List.length (text_fileChunks l h)

/-- What a sink takes of a file, and what it says when it fails. -/
theorem write_fileChunks (sink : Sink) :
    (sink.Takes (texts.length + 1) → sink.write (fileChunks l (names.zip texts)) =
      (l.preamble ++ String.join (texts.map (· ++ "\n")), none)) ∧
    ∀ k, sink.FailsAfter (texts.length + 1) k →
      ∃ owner e, ("preamble" :: names)[k]? = some owner ∧ e.message = "writing " ++ owner ++ ": " ++ sink.reason ∧
        sink.write (fileChunks l (names.zip texts)) =
          (String.join ((l.preamble :: texts.map (· ++ "\n")).take k), some e) := by
  have hlength := length_fileChunks l h
  rw [← hlength]
  refine ⟨fun htakes => ?_, fun k hfails => ?_⟩
  · rw [Sink.write_of_takes htakes, text_fileChunks l h, String.join_cons]
  · obtain ⟨c, hc⟩ : ∃ c, (fileChunks l (names.zip texts))[k]? = some c := ⟨_, List.getElem?_eq_getElem hfails.2⟩
    refine ⟨c.owner.getD "preamble", ⟨c.owner, sink.reason⟩, ?_, rfl, ?_⟩
    · rw [← owner_fileChunks l h, List.getElem?_map, hc]
      rfl
    · rw [Sink.write_of_failsAfter hfails hc, text_fileChunks l h]

end FileChunks

/-- What is written of a board on which all units are done. -/
theorem isOf_publish (f : File) (o : CompileOptions) (frames : Option TableSink) (sink : Sink) :
    (Board.publish o f.decls frames sink (f.decls.map (Decl.compile o))).IsOf f o frames sink := by
  have htables : Board.tables (f.decls.map (Decl.compile o)) = f.tables o := Board.tables_map_compile f
  have htaken : (∀ s ∈ frames, s.Takes (f.tables o)) →
      ∀ s ∈ frames, (s.write (Board.tables (f.decls.map (Decl.compile o)))).2 = none := by
    intro htakes s hs
    rw [htables]
    exact TableSink.write_of_takes (htakes s hs)
  have hfailure : (∃ d ∈ f.decls, ¬ d.Succeeds o) →
      ∃ e, Board.firstError? (f.decls.map (Decl.compile o)) = some e := by
    rintro ⟨d, hd, hfails⟩
    refine Option.ne_none_iff_exists'.1 fun hnone => hfails ?_
    exact Board.firstError?_eq_none.1 hnone d hd
  constructor
  case tables_lost =>
    intro s hs reason hfails
    rw [Option.mem_def.1 hs]
    refine Board.publish_of_lost ?_
    rw [htables]
    exact TableSink.write_of_failsFor hfails
  case tables_written =>
    intro s hs hwhole
    have hwrite : s.write (Board.tables (f.decls.map (Decl.compile o))) = (String.join (f.tables o), none) := by
      rw [htables]
      exact TableSink.write_of_takesWhole hwhole
    have hframes : ∀ s' ∈ frames, (s'.write (Board.tables (f.decls.map (Decl.compile o)))).2 = none := by
      intro s' hs'
      rw [Option.mem_unique hs' hs, hwrite]
    obtain ⟨tables, harrived, hfailed, hdone⟩ := Board.publish_of_taken o f.decls sink hframes
    have hjoin : tables = String.join (f.tables o) := (harrived s hs).trans (by rw [hwrite])
    cases he : Board.firstError? (f.decls.map (Decl.compile o)) with
    | none => rw [hdone he, hjoin]
    | some e => rw [hfailed e he, hjoin]
  case nothing_written =>
    intro hunit
    obtain ⟨e, he⟩ := hfailure hunit
    by_cases hframes : ∀ s ∈ frames, (s.write (Board.tables (f.decls.map (Decl.compile o)))).2 = none
    · obtain ⟨tables, -, hfailed, -⟩ := Board.publish_of_taken o f.decls sink hframes
      rw [hfailed e he]
    · obtain ⟨s, hs, hnot⟩ : ∃ s ∈ frames, (s.write (Board.tables (f.decls.map (Decl.compile o)))).2 ≠ none := by
        simpa only [not_forall, exists_prop] using hframes
      obtain ⟨reason, hreason⟩ := Option.ne_none_iff_exists'.1 hnot
      rw [Option.mem_def.1 hs]
      exact (Board.publish_of_lost hreason).1
  case first_failure =>
    intro hunit htakes
    obtain ⟨e, he⟩ := hfailure hunit
    obtain ⟨tables, -, hfailed, -⟩ := Board.publish_of_taken o f.decls sink (htaken htakes)
    obtain ⟨pre, d, post, hsplit, hpre, hd⟩ := Board.firstError?_eq_some.1 he
    exact ⟨pre, d, post, e, hsplit, hpre, hd, by rw [hfailed e he]⟩
  case all_written =>
    intro hunits htakes
    have he := Board.firstError?_eq_none.2 hunits
    obtain ⟨tables, -, -, hdone⟩ := Board.publish_of_taken o f.decls sink (htaken htakes)
    obtain ⟨texts, hgives, htexts⟩ := Board.exists_texts hunits f.name
    have hnames : (f.functions.map FunctionDecl.name).length = texts.length := by
      rw [List.length_map, hgives.length_eq]
    obtain ⟨hwhole, hfails⟩ := write_fileChunks o.layout hnames sink
    rw [hdone he, htexts]
    refine ⟨texts, hgives, fun hsink => ?_, fun k hsink => ?_⟩
    · have hwrite := hwhole hsink
      exact ⟨congrArg Prod.fst hwrite, congrArg (fun w => w.2.map CompileError.output) hwrite⟩
    · obtain ⟨owner, e, howner, hmessage, hwrite⟩ := hfails k hsink
      have herror := congrArg (fun w => w.2.map CompileError.output) hwrite
      exact ⟨congrArg Prod.fst hwrite, owner, e, howner, herror, hmessage⟩

theorem compileIn_eq_publish {f : File} {order : List Nat} (horder : order.Perm (List.range f.decls.length))
    (o : CompileOptions) (frames : Option TableSink) (sink : Sink) :
    f.compileIn order o frames sink = Board.publish o f.decls frames sink (f.decls.map (Decl.compile o)) := by
  rw [File.compileIn, Board.after_eq_map horder]

/-- **Compiling is atomic and ordered.**  Whatever the order in which the units are done, a compilation comes to the
same: a file is written in the order of its declarations, as a whole or not at all, unless the sink fails; and the error
is that of the first unit that failed, unless the frame tables are lost before. -/
theorem compile_atomic_and_ordered (f : File) (o : CompileOptions) (frames : Option TableSink) (sink : Sink)
    (order : List Nat) (horder : order.Perm (List.range f.decls.length)) :
    f.compileIn order o frames sink = f.compile o frames sink ∧
      (f.compileIn order o frames sink).IsOf f o frames sink := by
  have hany := compileIn_eq_publish horder o frames sink
  have hfirst : f.compile o frames sink = _ := compileIn_eq_publish (.refl _) o frames sink
  refine ⟨hany.trans hfirst.symm, ?_⟩
  rw [hany]
  exact isOf_publish f o frames sink

/-- A function that can be analysed and not printed. -/
def pairDecl : FunctionDecl where
  name := "pair"
  returns := [.int, .int]
  body := some []

theorem analyze_pairDecl : pairDecl.analyze 0 = .ok ⟨"pair", .ofBlock none, []⟩ := by
  have hrun : (pairDecl.task 0 none).run pairDecl.initialFrame = .ok (.start 0 pairDecl.initialFrame) :=
    Walk.run_of_none rfl
  exact bind_eq_ok.2 ⟨some pairDecl.initialFrame, rfl, bind_eq_ok.2 ⟨_, hrun, rfl⟩⟩

theorem pairDecl_failsWith :
    (Decl.function pairDecl).FailsWith {} (.emission (.unsupported ⟨"pair", .multipleReturns⟩)) :=
  .emission analyze_pairDecl rfl

/-- The function before one that does nothing. -/
def pairFile : File := ⟨"in.yaml", [.function pairDecl, .function { name := "rest" }]⟩

theorem compile_atomic_and_ordered_pairFile :
    [1, 0].Perm (List.range pairFile.decls.length) ∧ (∃ d ∈ pairFile.decls, ¬ d.Succeeds {}) ∧
    (pairFile.compileIn [1, 0] {} (some .whole) {}).output = "" ∧
    (pairFile.compileIn [1, 0] {} (some .whole) {}).frames = String.join (pairFile.tables {}) ∧
    (pairFile.compileIn [1, 0] {} (some .whole) {}).error =
      some (.emission (.unsupported ⟨"pair", .multipleReturns⟩)) := by
  have horder : [1, 0].Perm (List.range pairFile.decls.length) := by decide
  have hfails : ∃ d ∈ pairFile.decls, ¬ d.Succeeds {} := ⟨_, List.mem_cons_self, fun h => h _ pairDecl_failsWith⟩
  have hof := (compile_atomic_and_ordered pairFile {} (some .whole) {} [1, 0] horder).2
  refine ⟨horder, hfails, hof.nothing_written hfails, hof.tables_written _ rfl fun _ _ _ _ => rfl, ?_⟩
  obtain ⟨pre, d, post, e, hsplit, hpre, hd, herror⟩ := hof.first_failure hfails fun s hs => by
    rw [← Option.mem_some.1 hs]
    exact fun _ _ _ _ => rfl
  cases pre with
  | nil =>
    cases hsplit
    have he : some e = some _ := hd.error_compile.symm.trans pairDecl_failsWith.error_compile
    rw [herror, he]
  | cons d' pre =>
    have hhead : Decl.function pairDecl = d' := (List.cons.inj hsplit).1
    exact absurd (hhead ▸ pairDecl_failsWith) (hpre d' List.mem_cons_self _)

/-- If no table can be written either, the failure of the unit is not the error. -/
theorem lost_tables_hide_failed_unit :
    (Decl.function pairDecl).FailsWith {} (.emission (.unsupported ⟨"pair", .multipleReturns⟩)) ∧
    (File.compile ⟨"in.yaml", [.function pairDecl]⟩ {} (some (.closed "disk full")) {}).error =
      some (.frames "disk full") ∧
    ¬ ∃ d ∈ [Decl.function pairDecl], ∃ e, d.FailsWith {} e ∧
      (File.compile ⟨"in.yaml", [.function pairDecl]⟩ {} (some (.closed "disk full")) {}).error = some e := by
  have hanalyze : (Decl.function pairDecl).analyze 0 = .ok ⟨"pair", .ofBlock none, []⟩ := analyze_pairDecl
  have htables : File.tables {} ⟨"in.yaml", [.function pairDecl]⟩ =
      [AnalysisResult.table ⟨"pair", .ofBlock none, []⟩] := by
    simp only [File.tables, List.filterMap_cons, List.filterMap_nil, hanalyze]
    rfl
  have hfails : (TableSink.closed "disk full").FailsFor (File.tables {} ⟨"in.yaml", [.function pairDecl]⟩)
      "disk full" := ⟨[], _, [], htables, TableSink.takes_nil _, rfl⟩
  have hlost : (File.compile ⟨"in.yaml", [.function pairDecl]⟩ {} (some (.closed "disk full")) {}).error =
      some (.frames "disk full") := by
    have hof := isOf_publish ⟨"in.yaml", [.function pairDecl]⟩ {} (some (.closed "disk full")) {}
    have hpublish := compileIn_eq_publish (f := ⟨"in.yaml", [.function pairDecl]⟩) (.refl _) {}
      (some (.closed "disk full")) {}
    rw [File.compile, hpublish]
    exact (hof.tables_lost _ rfl _ hfails).2
  refine ⟨pairDecl_failsWith, hlost, ?_⟩
  rintro ⟨d, -, e, hfails, herror⟩
  cases hlost.symm.trans herror
  cases hfails

end Narrowing
