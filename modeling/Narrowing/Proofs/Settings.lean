import Mathlib.Data.List.Basic
import Mathlib.Data.List.Induction
import Narrowing.Command.Run
import Narrowing.Proofs.Selection

/-!
# How settings are merged

Files of settings stand in a chain, from the root of the file system down to a directory.  Of the files that define a
setting, the nearest one decides.  The list of integer kinds is built up along the chain instead: it starts as the
default list, and each file that has a list puts it in place of the one so far, which it may keep by `inherit`.  All this
holds whatever the decoder is that says what a file defines.

The default list has no `inherit`, and a list that is put in place of another brings none in, so at the end of the chain
none is left.  That is why loading never ends in a fault.  What is loaded is a list of names without repetition, at least
one, and it makes a selector unless a name is that of no kind.  Of the numbers only the lower ends are checked: with an
indentation that there is no room for, the options cannot be built although the selector can.
-/

namespace Narrowing

/-! ### One setting -/

/-- What the setting of a group is after the files of a chain, the nearest file last: its value in the last file that
defines it, or what it was at first. -/
def IsNearest {α : Type} (group setting : String) (value : Settings → α) (files : List SettingsFile) (start v : α) :
    Prop :=
  (∃ farther f nearer, files = farther ++ f :: nearer ∧ f.defines group setting ∧ v = value f.values ∧
    ∀ g ∈ nearer, ¬ g.defines group setting) ∨
    (∀ f ∈ files, ¬ f.defines group setting) ∧ v = start

namespace IsNearest

variable {α : Type} {group setting : String} {value : Settings → α} {files : List SettingsFile} {start v : α}

theorem nil : IsNearest group setting value [] start start := .inr ⟨nofun, rfl⟩

/-- One more file, nearer than all the others. -/
theorem concat (h : IsNearest group setting value files start v) (f : SettingsFile) :
    IsNearest group setting value (files ++ [f]) start (if f.defines group setting then value f.values else v) := by
  by_cases hf : f.defines group setting
  · rw [if_pos hf]
    exact .inl ⟨files, f, [], rfl, hf, rfl, nofun⟩
  · rw [if_neg hf]
    have hlast : ∀ g ∈ [f], ¬ g.defines group setting := List.forall_mem_singleton.2 hf
    rcases h with ⟨farther, g, nearer, rfl, hg, hv, hnearer⟩ | ⟨hnone, rfl⟩
    · exact .inl ⟨farther, g, nearer ++ [f], by simp, hg, hv, List.forall_mem_append.2 ⟨hnearer, hlast⟩⟩
    · exact .inr ⟨List.forall_mem_append.2 ⟨hnone, hlast⟩, rfl⟩

end IsNearest

/-! ### The list of integer kinds -/

/-- `list` is `own` with `soFar` in place of each `inherit`. -/
inductive Splices (soFar : List String) : (own list : List String) → Prop
  | nil : Splices soFar [] []
  | word {w : String} {own list : List String} : w ≠ "inherit" → Splices soFar own list →
      Splices soFar (w :: own) (w :: list)
  | inherit {own list : List String} : Splices soFar own list → Splices soFar ("inherit" :: own) (soFar ++ list)

/-- The list that the files of a chain build up, the nearest file last. -/
inductive BuildsUp : List SettingsFile → List String → Prop
  | start : BuildsUp [] Settings.default.integers
  | skip {files : List SettingsFile} {f : SettingsFile} {list : List String} : BuildsUp files list →
      ¬ f.defines "target" "integers" → BuildsUp (files ++ [f]) list
  | replace {files : List SettingsFile} {f : SettingsFile} {soFar list : List String} : BuildsUp files soFar →
      f.defines "target" "integers" → Splices soFar f.values.integers list → BuildsUp (files ++ [f]) list

theorem splices_splice (soFar own : List String) : Splices soFar own (Settings.splice soFar own) := by
  induction own with
  | nil => exact .nil
  | cons w own ih =>
    have hcons : Settings.splice soFar (w :: own) =
        (if w == Settings.inheritWord then soFar else [w]) ++ Settings.splice soFar own := List.flatMap_cons
    rw [hcons]
    by_cases hw : w = "inherit"
    · subst hw
      exact .inherit ih
    · have hbeq : (w == Settings.inheritWord) = false := beq_eq_false_iff_ne.2 hw
      rw [hbeq]
      exact .word hw ih

theorem Splices.inherit_not_mem {soFar own list : List String} (h : Splices soFar own list)
    (hsoFar : "inherit" ∉ soFar) : "inherit" ∉ list := by
  induction h with
  | nil => exact List.not_mem_nil
  | word hw _ ih => exact List.not_mem_cons_of_ne_of_not_mem (Ne.symm hw) ih
  | inherit _ ih => exact List.not_mem_append hsoFar ih

theorem BuildsUp.inherit_not_mem {files : List SettingsFile} {list : List String} (h : BuildsUp files list) :
    "inherit" ∉ list := by
  induction h with
  | start => decide
  | skip _ _ ih => exact ih
  | replace _ _ hsplices ih => exact hsplices.inherit_not_mem ih

/-- `out` holds the elements of `l`, each once, in the order of their first occurrences. -/
structure IsFirstOccurrences (l out : List String) : Prop where
  mem_iff : ∀ w, w ∈ out ↔ w ∈ l
  ordered : out.Pairwise fun v w => l.idxOf v < l.idxOf w

theorem IsFirstOccurrences.nodup {l out : List String} (h : IsFirstOccurrences l out) : out.Nodup := by
  refine h.ordered.imp fun {v w} hlt => ?_
  rintro rfl
  exact Nat.lt_irrefl _ hlt

theorem IsFirstOccurrences.ne_nil {l out : List String} (h : IsFirstOccurrences l out) (hl : l ≠ []) : out ≠ [] := by
  obtain ⟨w, hw⟩ := List.exists_mem_of_ne_nil l hl
  exact List.ne_nil_of_mem ((h.mem_iff w).2 hw)

/-- Taking out an element keeps the order of the first occurrences of the others. -/
theorem idxOf_lt_of_filter {a v w : String} {l : List String} (hv : v ≠ a) (hw : w ≠ a)
    (h : (l.filter fun b => !b == a).idxOf v < (l.filter fun b => !b == a).idxOf w) : l.idxOf v < l.idxOf w := by
  induction l with
  | nil => exact h
  | cons b l ih =>
    by_cases hb : b = a
    · subst hb
      rw [List.filter_cons_of_neg (by simp)] at h
      rw [List.idxOf_cons_ne l (Ne.symm hv), List.idxOf_cons_ne l (Ne.symm hw)]
      exact Nat.succ_lt_succ (ih h)
    · rw [List.filter_cons_of_pos (by simpa using hb)] at h
      by_cases hbw : b = w
      · subst hbw
        rw [List.idxOf_cons_self] at h
        exact absurd h (Nat.not_lt_zero _)
      · by_cases hbv : b = v
        · subst hbv
          rw [List.idxOf_cons_self, List.idxOf_cons_ne l hbw]
          exact Nat.succ_pos _
        · rw [List.idxOf_cons_ne _ hbv, List.idxOf_cons_ne _ hbw] at h
          rw [List.idxOf_cons_ne l hbv, List.idxOf_cons_ne l hbw]
          exact Nat.succ_lt_succ (ih (Nat.lt_of_succ_lt_succ h))

theorem isFirstOccurrences_eraseDups (l : List String) : IsFirstOccurrences l l.eraseDups := by
  refine ⟨fun w => List.mem_eraseDups, ?_⟩
  -- the rest is taken from a filtered tail, so the induction is on the length
  induction hlen : l.length using Nat.strong_induction_on generalizing l with
  | _ n ih =>
    cases l with
    | nil => exact List.Pairwise.nil
    | cons a l =>
      have hshorter : (l.filter fun b => !b == a).length < n := by
        rw [← hlen]
        exact Nat.lt_succ_of_le (List.length_filter_le _ l)
      have hne : ∀ w ∈ (l.filter fun b => !b == a).eraseDups, w ≠ a := by
        intro w hw
        simpa using (List.mem_filter.1 (List.mem_eraseDups.1 hw)).2
      rw [List.eraseDups_cons]
      refine List.pairwise_cons.2 ⟨fun w hw => ?_, ?_⟩
      · rw [List.idxOf_cons_self, List.idxOf_cons_ne l (Ne.symm (hne w hw))]
        exact Nat.succ_pos _
      · refine (ih _ hshorter _ rfl).imp_of_mem fun {v w} hv hw hlt => ?_
        rw [List.idxOf_cons_ne l (Ne.symm (hne v hv)), List.idxOf_cons_ne l (Ne.symm (hne w hw))]
        exact Nat.succ_lt_succ (idxOf_lt_of_filter (hne v hv) (hne w hw) hlt)

/-! ### All settings -/

/-- `s` is what the files of a chain make of the default settings, the nearest file last. -/
structure IsMerged (files : List SettingsFile) (s : Settings) : Prop where
  header : IsNearest "target" "include" Settings.header files Settings.default.header s.header
  indent : IsNearest "target" "indent" Settings.indent files Settings.default.indent s.indent
  maxJoins : IsNearest "analysis" "max_joins" Settings.maxJoins files Settings.default.maxJoins s.maxJoins
  verbose : IsNearest "output" "verbose" Settings.verbose files Settings.default.verbose s.verbose
  integers : BuildsUp files s.integers

namespace IsMerged

variable {files : List SettingsFile} {s : Settings}

theorem nil : IsMerged [] Settings.default := ⟨.nil, .nil, .nil, .nil, .start⟩

/-- A file that is nearer than the others overrides what they make. -/
theorem concat (h : IsMerged files s) (f : SettingsFile) : IsMerged (files ++ [f]) (s.override f) := by
  refine ⟨h.header.concat f, h.indent.concat f, h.maxJoins.concat f, h.verbose.concat f, ?_⟩
  show BuildsUp (files ++ [f])
    (if f.defines "target" "integers" then Settings.splice s.integers f.values.integers else s.integers)
  by_cases hf : f.defines "target" "integers"
  · rw [if_pos hf]
    exact .replace h.integers hf (splices_splice s.integers f.values.integers)
  · rw [if_neg hf]
    exact .skip h.integers hf

end IsMerged

theorem isMerged_foldl (files : List SettingsFile) :
    IsMerged files (files.foldl Settings.override Settings.default) := by
  induction files using List.reverseRecOn with
  | nil => exact .nil
  | append_singleton files f ih =>
    rw [List.foldl_append]
    exact ih.concat f

namespace Settings

/-- What is checked of settings without `inherit`, in the order of the checks. -/
theorem finish_eq {s : Settings} (h : "inherit" ∉ s.integers) :
    s.finish =
      if s.integers = [] then .error .noIntegers
      else if s.indent < 1 then .error .indentTooSmall
      else if s.maxJoins < 1 then .error .joinsTooSmall
      else .ok { s with integers := s.integers.eraseDups } := by
  have hdistinct : distinct s.integers = .ok s.integers.eraseDups := by
    rw [distinct, if_neg]
    simpa [inheritWord] using h
  have hempty : s.integers.eraseDups.isEmpty = true ↔ s.integers = [] := by
    rw [List.isEmpty_iff, List.eq_nil_iff_forall_not_mem, List.eq_nil_iff_forall_not_mem]
    simp only [List.mem_eraseDups]
  simp only [finish, hdistinct, hempty]

end Settings

/-! ### Options -/

/-- The name is that of a kind. -/
def IsKindName (name : String) : Prop := ∃ k : Kind, k.name = name

/-- The first of some names that is that of no kind. -/
def IsFirstUnknown (names : List String) (name : String) : Prop :=
  ∃ before after, names = before ++ name :: after ∧ (∀ n ∈ before, IsKindName n) ∧ ¬ IsKindName name

theorem kindNamed_name (k : Kind) : kindNamed k.name = .ok k := by
  obtain ⟨w, signed⟩ := k
  cases w <;> cases signed <;> rfl

theorem kindNamed_of_not_isKindName {name : String} (h : ¬ IsKindName name) :
    kindNamed name = .error (.unknownKind name) := by
  have hnone : Kind.ofName? name = none := by
    refine List.find?_eq_none.2 fun k _ hk => h ⟨k, ?_⟩
    simpa using hk
  rw [kindNamed, hnone]

/-- Names are looked up until one is unknown. -/
theorem mapM_kindNamed (names : List String) :
    (∃ name, IsFirstUnknown names name ∧ names.mapM kindNamed = .error (.unknownKind name)) ∨
      ∃ kinds : List Kind, names = kinds.map Kind.name := by
  induction names with
  | nil => exact .inr ⟨[], rfl⟩
  | cons n names ih =>
    rw [List.mapM_cons]
    by_cases hn : IsKindName n
    · obtain ⟨k, rfl⟩ := hn
      rcases ih with ⟨name, ⟨before, after, rfl, hbefore, hname⟩, herror⟩ | ⟨kinds, rfl⟩
      · have hall : ∀ n ∈ k.name :: before, IsKindName n := List.forall_mem_cons.2 ⟨⟨k, rfl⟩, hbefore⟩
        refine .inl ⟨name, ⟨k.name :: before, after, rfl, hall, hname⟩, ?_⟩
        rw [kindNamed_name, herror]
        rfl
      · exact .inr ⟨k :: kinds, rfl⟩
    · refine .inl ⟨n, ⟨[], names, rfl, nofun, hn⟩, ?_⟩
      rw [kindNamed_of_not_isKindName hn]
      rfl

/-- The settings have a selector of some kinds, and the options with it if there is room for the indentation. -/
structure SelectsFrom (s : Settings) (kinds : List Kind) (selector : Selector) : Prop where
  named : s.integers = kinds.map Kind.name
  selector_eq : s.selector = .ok selector
  table : IsStableSort selector.table kinds
  options_eq : ∀ room : Nat → Bool, room s.indent.toNat →
    s.options room =
      .ok ⟨selector, s.maxJoins, ⟨s.header, String.ofList (List.replicate s.indent.toNat ' '), s.verbose⟩⟩
  no_room : ∀ room : Nat → Bool, ¬ room s.indent.toNat → s.options room = .error (.fault .textLength)

theorem exists_selectsFrom {s : Settings} {kinds : List Kind} (hnamed : s.integers = kinds.map Kind.name)
    (hne : kinds ≠ []) (hindent : 0 ≤ s.indent) : ∃ selector, SelectsFrom s kinds selector := by
  obtain ⟨selector, hof⟩ := Selector.exists_ofKinds hne
  have hkinds : s.integers.mapM kindNamed = .ok kinds := by
    rw [hnamed]
    exact mapM_map_eq_ok fun k _ => kindNamed_name k
  have hselector : s.selector = .ok selector := by
    rw [Settings.selector, hkinds]
    show (Selector.ofKinds kinds).mapError OptionsError.fault = .ok selector
    rw [hof]
    rfl
  refine ⟨selector, hnamed, hselector, Selector.isStableSort_table hof, fun room hroom => ?_, fun room hroom => ?_⟩
  · rw [Settings.options, hselector, Settings.indentation, if_pos (by simp [hindent, hroom])]
    rfl
  · rw [Settings.options, hselector, Settings.indentation, if_neg (by simp [hroom])]
    rfl

/-- A name that is unknown is an error; otherwise there is a selector. -/
theorem options_of_ne_nil {s : Settings} (hne : s.integers ≠ []) (hindent : 0 ≤ s.indent) :
    (∃ name, IsFirstUnknown s.integers name ∧ ∀ room, s.options room = .error (.unknownKind name)) ∨
      ∃ kinds selector, SelectsFrom s kinds selector := by
  rcases mapM_kindNamed s.integers with ⟨name, hname, herror⟩ | ⟨kinds, hnamed⟩
  · have hselector : s.selector = .error (.unknownKind name) := by
      rw [Settings.selector, herror]
      rfl
    refine .inl ⟨name, hname, fun room => ?_⟩
    rw [Settings.options, hselector]
    rfl
  · have hkinds : kinds ≠ [] := by
      rintro rfl
      exact hne hnamed
    exact .inr ⟨kinds, exists_selectsFrom hnamed hkinds hindent⟩

/-! ### Loading -/

namespace Command

section Chain

variable (decode : SettingsDecoder) (read : FileReader Id)

/-- What the file of settings in a directory says, if there is one. -/
def SetsIn (dir : List String) (found : Option SettingsFile) : Prop :=
  (read (Text.pathText (dir ++ [settingsName])) = .error .missing ∧ found = none) ∨
    ∃ text f, read (Text.pathText (dir ++ [settingsName])) = .ok text ∧ decode text = some (f, []) ∧ found = some f

/-- The files of settings from the root down to a directory, the nearest file last. -/
inductive ChainTo : List String → List SettingsFile → Prop
  | inRoot {found : Option SettingsFile} : SetsIn decode read [] found → ChainTo [] found.toList
  | inside {dir : List String} {name : String} {files : List SettingsFile} {found : Option SettingsFile} :
      ChainTo dir files → SetsIn decode read (dir ++ [name]) found → ChainTo (dir ++ [name]) (files ++ found.toList)

end Chain

theorem ancestors_nil : Text.ancestors [] = [[]] := rfl

theorem ancestors_concat (dir : List String) (name : String) :
    Text.ancestors (dir ++ [name]) = (dir ++ [name]) :: Text.ancestors dir := by
  have hlength : (dir ++ [name]).length = dir.length + 1 := List.length_append
  unfold Text.ancestors
  rw [hlength, List.range_succ_eq_map, List.map_cons, List.map_map]
  refine congrArg₂ List.cons ?_ (List.map_congr_left fun n _ => ?_)
  · exact List.take_of_length_le (Nat.le_of_eq hlength)
  · show (dir ++ [name]).take (dir.length + 1 - (n + 1)) = dir.take (dir.length - n)
    rw [Nat.add_sub_add_right, List.take_append_of_le_length (Nat.sub_le _ _)]

section Loading

variable {decode : SettingsDecoder} {read : FileReader Id}

theorem settingsAt_eq_ok {path text : String} {f : SettingsFile} (h : decode text = some (f, [])) :
    settingsAt decode path text = .ok f := by
  rw [settingsAt, SettingsFile.read, h]

/-- The file in the first directory comes first. -/
theorem collectSettings_cons {dir : List String} {dirs : List (List String)} {found : Option SettingsFile}
    {files : List SettingsFile} (h : SetsIn decode read dir found)
    (hdirs : collectSettings decode read dirs = .ok files) :
    collectSettings decode read (dir :: dirs) = .ok (found.toList ++ files) := by
  rcases h with ⟨hmissing, rfl⟩ | ⟨text, f, hread, hf, rfl⟩
  · simp only [collectSettings, bind, hmissing]
    exact hdirs
  · simp only [collectSettings, bind, hread, settingsAt_eq_ok hf, hdirs]
    rfl

/-- Files are collected from the nearest one up, the other way round. -/
theorem ChainTo.collectSettings_eq {dir : List String} {files : List SettingsFile} (h : ChainTo decode read dir files) :
    collectSettings decode read (Text.ancestors dir) = .ok files.reverse := by
  induction h with
  | @inRoot found hfound =>
    have hcollect := collectSettings_cons hfound (rfl : collectSettings decode read [] = .ok [])
    rw [ancestors_nil, hcollect]
    cases found <;> rfl
  | @inside dir name files found hchain hfound ih =>
    rw [ancestors_concat, collectSettings_cons hfound ih, List.reverse_append]
    cases found <;> rfl

theorem ChainTo.settingsFor_eq {dir : List String} {files : List SettingsFile} (h : ChainTo decode read dir files) :
    settingsFor decode read dir = (Settings.ofChain files).mapError .settings := by
  have hcollect := h.collectSettings_eq
  simp only [settingsFor, bind, hcollect, List.reverse_reverse]
  rfl

theorem settingsFrom_eq {path text : String} {f : SettingsFile} (hread : read path = .ok text)
    (hf : decode text = some (f, [])) :
    settingsFrom decode read path = (Settings.ofChain [f]).mapError .settings := by
  simp only [settingsFrom, bind, hread, settingsAt_eq_ok hf]
  rfl

end Loading

/-- What loading the files of a chain comes to, the nearest file last. -/
structure Settles (files : List SettingsFile) (result : Except LookupError Settings) : Prop where
  /-- The settings are merged, and only then checked and rid of repetitions. -/
  outcome : ∃ merged integers, IsMerged files merged ∧ IsFirstOccurrences merged.integers integers ∧
    result =
      if merged.integers = [] then .error (.settings .noIntegers)
      else if merged.indent < 1 then .error (.settings .indentTooSmall)
      else if merged.maxJoins < 1 then .error (.settings .joinsTooSmall)
      else .ok { merged with integers := integers }
  no_fault : ∀ f, result ≠ .error (.settings (.fault f))
  integers_ne_nil : ∀ s, result = .ok s → s.integers ≠ []
  nodup : ∀ s, result = .ok s → s.integers.Nodup
  inherit_not_mem : ∀ s, result = .ok s → "inherit" ∉ s.integers
  options : ∀ s, result = .ok s →
    (∃ name, IsFirstUnknown s.integers name ∧ ∀ room, s.options room = .error (.unknownKind name)) ∨
      ∃ kinds selector, SelectsFrom s kinds selector

theorem outcome_ofChain (files : List SettingsFile) :
    ∃ merged integers, IsMerged files merged ∧ IsFirstOccurrences merged.integers integers ∧
      (Settings.ofChain files).mapError LookupError.settings =
        if merged.integers = [] then .error (.settings .noIntegers)
        else if merged.indent < 1 then .error (.settings .indentTooSmall)
        else if merged.maxJoins < 1 then .error (.settings .joinsTooSmall)
        else .ok { merged with integers := integers } := by
  have hmerged := isMerged_foldl files
  -- no word `inherit` is left, so the list passes on to the checks
  refine ⟨_, _, hmerged, isFirstOccurrences_eraseDups _, ?_⟩
  rw [Settings.ofChain, Settings.finish_eq hmerged.integers.inherit_not_mem]
  split_ifs <;> rfl

theorem settles_ofChain (files : List SettingsFile) :
    Settles files ((Settings.ofChain files).mapError .settings) := by
  obtain ⟨merged, integers, hmerged, hfirst, hresult⟩ := outcome_ofChain files
  have hok : ∀ s, (Settings.ofChain files).mapError LookupError.settings = .ok s →
      s.integers = integers ∧ integers ≠ [] ∧ 0 ≤ s.indent := by
    intro s hs
    rw [hresult] at hs
    split_ifs at hs with hnil hindent
    cases hs
    exact ⟨rfl, hfirst.ne_nil hnil, by dsimp only; omega⟩
  refine ⟨⟨merged, integers, hmerged, hfirst, hresult⟩, fun f => ?_, fun s hs => ?_, fun s hs => ?_, fun s hs => ?_,
    fun s hs => ?_⟩
  · rw [hresult]
    split_ifs <;> nofun
  · obtain ⟨heq, hne, -⟩ := hok s hs
    rwa [heq]
  · rw [(hok s hs).1]
    exact hfirst.nodup
  · rw [(hok s hs).1]
    exact fun hmem => hmerged.integers.inherit_not_mem ((hfirst.mem_iff _).1 hmem)
  · obtain ⟨heq, hne, hindent⟩ := hok s hs
    exact options_of_ne_nil (heq ▸ hne) hindent

/-- **The nearest file decides, and loading prepares the options.**  Along any chain of files, as any decoder reports
them, the nearest file that defines a setting decides and the list of integer kinds is built up from the root.  What is
loaded gives a selector of the kinds it names, and the options where there is room for the indentation, unless it names
an unknown kind. -/
theorem settings_merge_along_chain (decode : SettingsDecoder) (read : FileReader Id) :
    (∀ dir files, ChainTo decode read dir files → Settles files (settingsFor decode read dir)) ∧
      ∀ path text f, read path = .ok text → decode text = some (f, []) →
        Settles [f] (settingsFrom decode read path) := by
  constructor
  · intro dir files hchain
    rw [hchain.settingsFor_eq]
    exact settles_ofChain files
  · intro path text f hread hf
    rw [settingsFrom_eq hread hf]
    exact settles_ofChain [f]

/-- A file in the root, and one in a directory below it. -/
def nestedRead : FileReader Id := fun path =>
  if path = "/wyec.conf" then .ok "[target]\nindent = 2\nintegers = ['uint8_t', 'int64_t']\n"
  else if path = "/lib/wyec.conf" then .ok "[target]\nintegers = ['int32_t', 'inherit', 'uint8_t']\n"
  else .error .missing

/-- What the two files say. -/
def nestedFiles : List SettingsFile :=
  [⟨⟨"", 2, ["uint8_t", "int64_t"], 0, false⟩, [("target", "indent"), ("target", "integers")]⟩,
    ⟨⟨"", 0, ["int32_t", "inherit", "uint8_t"], 0, false⟩, [("target", "integers")]⟩]

theorem chainTo_nestedRead : ChainTo .toml nestedRead ["lib"] nestedFiles := by
  have hroot : nestedRead (Text.pathText ([] ++ [settingsName])) =
      .ok "[target]\nindent = 2\nintegers = ['uint8_t', 'int64_t']\n" := rfl
  have hlib : nestedRead (Text.pathText (["lib"] ++ [settingsName])) =
      .ok "[target]\nintegers = ['int32_t', 'inherit', 'uint8_t']\n" := rfl
  refine .inside (.inRoot (.inr ⟨_, _, hroot, ?_, rfl⟩)) (.inr ⟨_, _, hlib, ?_, rfl⟩)
  · decide +kernel
  · decide +kernel

theorem settings_merge_along_chain_nested :
    ChainTo .toml nestedRead ["lib"] nestedFiles ∧ Settles nestedFiles (settingsFor .toml nestedRead ["lib"]) ∧
      settingsFor .toml nestedRead ["lib"] =
        .ok { Settings.default with indent := 2, integers := ["int32_t", "uint8_t", "int64_t"] } := by
  refine ⟨chainTo_nestedRead, (settings_merge_along_chain .toml nestedRead).1 _ _ chainTo_nestedRead, ?_⟩
  rw [chainTo_nestedRead.settingsFor_eq]
  rfl

/-- A file in the root that sets the largest indentation a number can say. -/
def wideRead : FileReader Id := fun path =>
  if path = "/wyec.conf" then .ok "[target]\nindent = 9223372036854775807\n" else .error .missing

/-- The settings that the file makes. -/
def wideSettings : Settings := { Settings.default with indent := 9223372036854775807 }

/-- Only the lower end of the indentation is checked, so settings are loaded whose selector can be made and whose options
cannot, unless there is room for a text of that length. -/
theorem wide_indentation_gives_no_options :
    settingsFor .toml wideRead [] = .ok wideSettings ∧ (∃ selector, wideSettings.selector = .ok selector) ∧
      ∀ room : Nat → Bool, ¬ room 9223372036854775807 → wideSettings.options room = .error (.fault .textLength) := by
  have hroot : wideRead (Text.pathText ([] ++ [settingsName])) =
      .ok "[target]\nindent = 9223372036854775807\n" := rfl
  have hchain : ChainTo .toml wideRead []
      [⟨⟨"", 9223372036854775807, [], 0, false⟩, [("target", "indent")]⟩] := by
    refine .inRoot (.inr ⟨_, _, hroot, ?_, rfl⟩)
    decide +kernel
  have hnamed : wideSettings.integers = Kind.all.map Kind.name := rfl
  obtain ⟨selector, hselects⟩ := exists_selectsFrom hnamed (List.cons_ne_nil _ _) (by decide)
  refine ⟨?_, ⟨selector, hselects.selector_eq⟩, hselects.no_room⟩
  rw [hchain.settingsFor_eq]
  rfl

end Command

end Narrowing
