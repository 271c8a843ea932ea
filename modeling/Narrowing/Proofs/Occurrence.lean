import Narrowing.Tree.Visit

/-!
# What occurs in a statement tree

`Subtree.parts` lists what a statement or an expression is made of, without looking further.  A subtree occurs in
another if a chain of parts leads to it (`Subtree.Occurs`).  Visiting a tree comes to every subtree that occurs in it,
holes apart, and to nothing else (`mem_stmtsSubtrees_iff`).
-/

namespace Narrowing

namespace Subtree

/-- The statements and expressions right below a statement or an expression. -/
def parts : Subtree → List Subtree
  | expr (.const _) => []
  | expr (.var _) => []
  | expr (.unary _ x) => [expr x]
  | expr (.binary _ x y) => [expr x, expr y]
  | expr (.convert _ x) => [expr x]
  | expr (.deref x) => [expr x]
  | expr (.field x _) => [expr x]
  | expr (.length x) => [expr x]
  | expr (.index x i) => [expr x, expr i]
  | expr (.array elems) => elems.map expr
  | expr (.fill value size) => [expr value, expr size]
  | expr (.record fields) => fields.map fun field => expr field.2
  | expr (.invoke _ args) => args.map expr
  | expr (.indirect fn args) => expr fn :: args.map expr
  | expr (.new x) => [expr x]
  | expr (.lambda _ body) => [expr body]
  | expr (.quantifier _ _ low high body) => [expr low, expr high, expr body]
  | expr (.is x _) => [expr x]
  | expr .hole => []
  | stmt (.block body) => body.map stmt
  | stmt (.decl _ init) => [expr init]
  | stmt (.declAlias _) => []
  | stmt (.assign lhs rhs) => lhs.map expr ++ rhs.map expr
  | stmt (.assert cond) => [expr cond]
  | stmt (.assume cond) => [expr cond]
  | stmt .break => []
  | stmt .continue => []
  | stmt (.debug x) => [expr x]
  | stmt (.doWhile body cond) => body.map stmt ++ [expr cond]
  | stmt .fail => []
  | stmt (.ifThen cond yes) => expr cond :: yes.map stmt
  | stmt (.ifElse cond yes no) => expr cond :: (yes.map stmt ++ no.map stmt)
  | stmt (.call x) => [expr x]
  | stmt (.named _ body) => body.map stmt
  | stmt (.while cond body) => expr cond :: body.map stmt
  | stmt (.ret results) => results.map expr
  | stmt .skip => []
  | stmt (.switch tag clauses) => expr tag :: clauses.flatMap fun clause => clause.2.map stmt
  | stmt .hole => []

/-- The first subtree is the second one or occurs in one of its parts. -/
inductive Occurs (m : Subtree) : Subtree → Prop
  | self : Occurs m m
  | part {n p : Subtree} (hp : p ∈ n.parts) (hm : Occurs m p) : Occurs m n

/-- Nothing stands where a statement or an expression might. -/
def IsHole (n : Subtree) : Prop := n = stmt .hole ∨ n = expr .hole

/-- Everything that a visit comes to. -/
def visited : Subtree → List Subtree
  | stmt s => s.subtrees fun _ => true
  | expr e => e.subtrees fun _ => true

theorem before_eq (n : Subtree) (ns : List Subtree) : n.before (fun _ => true) ns = n :: ns := rfl

theorem visited_of_isHole {n : Subtree} (h : n.IsHole) : n.visited = [] := by
  rcases h with rfl | rfl
  · rw [visited, Stmt.subtrees]
  · rw [visited, Expr.subtrees]

end Subtree

theorem exprsSubtrees_eq (es : List Expr) :
    exprsSubtrees (fun _ => true) es = (es.map Subtree.expr).flatMap Subtree.visited := by
  induction es with
  | nil => rw [exprsSubtrees]; rfl
  | cons e es ih => rw [exprsSubtrees, ih]; rfl

theorem fieldsSubtrees_eq (fs : List (String × Expr)) :
    fieldsSubtrees (fun _ => true) fs = (fs.map fun field => Subtree.expr field.2).flatMap Subtree.visited := by
  induction fs with
  | nil => rw [fieldsSubtrees]; rfl
  | cons f fs ih =>
    obtain ⟨name, e⟩ := f
    rw [fieldsSubtrees, ih]
    rfl

theorem stmtsSubtrees_eq (ss : List Stmt) :
    stmtsSubtrees (fun _ => true) ss = (ss.map Subtree.stmt).flatMap Subtree.visited := by
  induction ss with
  | nil => rw [stmtsSubtrees]; rfl
  | cons s ss ih => rw [stmtsSubtrees, ih]; rfl

theorem clausesSubtrees_eq (cs : List (List Constant × List Stmt)) :
    clausesSubtrees (fun _ => true) cs =
      (cs.flatMap fun clause => clause.2.map Subtree.stmt).flatMap Subtree.visited := by
  induction cs with
  | nil => rw [clausesSubtrees]; rfl
  | cons c cs ih =>
    obtain ⟨values, body⟩ := c
    rw [clausesSubtrees, stmtsSubtrees_eq, ih, List.flatMap_cons, List.flatMap_append]

namespace Subtree

/-- A visit comes to a subtree and goes on to all of its parts. -/
theorem visited_eq {n : Subtree} (h : ¬ n.IsHole) : n.visited = n :: n.parts.flatMap visited := by
  cases n with
  | expr e =>
    cases e with
    | hole => exact absurd (.inr rfl) h
    | _ =>
      rw [visited, Expr.subtrees]
      simp [before_eq, parts, visited, exprsSubtrees_eq, fieldsSubtrees_eq]
  | stmt s =>
    cases s with
    | hole => exact absurd (.inl rfl) h
    | _ =>
      rw [visited, Stmt.subtrees]
      simp [before_eq, parts, visited, exprsSubtrees_eq, stmtsSubtrees_eq, clausesSubtrees_eq]

theorem parts_of_isHole {n : Subtree} (h : n.IsHole) : n.parts = [] := by
  rcases h with rfl | rfl <;> rfl

theorem length_visited_lt {n p : Subtree} (hn : ¬ n.IsHole) (hp : p ∈ n.parts) :
    p.visited.length < n.visited.length := by
  have hsub : p.visited.Sublist (n.parts.flatMap visited) := by
    rw [List.flatMap_def]
    exact List.sublist_flatten_of_mem (List.mem_map_of_mem hp)
  have hle := hsub.length_le
  rw [visited_eq hn, List.length_cons]
  omega

/-- A visit comes to what occurs in a subtree, holes apart. -/
theorem mem_visited_iff {m n : Subtree} : m ∈ n.visited ↔ Occurs m n ∧ ¬ m.IsHole := by
  -- the induction is on the length of the visit: a part takes less of it than the whole
  induction hlen : n.visited.length using Nat.strongRecOn generalizing n with
  | _ len ih =>
    by_cases hn : n.IsHole
    · rw [visited_of_isHole hn]
      refine ⟨fun h => absurd h List.not_mem_nil, ?_⟩
      rintro ⟨hm | ⟨hp, -⟩, hhole⟩
      · exact absurd hn hhole
      · rw [parts_of_isHole hn] at hp
        exact absurd hp List.not_mem_nil
    · have ihpart : ∀ p ∈ n.parts, (m ∈ p.visited ↔ Occurs m p ∧ ¬ m.IsHole) := fun p hp =>
        ih _ (hlen ▸ length_visited_lt hn hp) rfl
      rw [visited_eq hn, List.mem_cons, List.mem_flatMap]
      constructor
      · rintro (rfl | ⟨p, hp, hm⟩)
        · exact ⟨.self, hn⟩
        · obtain ⟨hocc, hhole⟩ := (ihpart p hp).1 hm
          exact ⟨.part hp hocc, hhole⟩
      · rintro ⟨hm | ⟨hp, hm⟩, hhole⟩
        · exact .inl rfl
        · exact .inr ⟨_, hp, (ihpart _ hp).2 ⟨hm, hhole⟩⟩

end Subtree

/-- A visit of some statements comes to what occurs in one of them, holes apart. -/
theorem mem_stmtsSubtrees_iff {m : Subtree} {body : List Stmt} :
    m ∈ stmtsSubtrees (fun _ => true) body ↔ ∃ s ∈ body, m.Occurs (.stmt s) ∧ ¬ m.IsHole := by
  rw [stmtsSubtrees_eq, List.mem_flatMap]
  constructor
  · rintro ⟨n, hn, hm⟩
    obtain ⟨s, hs, rfl⟩ := List.mem_map.1 hn
    exact ⟨s, hs, Subtree.mem_visited_iff.1 hm⟩
  · rintro ⟨s, hs, hm⟩
    exact ⟨.stmt s, List.mem_map_of_mem hs, Subtree.mem_visited_iff.2 hm⟩

end Narrowing
