import Vetting.Proofs.Expression.Renaming

/-!
# Trees with other names

One tree translates into another in two scopes when they differ in names only, and each name means in
the first scope what its translation means in the second. A lambda may bind another name than its
translation, as long as this is so within their bodies whatever value the two parameters get. Renaming
the parameter of a lambda translates a tree, in every scope.
-/

namespace Vetting.Evaluation

open Node (name? rename renameIn renameParameter renameParameterIn renamed respelling captures
  capturesIn subtrees subtreesIn freeNames freeNamesIn)

variable {σ : Type} {context : Context σ} {s t : Scope}

/-! ## Names -/

theorem lookup?_cons (context : Context σ) (x : Text) (v : Value) (s : Scope) (y : Text) :
    lookup? context ((x, v) :: s) y = if y = x then some v else lookup? context s y := by
  unfold lookup?
  rw [List.lookup_cons]
  by_cases h : y = x
  · subst h
    simp
  · rw [beq_false_of_ne h, if_neg h]

theorem lookup?_cons_self (context : Context σ) (x : Text) (v : Value) (s : Scope) :
    lookup? context ((x, v) :: s) x = some v := by rw [lookup?_cons, if_pos rfl]

theorem lookup?_cons_of_ne {x y : Text} (h : y ≠ x) (v : Value) :
    lookup? context ((x, v) :: s) y = lookup? context s y := by rw [lookup?_cons, if_neg h]

theorem mem_freeNames_lambda {p : Nat} {x y : Text} {body : Node} :
    y ∈ (Node.lambda p x body).freeNames ↔ y ∈ body.freeNames ∧ y ≠ x := by
  rw [freeNames, List.mem_filter, decide_eq_true_iff]

section Binding
variable {old new x : Text} {p : Nat} {body : Node}

theorem lookup?_under_lambda
    (h : ∀ y ∈ (Node.lambda p x body).freeNames, lookup? context s y = lookup? context t y) (v : Value) :
    ∀ y ∈ body.freeNames, lookup? context ((x, v) :: s) y = lookup? context ((x, v) :: t) y := by
  intro y hy
  rw [lookup?_cons, lookup?_cons]
  split
  · rfl
  · rename_i hne
    exact h y (mem_freeNames_lambda.mpr ⟨hy, hne⟩)

/-- A lambda that does not capture the new name leaves it what the old name means. -/
theorem lookup?_renamed_under_lambda (hx : x ≠ old) (hc : x = new → old ∉ body.freeNames)
    (h : ∀ y ∈ (Node.lambda p x body).freeNames,
      lookup? context s y = lookup? context t (renamed old new y)) (v : Value) :
    ∀ y ∈ body.freeNames,
      lookup? context ((x, v) :: s) y = lookup? context ((x, v) :: t) (renamed old new y) := by
  intro y hy
  by_cases hold : y = old
  · subst hold
    have hne : y ≠ x := fun hne => hx hne.symm
    have hnew : new ≠ x := fun hnew => hc hnew.symm hy
    rw [lookup?_cons_of_ne hne, h y (mem_freeNames_lambda.mpr ⟨hy, hne⟩), Node.renamed_old,
      lookup?_cons_of_ne hnew]
  · rw [Node.renamed_of_ne hold, lookup?_cons, lookup?_cons]
    split
    · rfl
    · rename_i hne
      rw [h y (mem_freeNames_lambda.mpr ⟨hy, hne⟩), Node.renamed_of_ne hold]

/-- In the body of the lambda that gets the new name, it means what the old name did. -/
theorem lookup?_renamed_parameter (hfree : new ∉ body.freeNames)
    (h : ∀ y ∈ (Node.lambda p x body).freeNames, lookup? context s y = lookup? context t y) (v : Value) :
    ∀ y ∈ body.freeNames,
      lookup? context ((x, v) :: s) y = lookup? context ((new, v) :: t) (renamed x new y) := by
  intro y hy
  by_cases hx : y = x
  · subst hx
    rw [Node.renamed_old, lookup?_cons_self, lookup?_cons_self]
  · have hnew : y ≠ new := fun hnew => hfree (hnew ▸ hy)
    rw [Node.renamed_of_ne hx, lookup?_cons_of_ne hx, lookup?_cons_of_ne hnew,
      h y (mem_freeNames_lambda.mpr ⟨hy, hx⟩)]

end Binding

/-- Whether a name is spelled as another one, which means the same in another scope. -/
structure Means (context : Context σ) (f : Text → Text) (x y : Text) (s t : Scope) : Prop where
  spelled : f x = y
  same : lookup? context s x = lookup? context t y

/-! ## Trees -/

mutual

/-- Trees that differ in names only, which mean the same in two scopes. -/
inductive Translates (context : Context σ) (f : Nat → Text → Text) :
    Node → Node → Scope → Scope → Prop
  | literal {p : Nat} {v : Value} {s t : Scope} : Translates context f (.literal p v) (.literal p v) s t
  | identifier {p : Nat} {x y : Text} {s t : Scope} (h : Means context (f p) x y s t) :
      Translates context f (.identifier p x) (.identifier p y) s t
  | array {p : Nat} {nodes nodes' : List Node} {s t : Scope}
      (h : TranslatesAll context f nodes nodes' s t) :
      Translates context f (.array p nodes) (.array p nodes') s t
  | spread {p : Nat} {x y : Text} {s t : Scope} (h : Means context (f p) x y s t) :
      Translates context f (.spread p x) (.spread p y) s t
  | lambda {p : Nat} {x y : Text} {body body' : Node} {s t : Scope} (hf : f p x = y)
      (h : ∀ v, Translates context f body body' ((x, v) :: s) ((y, v) :: t)) :
      Translates context f (.lambda p x body) (.lambda p y body') s t
  | call {p : Nat} {x y : Text} {nodes nodes' : List Node} {s t : Scope}
      (h : Means context (f p) x y s t) (hn : TranslatesAll context f nodes nodes' s t) :
      Translates context f (.call p x nodes) (.call p y nodes') s t
  | unary {p : Nat} {operator : Text} {operand operand' : Node} {s t : Scope}
      (h : Translates context f operand operand' s t) :
      Translates context f (.unary p operator operand) (.unary p operator operand') s t
  | binary {p : Nat} {operator : Text} {left left' right right' : Node} {s t : Scope}
      (hl : Translates context f left left' s t) (hr : Translates context f right right' s t) :
      Translates context f (.binary p operator left right) (.binary p operator left' right') s t
  | logical {p : Nat} {operator : Text} {left left' right right' : Node} {s t : Scope}
      (hl : Translates context f left left' s t) (hr : Translates context f right right' s t) :
      Translates context f (.logical p operator left right) (.logical p operator left' right') s t
  | bare {p : Nat} {s t : Scope} : Translates context f (.bare p) (.bare p) s t

inductive TranslatesAll (context : Context σ) (f : Nat → Text → Text) :
    List Node → List Node → Scope → Scope → Prop
  | nil {s t : Scope} : TranslatesAll context f [] [] s t
  | cons {node node' : Node} {rest rest' : List Node} {s t : Scope}
      (h : Translates context f node node' s t) (hr : TranslatesAll context f rest rest' s t) :
      TranslatesAll context f (node :: rest) (node' :: rest') s t

end

/-! ## Renaming -/

section Renaming
variable {old new : Text} {tree : Node}

mutual

/-- A tree translates into itself where its free names mean the same. -/
theorem translates_self (hspaced : tree.Spaced) (node : Node) (hn : node.subtrees ⊆ tree.subtrees)
    {s t : Scope} (h : ∀ x ∈ node.freeNames, lookup? context s x = lookup? context t x) :
    Translates context (respelling old new tree) node node s t := by
  have hself : ∀ x, node.name? = some x → respelling old new tree node.position x = x := fun x hx =>
    Node.respelling_eq_self hspaced (hn node.mem_subtrees_self) hx
  match node with
  | .literal .. => exact .literal
  | .bare _ => exact .bare
  | .identifier p x => exact .identifier ⟨hself x rfl, h x List.mem_cons_self⟩
  | .spread p x => exact .spread ⟨hself x rfl, h x List.mem_cons_self⟩
  | .array p nodes => exact .array (translatesAll_self hspaced nodes (List.cons_subset.mp hn).2 h)
  | .call p x nodes =>
    obtain ⟨hx, hnodes⟩ := List.forall_mem_cons.mp h
    exact .call ⟨hself x rfl, hx⟩ (translatesAll_self hspaced nodes (List.cons_subset.mp hn).2 hnodes)
  | .lambda p x body =>
    refine .lambda (hself x rfl) fun v => ?_
    exact translates_self hspaced body (List.cons_subset.mp hn).2 (lookup?_under_lambda h v)
  | .unary p operator operand =>
    exact .unary (translates_self hspaced operand (List.cons_subset.mp hn).2 h)
  | .binary p operator left right | .logical p operator left right =>
    obtain ⟨hl, hr⟩ := List.append_subset.mp (List.cons_subset.mp hn).2
    obtain ⟨hleft, hright⟩ := List.forall_mem_append.mp h
    constructor
    · exact translates_self hspaced left hl hleft
    · exact translates_self hspaced right hr hright

theorem translatesAll_self (hspaced : tree.Spaced) (nodes : List Node)
    (hn : subtreesIn nodes ⊆ tree.subtrees) {s t : Scope}
    (h : ∀ x ∈ freeNamesIn nodes, lookup? context s x = lookup? context t x) :
    TranslatesAll context (respelling old new tree) nodes nodes s t := by
  match nodes with
  | [] => exact .nil
  | node :: rest =>
    obtain ⟨hnode, hrest⟩ := List.append_subset.mp hn
    obtain ⟨hfree, hothers⟩ := List.forall_mem_append.mp h
    exact .cons (translates_self hspaced node hnode hfree)
      (translatesAll_self hspaced rest hrest hothers)

end

mutual

/-- A tree translates into the one with a new name for an old one where the new name means what the old
one does, unless it is captured. -/
theorem translates_rename (hspaced : tree.Spaced) (node : Node)
    (hn : (node.rename old new).subtrees ⊆ tree.subtrees)
    (hc : node.captures old new = false) {s t : Scope}
    (h : ∀ x ∈ node.freeNames, lookup? context s x = lookup? context t (renamed old new x)) :
    Translates context (respelling old new tree) node (node.rename old new) s t := by
  have hself : ∀ x, (node.rename old new).name? = some (renamed old new x) →
      respelling old new tree (node.rename old new).position x = renamed old new x := fun x hx =>
    Node.respelling_eq_renamed hspaced (hn (Node.mem_subtrees_self _)) hx
  match node with
  | .literal .. => exact .literal
  | .bare _ => exact .bare
  | .identifier p x => exact .identifier ⟨hself x rfl, h x List.mem_cons_self⟩
  | .spread p x => exact .spread ⟨hself x rfl, h x List.mem_cons_self⟩
  | .array p nodes => exact .array (translatesAll_rename hspaced nodes (List.cons_subset.mp hn).2 hc h)
  | .call p x nodes =>
    obtain ⟨hx, hnodes⟩ := List.forall_mem_cons.mp h
    exact .call ⟨hself x rfl, hx⟩
      (translatesAll_rename hspaced nodes (List.cons_subset.mp hn).2 hc hnodes)
  | .lambda p x body =>
    obtain ⟨hnode, hbody⟩ := List.cons_subset.mp hn
    refine .lambda (Node.respelling_eq_self hspaced hnode rfl) fun v => ?_
    by_cases hx : x = old
    · -- the lambda binds the old name itself, so nothing in its body changes
      subst hx
      rw [if_pos rfl] at hbody ⊢
      have hsame : ∀ y ∈ (Node.lambda p x body).freeNames,
          lookup? context s y = lookup? context t y := by
        intro y hy
        rw [h y hy, Node.renamed_of_ne (mem_freeNames_lambda.mp hy).2]
      exact translates_self hspaced body hbody (lookup?_under_lambda hsame v)
    · rw [if_neg hx] at hbody ⊢
      obtain ⟨hcaught, hcaptures⟩ : (x = new → old ∉ body.freeNames) ∧
          body.captures old new = false := by simpa [captures, hx] using hc
      exact translates_rename hspaced body hbody hcaptures
        (lookup?_renamed_under_lambda hx hcaught h v)
  | .unary p operator operand =>
    exact .unary (translates_rename hspaced operand (List.cons_subset.mp hn).2 hc h)
  | .binary p operator left right | .logical p operator left right =>
    obtain ⟨hl, hr⟩ := List.append_subset.mp (List.cons_subset.mp hn).2
    obtain ⟨hleft, hright⟩ := List.forall_mem_append.mp h
    obtain ⟨hcl, hcr⟩ := Bool.or_eq_false_iff.mp hc
    constructor
    · exact translates_rename hspaced left hl hcl hleft
    · exact translates_rename hspaced right hr hcr hright

theorem translatesAll_rename (hspaced : tree.Spaced) (nodes : List Node)
    (hn : subtreesIn (renameIn old new nodes) ⊆ tree.subtrees)
    (hc : capturesIn old new nodes = false) {s t : Scope}
    (h : ∀ x ∈ freeNamesIn nodes, lookup? context s x = lookup? context t (renamed old new x)) :
    TranslatesAll context (respelling old new tree) nodes (renameIn old new nodes) s t := by
  match nodes with
  | [] => exact .nil
  | node :: rest =>
    obtain ⟨hnode, hrest⟩ := List.append_subset.mp hn
    obtain ⟨hfree, hothers⟩ := List.forall_mem_append.mp h
    obtain ⟨hcn, hcr⟩ := Bool.or_eq_false_iff.mp hc
    exact .cons (translates_rename hspaced node hnode hcn hfree)
      (translatesAll_rename hspaced rest hrest hcr hothers)

end

mutual

/-- A tree translates into the one where a lambda has another parameter, where its free names mean the
same: the new name may not be free in the body of the lambda, nor be captured there. -/
theorem translates_renameParameter (hspaced : tree.Spaced) {place : Nat} (node : Node)
    (hn : (node.renameParameter place new).subtrees ⊆ tree.subtrees)
    (hp : ∀ x body, .lambda place x body ∈ node.subtrees →
      x = old ∧ new ∉ body.freeNames ∧ body.captures old new = false)
    {s t : Scope} (h : ∀ x ∈ node.freeNames, lookup? context s x = lookup? context t x) :
    Translates context (respelling old new tree) node (node.renameParameter place new) s t := by
  have hself : ∀ x, (node.renameParameter place new).name? = some x →
      respelling old new tree (node.renameParameter place new).position x = x := fun x hx =>
    Node.respelling_eq_self hspaced (hn (Node.mem_subtrees_self _)) hx
  match node with
  | .literal .. => exact .literal
  | .bare _ => exact .bare
  | .identifier p x => exact .identifier ⟨hself x rfl, h x List.mem_cons_self⟩
  | .spread p x => exact .spread ⟨hself x rfl, h x List.mem_cons_self⟩
  | .array p nodes =>
    refine .array (translatesAll_renameParameter hspaced nodes (List.cons_subset.mp hn).2 ?_ h)
    exact fun x body hmem => hp x body (List.mem_cons_of_mem _ hmem)
  | .call p x nodes =>
    obtain ⟨hx, hnodes⟩ := List.forall_mem_cons.mp h
    refine .call ⟨hself x rfl, hx⟩
      (translatesAll_renameParameter hspaced nodes (List.cons_subset.mp hn).2 ?_ hnodes)
    exact fun x body hmem => hp x body (List.mem_cons_of_mem _ hmem)
  | .lambda p x body =>
    rw [renameParameter] at hn hself ⊢
    by_cases hplace : p = place
    · subst hplace
      rw [if_pos rfl] at hn hself ⊢
      obtain ⟨rfl, hfree, hcaptures⟩ := hp x body List.mem_cons_self
      obtain ⟨hnode, hbody⟩ := List.cons_subset.mp hn
      refine .lambda (Node.respelling_eq_new hnode rfl) fun v => ?_
      exact translates_rename hspaced body hbody hcaptures (lookup?_renamed_parameter hfree h v)
    · rw [if_neg hplace] at hn hself ⊢
      refine .lambda (hself x rfl) fun v => ?_
      exact translates_renameParameter hspaced body (List.cons_subset.mp hn).2
        (fun y inner hmem => hp y inner (List.mem_cons_of_mem _ hmem)) (lookup?_under_lambda h v)
  | .unary p operator operand =>
    refine .unary (translates_renameParameter hspaced operand (List.cons_subset.mp hn).2 ?_ h)
    exact fun x body hmem => hp x body (List.mem_cons_of_mem _ hmem)
  | .binary p operator left right | .logical p operator left right =>
    obtain ⟨hl, hr⟩ := List.append_subset.mp (List.cons_subset.mp hn).2
    obtain ⟨hleft, hright⟩ := List.forall_mem_append.mp h
    constructor
    · exact translates_renameParameter hspaced left hl (fun x body hmem =>
        hp x body (List.mem_cons_of_mem _ (List.mem_append_left _ hmem))) hleft
    · exact translates_renameParameter hspaced right hr (fun x body hmem =>
        hp x body (List.mem_cons_of_mem _ (List.mem_append_right _ hmem))) hright

theorem translatesAll_renameParameter (hspaced : tree.Spaced) {place : Nat} (nodes : List Node)
    (hn : subtreesIn (renameParameterIn place new nodes) ⊆ tree.subtrees)
    (hp : ∀ x body, .lambda place x body ∈ subtreesIn nodes →
      x = old ∧ new ∉ body.freeNames ∧ body.captures old new = false)
    {s t : Scope} (h : ∀ x ∈ freeNamesIn nodes, lookup? context s x = lookup? context t x) :
    TranslatesAll context (respelling old new tree) nodes (renameParameterIn place new nodes) s t := by
  match nodes with
  | [] => exact .nil
  | node :: rest =>
    obtain ⟨hnode, hrest⟩ := List.append_subset.mp hn
    obtain ⟨hfree, hothers⟩ := List.forall_mem_append.mp h
    refine .cons (translates_renameParameter hspaced node hnode ?_ hfree)
      (translatesAll_renameParameter hspaced rest hrest ?_ hothers)
    · exact fun x body hmem => hp x body (List.mem_append_left _ hmem)
    · exact fun x body hmem => hp x body (List.mem_append_right _ hmem)

end

/-- A tree translates into the one where the parameter of a lambda has another name, in every scope. -/
theorem translates_of_mem_subtrees (hspaced : tree.Spaced) {place : Nat} {body : Node}
    (hlambda : .lambda place old body ∈ tree.subtrees) (hfree : new ∉ body.freeNames)
    (hcaptures : body.captures old new = false) (context : Context σ) (s : Scope) :
    Translates context (respelling old new (tree.renameParameter place new)) tree
      (tree.renameParameter place new) s s := by
  refine translates_renameParameter (hspaced.renameParameter place new) tree (List.Subset.refl _) ?_
    fun _ _ => rfl
  intro x inner hmem
  cases hspaced.eq_of_position_eq hmem hlambda rfl
  exact ⟨rfl, hfree, hcaptures⟩

end Renaming

end Vetting.Evaluation
