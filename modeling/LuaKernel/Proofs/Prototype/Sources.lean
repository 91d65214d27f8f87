import LuaKernel.Prototype

/-!
# Nesting and sources of a prototype tree

* `Prototype.induction`: a property that passes from the functions inside a function to the function
  holds of every tree.
* `Prototype.nodes`, `Prototype.nesting`: the functions of a tree, and how many levels lie below its root.
* `Prototype.resolve`: gives each function without a source that of the nearest enclosing one that has
  one, and changes nothing else. `SourceClosed` trees, where no function without a source is inside one
  with a source, are the ones it leaves alone (`resolve_eq_self`).
-/

namespace LuaKernel.Prototype

/-- Induction on trees, with the hypothesis for every function directly inside. -/
@[elab_as_elim, induction_eliminator]
theorem induction {motive : Prototype → Prop}
    (mk : ∀ f children, (∀ c ∈ children, motive c) → motive (.mk f children)) (p : Prototype) :
    motive p := by
  obtain ⟨f, children⟩ := p
  refine mk f children fun c hc => ?_
  have hlt : sizeOf c < sizeOf children := List.sizeOf_lt_of_mem hc
  exact induction mk c
termination_by sizeOf p
decreasing_by
  rw [Prototype.mk.sizeOf_spec]
  omega

/-! ## The functions of a tree -/

mutual

/-- The functions of a tree, each with those inside it, an enclosing one before them. -/
def nodes : Prototype → List Prototype
  | .mk f children => .mk f children :: nodesAll children

def nodesAll : List Prototype → List Prototype
  | [] => []
  | p :: ps => nodes p ++ nodesAll ps

end

theorem nodesAll_eq (ps : List Prototype) : nodesAll ps = ps.flatMap nodes := by
  induction ps with
  | nil => rfl
  | cons p ps ih => rw [nodesAll, ih, List.flatMap_cons]

theorem mem_nodes_mk {f : FunctionBody} {children : List Prototype} {q : Prototype} :
    q ∈ (mk f children).nodes ↔ q = .mk f children ∨ ∃ c ∈ children, q ∈ c.nodes := by
  rw [nodes, nodesAll_eq, List.mem_cons, List.mem_flatMap]

/-! ## Nesting -/

mutual

/-- How many levels of functions lie below the root of a tree. -/
def nesting : Prototype → Nat
  | .mk _ children => nestingAll children

def nestingAll : List Prototype → Nat
  | [] => 0
  | p :: ps => max (nesting p + 1) (nestingAll ps)

end

theorem nesting_mk_le {f : FunctionBody} {children : List Prototype} {n : Nat} :
    (mk f children).nesting ≤ n ↔ ∀ c ∈ children, c.nesting < n := by
  rw [nesting]
  induction children with
  | nil => simp [nestingAll]
  | cons p ps ih =>
    rw [nestingAll, Nat.max_le, ih, List.forall_mem_cons]
    exact Iff.rfl

/-! ## Sources -/

mutual

/-- The tree with the sources that its functions inherit, the outermost from `enclosing`. -/
def resolve (enclosing : Option Bytes) : Prototype → Prototype
  | .mk f children =>
    .mk { f with source := f.source.or enclosing } (resolveAll (f.source.or enclosing) children)

def resolveAll (enclosing : Option Bytes) : List Prototype → List Prototype
  | [] => []
  | p :: ps => resolve enclosing p :: resolveAll enclosing ps

end

theorem resolveAll_eq (enclosing : Option Bytes) (ps : List Prototype) :
    resolveAll enclosing ps = ps.map (resolve enclosing) := by
  induction ps with
  | nil => rfl
  | cons p ps ih => rw [resolveAll, ih, List.map_cons]

theorem resolve_mk (enclosing : Option Bytes) (f : FunctionBody) (children : List Prototype) :
    (mk f children).resolve enclosing =
      .mk { f with source := f.source.or enclosing }
        (children.map (resolve (f.source.or enclosing))) := by
  rw [resolve, resolveAll_eq]

/-- No function without a source is directly inside one that has a source. -/
def SourceClosed (p : Prototype) : Prop :=
  ∀ q ∈ p.nodes, ∀ c ∈ q.children, c.body.source = none → q.body.source = none

theorem sourceClosed_mk {f : FunctionBody} {children : List Prototype} :
    (mk f children).SourceClosed ↔
      ∀ c ∈ children, (c.body.source = none → f.source = none) ∧ c.SourceClosed := by
  constructor
  · intro h c hc
    exact ⟨h _ (mem_nodes_mk.2 (.inl rfl)) c hc,
      fun q hq => h q (mem_nodes_mk.2 (.inr ⟨c, hc, hq⟩))⟩
  · intro h q hq
    rcases mem_nodes_mk.1 hq with rfl | ⟨c, hc, hq⟩
    · exact fun c hc => (h c hc).1
    · exact (h c hc).2 q hq

/-- **A closed tree inherits nothing.** -/
theorem resolve_eq_self {p : Prototype} {enclosing : Option Bytes} (h : p.SourceClosed)
    (henclosing : p.body.source = none → enclosing = none) : p.resolve enclosing = p := by
  induction p generalizing enclosing with
  | mk f children ih =>
    have hsource : f.source.or enclosing = f.source := by
      cases hf : f.source with
      | none => rw [henclosing hf]; rfl
      | some s => rfl
    have hchildren : children.map (resolve f.source) = children := by
      conv => rhs; rw [← List.map_id children]
      exact List.map_congr_left fun c hc =>
        ih c hc (sourceClosed_mk.1 h c hc).2 (sourceClosed_mk.1 h c hc).1
    rw [resolve_mk, hsource, hchildren]

end LuaKernel.Prototype
