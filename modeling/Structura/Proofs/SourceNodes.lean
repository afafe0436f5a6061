import Structura.Statement

namespace Structura

inductive SourceNode where
  | expr (e : Expr)
  | type (t : TypeExpr)
  | name (n : Name)
  | statement (s : Statement)

def Signature.nodes : Signature → List SourceNode
  | .bare name => [.name name]
  | .typed name type => [.name name, .type type]

def Property.nodes : Property → List SourceNode
  | .field name value => [.name name, .expr value]
  | .spread value => [.expr value]

namespace SourceNode

def span : SourceNode → Span
  | .expr e => e.span
  | .type t => t.span
  | .name n => n.span
  | .statement s => s.span

/-- The nodes directly below a node, from left to right. An identifier has its name below it. -/
def children : SourceNode → List SourceNode
  | .expr (.ident place text) => [.name ⟨text, place⟩]
  | .expr (.null _) | .expr (.literal _ _) => []
  | .expr (.object _ properties) => properties.flatMap Property.nodes
  | .expr (.member _ object n) => [.expr object, .name n]
  | .expr (.computed _ object index) => [.expr object, .expr index]
  | .expr (.ascription _ subject t) => [.expr subject, .type t]
  | .expr (.function _ params body) => params.flatMap Signature.nodes ++ [.expr body]
  | .expr (.call _ callee args) => .expr callee :: args.map .expr
  | .expr (.binary _ _ left right) | .expr (.logical _ _ left right) => [.expr left, .expr right]
  | .expr (.unary _ _ operand) => [.expr operand]
  | .type (.prim _ _) | .type (.unknown _) | .type (.never _) | .type (.literal _ _) => []
  | .type (.object _ members) => members.flatMap Signature.nodes
  | .type (.function _ params result) => params.flatMap Signature.nodes ++ [.type result]
  | .type (.union _ members) | .type (.inter _ members) => members.map .type
  | .name _ => []
  | .statement (.declare _ n t) => [.name n, .type t]
  | .statement (.bind _ n none e) => [.name n, .expr e]
  | .statement (.bind _ n (some t) e) => [.name n, .type t, .expr e]
  | .statement (.eval _ e) => [.expr e]

inductive Contains (root : SourceNode) : SourceNode → Prop
  | self : Contains root root
  | child {node below : SourceNode} : Contains root node → below ∈ node.children → Contains root below

theorem Contains.trans {root node below : SourceNode} (h : root.Contains node)
    (h' : node.Contains below) : root.Contains below := by
  induction h' with
  | self => exact h
  | child _ hbelow ih => exact ih.child hbelow

def Throughout (P : SourceNode → Prop) (root : SourceNode) : Prop := ∀ node, root.Contains node → P node

theorem throughout_iff {P : SourceNode → Prop} {root : SourceNode} :
    root.Throughout P ↔ P root ∧ ∀ child ∈ root.children, child.Throughout P := by
  constructor
  · intro h
    exact ⟨h root .self, fun child hchild node hnode => h node ((Contains.self.child hchild).trans hnode)⟩
  · rintro ⟨hroot, hchildren⟩ node hnode
    have hcases : node = root ∨ ∃ child ∈ root.children, child.Contains node := by
      induction hnode with
      | self => exact .inl rfl
      | child _ hbelow ih =>
          rcases ih with rfl | ⟨child, hchild, hcontains⟩
          · exact .inr ⟨_, hbelow, .self⟩
          · exact .inr ⟨child, hchild, hcontains.child hbelow⟩
    rcases hcases with rfl | ⟨child, hchild, hcontains⟩
    · exact hroot
    · exact hchildren child hchild node hcontains

end SourceNode

def Property.value : Property → Expr
  | .field _ value => value
  | .spread value => value

theorem Signature.type_mem_nodes {ss : List Signature} {n : Name} {t : TypeExpr} (h : .typed n t ∈ ss) :
    .type t ∈ ss.flatMap nodes :=
  List.mem_flatMap.mpr ⟨_, h, List.mem_cons_of_mem _ (List.mem_singleton_self _)⟩

theorem Signature.name_mem_nodes {ss : List Signature} {s : Signature} (h : s ∈ ss) :
    .name s.name ∈ ss.flatMap nodes := by
  refine List.mem_flatMap.mpr ⟨s, h, ?_⟩
  cases s with
  | bare | typed => exact List.mem_cons_self

theorem Property.name_mem_nodes {ps : List Property} {n : Name} {value : Expr} (h : .field n value ∈ ps) :
    .name n ∈ ps.flatMap nodes :=
  List.mem_flatMap.mpr ⟨_, h, List.mem_cons_self⟩

theorem Property.value_mem_nodes {ps : List Property} {p : Property} (h : p ∈ ps) :
    .expr p.value ∈ ps.flatMap nodes := by
  refine List.mem_flatMap.mpr ⟨p, h, ?_⟩
  cases p with
  | field => exact List.mem_cons_of_mem _ (List.mem_singleton_self _)
  | spread => exact List.mem_singleton_self _

end Structura
