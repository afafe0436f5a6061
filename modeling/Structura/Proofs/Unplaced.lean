import Structura.Proofs.NodePlaces

namespace Structura

def Name.unplaced (name : Name) : Name := ⟨name.text, default⟩

mutual

def TypeExpr.unplaced : TypeExpr → TypeExpr
  | .prim _ primitive => .prim default primitive
  | .unknown _ => .unknown default
  | .never _ => .never default
  | .literal _ value => .literal default value
  | .object _ members => .object default (Signature.unplacedAll members)
  | .function _ params result => .function default (Signature.unplacedAll params) result.unplaced
  | .union _ members => .union default (TypeExpr.unplacedAll members)
  | .inter _ members => .inter default (TypeExpr.unplacedAll members)

def TypeExpr.unplacedAll : List TypeExpr → List TypeExpr
  | [] => []
  | t :: ts => t.unplaced :: TypeExpr.unplacedAll ts

def Signature.unplaced : Signature → Signature
  | .bare name => .bare name.unplaced
  | .typed name type => .typed name.unplaced type.unplaced

def Signature.unplacedAll : List Signature → List Signature
  | [] => []
  | s :: ss => s.unplaced :: Signature.unplacedAll ss

end

mutual

def Expr.unplaced : Expr → Expr
  | .ident _ name => .ident default name
  | .null _ => .null default
  | .literal _ value => .literal default value
  | .object _ properties => .object default (Property.unplacedAll properties)
  | .member _ object name => .member default object.unplaced name.unplaced
  | .computed _ object index => .computed default object.unplaced index.unplaced
  | .ascription _ subject type => .ascription default subject.unplaced type.unplaced
  | .function _ params body => .function default (Signature.unplacedAll params) body.unplaced
  | .call _ callee args => .call default callee.unplaced (Expr.unplacedAll args)
  | .binary _ op left right => .binary default op left.unplaced right.unplaced
  | .logical _ op left right => .logical default op left.unplaced right.unplaced
  | .unary _ op operand => .unary default op operand.unplaced

def Expr.unplacedAll : List Expr → List Expr
  | [] => []
  | e :: es => e.unplaced :: Expr.unplacedAll es

def Property.unplaced : Property → Property
  | .field name value => .field name.unplaced value.unplaced
  | .spread value => .spread value.unplaced

def Property.unplacedAll : List Property → List Property
  | [] => []
  | p :: ps => p.unplaced :: Property.unplacedAll ps

end

def Statement.unplaced : Statement → Statement
  | .declare _ name type => .declare default name.unplaced type.unplaced
  | .bind _ name type value => .bind default name.unplaced (type.map TypeExpr.unplaced) value.unplaced
  | .eval _ value => .eval default value.unplaced

theorem TypeExpr.unplacedAll_eq_map (ts : List TypeExpr) : unplacedAll ts = ts.map unplaced := by
  induction ts with
  | nil => rfl
  | cons t ts ih => rw [unplacedAll, ih, List.map_cons]

theorem Signature.unplacedAll_eq_map (ss : List Signature) : unplacedAll ss = ss.map unplaced := by
  induction ss with
  | nil => rfl
  | cons s ss ih => rw [unplacedAll, ih, List.map_cons]

theorem Expr.unplacedAll_eq_map (es : List Expr) : unplacedAll es = es.map unplaced := by
  induction es with
  | nil => rfl
  | cons e es ih => rw [unplacedAll, ih, List.map_cons]

theorem Property.unplacedAll_eq_map (ps : List Property) : unplacedAll ps = ps.map unplaced := by
  induction ps with
  | nil => rfl
  | cons p ps ih => rw [unplacedAll, ih, List.map_cons]

namespace SourceNode

def unplaced : SourceNode → SourceNode
  | .expr e => .expr e.unplaced
  | .type t => .type t.unplaced
  | .name n => .name n.unplaced
  | .statement s => .statement s.unplaced

theorem flatMap_nodes_unplaced {α : Type} {f : α → List SourceNode} {g : α → α}
    (h : ∀ a, f (g a) = (f a).map unplaced) (as : List α) :
    (as.map g).flatMap f = (as.flatMap f).map unplaced := by
  simp only [List.flatMap_map, List.map_flatMap, h]

theorem nodes_unplaced_signature (s : Signature) : s.unplaced.nodes = s.nodes.map unplaced := by
  cases s <;> rfl

theorem nodes_unplaced_property (p : Property) : p.unplaced.nodes = p.nodes.map unplaced := by
  cases p <;> rfl

theorem children_unplaced (node : SourceNode) : node.unplaced.children = node.children.map unplaced := by
  cases node with
  | expr e =>
      cases e with
      | object span ps =>
          change (Property.unplacedAll ps).flatMap _ = _
          rw [Property.unplacedAll_eq_map, flatMap_nodes_unplaced nodes_unplaced_property]
          rfl
      | function span ps body =>
          change (Signature.unplacedAll ps).flatMap _ ++ _ = _
          rw [Signature.unplacedAll_eq_map, flatMap_nodes_unplaced nodes_unplaced_signature, children,
            List.map_append]
          rfl
      | call span callee args =>
          change _ :: (Expr.unplacedAll args).map _ = _
          rw [Expr.unplacedAll_eq_map, children, List.map_cons, List.map_map, List.map_map]
          rfl
      | _ => rfl
  | type t =>
      cases t with
      | object span ps =>
          change (Signature.unplacedAll ps).flatMap _ = _
          rw [Signature.unplacedAll_eq_map, flatMap_nodes_unplaced nodes_unplaced_signature]
          rfl
      | function span ps result =>
          change (Signature.unplacedAll ps).flatMap _ ++ _ = _
          rw [Signature.unplacedAll_eq_map, flatMap_nodes_unplaced nodes_unplaced_signature, children,
            List.map_append]
          rfl
      | union span members | inter span members =>
          change (TypeExpr.unplacedAll members).map _ = _
          rw [TypeExpr.unplacedAll_eq_map, children, List.map_map, List.map_map]
          rfl
      | _ => rfl
  | name n => rfl
  | statement s =>
      cases s with
      | bind span n type e => cases type <;> rfl
      | _ => rfl

variable {root root' node : SourceNode}

theorem Contains.unplaced (h : root.Contains node) : root.unplaced.Contains node.unplaced := by
  induction h with
  | self => exact .self
  | child _ hbelow ih =>
      apply ih.child
      rw [children_unplaced]
      exact List.mem_map_of_mem hbelow

theorem Contains.of_unplaced (h : root.unplaced.Contains node) :
    ∃ node', root.Contains node' ∧ node'.unplaced = node := by
  induction h with
  | self => exact ⟨root, .self, rfl⟩
  | child _ hbelow ih =>
      obtain ⟨node', hnode', rfl⟩ := ih
      rw [children_unplaced] at hbelow
      obtain ⟨below, hmem, rfl⟩ := List.mem_map.mp hbelow
      exact ⟨below, hnode'.child hmem, rfl⟩

/-- A property of nodes that does not depend on places holds throughout both of two trees or of neither. -/
theorem Throughout.of_unplaced_eq {P : SourceNode → Prop} (hP : ∀ node, P node.unplaced ↔ P node)
    (heq : root.unplaced = root'.unplaced) (h : root.Throughout P) : root'.Throughout P := by
  intro node hnode
  have hcontains := hnode.unplaced
  rw [← heq] at hcontains
  obtain ⟨node', hnode', hsame⟩ := hcontains.of_unplaced
  rw [← hP, ← hsame, hP]
  exact h node' hnode'

end SourceNode

end Structura
