import Structura.Proofs.Unplaced

/-!
What the text of an expression says. The text of a unary operator has no parentheses around it, so in front
of a chain of accesses and calls it applies to the whole chain, also where it was built for the start of the
chain only. The text says the expression itself exactly when no chain starts with a unary operator.
-/

namespace Structura

namespace Expr

def isUnary : Expr → Bool
  | .unary _ _ _ => true
  | _ => false

/-- Puts the part of a chain on the innermost operand of the unary operators in front. -/
def extend (part : Expr → Expr) : Expr → Expr
  | .unary span op operand => .unary span op (operand.extend part)
  | e => part e

theorem extend_of_not_isUnary {part : Expr → Expr} {e : Expr} (h : e.isUnary = false) :
    e.extend part = part e := by
  cases e with
  | unary => cases h
  | _ => rfl

end Expr

mutual

/-- What the text of an expression says, without places. -/
def Expr.rebound : Expr → Expr
  | .ident _ name => .ident default name
  | .null _ => .null default
  | .literal _ value => .literal default value
  | .object _ properties => .object default (Property.reboundAll properties)
  | .member _ object name => object.rebound.extend (.member default · name.unplaced)
  | .computed _ object index => object.rebound.extend (.computed default · index.rebound)
  | .ascription _ subject type => .ascription default subject.rebound type.unplaced
  | .function _ params body => .function default (Signature.unplacedAll params) body.rebound
  | .call _ callee args => callee.rebound.extend (.call default · (Expr.reboundAll args))
  | .binary _ op left right => .binary default op left.rebound right.rebound
  | .logical _ op left right => .logical default op left.rebound right.rebound
  | .unary _ op operand => .unary default op operand.rebound

def Expr.reboundAll : List Expr → List Expr
  | [] => []
  | e :: es => e.rebound :: Expr.reboundAll es

def Property.rebound : Property → Property
  | .field name value => .field name.unplaced value.rebound
  | .spread value => .spread value.rebound

def Property.reboundAll : List Property → List Property
  | [] => []
  | p :: ps => p.rebound :: Property.reboundAll ps

end

namespace SourceNode

def IsTight : SourceNode → Prop
  | .expr (.member _ object _) => object.isUnary = false
  | .expr (.computed _ object _) => object.isUnary = false
  | .expr (.call _ callee _) => callee.isUnary = false
  | _ => True

def IsTyping : SourceNode → Prop
  | .type _ | .name _ => True
  | _ => False

variable {root node : SourceNode}

theorem isTyping_of_mem_nodes {ps : List Signature} (h : node ∈ ps.flatMap Signature.nodes) : node.IsTyping := by
  obtain ⟨p, -, hp⟩ := List.mem_flatMap.mp h
  cases p with
  | bare n =>
      obtain rfl := List.mem_singleton.mp hp
      trivial
  | typed n t =>
      rcases List.mem_cons.mp hp with rfl | hp
      · trivial
      · obtain rfl := List.mem_singleton.mp hp
        trivial

theorem isTyping_of_mem_children (hroot : root.IsTyping) (h : node ∈ root.children) : node.IsTyping := by
  cases root with
  | expr | statement => cases hroot
  | name => cases h
  | type t =>
      cases t with
      | prim | unknown | never | literal => cases h
      | object span members => exact isTyping_of_mem_nodes h
      | function span params result =>
          rcases List.mem_append.mp h with h | h
          · exact isTyping_of_mem_nodes h
          · obtain rfl := List.mem_singleton.mp h
            trivial
      | union span members | inter span members =>
          obtain ⟨t, -, rfl⟩ := List.mem_map.mp h
          trivial

theorem throughout_of_isTyping {P : SourceNode → Prop} (hroot : root.IsTyping)
    (h : ∀ node, node.IsTyping → P node) : root.Throughout P := by
  intro node hnode
  apply h
  induction hnode with
  | self => exact hroot
  | child _ hbelow ih => exact isTyping_of_mem_children ih hbelow

theorem IsTyping.isTight (h : node.IsTyping) : node.IsTight := by
  cases node with
  | expr => cases h
  | type | name | statement => trivial

theorem IsTyping.throughout_isTight (h : root.IsTyping) : root.Throughout IsTight :=
  throughout_of_isTyping h fun _ => IsTyping.isTight

end SourceNode

namespace Expr

open SourceNode

theorem isUnary_unplaced (e : Expr) : e.unplaced.isUnary = e.isUnary := by
  cases e <;> rfl

theorem extend_eq_iff {part : Expr → Expr} {e e' : Expr} (h : e'.isUnary = false) :
    e.extend part = e' ↔ e.isUnary = false ∧ part e = e' := by
  cases he : e.isUnary with
  | false => simp [extend_of_not_isUnary he]
  | true =>
      cases e with
      | unary =>
          simp only [reduceCtorEq, false_and, iff_false]
          rintro rfl
          cases h
      | _ => cases he

/-- A part of a chain is read where it was built when it does not follow an operator. -/
theorem extend_rebound_eq_iff {part : Expr → Expr} {object e : Expr} {others : Prop}
    (hobject : object.rebound = object.unplaced ↔ (SourceNode.expr object).Throughout IsTight)
    (he : e.isUnary = false) (hpart : part object.rebound = e ↔ object.rebound = object.unplaced ∧ others) :
    object.rebound.extend part = e ↔
      object.isUnary = false ∧ (SourceNode.expr object).Throughout IsTight ∧ others := by
  rw [extend_eq_iff he, hpart, ← hobject]
  constructor
  · rintro ⟨hunary, heq, hrest⟩
    rw [heq, isUnary_unplaced] at hunary
    exact ⟨hunary, heq, hrest⟩
  · rintro ⟨hunary, heq, hrest⟩
    rw [heq, isUnary_unplaced]
    exact ⟨hunary, rfl, hrest⟩

end Expr

open SourceNode

theorem tight_name (n : Name) : (SourceNode.name n).Throughout IsTight := IsTyping.throughout_isTight trivial

theorem tight_type (t : TypeExpr) : (SourceNode.type t).Throughout IsTight := IsTyping.throughout_isTight trivial

mutual

theorem Expr.rebound_eq_unplaced_iff :
    (e : Expr) → (e.rebound = e.unplaced ↔ (SourceNode.expr e).Throughout IsTight)
  | .ident _ _ | .null _ | .literal _ _ => by
      rw [throughout_iff]
      simp [Expr.rebound, Expr.unplaced, IsTight, children, tight_name]
  | .object _ ps => by
      rw [throughout_iff, children, ← Property.reboundAll_eq_unplacedAll_iff ps]
      simp [Expr.rebound, Expr.unplaced, IsTight]
  | .member _ object n => by
      have hpart : Expr.member default object.rebound n.unplaced = .member default object.unplaced n.unplaced ↔
          object.rebound = object.unplaced ∧ True := by simp
      rw [throughout_iff, Expr.rebound, Expr.unplaced,
        Expr.extend_rebound_eq_iff object.rebound_eq_unplaced_iff rfl hpart]
      simp [IsTight, children, tight_name]
  | .computed _ object index => by
      have hpart : Expr.computed default object.rebound index.rebound =
          .computed default object.unplaced index.unplaced ↔
            object.rebound = object.unplaced ∧ index.rebound = index.unplaced := by simp
      rw [throughout_iff, Expr.rebound, Expr.unplaced,
        Expr.extend_rebound_eq_iff object.rebound_eq_unplaced_iff rfl hpart, index.rebound_eq_unplaced_iff]
      simp [IsTight, children]
  | .ascription _ subject t => by
      rw [throughout_iff]
      simp [Expr.rebound, Expr.unplaced, IsTight, children, tight_type, subject.rebound_eq_unplaced_iff]
  | .function _ params body => by
      have hparams : ∀ node ∈ params.flatMap Signature.nodes, node.Throughout IsTight :=
        fun node hnode => (isTyping_of_mem_nodes hnode).throughout_isTight
      rw [throughout_iff, children, List.forall_mem_append, List.forall_mem_singleton, ← body.rebound_eq_unplaced_iff]
      simp only [Expr.rebound, Expr.unplaced, IsTight, Expr.function.injEq, true_and, iff_and_self]
      exact fun _ => hparams
  | .call _ callee args => by
      have hpart : Expr.call default callee.rebound (Expr.reboundAll args) =
          .call default callee.unplaced (Expr.unplacedAll args) ↔
            callee.rebound = callee.unplaced ∧ Expr.reboundAll args = Expr.unplacedAll args := by simp
      rw [throughout_iff, Expr.rebound, Expr.unplaced,
        Expr.extend_rebound_eq_iff callee.rebound_eq_unplaced_iff rfl hpart, Expr.reboundAll_eq_unplacedAll_iff args]
      simp [IsTight, children]
  | .binary _ _ left right | .logical _ _ left right => by
      rw [throughout_iff]
      simp [Expr.rebound, Expr.unplaced, IsTight, children, left.rebound_eq_unplaced_iff,
        right.rebound_eq_unplaced_iff]
  | .unary _ _ operand => by
      rw [throughout_iff]
      simp [Expr.rebound, Expr.unplaced, IsTight, children, operand.rebound_eq_unplaced_iff]

theorem Expr.reboundAll_eq_unplacedAll_iff : (es : List Expr) →
    (Expr.reboundAll es = Expr.unplacedAll es ↔ ∀ e ∈ es, (SourceNode.expr e).Throughout IsTight)
  | [] => by simp [Expr.reboundAll, Expr.unplacedAll]
  | e :: es => by
      simp [Expr.reboundAll, Expr.unplacedAll, e.rebound_eq_unplaced_iff, Expr.reboundAll_eq_unplacedAll_iff es]

theorem Property.rebound_eq_unplaced_iff :
    (p : Property) → (p.rebound = p.unplaced ↔ ∀ node ∈ p.nodes, node.Throughout IsTight)
  | .field _ value => by
      simp [Property.rebound, Property.unplaced, Property.nodes, tight_name, value.rebound_eq_unplaced_iff]
  | .spread value => by
      simp [Property.rebound, Property.unplaced, Property.nodes, value.rebound_eq_unplaced_iff]

theorem Property.reboundAll_eq_unplacedAll_iff : (ps : List Property) →
    (Property.reboundAll ps = Property.unplacedAll ps ↔
      ∀ node ∈ ps.flatMap Property.nodes, node.Throughout IsTight)
  | [] => by simp [Property.reboundAll, Property.unplacedAll]
  | p :: ps => by
      rw [List.flatMap_cons, List.forall_mem_append, ← p.rebound_eq_unplaced_iff,
        ← Property.reboundAll_eq_unplacedAll_iff ps]
      simp [Property.reboundAll, Property.unplacedAll]

end

end Structura
