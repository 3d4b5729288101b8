import SurfaceTree.Node
import SurfaceTree.Proofs.Codec.Nodes
import SurfaceTree.Proofs.Traversal.Deep

namespace SurfaceTree

open Element

/-- The references of either phase are read back from their elements. -/
theorem Phase.decode_toElement (p : Phase) (r : p.Ref) :
    Reference.decode (Reference.toElement r) = .ok r := by
  cases p with
  | parsed => exact Name.decode_toElement r
  | resolved => exact Symbol.decode_toElement r

namespace Expr

variable {R : Type} [Reference R]

/-- The element of an expression is that of its form with elements in place of its parts. -/
theorem encode_mk (form : Form (Expr R) R) :
    (mk form).encode = (form.map encode Reference.toElement).toElement := by
  rw [encode, fold_mk, Kind.map_eq_rewrite]
  exact congrArg Form.toElement (form.map_map ..)

variable {S : Type} [Reference S] {fault : DecodeError} {foreign : R → Bool} {h : R → S}

/-- Reading what was written for an expression rewrites its references, unless one is foreign. -/
theorem decode_encode_refs
    (reads : ∀ r : R, Reference.decode (Reference.toElement r) = verdict fault (foreign r) (h r))
    (e : Expr R) :
    decode Reference.decode e.encode = verdict fault (e.refs.any foreign) (e.mapRefs h) := by
  induction e using induction with
  | step form ih =>
    have slots : ∀ leaf ∈ form.leaves,
        leaf.ReadAs encode Reference.toElement (decode Reference.decode) Reference.decode fault
          (fun leaf => (leaf.elim refs fun r => [r]).any foreign) (mapRefs h) h := by
      intro leaf member
      cases leaf with
      | exp e => exact ih e member
      | ref r => simpa [Leaf.elim] using reads r
    have listed := Node.refs_eq .expr form
    have rewritten := Kind.expr.map_eq_rewrite (mapRefs h) h form
    rw [decode_eq, encode_mk, form.decode_written slots, map_verdict, refs_mk, listed,
      List.any_flatMap, mapRefs_mk]
    exact congrArg (fun form => verdict fault _ (mk form)) rewritten.symm

theorem decode_encode_of (readsBack : ∀ r : R, Reference.decode (Reference.toElement r) = .ok r)
    (e : Expr R) : decode Reference.decode e.encode = .ok e := by
  have reads (r : R) : Reference.decode (Reference.toElement r)
      = verdict (.childCount "" 0) false (id r) := readsBack r
  rw [e.decode_encode_refs reads, List.any_eq_false.mpr fun _ _ => Bool.false_ne_true, mapRefs_id]
  rfl

end Expr

theorem Node.decode_encode_refs {R S : Type} [Reference R] [Reference S] {fault : DecodeError}
    {foreign : R → Bool} {h : R → S}
    (reads : ∀ r : R, Reference.decode (Reference.toElement r) = verdict fault (foreign r) (h r))
    (k : Kind) (n : Node R k) :
    decode k (encode k n) = verdict fault ((refs k n).any foreign) (mapRefs h k n) := by
  have slots : ∀ leaf ∈ k.leaves n,
      leaf.ReadAs Expr.encode Reference.toElement (Expr.decode Reference.decode) Reference.decode
        fault (fun leaf => (leaf.elim Expr.refs fun r => [r]).any foreign) (Expr.mapRefs h) h := by
    intro leaf _
    cases leaf with
    | exp e => exact e.decode_encode_refs reads
    | ref r => simpa [Leaf.elim] using reads r
  rw [decode, encode, k.decode_written n slots, refs_eq, List.any_flatMap]
  rfl

/-- Reading what was written for a node gives back that very node: every variant, name, literal,
option, list, mapping, order and position in it, at every depth. -/
theorem Node.decode_encode (p : Phase) :
    (∀ (k : Kind) (n : Node p.Ref k), decode k (encode k n) = .ok n) ∧
      ∀ e : Expr p.Ref, Expr.decode Reference.decode e.encode = .ok e := by
  have expressions := Expr.decode_encode_of p.decode_toElement
  refine ⟨fun k n => k.decode_toElement n fun leaf _ => ?_, expressions⟩
  cases leaf with
  | exp e => exact expressions e
  | ref r => exact p.decode_toElement r

end SurfaceTree
