import SurfaceTree.Codec.Decode

namespace SurfaceTree

variable {α β V E R : Type}

/-- Readers that agree on all items read the same list. -/
theorem mapM_except_congr {ε : Type} {f g : α → Except ε β} {xs : List α}
    (agree : ∀ x ∈ xs, f x = g x) : xs.mapM f = xs.mapM g := by
  induction xs with
  | nil => rfl
  | cons x rest ih =>
    obtain ⟨first, others⟩ := List.forall_mem_cons.mp agree
    simp only [List.mapM_cons, first, ih others]

namespace Element

variable {x : Element} {name : String}

theorem depth_le_depthOfAll {y : Element} {children : List Element} (member : y ∈ children) :
    y.depth ≤ depthOfAll children := by
  induction children with
  | nil => cases member
  | cons first rest ih =>
    rw [depthOfAll]
    rcases List.mem_cons.mp member with rfl | later
    · exact Nat.le_max_left ..
    · exact Nat.le_trans (ih later) (Nat.le_max_right ..)

/-- A child lies less deep than the element it is in. -/
theorem depth_lt {y : Element} (member : y ∈ x.children) : y.depth < x.depth := by
  cases x
  rw [depth]
  exact Nat.lt_succ_of_le (depth_le_depthOfAll member)

theorem depth_pos (x : Element) : 0 < x.depth := by
  cases x
  rw [depth]
  exact Nat.succ_pos _

theorem child?_depth_lt {y : Element} (found : x.child? name = some y) : y.depth < x.depth :=
  depth_lt (List.mem_of_find?_eq_some found)

/-- A child that was found by its name lies less deep. -/
theorem child_depth_lt {y : Element} (found : x.child name = .ok y) : y.depth < x.depth := by
  unfold child at found
  split at found
  · next atName =>
    cases found
    exact child?_depth_lt atName
  · cases found

theorem onlyChild_depth_lt {y : Element} (found : x.onlyChild = .ok y) : y.depth < x.depth := by
  unfold onlyChild at found
  split at found
  · next alone =>
    cases found
    exact depth_lt (alone ▸ List.mem_singleton_self y)
  · cases found

/-- Readers that agree on everything found give the same reading. -/
theorem bind_congr_ok {ε : Type} {found : Except ε α} {f g : α → Except ε β}
    (agree : ∀ a, found = .ok a → f a = g a) : (found >>= f) = (found >>= g) := by
  cases found with
  | error e => rfl
  | ok a => exact agree a rfl

theorem child_congr {f g : Element → Except DecodeError β}
    (agree : ∀ y, y.depth < x.depth → f y = g y) : (x.child name >>= f) = (x.child name >>= g) :=
  bind_congr_ok fun y found => agree y (child_depth_lt found)

theorem onlyChild_congr {f g : Element → Except DecodeError β}
    (agree : ∀ y, y.depth < x.depth → f y = g y) : (x.onlyChild >>= f) = (x.onlyChild >>= g) :=
  bind_congr_ok fun y found => agree y (onlyChild_depth_lt found)

/-- A slot is read in the same way by readers that agree on all that lies less deep. -/
theorem slot_congr {f g : Element → Except DecodeError β}
    (agree : ∀ y, y.depth < x.depth → f y = g y) : (x.slot name >>= f) = (x.slot name >>= g) := by
  simp only [slot, bind_assoc]
  exact child_congr fun child below =>
    onlyChild_congr fun y deeper => agree y (Nat.lt_trans deeper below)

theorem slot?_congr {read read' : Element → Except DecodeError α}
    (agree : ∀ y, y.depth < x.depth → read y = read' y) :
    x.slot? name read = x.slot? name read' := by
  unfold slot?
  split
  · rfl
  · next child atName =>
    have below := child?_depth_lt atName
    exact onlyChild_congr fun y deeper => by rw [agree y (Nat.lt_trans deeper below)]

theorem slots_congr {read read' : Element → Except DecodeError α}
    (agree : ∀ y, y.depth < x.depth → read y = read' y) :
    x.slots name read = x.slots name read' :=
  child_congr fun _ below =>
    mapM_except_congr fun y member => agree y (Nat.lt_trans (depth_lt member) below)

/-- Entries are read in the same way by readers that agree on all that lies inside them. -/
theorem readEntries_congr {read read' : Element → Except DecodeError V} {entries : List Element}
    (agree : ∀ entry ∈ entries, ∀ y, y.depth < entry.depth → read y = read' y) (m : NameMap V) :
    readEntries read m entries = readEntries read' m entries := by
  induction entries generalizing m with
  | nil => rfl
  | cons entry rest ih =>
    obtain ⟨first, others⟩ := List.forall_mem_cons.mp agree
    simp only [readEntries]
    refine bind_congr fun _ => bind_congr fun key => onlyChild_congr fun y below => ?_
    rw [first y below]
    refine bind_congr fun value => ?_
    split
    · exact ih others _
    · rfl

/-- A mapping is read in the same way by readers that agree on all that lies less deep. -/
theorem mapping_congr {read read' : Element → Except DecodeError V}
    (agree : ∀ y, y.depth < x.depth → read y = read' y) :
    x.mapping name read = x.mapping name read' :=
  child_congr fun _ below => readEntries_congr (fun _ member y deeper =>
    agree y (Nat.lt_trans deeper (Nat.lt_trans (depth_lt member) below))) .empty

end Element

open Element

variable {expr expr' : Element → Except DecodeError E} {ref : Element → Except DecodeError R}
  {x : Element}

namespace Pattern

/-- A variant of a pattern is read in the same way by readers that agree on all that lies less
deep. -/
theorem decodeVariant_congr {pattern pattern' : Element → Except DecodeError (Pattern E R)}
    (agree : ∀ y, y.depth < x.depth → pattern y = pattern' y)
    (agreeExpr : ∀ y, y.depth < x.depth → expr y = expr' y) :
    decodeVariant pattern expr ref x = decodeVariant pattern' expr' ref x := by
  unfold decodeVariant
  split
  · exact bind_congr fun pos => by rw [slots_congr agree]
  · exact bind_congr fun pos => bind_congr fun y => bind_congr fun head =>
      slot_congr fun y below => by rw [agree y below]
  · exact bind_congr fun pos => by rw [mapping_congr agree]
  · refine bind_congr fun pos => slot_congr fun y below => ?_
    rw [agree y below]
    exact bind_congr fun p => slot_congr fun y below => by rw [agreeExpr y below]
  · exact bind_congr fun pos => bind_congr fun name => slot_congr fun y below => by
      rw [agree y below]
  all_goals rfl

theorem decodeWithin_stable {bound bound' : Nat} (enough : x.depth ≤ bound)
    (enough' : x.depth ≤ bound') :
    decodeWithin expr ref bound x = decodeWithin expr ref bound' x := by
  have positive := x.depth_pos
  induction bound generalizing bound' x with
  | zero => omega
  | succ bound ih =>
    cases bound' with
    | zero => omega
    | succ bound' =>
      exact decodeVariant_congr
        (fun y below => ih (by omega) (by omega) y.depth_pos) fun _ _ => rfl

/-- Reading a pattern reads the patterns inside it in the same way. -/
theorem decode_eq : decode expr ref x = decodeVariant (decode expr ref) expr ref x := by
  obtain ⟨bound, atDepth⟩ := Nat.exists_eq_add_one.mpr x.depth_pos
  rw [decode, atDepth]
  exact decodeVariant_congr (fun y below => decodeWithin_stable (by omega) (Nat.le_refl _))
    fun _ _ => rfl

/-- A pattern is read in the same way by readers that agree on all that lies less deep. -/
theorem decode_congr {x : Element} (agree : ∀ y, y.depth < x.depth → expr y = expr' y) :
    decode expr ref x = decode expr' ref x := by
  rw [decode_eq, decode_eq]
  exact decodeVariant_congr
    (fun y below => decode_congr fun z deeper => agree z (Nat.lt_trans deeper below)) agree
termination_by x.depth

end Pattern

namespace Entry

theorem decode_congr (agree : ∀ y, y.depth < x.depth → expr y = expr' y) :
    decode expr ref x = decode expr' ref x :=
  bind_congr fun _ => bind_congr fun pos => bind_congr fun implicit => slot_congr fun y below => by
    rw [Pattern.decode_congr fun z deeper => agree z (Nat.lt_trans deeper below)]

end Entry

namespace Field

theorem decode_congr (agree : ∀ y, y.depth < x.depth → expr y = expr' y) :
    decode expr ref x = decode expr' ref x := by
  refine bind_congr fun _ => bind_congr fun pos => child_congr fun y below => ?_
  rw [Entry.decode_congr fun z deeper => agree z (Nat.lt_trans deeper below)]
  exact bind_congr fun entry => by rw [slot?_congr agree]

end Field

namespace Fields

/-- A field list is read in the same way by readers that agree on all that lies less deep. -/
theorem decode_congr (agree : ∀ y, y.depth < x.depth → expr y = expr' y) :
    decode expr ref x = decode expr' ref x := by
  refine bind_congr fun _ => ?_
  rw [mapping_congr fun y below =>
    Field.decode_congr fun z deeper => agree z (Nat.lt_trans deeper below)]

end Fields

namespace Case

theorem decode_congr (agree : ∀ y, y.depth < x.depth → expr y = expr' y) :
    decode expr ref x = decode expr' ref x := by
  refine bind_congr fun _ => bind_congr fun pos => slot_congr fun y below => ?_
  rw [Pattern.decode_congr fun z deeper => agree z (Nat.lt_trans deeper below)]
  exact bind_congr fun pattern => slot_congr fun z deeper => by rw [agree z deeper]

end Case

namespace Definition

theorem decode_congr (agree : ∀ y, y.depth < x.depth → expr y = expr' y) :
    decode expr ref x = decode expr' ref x := by
  refine bind_congr fun _ => bind_congr fun pos => slot_congr fun y below => ?_
  rw [Pattern.decode_congr fun z deeper => agree z (Nat.lt_trans deeper below)]
  exact bind_congr fun pattern => by rw [slot?_congr agree]

end Definition

namespace Import

theorem decode_congr (agree : ∀ y, y.depth < x.depth → expr y = expr' y) :
    decode expr x = decode expr' x :=
  bind_congr fun _ => bind_congr fun pos => bind_congr fun visibility => slot_congr fun y below => by
    rw [agree y below]

end Import

namespace Proof

theorem decode_congr (agree : ∀ y, y.depth < x.depth → expr y = expr' y) :
    decode expr ref x = decode expr' ref x :=
  bind_congr fun _ => bind_congr fun pos => bind_congr fun y => bind_congr fun fact =>
    slot_congr fun y below => by rw [agree y below]

end Proof

namespace Truth

theorem decode_congr (agree : ∀ y, y.depth < x.depth → expr y = expr' y) :
    decode expr x = decode expr' x := by
  refine bind_congr fun _ => bind_congr fun pos => bind_congr fun kind =>
    bind_congr fun visibility => slot_congr fun y below => ?_
  rw [agree y below]
  exact bind_congr fun prop => by rw [slot?_congr agree]

end Truth

namespace Builder

theorem decode_congr (agree : ∀ y, y.depth < x.depth → expr y = expr' y) :
    decode expr ref x = decode expr' ref x := by
  refine bind_congr fun _ => bind_congr fun pos => bind_congr fun kind =>
    bind_congr fun visibility => slot_congr fun y below => ?_
  rw [Fields.decode_congr fun z deeper => agree z (Nat.lt_trans deeper below)]
  refine bind_congr fun params => ?_
  rw [slots_congr agree]
  exact bind_congr fun supers => slot_congr fun z deeper => by rw [agree z deeper]

end Builder

namespace Precedence

theorem decode_congr (agree : ∀ y, y.depth < x.depth → expr y = expr' y) :
    decode expr x = decode expr' x :=
  bind_congr fun _ => bind_congr fun relation => slot_congr fun y below => by rw [agree y below]

end Precedence

namespace Operator

theorem decode_congr (agree : ∀ y, y.depth < x.depth → expr y = expr' y) :
    decode expr x = decode expr' x := by
  refine bind_congr fun _ => bind_congr fun pos => bind_congr fun fixity => ?_
  rw [slots_congr fun y below =>
    Precedence.decode_congr fun z deeper => agree z (Nat.lt_trans deeper below)]

end Operator

namespace Item

theorem decode_congr (agree : ∀ y, y.depth < x.depth → expr y = expr' y) :
    decode expr ref x = decode expr' ref x := by
  unfold decode
  split
  · exact onlyChild_congr fun y below => by rw [agree y below]
  · exact onlyChild_congr fun y below => by
      rw [Definition.decode_congr fun z deeper => agree z (Nat.lt_trans deeper below)]
  · rfl

end Item

namespace Scope

/-- The definitions of one visibility are read in the same way by readers that agree on all that
lies less deep. -/
theorem decodeBucket_congr (agree : ∀ y, y.depth < x.depth → expr y = expr' y) :
    decodeBucket expr ref x = decodeBucket expr' ref x := by
  unfold decodeBucket
  split
  · rw [mapM_except_congr fun y member => Definition.decode_congr fun z deeper =>
      agree z (Nat.lt_trans deeper (depth_lt member))]
  · rfl

theorem decode_congr (agree : ∀ y, y.depth < x.depth → expr y = expr' y) :
    decode expr ref x = decode expr' ref x := by
  have below {y z : Element} (deeper : z.depth < y.depth) (inside : y.depth < x.depth) :
      expr z = expr' z := agree z (Nat.lt_trans deeper inside)
  refine bind_congr fun _ => ?_
  rw [slots_congr fun y inside => decodeBucket_congr fun z deeper => below deeper inside]
  refine bind_congr fun buckets => bind_congr fun pos => bind_congr fun id => ?_
  rw [mapping_congr fun y inside => Builder.decode_congr fun z deeper => below deeper inside]
  refine bind_congr fun builders => ?_
  rw [mapping_congr fun y inside => Operator.decode_congr fun z deeper => below deeper inside]
  refine bind_congr fun operators => ?_
  rw [mapping_congr fun y inside => Truth.decode_congr fun z deeper => below deeper inside]
  refine bind_congr fun truths => bind_congr fun definitions => ?_
  rw [slots_congr fun y inside => Proof.decode_congr fun z deeper => below deeper inside]
  refine bind_congr fun proofs => ?_
  rw [slots_congr fun y inside => Import.decode_congr fun z deeper => below deeper inside]

end Scope

namespace Form

/-- An expression is read in the same way by readers that agree on all that lies less deep. -/
theorem decode_congr (agree : ∀ y, y.depth < x.depth → expr y = expr' y) :
    decode expr ref x = decode expr' ref x := by
  have below {y z : Element} (deeper : z.depth < y.depth) (inside : y.depth < x.depth) :
      expr z = expr' z := agree z (Nat.lt_trans deeper inside)
  unfold decode
  split
  · exact bind_congr fun pos => by
      rw [slots_congr fun y inside => Item.decode_congr fun z deeper => below deeper inside]
  · exact bind_congr fun pos => bind_congr fun kind => by
      rw [slots_congr fun y inside => Case.decode_congr fun z deeper => below deeper inside]
  · refine bind_congr fun pos => slot_congr fun y inside => ?_
    rw [agree y inside]
    exact bind_congr fun scrutinee => by
      rw [slots_congr fun y inside => Case.decode_congr fun z deeper => below deeper inside]
  · refine bind_congr fun pos => slot_congr fun y inside => ?_
    rw [agree y inside]
    exact bind_congr fun value => slot_congr fun z inside => by rw [agree z inside]
  · exact bind_congr fun pos => by rw [slots_congr agree]
  · exact bind_congr fun pos => by rw [mapping_congr agree]
  · exact bind_congr fun pos => child_congr fun y inside => by
      rw [Fields.decode_congr fun z deeper => below deeper inside]
  · exact bind_congr fun pos => by rw [slots_congr agree]
  · exact bind_congr fun pos => slot_congr fun y inside => by rw [agree y inside]
  · rfl
  · refine bind_congr fun pos => slot_congr fun y inside => ?_
    rw [agree y inside]
    exact bind_congr fun function => slot_congr fun z inside => by rw [agree z inside]
  · refine bind_congr fun pos => slot_congr fun y inside => ?_
    rw [agree y inside]
    exact bind_congr fun value => slot_congr fun z inside => by rw [agree z inside]
  · refine bind_congr fun pos => bind_congr fun kind => ?_
    rw [slots_congr agree]
    refine bind_congr fun supers => slot_congr fun y inside => ?_
    rw [Fields.decode_congr fun z deeper => below deeper inside]
    exact bind_congr fun params => slot_congr fun y inside => by
      rw [Scope.decode_congr fun z deeper => below deeper inside]
  all_goals rfl

end Form

namespace Expr

theorem decodeWithin_stable {bound bound' : Nat} (enough : x.depth ≤ bound)
    (enough' : x.depth ≤ bound') : decodeWithin ref bound x = decodeWithin ref bound' x := by
  have positive := x.depth_pos
  induction bound generalizing bound' x with
  | zero => omega
  | succ bound ih =>
    cases bound' with
    | zero => omega
    | succ bound' =>
      exact congrArg (mk <$> ·)
        (Form.decode_congr fun y below => ih (by omega) (by omega) y.depth_pos)

/-- Reading an expression reads the expressions inside it in the same way. -/
theorem decode_eq : decode ref x = mk <$> Form.decode (decode ref) ref x := by
  obtain ⟨bound, atDepth⟩ := Nat.exists_eq_add_one.mpr x.depth_pos
  rw [decode, atDepth]
  exact congrArg (mk <$> ·)
    (Form.decode_congr fun y below => decodeWithin_stable (by omega) (Nat.le_refl _))

end Expr

end SurfaceTree
