import SurfaceTree.Proofs.Codec.RoundTrip

namespace SurfaceTree

open Element

/-- A name is not taken for a symbol. -/
theorem Symbol.decode_name (n : Name) :
    decode n.toElement = .error (.unknownElement "symbol" "name") := by
  simp [decode, Name.toElement, checkName]

/-- A symbol is not taken for a name. -/
theorem Name.decode_symbol (s : Symbol) :
    decode s.toElement = .error (.unknownElement "name" "symbol") := by
  simp [decode, Symbol.toElement, checkName]

section Foreign

variable {R S : Type} [Reference R] [Reference S] {fault : DecodeError}
  (foreign : ∀ r : R, (Reference.decode (Reference.toElement r) : Except DecodeError S) = .error fault)
  (f : R → S)

include foreign

/-- An expression is read at the other phase if and only if it holds no reference. -/
theorem Expr.decode_foreign (e : Expr R) :
    decode Reference.decode e.encode
      = if e.refs.isEmpty then .ok (e.mapRefs f) else .error fault := by
  have reads (r : R) : Reference.decode (Reference.toElement r) = verdict fault true (f r) :=
    foreign r
  rw [e.decode_encode_refs reads]
  cases e.refs <;> rfl

/-- Where no reference can be read, nothing can be read but what has no references. -/
theorem Node.decode_foreign (k : Kind) (n : Node R k) :
    decode k (encode k n) = if (refs k n).isEmpty then .ok (mapRefs f k n) else .error fault := by
  have reads (r : R) : Reference.decode (Reference.toElement r) = verdict fault true (f r) :=
    foreign r
  rw [decode_encode_refs reads]
  cases refs k n <;> rfl

end Foreign

/-- A node of one phase can be read at the other phase exactly if it has no reference at any depth,
and then nothing in it changes. Otherwise it is reported that a reference is of the wrong phase, and
no other fault is met before that. -/
theorem Node.decode_otherPhase :
    (∀ (k : Kind) (n : Node Name k) (f : Name → Symbol),
      decode k (encode k n) = if (refs k n).isEmpty then .ok (mapRefs f k n)
        else .error (.unknownElement "symbol" "name")) ∧
    (∀ (k : Kind) (n : Node Symbol k) (f : Symbol → Name),
      decode k (encode k n) = if (refs k n).isEmpty then .ok (mapRefs f k n)
        else .error (.unknownElement "name" "symbol")) ∧
    (∀ (e : Expr Name) (f : Name → Symbol),
      Expr.decode Symbol.decode e.encode = if e.refs.isEmpty then .ok (e.mapRefs f)
        else .error (.unknownElement "symbol" "name")) ∧
    ∀ (e : Expr Symbol) (f : Symbol → Name),
      Expr.decode Name.decode e.encode = if e.refs.isEmpty then .ok (e.mapRefs f)
        else .error (.unknownElement "name" "symbol") :=
  ⟨fun k n f => decode_foreign Symbol.decode_name f k n,
    fun k n f => decode_foreign Name.decode_symbol f k n,
    fun e f => e.decode_foreign Symbol.decode_name f,
    fun e f => e.decode_foreign Name.decode_symbol f⟩

end SurfaceTree
